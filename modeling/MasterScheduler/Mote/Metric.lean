import Mathlib.Tactic.Linarith
import Mathlib.Tactic.NormNum
import Mathlib.Tactic.Positivity
import Mathlib.Tactic.Ring
import MasterScheduler.Host.Neighbors
import MasterScheduler.Mote.Config

/-!
# MasterScheduler.Mote.Metric — the link qualities of a node on their way out

A node packs the ETX of its links into a packet, three bytes for a neighbor;
the coordinator prints the packet as a line of text, and the scheduler parses
the line. The ETX is kept in thousandths and printed in two parts.

- `displayed_eq`, `lt_displayed`: which values read as what was measured.
- `metric_pipeline_iff`: when all links of a node arrive as they were measured.
-/

namespace MasterScheduler.Mote

open Host

/-- What the metric uses of `struct tsch_neighbor`. -/
structure Neighbor where
  /-- `addr.u8[NODE_ID_INDEX]`. -/
  nodeId : UInt8
  etxLink : UInt16
deriving DecidableEq, Repr

/-- `TSCH_QUEUE_MAX_NEIGHBOR_QUEUES` and `MASTER_MSG_LENGTH`. -/
structure MetricConfig where
  maxNeighborQueues : ℕ
  msgLength : ℕ

/-- The neighbors `tsch_queue_first_nbr` and `tsch_queue_next_nbr` go through. No
two have the same address; the broadcast and the beacon queue are allocated
beside them. -/
structure NeighborTable (cfg : MetricConfig) where
  nbrs : List Neighbor
  nodup : (nbrs.map Neighbor.nodeId).Nodup
  nodeId_pos : ∀ n ∈ nbrs, n.nodeId ≠ 0
  allocated : nbrs.length + 2 ≤ cfg.maxNeighborQueues

/-- The three bytes of a neighbor. -/
def Neighbor.bytes (n : Neighbor) : List UInt8 :=
  [n.nodeId, ((n.etxLink >>> 8) &&& 0xff).toUInt8, (n.etxLink &&& 0xff).toUInt8]

/-- `calculate_etx_metric`: the part of `etx_links` that is filled. `none` is a
write behind the end of the array. -/
def calculateEtxMetric {cfg : MetricConfig} (table : NeighborTable cfg) : Option (List UInt8) :=
  let etxLinks := table.nbrs.flatMap Neighbor.bytes
  if etxLinks.length ≤ 3 * cfg.maxNeighborQueues - 2 then some etxLinks else none

/-- `CM_ETX_METRIC_SEND`. -/
def cmEtxMetricSend : UInt8 := 3

/-- `master_routing_packet_t` up to `masternet_len`. -/
structure MetricPacket where
  flowNumber : UInt8
  packetNumber : ℕ
  data : List UInt8
deriving DecidableEq, Repr

/-- `command_input_get_metric`: the packet that is handed to `handle_convergcast`.
`none` is a write behind the end of an array. -/
def commandInputGetMetric {cfg : MetricConfig} (nodeId : UInt8) (ownPacketNumber : ℕ)
    (table : NeighborTable cfg) : Option MetricPacket := do
  let etxLinks ← calculateEtxMetric table
  let data := cmEtxMetricSend :: etxLinks
  if data.length ≤ cfg.msgLength then
    return ⟨nodeId, (ownPacketNumber + 1) % 65536, data⟩
  else none

/-! ## Printing -/

/-- The loop of `print_metric`, three bytes a round. -/
def metricEntries : List UInt8 → List LinkEntry
  | node :: high :: low :: rest =>
      let etxLink : UInt16 := (high.toUInt16 <<< 8) + low.toUInt16
      ⟨node.toNat, (etxLink / 1000).toNat, (etxLink % 1000).toNat⟩ :: metricEntries rest
  | _ => []

/-- `print_metric`. `none` is a write behind the end of `str`. -/
def printMetric (cfg : MetricConfig) (metric : List UInt8) (metricOwner : UInt8) :
    Option (List Char) :=
  let entries := metricEntries metric
  if (entriesText entries).length + 1 ≤ 12 * cfg.maxNeighborQueues + 1 then
    some (linksLine metricOwner.toNat entries)
  else none

/-- The line `command_input_send_metric_CPAN` prints for a packet. -/
def commandInputSendMetricCpan (cfg : MetricConfig) (mrp : MetricPacket) : Option (List Char) :=
  printMetric cfg (mrp.data.drop 1) mrp.flowNumber

/-- From the table of a node to the graphs of the scheduler; `none` if an array
is overrun on the way. -/
def metricPipeline {cfg : MetricConfig} (bound : ℚ) (owner : UInt8) (ownPacketNumber : ℕ)
    (table : NeighborTable cfg) (g : Graphs) : Option (Except ParseError Graphs) := do
  let mrp ← commandInputGetMetric owner ownPacketNumber table
  let line ← commandInputSendMetricCpan cfg mrp
  return matchNeighborData bound g line

/-! ## What a printed value reads as -/

/-- A number in thousandths, split into its parts. -/
theorem measured_split (etx : ℕ) :
    (etx : ℚ) / 1000 = (etx / 1000 : ℕ) + ((etx % 1000 : ℕ) : ℚ) / 1000 := by
  have h : (etx : ℚ) = 1000 * (etx / 1000 : ℕ) + (etx % 1000 : ℕ) := by
    exact_mod_cast (Nat.div_add_mod etx 1000).symm
  conv_lhs => rw [h]
  ring

theorem pow_length_toDigits_pos (n : ℕ) : (0 : ℚ) < 10 ^ (Nat.toDigits 10 n).length := by
  positivity

/-- Three digits, or none that count: the value reads as it was measured. -/
theorem displayed_eq {etx : ℕ} (h : etx % 1000 = 0 ∨ 100 ≤ etx % 1000) :
    displayed (etx / 1000) (etx % 1000) = etx / 1000 := by
  rw [displayed, measured_split]
  rcases h with h | h
  · rw [h]
    simp
  · -- exactly three digits
    have h₃ : (Nat.toDigits 10 (etx % 1000)).length ≤ 3 :=
      (Nat.length_toDigits_le_iff (by decide) (by decide)).2 (by omega)
    have h₂ : ¬ (Nat.toDigits 10 (etx % 1000)).length ≤ 2 := by
      rw [Nat.length_toDigits_le_iff (by decide) (by decide)]
      omega
    have hlen : (Nat.toDigits 10 (etx % 1000)).length = 3 := by omega
    rw [hlen]
    norm_num

/-- A leading zero of the fraction is lost: the value reads as a larger one,
still between the same whole numbers. -/
theorem lt_displayed {etx : ℕ} (h₀ : 0 < etx % 1000) (h : etx % 1000 < 100) :
    (etx : ℚ) / 1000 < displayed (etx / 1000) (etx % 1000) ∧
      displayed (etx / 1000) (etx % 1000) ≠ 1 := by
  have hpos := pow_length_toDigits_pos (etx % 1000)
  have hfrac : (0 : ℚ) < (etx % 1000 : ℕ) := by exact_mod_cast h₀
  have hlen : (Nat.toDigits 10 (etx % 1000)).length ≤ 2 :=
    (Nat.length_toDigits_le_iff (by decide) (by decide)).2 (by omega)
  have hpow : (10 : ℚ) ^ (Nat.toDigits 10 (etx % 1000)).length < 1000 :=
    lt_of_le_of_lt (pow_le_pow_right₀ (by norm_num) hlen) (by norm_num)
  refine ⟨?_, ?_⟩
  · rw [displayed, measured_split]
    have := div_lt_div_of_pos_left hfrac hpos hpow
    linarith
  · -- the fraction stays strictly between zero and one
    have hlt : ((etx % 1000 : ℕ) : ℚ) / 10 ^ (Nat.toDigits 10 (etx % 1000)).length < 1 := by
      rw [div_lt_one hpos]
      have := (Nat.length_toDigits_le_iff (n := etx % 1000) (b := 10)
        (k := (Nat.toDigits 10 (etx % 1000)).length) (by decide) Nat.length_toDigits_pos).1 le_rfl
      exact_mod_cast this
    have hgt := div_pos hfrac hpos
    intro hone
    rw [displayed] at hone
    have h₁ : ((etx / 1000 : ℕ) : ℚ) < 1 := by linarith
    have h₂ : (0 : ℚ) < (etx / 1000 : ℕ) := by linarith
    have h₁' : etx / 1000 < 1 := by exact_mod_cast h₁
    have h₂' : 0 < etx / 1000 := by exact_mod_cast h₂
    omega

/-! ## The whole way -/

/-- A neighbor as `print_metric` sees it. -/
def Neighbor.entry (n : Neighbor) : LinkEntry :=
  ⟨n.nodeId.toNat, n.etxLink.toNat / 1000, n.etxLink.toNat % 1000⟩

/-- High byte first and back. -/
theorem etxLink_bytes (etx : UInt16) :
    ((etx >>> 8) &&& 0xff).toUInt8.toUInt16 <<< 8 + (etx &&& 0xff).toUInt8.toUInt16 = etx := by
  have hlt := etx.toNat_lt
  apply UInt16.toNat.inj
  have hand : ∀ n : ℕ, n &&& 255 = n % 256 := fun n => Nat.and_two_pow_sub_one_eq_mod n 8
  simp only [UInt16.toNat_add, UInt16.toNat_shiftLeft, UInt8.toNat_toUInt16, UInt16.toNat_toUInt8,
    UInt16.toNat_and, UInt16.toNat_shiftRight, UInt16.toNat_ofNat, Nat.shiftRight_eq_div_pow,
    Nat.shiftLeft_eq, hand, Nat.reducePow, Nat.reduceMod]
  omega

theorem metricEntries_bytes (nbrs : List Neighbor) :
    metricEntries (nbrs.flatMap Neighbor.bytes) = nbrs.map Neighbor.entry := by
  induction nbrs with
  | nil => rfl
  | cons n nbrs ih =>
    rw [List.flatMap_cons, Neighbor.bytes, List.cons_append, List.cons_append, List.cons_append,
      List.nil_append, metricEntries, ih, etxLink_bytes, List.map_cons]
    simp [Neighbor.entry]

theorem length_bytes (nbrs : List Neighbor) :
    (nbrs.flatMap Neighbor.bytes).length = 3 * nbrs.length := by
  induction nbrs with
  | nil => rfl
  | cons n nbrs ih =>
    rw [List.flatMap_cons, List.length_append, ih, List.length_cons]
    simp only [Neighbor.bytes, List.length_cons, List.length_nil]
    omega

/-- `255:65.535` is the longest entry. -/
theorem length_entry_text (n : Neighbor) : n.entry.text.length ≤ 10 := by
  have hnode : (Nat.toDigits 10 n.entry.sender).length ≤ 3 :=
    (Nat.length_toDigits_le_iff (by decide) (by decide)).2 (by
      have := n.nodeId.toNat_lt
      simp only [Neighbor.entry]
      omega)
  have hwhole : (Nat.toDigits 10 n.entry.whole).length ≤ 2 :=
    (Nat.length_toDigits_le_iff (by decide) (by decide)).2 (by
      have := n.etxLink.toNat_lt
      simp only [Neighbor.entry]
      omega)
  have hfraction : (Nat.toDigits 10 n.entry.fraction).length ≤ 3 :=
    (Nat.length_toDigits_le_iff (by decide) (by decide)).2 (by
      simp only [Neighbor.entry]
      omega)
  simp only [LinkEntry.text, List.length_append, List.length_cons]
  omega

theorem length_entriesText (nbrs : List Neighbor) :
    (entriesText (nbrs.map Neighbor.entry)).length ≤ 12 * nbrs.length := by
  induction nbrs with
  | nil => simp [entriesText]
  | cons n nbrs ih =>
    have hn := length_entry_text n
    cases nbrs with
    | nil =>
      simp only [entriesText, List.map_cons, List.map_nil, List.intercalate_singleton,
        List.length_cons, List.length_nil]
      omega
    | cons n' nbrs =>
      rw [List.map_cons, List.map_cons, entriesText_cons_cons]
      simp only [List.length_append, List.length_cons, List.length_nil] at ih ⊢
      rw [List.map_cons] at ih
      omega

/-- No array is overrun, and the parser gets one entry for each neighbor. -/
theorem metricPipeline_eq {cfg : MetricConfig} (bound : ℚ) (owner : UInt8) (ownPacketNumber : ℕ)
    (table : NeighborTable cfg) (g : Graphs) (hfit : 1 + 3 * table.nbrs.length ≤ cfg.msgLength) :
    metricPipeline bound owner ownPacketNumber table g =
      some (((table.nbrs.map Neighbor.entry).map LinkEntry.text).foldlM
        (addEdge bound owner.toNat) g) := by
  have halloc := table.allocated
  have hlen := length_bytes table.nbrs
  have htext := length_entriesText table.nbrs
  have hlinks : calculateEtxMetric table = some (table.nbrs.flatMap Neighbor.bytes) := by
    rw [calculateEtxMetric]
    exact if_pos (by omega)
  have hpacket : commandInputGetMetric owner ownPacketNumber table =
      some ⟨owner, (ownPacketNumber + 1) % 65536,
        cmEtxMetricSend :: table.nbrs.flatMap Neighbor.bytes⟩ := by
    rw [commandInputGetMetric, hlinks]
    exact if_pos (by rw [List.length_cons]; omega)
  have hline : ∀ n, commandInputSendMetricCpan cfg
      ⟨owner, n, cmEtxMetricSend :: table.nbrs.flatMap Neighbor.bytes⟩ =
      some (linksLine owner.toNat (table.nbrs.map Neighbor.entry)) := by
    intro n
    rw [commandInputSendMetricCpan, printMetric]
    simp only [List.drop_succ_cons, List.drop_zero, metricEntries_bytes]
    exact if_pos (by omega)
  have hwhole : ∀ e ∈ table.nbrs.map Neighbor.entry, e.whole < 1000 := by
    intro e he
    obtain ⟨n, _, rfl⟩ := List.mem_map.1 he
    have := n.etxLink.toNat_lt
    simp only [Neighbor.entry]
    omega
  rw [metricPipeline, hpacket]
  simp only [Option.bind_eq_bind, Option.bind_some, hline, Option.pure_def]
  rw [matchNeighborData_linksLine bound g owner.toNat hwhole]

/-- The quality of a link as the node measured it. -/
def Neighbor.measured (n : Neighbor) : ℚ := n.etxLink.toNat / 1000

/-- The quality the scheduler should see: what was measured, with the correction
for a perfect link. -/
def Neighbor.expected (n : Neighbor) : ℚ :=
  if n.etxLink = 1000 then 1087 / 1000 else n.measured

/-- The graph gets the links of the table below the bound, and no others. -/
structure Preserved {cfg : MetricConfig} (bound : ℚ) (owner : UInt8) (table : NeighborTable cfg)
    (g g' : Graphs) : Prop where
  set : ∀ n ∈ table.nbrs, n.measured < bound →
    g'.etx n.nodeId.toNat owner.toNat = some n.expected
  keep : ∀ a r, ¬ (r = owner.toNat ∧ ∃ n ∈ table.nbrs, n.nodeId.toNat = a ∧ n.measured < bound) →
    g'.etx a r = g.etx a r

/-- A link survives printing: it is not zero, and its fraction has three digits
or is zero. -/
def Neighbor.Printable (n : Neighbor) : Prop :=
  n.etxLink ≠ 0 ∧ (n.etxLink.toNat % 1000 = 0 ∨ 100 ≤ n.etxLink.toNat % 1000)

theorem entry_value_of_printable {n : Neighbor} (h : n.Printable) : n.entry.value = n.measured :=
  displayed_eq h.2

theorem measured_le_entry_value (n : Neighbor) : n.measured ≤ n.entry.value := by
  rcases Nat.eq_zero_or_pos (n.etxLink.toNat % 1000) with h | h
  · exact (displayed_eq (.inl h)).ge
  · rcases Nat.lt_or_ge (n.etxLink.toNat % 1000) 100 with h' | h'
    · exact (lt_displayed h h').1.le
    · exact (displayed_eq (.inr h')).ge

theorem corrected_measured (n : Neighbor) : corrected n.measured = n.expected := by
  have hone : n.measured = 1 ↔ n.etxLink = 1000 := by
    rw [Neighbor.measured, div_eq_one_iff_eq (by norm_num), ← UInt16.toNat_inj]
    exact ⟨fun h => by exact_mod_cast h, fun h => by exact_mod_cast h⟩
  rw [corrected, Neighbor.expected]
  by_cases h : n.etxLink = 1000
  · rw [if_pos (hone.2 h), if_pos h, hone.2 h]
    norm_num
  · rw [if_neg (mt hone.1 h), if_neg h]

theorem nodup_senders {cfg : MetricConfig} (table : NeighborTable cfg) :
    ((table.nbrs.map Neighbor.entry).map LinkEntry.sender).Nodup := by
  have h := table.nodup.map (f := UInt8.toNat) fun _ _ h => UInt8.toNat_inj.1 h
  simpa [Neighbor.entry, Function.comp_def] using h

/-- The graphs before anything was parsed. -/
def noEdges : Graphs := ⟨fun _ _ => none, fun _ _ => none⟩

section

variable {cfg : MetricConfig} {bound : ℚ} {owner : UInt8} {table : NeighborTable cfg}

/-- If the loop ends, no entry below the bound is zero. -/
theorem corrected_ne_zero_of_ok {g g' : Graphs} {es : List LinkEntry}
    (h : (es.map LinkEntry.text).foldlM (addEdge bound owner.toNat) g = .ok g') :
    ∀ e ∈ es, e.value < bound → corrected e.value ≠ 0 := by
  intro e he hlt hzero
  obtain ⟨err, herr⟩ := foldlM_addEdge_zero owner.toNat he hlt hzero g
  rw [h] at herr
  cases herr

theorem entry_injOn {n n' : Neighbor} (hn : n ∈ table.nbrs) (hn' : n' ∈ table.nbrs)
    (h : n'.entry.sender = n.entry.sender) : n' = n :=
  List.inj_on_of_nodup_map table.nodup hn' hn (UInt8.toNat_inj.1 h)

/-- A table that arrives as it was measured has only printable links below the bound. -/
theorem printable_of_preserved {g' : Graphs}
    (hrun : ((table.nbrs.map Neighbor.entry).map LinkEntry.text).foldlM
      (addEdge bound owner.toNat) noEdges = .ok g')
    (h : Preserved bound owner table noEdges g') :
    ∀ n ∈ table.nbrs, n.measured < bound → n.Printable := by
  intro n hn hlt
  have hnonzero := corrected_ne_zero_of_ok hrun
  have hmem : n.entry ∈ table.nbrs.map Neighbor.entry := List.mem_map_of_mem hn
  refine ⟨?_, ?_⟩
  -- A value that is printed as zero would have been refused.
  · intro hzero
    have hvalue : n.entry.value = 0 := by
      rw [LinkEntry.value, Neighbor.entry, hzero]
      simp [displayed]
    refine hnonzero n.entry hmem ?_ (by rw [hvalue, corrected, if_neg (by norm_num)])
    rw [hvalue]
    simpa [Neighbor.measured, hzero] using hlt
  -- A fraction below 100 loses its leading zeros.
  · by_contra hfrac
    rw [not_or, not_le] at hfrac
    obtain ⟨hlarger, hne⟩ : n.measured < n.entry.value ∧ n.entry.value ≠ 1 :=
      lt_displayed (Nat.pos_of_ne_zero hfrac.1) hfrac.2
    have hset := h.set n hn hlt
    have hexpected : n.expected = n.measured := by
      rw [Neighbor.expected, if_neg]
      rintro hthousand
      exact hfrac.1 (by rw [hthousand]; rfl)
    obtain ⟨g'', hrun', hedges⟩ := foldlM_addEdge owner.toNat (g := noEdges)
      (nodup_senders table) hnonzero
    rw [hrun, Except.ok.injEq] at hrun'
    subst hrun'
    by_cases hbelow : n.entry.value < bound
    · -- the link is there with the larger value
      have hset' := hedges.set n.entry hmem hbelow
      rw [corrected, if_neg hne] at hset'
      have := Option.some_inj.1 (hset'.symm.trans hset)
      rw [hexpected] at this
      exact absurd this hlarger.ne'
    · -- the link is missing
      have hkeep := hedges.keep n.entry.sender owner.toNat (by
        rintro ⟨_, e, he, hsender, hbelow'⟩
        obtain ⟨n', hn', rfl⟩ := List.mem_map.1 he
        rw [entry_injOn hn hn' hsender] at hbelow'
        exact hbelow hbelow')
      have := hkeep.symm.trans hset
      cases this

/-- Printable links arrive as they were measured. -/
theorem preserved_of_printable (h : ∀ n ∈ table.nbrs, n.measured < bound → n.Printable)
    (g : Graphs) :
    ∃ g', ((table.nbrs.map Neighbor.entry).map LinkEntry.text).foldlM
        (addEdge bound owner.toNat) g = .ok g' ∧ Preserved bound owner table g g' := by
  have hvalue : ∀ n ∈ table.nbrs, (n.entry.value < bound ↔ n.measured < bound) ∧
      (n.measured < bound → n.entry.value = n.measured) := by
    intro n hn
    have heq : n.measured < bound → n.entry.value = n.measured := fun hlt =>
      entry_value_of_printable (h n hn hlt)
    refine ⟨⟨fun hlt => (measured_le_entry_value n).trans_lt hlt, fun hlt => ?_⟩, heq⟩
    rw [heq hlt]
    exact hlt
  -- The values below the bound are corrected to something else than zero.
  have hnonzero : ∀ e ∈ table.nbrs.map Neighbor.entry, e.value < bound →
      corrected e.value ≠ 0 := by
    intro e he hlt
    obtain ⟨n, hn, rfl⟩ := List.mem_map.1 he
    have hlt' := (hvalue n hn).1.1 hlt
    rw [(hvalue n hn).2 hlt', corrected_measured, Neighbor.expected]
    split_ifs with hthousand
    · norm_num
    · have hpos : n.etxLink.toNat ≠ 0 := fun hzero =>
        (h n hn hlt').1 (UInt16.toNat_inj.1 hzero)
      rw [Neighbor.measured]
      positivity
  obtain ⟨g', hrun, hedges⟩ := foldlM_addEdge owner.toNat (g := g)
    (nodup_senders table) hnonzero
  refine ⟨g', hrun, ?_, ?_⟩
  · intro n hn hlt
    have hset := hedges.set n.entry (List.mem_map_of_mem hn) ((hvalue n hn).1.2 hlt)
    rwa [(hvalue n hn).2 hlt, corrected_measured] at hset
  · intro a r hno
    refine hedges.keep a r ?_
    rintro ⟨hr, e, he, hsender, hlt⟩
    obtain ⟨n, hn, rfl⟩ := List.mem_map.1 he
    exact hno ⟨hr, n, hn, hsender, (hvalue n hn).1.1 hlt⟩

end

/-- The links of a table below the bound arrive as they were measured, if and
only if each of them is printable. -/
theorem metric_pipeline_iff {cfg : MetricConfig} (bound : ℚ) (owner : UInt8)
    (ownPacketNumber : ℕ) (table : NeighborTable cfg)
    (hfit : 1 + 3 * table.nbrs.length ≤ cfg.msgLength) :
    (∀ g, ∃ g', metricPipeline bound owner ownPacketNumber table g = some (.ok g') ∧
      Preserved bound owner table g g') ↔
    ∀ n ∈ table.nbrs, n.measured < bound →
      n.etxLink ≠ 0 ∧ (n.etxLink.toNat % 1000 = 0 ∨ 100 ≤ n.etxLink.toNat % 1000) := by
  simp only [metricPipeline_eq bound owner ownPacketNumber table _ hfit, Option.some_inj]
  constructor
  · intro h
    obtain ⟨g', hrun, hpreserved⟩ := h noEdges
    exact printable_of_preserved hrun hpreserved
  · intro h g
    exact preserved_of_printable h g

/-- Node 1 with the one neighbor 2 at an ETX of 1.5. -/
theorem metric_pipeline_iff_single :
    let table : NeighborTable ⟨18, 59⟩ := ⟨[⟨2, 1500⟩], by decide, by decide, by decide⟩
    1 + 3 * table.nbrs.length ≤ 59 ∧
    ∀ g, ∃ g', metricPipeline 100 1 0 table g = some (.ok g') ∧ Preserved 100 1 table g g' := by
  intro table
  refine ⟨by decide, (metric_pipeline_iff 100 1 0 table (by decide)).2 ?_⟩
  intro n hn _
  rw [List.mem_singleton.1 hn]
  decide

/-- An ETX of 1.05 is printed as `1.50`. -/
theorem metric_pipeline_1050 :
    let table : NeighborTable ⟨18, 59⟩ := ⟨[⟨2, 1050⟩], by decide, by decide, by decide⟩
    (∃ g', metricPipeline 100 1 0 table noEdges = some (.ok g') ∧ g'.etx 2 1 = some (3 / 2)) ∧
    ¬ ∃ g', metricPipeline 100 1 0 table noEdges = some (.ok g') ∧
      Preserved 100 1 table noEdges g' := by
  intro table
  have hrun := metricPipeline_eq 100 1 0 table noEdges (by decide)
  have hvalue : (Neighbor.entry ⟨2, 1050⟩).value = 3 / 2 := by
    have hlen : (Nat.toDigits 10 50).length = 2 := by decide
    change ((1 : ℕ) : ℚ) + ((50 : ℕ) : ℚ) / 10 ^ (Nat.toDigits 10 50).length = 3 / 2
    rw [hlen]
    norm_num
  refine ⟨?_, ?_⟩
  · have hnonzero : ∀ e ∈ table.nbrs.map Neighbor.entry, e.value < 100 →
        corrected e.value ≠ 0 := by
      intro e he _
      rw [List.mem_singleton.1 he, hvalue]
      norm_num [corrected]
    obtain ⟨g', hok, hedges⟩ := foldlM_addEdge (1 : UInt8).toNat (g := noEdges)
      (nodup_senders table) hnonzero
    refine ⟨g', hrun.trans (congrArg some hok), ?_⟩
    have hset := hedges.set _ (List.mem_singleton.2 rfl) (by rw [hvalue]; norm_num)
    rw [hvalue] at hset
    refine hset.trans ?_
    norm_num [corrected]
  · rintro ⟨g', hok, hpreserved⟩
    rw [hrun, Option.some_inj] at hok
    have hprintable := printable_of_preserved hok hpreserved ⟨2, 1050⟩ (by simp [table]) (by
      rw [Neighbor.measured, show UInt16.toNat 1050 = 1050 from rfl]
      norm_num)
    exact absurd hprintable.2 (by decide)

end MasterScheduler.Mote
