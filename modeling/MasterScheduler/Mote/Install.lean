import MasterScheduler.Host.Routes
import MasterScheduler.Mote.Decode
import MasterScheduler.Mote.Tsch

/-!
# MasterScheduler.Mote.Install — the installed schedule and the computed one

From the cells of a computed schedule to the links in the slotframes of a
node: the record of the node, the file, the decoder and the installer.

- `installSlotframes_spec`: the slotframes after the installation.
- `installFromFlash_realises_iff`: a node has all its links exactly if none of
  its cells is on a channel the MAC layer does not have, or in the timeslot
  the installer takes for its beacons.
-/

namespace MasterScheduler.Mote

open Lib Host

/-- Every cell of the node has a link in the slotframe of its flow; if the node
sends, the link is addressed to the next hop on the path of the flow. -/
def Realises (S : Schedule) (n : ℕ) (t : SlotframeList) : Prop :=
  ∀ ch slot c, cellAt S.schedule ch slot = some c → n ∈ c.participants →
    ∃ sf l, t.get? c.flowNumber = some sf ∧ sf.links.get? slot = some l ∧ l.channelOffset = ch ∧
      l.linkOptions = positionOptions c.participants n ∧
      (c.participants.getLast? ≠ some n →
        ∃ f ∈ S.flows, ∃ m, c ∈ f.cells ∧ f.NextHop n m ∧ l.addr = some m)

/-! ## The decoded links -/

/-- A link of a record as the installer adds it, with its slotframe. -/
def recordLink (r : NodeRecord) (l : Link) : ℕ × TschLink :=
  (l.flowNumber,
    { linkOptions := l.linkOption
      linkType := .normal
      addr := some (if l.linkOption = linkOptionRx then 0
        else r.flowForwards.getD (l.flowNumber - 1) 0)
      timeslot := l.timeslot
      channelOffset := l.channel })

theorem scheduledLinks_eq {r : NodeRecord} {s : MasterTschSchedule} (h : Decodes r s) :
    s.links.map (scheduledLink s) = r.links.map (recordLink r) := by
  -- both are made of the same four numbers
  let fromBytes : ℕ × ℕ × ℕ × ℕ → ℕ × TschLink := fun x =>
    (x.1, { linkOptions := x.2.1
            linkType := .normal
            addr := some (if x.2.1 = linkOptionRx then 0 else r.flowForwards.getD (x.1 - 1) 0)
            timeslot := x.2.2.1
            channelOffset := x.2.2.2 })
  have hforward : ∀ i, (s.flowForwards.getD i 0).toNat = r.flowForwards.getD i 0 := by
    intro i
    rw [← h.flowForwards, List.getD_eq_getElem?_getD, List.getD_eq_getElem?_getD,
      List.getElem?_map]
    cases s.flowForwards[i]? <;> rfl
  have hs : scheduledLink s = fun l => fromBytes (l.slotframeHandle.toNat, l.sendReceive.toNat,
      l.timeslot.toNat, l.channelOffset.toNat) := by
    funext l
    simp only [scheduledLink, getForwardDestBySlotframe, hforward, fromBytes]
  have hr : recordLink r = fun l => fromBytes (l.flowNumber, l.linkOption, l.timeslot, l.channel) :=
    rfl
  have hlinks := congrArg (List.map fromBytes) h.links
  rw [List.map_map, List.map_map] at hlinks
  rw [hs, hr]
  exact hlinks

/-! ## The installed slotframes -/

/-- The slotframes of a node after the installation: the links of its record,
and the one for beacons in place of what was in the last timeslot. -/
theorem installSlotframes_spec {maxLinks n len : ℕ} {config : UniversalConfig} {r : NodeRecord}
    {s : MasterTschSchedule} {t : SlotframeList} (hs : Decodes r s)
    (hlen : config.scheduleLength.toNat = len) (hpos : len ≠ 0)
    (hflows : config.slotFrames.toNat = n + 1) (hn : n + 1 ≤ masterNumFlows)
    (ht : ∀ sf ∈ t.entries, sf.handle ≤ 1)
    (hh : ∀ l ∈ r.links, 1 ≤ l.flowNumber ∧ l.flowNumber ≤ n + 1)
    (hslot : ∀ l ∈ r.links, l.timeslot ≤ len - 1) (hpool : r.links.length + 2 ≤ maxLinks) :
    ∃ t₁, HasLinks len (n + 1) (r.links.map (recordLink r)) t₁ ∧
      (∀ h, h ≠ 1 → (installSlotframes maxLinks config s t).get? h = t₁.get? h) ∧
      ∃ links sf₁, t₁.get? 1 = some sf₁ ∧
        (installSlotframes maxLinks config s t).get? 1 = some ⟨1, len, links⟩ ∧
        ∀ k, links.get? k =
          if k = len - 1 then some (beaconLink config) else sf₁.links.get? k := by
  have hlt : len < 256 := hlen ▸ UInt8.toNat_lt config.scheduleLength
  rcases recreateBeaconSlotframe_entries maxLinks ht with
    ⟨sf, rest, hentries, hsf, hone, -, hrest⟩
  -- The new slotframes have no links yet.
  have hempty := hasLinks_empty (recreateSlotframes_entries hpos hsf hentries hrest
    (by unfold maxSlotframes; omega : n + 1 < maxSlotframes)) hone
  have hlinks := addLinks_spec hempty
    (by
      intro a ha
      rcases List.mem_map.1 ha with ⟨l, hl, rfl⟩
      exact hh l hl)
    (by
      intro a ha
      rcases List.mem_map.1 ha with ⟨l, hl, rfl⟩
      exact hslot l hl)
    (by rw [List.length_map]; omega : (r.links.map (recordLink r)).length + 1 ≤ maxLinks)
  -- The beacon link is the last timeslot, which no cell has.
  have hcount := hlinks.count
  rw [List.length_map] at hcount
  have hbeacon : (beaconLink config).timeslot = len - 1 := by
    simp only [beaconLink, hlen]
    omega
  rcases hlinks.slotframe 1 le_rfl (by omega) with ⟨links₁, hget₁, -⟩
  rcases get?_addLink (l := beaconLink config) hget₁ hbeacon.le (Nat.zero_le 15)
    (lt_of_le_of_lt hcount hpool) with ⟨links, hlinks', hall⟩
  have hinstall : installSlotframes maxLinks config s t = tschScheduleAddLink maxLinks
      (addLinks maxLinks ((List.range' 1 (n + 1)).foldl (recreateSlotframe len)
        (recreateBeaconSlotframe maxLinks t)) (r.links.map (recordLink r))) 1
      (beaconLink config) := by
    unfold installSlotframes
    rw [hlen, hflows, scheduledLinks_eq hs]
  rw [hinstall]
  refine ⟨_, hlinks, ?_, links, _, hget₁, ?_, ?_⟩
  · intro h hne
    rw [hall, if_neg hne]
  · rw [hall, if_pos rfl]
  · intro k
    rw [hlinks', hbeacon]

/-! ## Cells and links -/

section

variable {S : Schedule} {r : NodeRecord}

theorem flowForwards_getD (h : RecordLinks S r) {idx : ℕ} (h1 : 1 ≤ idx) (h8 : idx ≤ 8) :
    r.flowForwards.getD (idx - 1) 0 = flowForward r.links idx := by
  have hidx : (List.range' 1 numOfFlows)[idx - 1]? = some idx := by
    rw [List.getElem?_range' (by unfold numOfFlows; omega)]
    congr 1
    omega
  rw [h.forwards, List.getD_eq_getElem?_getD, List.getElem?_map, hidx]
  rfl

/-- In each slotframe the record has one link per timeslot. -/
theorem recordLink_unique (h : RecordLinks S r) (hS : S.Valid) {handle : ℕ} {a b : TschLink}
    (ha : (handle, a) ∈ r.links.map (recordLink r)) (hb : (handle, b) ∈ r.links.map (recordLink r))
    (hslot : a.timeslot = b.timeslot) : a = b := by
  rcases List.mem_map.1 ha with ⟨l, hl, hla⟩
  rcases List.mem_map.1 hb with ⟨l', hl', hlb⟩
  have ha' : (recordLink r l).2 = a := congrArg Prod.snd hla
  have hb' : (recordLink r l').2 = b := congrArg Prod.snd hlb
  subst ha' hb'
  rw [h.unique hS hl hl' hslot]

/-- The link that the record has for a cell. -/
theorem recordLink_of_cell (h : RecordLinks S r) (hS : RoutedSchedule S) {ch slot : ℕ} {c : Cell}
    (hflow : 1 ≤ c.flowNumber ∧ c.flowNumber ≤ 8) (hat : cellAt S.schedule ch slot = some c)
    (hmem : r.nodeId ∈ c.participants) :
    ∃ l, (c.flowNumber, l) ∈ r.links.map (recordLink r) ∧ l.timeslot = slot ∧
      l.channelOffset = ch ∧ l.linkOptions = positionOptions c.participants r.nodeId ∧
      (c.participants.getLast? ≠ some r.nodeId →
        ∃ f ∈ S.flows, ∃ m, c ∈ f.cells ∧ f.NextHop r.nodeId m ∧ l.addr = some m) := by
  rcases h.complete ch slot c hat hmem with ⟨l, hl, hlch, hlslot, hlflow, hrole⟩
  rcases hS.role hat hrole with ⟨f, hf, hc, -, hopt, hnext⟩
  refine ⟨(recordLink r l).2, ?_, hlslot, hlch, hopt, ?_⟩
  · rw [← hlflow]
    exact List.mem_map_of_mem hl
  · intro hlast
    have htx : l.linkOption ≠ linkReceive := by
      rw [hopt]
      unfold positionOptions linkReceive linkTransmit
      rw [if_neg hlast]
      split_ifs <;> decide
    have htx' : l.linkOption ≠ linkOptionRx := htx
    refine ⟨f, hf, l.neighbor, hc, hnext htx, ?_⟩
    simp only [recordLink]
    rw [if_neg htx', flowForwards_getD h (by omega) (by omega), h.forward hS hl htx]

end

/-! ## The whole way -/

theorem le_slotframeLength (length minimal : ℕ) :
    length ≤ slotframeLength length minimal ∧ slotframeLength length minimal ≠ 0 := by
  unfold slotframeLength
  dsimp only
  split_ifs <;> omega

/-- The cells of a node that the installer can do justice to. -/
def Installable (S : Schedule) (minimalScheduleLength n : ℕ) : Prop :=
  ∀ ch slot c, cellAt S.schedule ch slot = some c → n ∈ c.participants → ch ≤ 15 ∧
    ¬ (c.flowNumber = 1 ∧ slot + 1 = slotframeLength (S.lastTimeslot + 1) minimalScheduleLength)

section

variable {S : Schedule} {r : NodeRecord} {minimalScheduleLength : ℕ} {t t₁ : SlotframeList}
  {config : UniversalConfig} {n len : ℕ} {links : Keyed TschLink.timeslot} {sf₁ : TschSlotframe}
  (hlen : len = slotframeLength (S.lastTimeslot + 1) minimalScheduleLength)
  (hflow : ∀ ch slot c, cellAt S.schedule ch slot = some c →
    1 ≤ c.flowNumber ∧ c.flowNumber ≤ n ∧ c.flowNumber ≤ 8)
  (hlinks : HasLinks len n (r.links.map (recordLink r)) t₁)
  (hrest : ∀ h, h ≠ 1 → t.get? h = t₁.get? h) (hsf₁ : t₁.get? 1 = some sf₁)
  (hone : t.get? 1 = some ⟨1, len, links⟩)
  (hbeacon : ∀ k, links.get? k =
    if k = len - 1 then some (beaconLink config) else sf₁.links.get? k)

include hlen hflow hlinks hrest hsf₁ hone hbeacon

/-- If every cell is installable, its link is in the slotframe of its flow. -/
theorem realises_of_installable (hr : RecordLinks S r) (hS : RoutedSchedule S)
    (h : Installable S minimalScheduleLength r.nodeId) : Realises S r.nodeId t := by
  intro ch slot c hat hmem
  rcases hflow ch slot c hat with ⟨h1, hn, h8⟩
  rcases h ch slot c hat hmem with ⟨hch, hfree⟩
  rcases recordLink_of_cell hr hS ⟨h1, h8⟩ hat hmem with ⟨l, hl, hslot, hlch, hopt, haddr⟩
  rcases hlinks.slotframe c.flowNumber h1 hn with ⟨links₁, hget, hsound, hcomplete⟩
  -- before the beacon link is added, the slot holds this link
  have hslot₁ : links₁.get? slot = some l := by
    rcases Option.isSome_iff_exists.1 (hcomplete l hl (by omega)) with ⟨l', hl'⟩
    rcases hsound _ l' hl' with ⟨hmem', hslot', -⟩
    rw [← hslot, hl', recordLink_unique hr hS.valid hmem' hl hslot']
  by_cases hf : c.flowNumber = 1
  · refine ⟨_, l, hf ▸ hone, ?_, hlch, hopt, haddr⟩
    have hne : slot ≠ len - 1 := by
      intro heq
      exact hfree ⟨hf, by have := (le_slotframeLength (S.lastTimeslot + 1)
        minimalScheduleLength).2; omega⟩
    rw [hf, hsf₁] at hget
    cases hget
    rw [hbeacon, if_neg hne]
    exact hslot₁
  · exact ⟨_, l, (hrest _ hf).trans hget, hslot₁, hlch, hopt, haddr⟩

/-- A cell on a missing channel, or in the timeslot for beacons, is lost. -/
theorem installable_of_realises (h : Realises S r.nodeId t) : Installable S minimalScheduleLength r.nodeId := by
  intro ch slot c hat hmem
  rcases hflow ch slot c hat with ⟨h1, hn, -⟩
  rcases h ch slot c hat hmem with ⟨sf, l, hget, hl, hlch, hopt, haddr⟩
  rcases hlinks.slotframe c.flowNumber h1 hn with ⟨links₁, hget₁, hsound, -⟩
  -- The first flow shares its slotframe with the beacon, the others have their own.
  by_cases hf : c.flowNumber = 1
  · rw [hf, hone] at hget
    rw [hf, hsf₁] at hget₁
    cases hget
    cases hget₁
    rw [hbeacon] at hl
    split_ifs at hl with hlast
    · -- the beacon link is broadcast, and it both sends and receives
      cases hl
      by_cases hend : c.participants.getLast? = some r.nodeId
      · unfold positionOptions at hopt
        rw [if_pos hend] at hopt
        revert hopt
        unfold beaconLink linkOptionTx linkOptionRx linkReceive
        split_ifs <;> simp
      · rcases haddr hend with ⟨f, -, m, -, -, hm⟩
        cases hm
    · exact ⟨hlch ▸ (hsound slot l hl).2.2, fun h => hlast (by omega)⟩
  · rw [hrest _ hf, hget₁] at hget
    cases hget
    exact ⟨hlch ▸ (hsound slot l hl).2.2, fun h => hf h.1⟩

end

section

variable {shortestPath : Graph → Host.Node → Host.Node → Except PyError (List Host.Node)}
  {flows : List Flow} {etxPower numChannels : ℕ} {strategy : SchedulingStrategy}
  {alg : Option WindowSizeAlgorithm} {fixedWindowSize : Option ℤ} {S : Schedule}
  {nodeIds : List ℕ} {minimalScheduleLength maxLinks : ℕ} {file : List UInt8}
  {recs : List NodeRecord} {r : NodeRecord} {config : UniversalConfig} {s : MasterTschSchedule}
  {t : SlotframeList}

section

variable (hne : flows ≠ []) (hnum : (flows.map (·.flowNumber)).Perm (List.range' 1 flows.length))
  (henc : Encodable S nodeIds minimalScheduleLength maxLinks)
  (hgen : generateForEnhancedBeacon S nodeIds minimalScheduleLength = .ok file)
  (hrecs : nodeRecords S nodeIds = .ok recs) (hr : r ∈ recs)
  (hpool : r.links.length + 2 ≤ maxLinks) (hconfig : TablesOk config) (hs : BuffersOk maxLinks s)
  (ht : ∀ sf ∈ t.entries, sf.handle ≤ 1)

include hne hnum henc hgen hrecs hr hpool hconfig hs ht

/-- The file of a schedule that is routed over simple paths, read and installed. -/
theorem installFromFlash_of_routed (hrouted : RoutedSchedule S)
    (hperm : (S.flows.map (·.toFlow)).Perm flows) :
    ∃ t', installFromFlash maxLinks r.nodeId (storedFile file) config s t = some t' ∧
      (Realises S r.nodeId t' ↔ Installable S minimalScheduleLength r.nodeId) := by
  have hlinks := nodeRecords_links hrouted.valid hrecs hr
  rcases readFromFlashById_generate hgen henc with ⟨header, recs', hheader, hrecs', hread⟩
  rw [hrecs] at hrecs'
  cases hrecs'
  rcases (hread config s hconfig hs).1 r hr with ⟨config', s', hcdec, hsdec, hfound⟩
  -- the header says how long the slotframes are and how many there are
  have hflows : S.flows.length = flows.length := by
    have := hperm.length_eq
    rwa [List.length_map] at this
  rcases scheduleHeader_lengths hrouted.valid hheader with ⟨hlen, hcount⟩
  obtain ⟨n, hn⟩ : ∃ n, S.flows.length = n + 1 := by
    have : flows.length ≠ 0 := fun h0 => hne (List.length_eq_zero_iff.1 h0)
    exact ⟨S.flows.length - 1, by omega⟩
  have hle := length_flows_le henc
  have hcell : ∀ ch slot c, cellAt S.schedule ch slot = some c →
      1 ≤ c.flowNumber ∧ c.flowNumber ≤ n + 1 ∧ c.flowNumber ≤ 8 := by
    intro ch slot c hat
    rcases hrouted.valid.owned ch slot c hat with ⟨f, hfS, hc⟩
    have hmem : f.flowNumber ∈ List.range' 1 flows.length :=
      hnum.mem_iff.1 (List.mem_map_of_mem (hperm.mem_iff.1 (List.mem_map_of_mem hfS)))
    have := List.mem_range'_1.1 hmem
    rw [(hrouted.cells f hfS c hc).1]
    omega
  have hlinkcell : ∀ l ∈ r.links, ∃ c, cellAt S.schedule l.channel l.timeslot = some c ∧
      l.flowNumber = c.flowNumber := by
    intro l hl
    rcases hlinks.sound l hl with ⟨c, hat, -, hfl, -⟩
    exact ⟨c, hat, hfl⟩
  have hpos := le_slotframeLength (S.lastTimeslot + 1) minimalScheduleLength
  rcases installSlotframes_spec hsdec
    (hcdec.scheduleLength.trans hlen) hpos.2 (hcdec.slotFrames.trans (hcount.trans hn))
    (by unfold masterNumFlows; omega) ht
    (by
      intro l hl
      rcases hlinkcell l hl with ⟨c, hat, hfl⟩
      have := hcell _ _ c hat
      omega)
    (by
      intro l hl
      rcases hlinkcell l hl with ⟨c, hat, -⟩
      have := hrouted.valid.slot_le hat
      omega)
    hpool with ⟨t₁, hhas, hrest, links, sf₁, hsf₁, hone, hbeacon⟩
  refine ⟨installSlotframes maxLinks config' s' t, ?_, ?_, ?_⟩
  · unfold installFromFlash
    rw [hfound]
  · exact installable_of_realises rfl hcell hhas hrest hsf₁ hone hbeacon
  · exact realises_of_installable rfl hcell hhas hrest hsf₁ hone hbeacon hlinks hrouted

/-- A schedule over the paths of `dijkstra.shortestPath`, which are simple, with the sums of
Python. -/
theorem installFromFlash_dijkstra
    (hf : ∀ f ∈ flows, Schedulable dijkstraPath etxPower f)
    (hpos : ∀ f ∈ flows, Positive (WeightedGraph.weight f.graph))
    (hshort : ∀ f ∈ flows, ∀ path, RouteOf dijkstraPath etxPower f path → path.length ≤ 2 ^ 53)
    (hw : WindowChoice strategy alg fixedWindowSize) (hC : 1 ≤ numChannels)
    (hS : createBy pyAdd dijkstraPath flows etxPower numChannels strategy alg fixedWindowSize =
      .ok S) :
    ∃ t', installFromFlash maxLinks r.nodeId (storedFile file) config s t = some t' ∧
      (Realises S r.nodeId t' ↔ Installable S minimalScheduleLength r.nodeId) := by
  rcases RoutedSchedule.of_dijkstra hne hf hpos
    (fun f hmem path hroute => countsHops_pyAdd (hshort f hmem path hroute)) hw hC
    (hnum.nodup_iff.2 List.nodup_range') hS with ⟨hrouted, hperm⟩
  exact installFromFlash_of_routed hne hnum henc hgen hrecs hr hpool hconfig hs ht hrouted hperm

end

/-- A computed schedule is encoded, stored and installed on a node with a
record; the link pool has room for the links of the node and two more. -/
theorem installFromFlash_realises_iff (hne : flows ≠ [])
    (hf : ∀ f ∈ flows, Schedulable shortestPath etxPower f)
    (hw : WindowChoice strategy alg fixedWindowSize) (hC : 1 ≤ numChannels)
    (hsimple : ∀ f ∈ flows, ∀ path, RouteOf shortestPath etxPower f path → path.Nodup)
    (hnum : (flows.map (·.flowNumber)).Perm (List.range' 1 flows.length))
    (hS : create shortestPath flows etxPower numChannels strategy alg fixedWindowSize = .ok S)
    (henc : Encodable S nodeIds minimalScheduleLength maxLinks)
    (hgen : generateForEnhancedBeacon S nodeIds minimalScheduleLength = .ok file)
    (hrecs : nodeRecords S nodeIds = .ok recs) (hr : r ∈ recs)
    (hpool : r.links.length + 2 ≤ maxLinks) (hconfig : TablesOk config)
    (hs : BuffersOk maxLinks s) (ht : ∀ sf ∈ t.entries, sf.handle ≤ 1) :
    ∃ t', installFromFlash maxLinks r.nodeId (storedFile file) config s t = some t' ∧
      (Realises S r.nodeId t' ↔ Installable S minimalScheduleLength r.nodeId) := by
  rcases RoutedSchedule.of_createBy hne hf (fun _ _ path _ => countsHops_add path.length) hw hC
    hsimple (hnum.nodup_iff.2 List.nodup_range') hS with ⟨hrouted, hperm⟩
  exact installFromFlash_of_routed hne hnum henc hgen hrecs hr hpool hconfig hs ht hrouted hperm

end

/-! ## One hop -/

/-- A flow of one hop between neighbours. -/
def oneHopFlow : Flow where
  graph := [(1, [(2, 1)]), (2, [])]
  flowNumber := 1
  source := 1
  destination := 2

theorem oneHop_path : dijkstraPath (etxGraph oneHopFlow.graph 1) oneHopFlow.source
    oneHopFlow.destination = .ok [1, 2] := by
  decide +kernel

theorem oneHop_computePath : oneHopFlow.computePath dijkstraPath 1 =
    .ok { oneHopFlow with path := [[1, 2]], cost := [1] } := by
  have hcost : subPathCost oneHopFlow.graph [1, 2] = .ok 1 := by
    have h12 : oneHopFlow.graph.etx 1 2 = .ok 1 := rfl
    simp [subPathCost, subPathCostBy, hops, h12, bind, Except.bind, pure, Except.pure]
  have hsplit : splitPath [1, 2] oneHopFlow.maxSubFlowLength = .ok [[1, 2]] := rfl
  rw [subPathCost] at hcost
  simp only [Flow.computePath, Flow.computePathBy, oneHop_path, hsplit, List.mapM_cons,
    List.mapM_nil, hcost, bind, Except.bind, pure, Except.pure]

theorem oneHop_schedulable : Schedulable dijkstraPath 1 oneHopFlow := by
  refine ⟨_, oneHop_computePath, ?_⟩
  intro sub hsub
  rw [List.mem_singleton.1 hsub]
  refine ⟨by decide, by decide, ?_⟩
  intro hop hhop
  rw [List.mem_singleton.1 hhop]
  exact ⟨1, rfl, le_rfl⟩

theorem oneHop_create : create dijkstraPath [oneHopFlow] 1 1 .noRetransmissions none none =
    .ok oneHopSchedule := by
  have hmax : Function.update (fun _ => none) 1 (some 1) =
      fun n : ℕ => if n = 1 then some (1 : ℤ) else none := by
    funext n
    simp [Function.update_apply]
  have hattrs : Function.update (fun _ => none) (0, 0) (some (0, 0)) =
      fun id : ℕ × ℕ => if id = (0, 0) then some ((0, 0) : ℕ × ℕ) else none := by
    funext id
    simp [Function.update_apply]
  have hcells : RoutedFlow.createCells { oneHopFlow with path := [[1, 2]], cost := [1] } 0
      .noRetransmissions none none =
        .ok { oneHopFlow with
          path := [[1, 2]], cost := [1], cells := [⟨(0, 0), 1, [1, 2]⟩]
          maxTransmissions := fun n => if n = 1 then some 1 else none } := by
    rw [← hmax]
    rfl
  have hplace : ∀ f : PlannedFlow, f.cells = [⟨(0, 0), 1, [1, 2]⟩] → placeFlows [f] 1 =
      .ok { flows := [f], schedule := [[some ⟨(0, 0), 1, [1, 2]⟩]], lastTimeslot := 0
            attrs := Function.update (fun _ => none) (0, 0) (some (0, 0)) } := by
    intro f hf
    have hsort : orderFlowsDecreasing [f] = [f] := by simp [orderFlowsDecreasing]
    have hsum : ([f].map PlannedFlow.length).sum = 1 := by simp [PlannedFlow.length, hf]
    simp only [placeFlows, hsort, hsum, List.foldlM_cons, List.foldlM_nil, placeFlow, hf, bind,
      Except.bind, pure, Except.pure]
    rfl
  have hroute := oneHop_computePath
  rw [Flow.computePath] at hroute
  simp only [create, createBy, List.mapM_cons, List.mapM_nil, hroute, List.zipIdx_cons,
    List.zipIdx_nil, hcells, bind, Except.bind, pure, Except.pure]
  rw [hplace _ rfl, hattrs]
  rfl

/-- The tables and buffers of a node before anything is read. -/
def emptyConfig : UniversalConfig :=
  ⟨0, 0, List.replicate 8 0, List.replicate 8 0, List.replicate 8 0, List.replicate 8 0⟩

theorem emptyConfig_tables : TablesOk emptyConfig := ⟨rfl, rfl, rfl, rfl⟩

def emptySchedule (maxLinks : ℕ) : MasterTschSchedule :=
  ⟨0, 0, List.replicate 8 0, List.replicate 8 0, 0, List.replicate (4 * maxLinks) 0⟩

theorem installed_link_oneHop :
    ((installFromFlash 50 1 (storedFile oneHopFile) emptyConfig (emptySchedule 50)
      Keyed.empty).bind (·.get? 1)).bind (·.links.get? 0) =
      some ⟨3, .advertisingOnly, none, 0, 0⟩ := by
  decide +kernel

/-- The schedule of one cell is one timeslot long, and so is its slotframe: the
sender loses its only link to the beacons. -/
theorem oneHop_not_realised :
    create dijkstraPath [oneHopFlow] 1 1 .noRetransmissions none none = .ok oneHopSchedule ∧
      generateForEnhancedBeacon oneHopSchedule [1, 2] 0 = .ok oneHopFile ∧
      ∃ t, installFromFlash 50 1 (storedFile oneHopFile) emptyConfig (emptySchedule 50)
          Keyed.empty = some t ∧ ¬ Realises oneHopSchedule 1 t := by
  refine ⟨oneHop_create, oneHop_generate, ?_⟩
  have hlink := installed_link_oneHop
  cases ht : installFromFlash 50 1 (storedFile oneHopFile) emptyConfig (emptySchedule 50)
      Keyed.empty with
  | none => simp [ht] at hlink
  | some t =>
    refine ⟨t, rfl, ?_⟩
    intro h
    rw [ht, Option.bind_some] at hlink
    rcases h 0 0 ⟨(0, 0), 1, [1, 2]⟩ rfl (by decide) with ⟨sf, l, hsf, hl, -, -, haddr⟩
    rw [hsf, Option.bind_some, hl] at hlink
    cases hlink
    rcases haddr (by decide) with ⟨f, -, m, -, -, hm⟩
    cases hm

/-- The same schedule with a slotframe of at least two timeslots. -/
theorem oneHop_generate_two :
    generateForEnhancedBeacon oneHopSchedule [1, 2] 2 = .ok (3 :: oneHopFile.tail) := by
  rw [generateForEnhancedBeacon, oneHop_records]
  rfl

theorem oneHop_realised :
    ∃ t, installFromFlash 50 1 (storedFile (3 :: oneHopFile.tail)) emptyConfig (emptySchedule 50)
        Keyed.empty = some t ∧ Realises oneHopSchedule 1 t := by
  rcases installFromFlash_realises_iff (s := emptySchedule 50) (t := Keyed.empty) (by simp)
    (by simpa using oneHop_schedulable) (by intro h; cases h) le_rfl
    (by
      intro f hf path hpath
      rw [List.mem_singleton.1 hf] at hpath
      exact nodup_of_routeOf (Dijkstra.positive_weight (by decide)) hpath)
    (List.Perm.refl _) oneHop_create (oneHop_encodable (by decide)) oneHop_generate_two
    oneHop_records (List.mem_cons_self) (by decide) emptyConfig_tables ⟨rfl, rfl, rfl⟩
    (by intro sf hsf; cases hsf) with ⟨t, ht, hiff⟩
  refine ⟨t, ht, hiff.2 ?_⟩
  intro ch slot c hat _
  rcases oneHop_cellAt hat with ⟨rfl, rfl, rfl⟩
  exact ⟨by decide, fun h => by cases h.2⟩

end MasterScheduler.Mote
