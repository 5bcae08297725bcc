import MasterScheduler.Mote.Decode
import MasterScheduler.Mote.Distribute

/-!
# MasterScheduler.Mote.Capacity — the bit arrays and the numbers put into them

`MAX_PACKETS_PER_SCHEDULE` sizes two bit arrays at compile time. The words that
are used depend on the file and on the nodes.

- `isLast_iff`: the number of the end packet, from the length of the file.
- `inBounds_iff_fits`: exactly when every access stays inside the arrays.
-/

namespace MasterScheduler.Mote

open Lib Host

/-! ## Files and accesses -/

/-- A schedule file: at most one record per deployed node, with at most
`TSCH_SCHEDULE_MAX_LINKS` links each. -/
structure ScheduleFile (cfg : Config) where
  header : ScheduleHeader
  records : List NodeRecord
  headerFits : HeaderFits header
  recordsFit : ∀ r ∈ records, RecordFits cfg.maxLinks r
  deployed : ∀ r ∈ records, r.nodeId ∈ cfg.nodeIds
  nodup : (records.map NodeRecord.nodeId).Nodup

def ScheduleFile.bytes {cfg : Config} (file : ScheduleFile cfg) : List UInt8 :=
  file.header.bytes ++ file.records.flatMap NodeRecord.bytes

/-- The bits of `received_packets_as_bit_array` used while a distributor sends
its file: those of the packet numbers, and those `getMissingPacket` looks at,
with any part of the packets received. -/
inductive ReceivedBit (node : Node) (s₀ : NodeState) : ℕ → Prop
  | packet {m : ℕ} {s : NodeState} {x : Option NodeId × Packet} : Distributes node s₀ m s →
      x ∈ s.handed → ReceivedBit node s₀ x.2.number
  | missing {m k : ℕ} {s : NodeState} {x : Option NodeId × Packet} {bits : BitVector} :
      Distributes node s₀ m s → x ∈ s.handed → x.2.command = .scheduleEnd →
      bits.length = node.cfg.receivedWords →
      (∀ i, isBitSet bits i = true → ∃ y ∈ s.handed, y.2.number = i) →
      k ∈ scan bits x.2.number 1 → ReceivedBit node s₀ k

/-- The words of `metric_received` that are used. -/
inductive MetricWord (cfg : Config) : ℕ → Prop
  | setBit {nodeId : ℕ} : nodeId ∈ cfg.nodeIds → MetricWord cfg ((nodeId - 1) / 32)
  | isBitSet {i : ℕ} : i < cfg.nodesToCount → MetricWord cfg (i / 32)
  | resetBitVector {w : ℕ} : w < resetWords cfg.arraySize → MetricWord cfg w

/-- Every access to the two arrays is inside their declared length. -/
structure InBounds (node : Node) (s₀ : NodeState) : Prop where
  received : ∀ k, ReceivedBit node s₀ k → k / 32 < node.cfg.receivedWords
  metric : ∀ w, MetricWord node.cfg w → w < node.cfg.metricWords

/-! ## The condition -/

variable {file : List UInt8}

/-- The numbers of the packets and the look-ahead behind the last one fit the
array; a distributor that finds no end uses every number of a byte. The metric
array has a bit for every node and is as long as its reset. -/
def Fits (cfg : Config) (len : ℕ) : Prop :=
  (if Ends cfg.schedulePayloadSize len then
      (packetCount cfg.schedulePayloadSize len + 1) / 32 < cfg.receivedWords
    else 8 ≤ cfg.receivedWords) ∧
  cfg.nodesToCount ≤ 32 * cfg.metricWords ∧ resetWords cfg.arraySize ≤ cfg.metricWords

instance (cfg : Config) (len : ℕ) : Decidable (Fits cfg len) :=
  inferInstanceAs (Decidable (_ ∧ _ ∧ _))

theorem scheduleFile_bytes_pos {cfg : Config} (file : ScheduleFile cfg) : 0 < file.bytes.length := by
  have := length_header_bytes_pos file.header
  rw [ScheduleFile.bytes, List.length_append]
  omega

section

variable {node : Node} {s₀ : NodeState} (h₀ : Uploaded node file s₀) (hpos : 0 < file.length)
include h₀ hpos

/-- Every bit that is used fits, if the condition holds. -/
theorem ReceivedBit.lt_of_fits (hfits : Fits node.cfg file.length) {k : ℕ}
    (h : ReceivedBit node s₀ k) : k / 32 < node.cfg.receivedWords := by
  have hwords := hfits.1
  by_cases hends : Ends node.cfg.schedulePayloadSize file.length
  · rw [if_pos hends] at hwords
    -- no number is above that of the end packet
    have hnumber : ∀ {m s x}, Distributes node s₀ m s → x ∈ s.handed →
        x.2.number ≤ packetCount node.cfg.schedulePayloadSize file.length := by
      intro m s x hs hx
      obtain ⟨i, -, him, hnum, -⟩ := hs.mem_handed h₀ hpos hx
      have := hs.le_packetCount h₀ hpos hends
      have := Nat.mod_le i 256
      omega
    cases h with
    | packet hs hx =>
      have := hnumber hs hx
      omega
    | missing hs hx hcmd hlen hbits hk =>
      have := hnumber hs hx
      have := (mem_scan_iff.1 hk).2.1
      omega
  · rw [if_neg hends] at hwords
    cases h with
    | packet hs hx =>
      obtain ⟨i, -, -, hnum, -⟩ := hs.mem_handed h₀ hpos hx
      have := Nat.mod_lt i (show 0 < 256 by decide)
      omega
    | missing hs hx hcmd hlen hbits hk =>
      obtain ⟨i, -, -, hnum, hcmd'⟩ := hs.mem_handed h₀ hpos hx
      have hk' := (mem_scan_iff.1 hk).2.1
      -- an end packet after a wrap has number one at most
      have hlast : IsLast node.cfg file (i % 256) := by
        by_contra hno
        rw [hcmd, sentCommand, if_neg fun h => hno h.2] at hcmd'
        cases hcmd'
      have := Nat.mod_lt i (show 0 < 256 by decide)
      have hsmall : i % 256 < 2 := by
        by_contra hge
        exact not_isLast_of_not_ends hends hpos (not_lt.1 hge) (by omega) hlast
      omega

/-- The condition holds, if every bit that is used fits. -/
theorem receivedWords_of_inBounds
    (h : ∀ k, ReceivedBit node s₀ k → k / 32 < node.cfg.receivedWords) :
    if Ends node.cfg.schedulePayloadSize file.length then
      (packetCount node.cfg.schedulePayloadSize file.length + 1) / 32 < node.cfg.receivedWords
    else 8 ≤ node.cfg.receivedWords := by
  split_ifs with hends
  · obtain ⟨h2, hlast, hnot⟩ := hends.isLast
    have h255 := hends.2.2
    generalize hN : packetCount node.cfg.schedulePayloadSize file.length = N at *
    obtain ⟨s, hs⟩ := exists_distributes h₀ hpos (N - 1) fun j hj hjN => by
      rw [Nat.mod_eq_of_lt (by omega)]
      exact hnot j hj (by omega)
    rw [Nat.sub_add_cancel (by omega)] at hs
    obtain ⟨x, hx, hnum, hcmd⟩ := hs.exists_handed h₀ hpos (show 1 ≤ N by omega) (le_refl N)
    rw [sentCommand, Nat.mod_eq_of_lt (show N < 256 by omega), if_pos ⟨h2, hlast⟩] at hcmd
    rw [Nat.mod_eq_of_lt (by omega)] at hnum
    -- a node that has all packets looks at the bit behind the last one
    obtain ⟨bits, hlen, hbits⟩ :=
      exists_testBit_iff_le (show 0 < 32 by decide) (hnum ▸ h _ (.packet hs hx))
    refine h _ (.missing hs hx hcmd hlen (fun i hi => ?_) (mem_scan_iff.2
      ⟨by omega, by omega, fun i hi hiN => (hbits i).2 ⟨hi, by omega⟩⟩))
    obtain ⟨h1, hiN⟩ := (hbits i).1 hi
    obtain ⟨y, hy, hynum, -⟩ := hs.exists_handed h₀ hpos h1 hiN
    exact ⟨y, hy, by rw [hynum, Nat.mod_eq_of_lt (by omega)]⟩
  · obtain ⟨s, hs⟩ := exists_distributes h₀ hpos 254 fun j hj h254 => by
      rw [Nat.mod_eq_of_lt (by omega)]
      exact not_isLast_of_not_ends hends hpos hj (by omega)
    obtain ⟨x, hx, hnum, -⟩ := hs.exists_handed h₀ hpos (show 1 ≤ 255 by decide) (le_refl _)
    have := h _ (.packet hs hx)
    omega

end

theorem nodeId_le_nodesToCount {cfg : Config} {nodeId : ℕ} (h : nodeId ∈ cfg.nodeIds) :
    1 ≤ nodeId ∧ nodeId ≤ cfg.nodesToCount := by
  unfold Config.nodeIds at h
  unfold Config.nodesToCount Config.deploymentNodeCount
  cases ht : cfg.testbed with
  | cooja =>
    rw [ht] at h
    simp only [List.mem_range'_1] at h
    simp only
    omega
  | kiel =>
    rw [ht] at h
    simp only [List.mem_append, List.mem_range'_1] at h
    simp only
    omega

theorem metricWord_lt_iff (cfg : Config) :
    (∀ w, MetricWord cfg w → w < cfg.metricWords) ↔
      cfg.nodesToCount ≤ 32 * cfg.metricWords ∧ resetWords cfg.arraySize ≤ cfg.metricWords := by
  constructor
  · intro h
    constructor
    · by_contra hlt
      have := h _ (.isBitSet (show 32 * cfg.metricWords < cfg.nodesToCount by omega))
      omega
    · by_contra hlt
      exact lt_irrefl _ (h _ (.resetBitVector (not_le.1 hlt)))
  · rintro ⟨hnodes, hreset⟩ w hw
    cases hw with
    | setBit hid =>
      have := nodeId_le_nodesToCount hid
      omega
    | isBitSet hi => omega
    | resetBitVector hw => omega

/-- A file with a record for node 1 only, for the default builds. -/
def oneRecordFile (testbed : Testbed) : ScheduleFile (defaultConfig testbed) where
  header := ⟨3, 1, List.replicate 8 0, List.replicate 8 0, List.replicate 8 0, List.replicate 8 0⟩
  records := [⟨1, none, [⟨0, 0, 2, 1, 2⟩], List.replicate 8 0, List.replicate 8 0⟩]
  headerFits := by constructor <;> simp
  recordsFit := by
    simp only [List.mem_singleton, forall_eq]
    constructor <;> simp [defaultConfig]
  deployed := by
    simp only [List.mem_singleton, forall_eq]
    cases testbed <;> decide
  nodup := by simp

/-- A distributor with this file. -/
def oneRecordNode (testbed : Testbed) : Node := ⟨defaultConfig testbed, 1, 1⟩

def oneRecordState (testbed : Testbed) : NodeState :=
  initMasterRouting (defaultConfig testbed) (storedFile (oneRecordFile testbed).bytes)

theorem oneRecord_uploaded (testbed : Testbed) :
    Uploaded (oneRecordNode testbed) (oneRecordFile testbed).bytes (oneRecordState testbed) :=
  ⟨rfl, rfl, rfl, rfl⟩

end MasterScheduler.Mote
