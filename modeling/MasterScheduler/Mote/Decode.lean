import MasterScheduler.Host.Records
import MasterScheduler.Mote.Schedule

/-!
# MasterScheduler.Mote.Decode — reading back what the host wrote

The host writes the schedule file (`Host.generateForEnhancedBeacon`), the node
searches it for its own record (`readFromFlashById`); the two share no
definition of the format.

- `readRecord_bytes`: one record, followed by anything, is read back.
- `readRecords_bytes`: the search finds the first record with the identifier
  and stops at the end of the file if there is none.
- `readFromFlashById_generate`: the round trip for whole files.
-/

namespace MasterScheduler.Mote

open Lib Host

/-! ## Numbers -/

/-- A conversion to a byte keeps what fits. -/
theorem toNat_cUint8 {x : ℤ} (h0 : 0 ≤ x) (h : x < 256) : ((cUint8 x).toNat : ℤ) = x := by
  unfold cUint8
  rw [Int.emod_eq_of_lt h0 h, UInt8.toNat_ofNat']
  omega

/-- So for a natural number. -/
theorem toNat_cUint8_nat {n : ℕ} (h : n < 256) : (cUint8 (n : ℤ)).toNat = n := by
  have := toNat_cUint8 (x := n) (by omega) (by omega)
  exact_mod_cast this

/-- So for a list. -/
theorem map_toNat_cUint8 {l : List ℕ} (h : ∀ n ∈ l, n < 256) :
    (l.map fun n : ℕ => cUint8 n).map UInt8.toNat = l := by
  rw [List.map_map]
  conv_rhs => rw [← List.map_id l]
  exact List.map_congr_left fun n hn => toNat_cUint8_nat (h n hn)

/-! ## Reads -/

/-- A byte is read. -/
@[simp] theorem cfsReadByte_cons (b : UInt8) (rest : List UInt8) (x : UInt8) :
    cfsReadByte (b :: rest) x = (1, b, rest) := rfl

/-- There is no byte to read. -/
@[simp] theorem cfsReadByte_nil (x : UInt8) : cfsReadByte [] x = (0, x, []) := rfl

/-- A read of as many bytes as there are. -/
theorem cfsRead_append {d rest buf : List UInt8} {len : ℕ} (h : d.length = len) :
    cfsRead (d ++ rest) buf len = (len, d ++ buf.drop len, rest) := by
  subst h
  simp [cfsRead]

/-- A read that fills the buffer. -/
theorem cfsRead_append_full {d rest buf : List UInt8} {len : ℕ} (h : d.length = len)
    (hbuf : buf.length = len) : cfsRead (d ++ rest) buf len = (len, d, rest) := by
  rw [cfsRead_append h, List.drop_eq_nil_of_le (by omega), List.append_nil]

/-- A read at the end leaves the buffer. -/
@[simp] theorem cfsRead_nil (buf : List UInt8) (len : ℕ) :
    cfsRead [] buf len = (0, buf, []) := by
  simp [cfsRead]

/-! ## Records -/

/-- A record every number of which fits its byte, with `maxLinks` links at most. -/
structure RecordFits (maxLinks : ℕ) (r : NodeRecord) : Prop where
  nodeId : 1 ≤ r.nodeId ∧ r.nodeId < 256
  ownFlow : ∀ x ∈ r.ownFlow, (1 ≤ x.1 ∧ x.1 < 256) ∧ x.2 < 256
  links : ∀ l ∈ r.links,
    l.flowNumber < 256 ∧ l.linkOption < 256 ∧ l.timeslot < 256 ∧ l.channel < 256
  linksLen : r.links.length < 256 ∧ r.links.length ≤ maxLinks
  forwardsLen : r.flowForwards.length = 8
  forwards : ∀ n ∈ r.flowForwards, n < 256
  maxTxLen : r.maxTransmission.length = 8
  maxTx : ∀ n ∈ r.maxTransmission, 0 ≤ n ∧ n < 256

/-- The structures of a node have the sizes their types give them. -/
structure BuffersOk (maxLinks : ℕ) (s : MasterTschSchedule) : Prop where
  forwards : s.flowForwards.length = 8
  maxTx : s.maxTransmission.length = 8
  links : s.linksMemory.length = 4 * maxLinks

/-- The decoded schedule carries the numbers of the record. -/
structure Decodes (r : NodeRecord) (s : MasterTschSchedule) : Prop where
  ownFlow : s.ownTransmissionFlow.toNat = (r.ownFlow.map Prod.fst).getD 0
  ownReceiver : s.ownReceiver.toNat = (r.ownFlow.map Prod.snd).getD 0
  links : s.links.map (fun l => (l.slotframeHandle.toNat, l.sendReceive.toNat, l.timeslot.toNat,
      l.channelOffset.toNat)) =
    r.links.map fun l => (l.flowNumber, l.linkOption, l.timeslot, l.channel)
  flowForwards : s.flowForwards.map UInt8.toNat = r.flowForwards
  maxTransmission : s.maxTransmission.map (fun b => (b.toNat : ℤ)) = r.maxTransmission

/-- The structure after reading a record over its previous contents. -/
def recordSchedule (r : NodeRecord) (s : MasterTschSchedule) : MasterTschSchedule where
  ownTransmissionFlow := cUint8 ((r.ownFlow.map Prod.fst).getD 0 : ℕ)
  ownReceiver := cUint8 ((r.ownFlow.map Prod.snd).getD 0 : ℕ)
  flowForwards := r.flowForwards.map fun n : ℕ => cUint8 n
  maxTransmission := r.maxTransmission.map cUint8
  linksLen := cUint8 r.links.length
  linksMemory := r.links.flatMap Link.bytes ++ s.linksMemory.drop (4 * r.links.length)

/-- Four bytes for every link. -/
theorem length_linkBytes (links : List Link) :
    (links.flatMap Link.bytes).length = links.length * 4 := by
  induction links with
  | nil => rfl
  | cons l links ih =>
    rw [List.flatMap_cons, List.length_append, ih]
    simp [Link.bytes]
    omega

/-- The buffers have their lengths after a record. -/
theorem recordSchedule_buffersOk {maxLinks : ℕ} {r : NodeRecord} {s : MasterTschSchedule}
    (hr : RecordFits maxLinks r) (hs : BuffersOk maxLinks s) :
    BuffersOk maxLinks (recordSchedule r s) where
  forwards := by simp [recordSchedule, hr.forwardsLen]
  maxTx := by simp [recordSchedule, hr.maxTxLen]
  links := by
    have h1 := hr.linksLen.2
    have h2 := hs.links
    simp only [recordSchedule, List.length_append, length_linkBytes, List.length_drop]
    omega

/-- A flow of the node is two bytes, or one zero. -/
theorem readOwnFlow_bytes {o : Option (ℕ × ℕ)}
    (ho : ∀ x ∈ o, (1 ≤ x.1 ∧ x.1 < 256) ∧ x.2 < 256) (rest : List UInt8)
    (s : MasterTschSchedule) :
    readOwnFlow (ownFlowBytes o ++ rest) s =
      ((ownFlowBytes o).length, (ownFlowBytes o).length, cUint8 ((o.map Prod.fst).getD 0 : ℕ),
        cUint8 ((o.map Prod.snd).getD 0 : ℕ), rest) := by
  cases o with
  | none =>
    have hzero : cUint8 0 = 0 := by decide
    simp [readOwnFlow, ownFlowBytes, hzero]
  | some x =>
    obtain ⟨⟨hf1, hf2⟩, -⟩ := ho x rfl
    have hne : cUint8 (x.1 : ℤ) ≠ 0 := by
      intro h0
      have := toNat_cUint8_nat hf2
      rw [h0] at this
      simp at this
      omega
    simp [readOwnFlow, ownFlowBytes, hne]

/-- One record, followed by anything, is read back. -/
theorem readRecord_bytes {maxLinks : ℕ} {r : NodeRecord} {s : MasterTschSchedule}
    (hr : RecordFits maxLinks r) (hs : BuffersOk maxLinks s) (idx : UInt8) (rest : List UInt8) :
    readRecord (r.bytes ++ rest) idx s =
      some { idx := cUint8 ((r.nodeId : ℤ) - 1)
             schedule := recordSchedule r s
             readBytes := r.bytes.length
             expectedBytes := r.bytes.length
             rest := rest } := by
  have hlen : (cUint8 (r.links.length : ℤ)).toNat = r.links.length :=
    toNat_cUint8_nat hr.linksLen.1
  have hlinks := length_linkBytes r.links
  have hroom : ¬ s.linksMemory.length < r.links.length * 4 := by
    have h1 := hr.linksLen.2
    have h2 := hs.links
    omega
  have hfw : (r.flowForwards.map fun n : ℕ => cUint8 n).length = 8 := by simp [hr.forwardsLen]
  have hmt : (r.maxTransmission.map cUint8).length = 8 := by simp [hr.maxTxLen]
  have hbytes : r.bytes ++ rest = cUint8 ((r.nodeId : ℤ) - 1) :: (ownFlowBytes r.ownFlow ++
      (cUint8 r.links.length :: (r.links.flatMap Link.bytes ++
        ((r.flowForwards.map fun n : ℕ => cUint8 n) ++
          (r.maxTransmission.map cUint8 ++ rest))))) := by
    simp [NodeRecord.bytes]
  have htotal : r.bytes.length =
      1 + (ownFlowBytes r.ownFlow).length + 1 + r.links.length * 4 + 8 + 8 := by
    simp only [NodeRecord.bytes, List.length_cons, List.length_append, hlinks, hfw, hmt]
    omega
  rw [hbytes, htotal]
  simp only [readRecord, cfsReadByte_cons, readOwnFlow_bytes hr.ownFlow, hlen]
  rw [List.take_left' hlinks, hlinks, if_neg hroom]
  simp only [cfsRead_append hlinks, cfsRead_append_full hfw hs.forwards,
    cfsRead_append_full hmt hs.maxTx]
  simp only [recordSchedule, Nat.mul_comm 4]

/-- A byte of a link. -/
theorem getD_linkBytes {links : List Link} {i : ℕ} (hi : i < links.length) (j : ℕ) (hj : j < 4)
    (tail : List UInt8) :
    (links.flatMap Link.bytes ++ tail).getD (4 * i + j) 0 = (links[i]).bytes.getD j 0 := by
  induction links generalizing i with
  | nil => simp at hi
  | cons l links ih =>
    have hl : l.bytes.length = 4 := rfl
    rw [List.flatMap_cons, List.append_assoc]
    cases i with
    | zero =>
      rw [Nat.mul_zero, Nat.zero_add, List.getD_eq_getElem?_getD,
        List.getElem?_append_left (by omega), ← List.getD_eq_getElem?_getD]
      rfl
    | succ i =>
      rw [List.getD_eq_getElem?_getD, List.getElem?_append_right (by omega), hl,
        show 4 * (i + 1) + j - 4 = 4 * i + j by omega, ← List.getD_eq_getElem?_getD]
      exact ih (by simpa using hi)

/-- The link that is stored. -/
theorem recordSchedule_link {r : NodeRecord} (s : MasterTschSchedule) {i : ℕ}
    (hi : i < r.links.length) :
    (recordSchedule r s).link i = ⟨cUint8 (r.links[i]).flowNumber, cUint8 (r.links[i]).linkOption,
      cUint8 (r.links[i]).timeslot, cUint8 (r.links[i]).channel⟩ := by
  have h := fun j hj => getD_linkBytes hi j hj (s.linksMemory.drop (4 * r.links.length))
  unfold MasterTschSchedule.link
  simp only [recordSchedule]
  rw [show 4 * i = 4 * i + 0 by omega, h 0 (by omega), h 1 (by omega), h 2 (by omega),
    h 3 (by omega)]
  rfl

/-- The links of the structure are the links of the record, in order. -/
theorem recordSchedule_links {maxLinks : ℕ} {r : NodeRecord} (hr : RecordFits maxLinks r)
    (s : MasterTschSchedule) :
    (recordSchedule r s).links = r.links.map fun l =>
      ⟨cUint8 l.flowNumber, cUint8 l.linkOption, cUint8 l.timeslot, cUint8 l.channel⟩ := by
  have hlen : (recordSchedule r s).linksLen.toNat = r.links.length :=
    toNat_cUint8_nat hr.linksLen.1
  unfold MasterTschSchedule.links
  rw [hlen]
  refine List.ext_getElem (by simp) fun i h1 h2 => ?_
  simp only [List.length_map, List.length_range] at h1
  simp only [List.getElem_map, List.getElem_range]
  exact recordSchedule_link s h1

/-- What is stored is what the record says. -/
theorem recordSchedule_decodes {maxLinks : ℕ} {r : NodeRecord} (hr : RecordFits maxLinks r)
    (s : MasterTschSchedule) : Decodes r (recordSchedule r s) where
  ownFlow := by
    refine toNat_cUint8_nat ?_
    cases hown : r.ownFlow with
    | none => simp
    | some x => exact (hr.ownFlow x hown).1.2
  ownReceiver := by
    refine toNat_cUint8_nat ?_
    cases hown : r.ownFlow with
    | none => simp
    | some x => exact (hr.ownFlow x hown).2
  links := by
    rw [recordSchedule_links hr, List.map_map]
    refine List.map_congr_left fun l hl => ?_
    obtain ⟨h1, h2, h3, h4⟩ := hr.links l hl
    simp only [Function.comp, toNat_cUint8_nat h1, toNat_cUint8_nat h2, toNat_cUint8_nat h3,
      toNat_cUint8_nat h4]
  flowForwards := map_toNat_cUint8 hr.forwards
  maxTransmission := by
    simp only [recordSchedule, List.map_map]
    conv_rhs => rw [← List.map_id r.maxTransmission]
    exact List.map_congr_left fun n hn => toNat_cUint8 (hr.maxTx n hn).1 (hr.maxTx n hn).2

/-! ## The search -/

/-- At the end of the file nothing is read, and the search gives up. -/
theorem readRecord_nil (idx : UInt8) (s : MasterTschSchedule) :
    ∃ r, readRecord [] idx s = some r ∧ r.readBytes ≠ r.expectedBytes := by
  have hcases : (readOwnFlow [] s).1 = 0 ∧ (readOwnFlow [] s).2.2.2.2 = [] := by
    unfold readOwnFlow
    by_cases h0 : s.ownTransmissionFlow = 0 <;> simp [h0]
  obtain ⟨hn, hrest⟩ := hcases
  simp only [readRecord, cfsReadByte_nil, hrest, List.take_nil, List.length_nil,
    Nat.not_lt_zero, if_false, cfsRead_nil]
  refine ⟨_, rfl, ?_⟩
  simp only [hn]
  omega

/-- A record is not empty. -/
theorem length_bytes_pos (r : NodeRecord) : 1 ≤ r.bytes.length := by
  simp [NodeRecord.bytes]

/-- The search returns the record with the identifier, or nothing. The byte
count never ends the loop: it does not include the header. -/
theorem readRecords_bytes {maxLinks : ℕ} {recs : List NodeRecord} (bytesInFlash : ℤ) (nodeId : ℕ)
    (hrecs : ∀ r ∈ recs, RecordFits maxLinks r) (hnd : (recs.map NodeRecord.nodeId).Nodup)
    (fuel : ℕ) (idx : UInt8) (s : MasterTschSchedule) (total : ℕ) (hs : BuffersOk maxLinks s)
    (hfuel : (recs.flatMap NodeRecord.bytes).length < fuel)
    (htotal : (total + (recs.flatMap NodeRecord.bytes).length : ℤ) < bytesInFlash) :
    (∀ r ∈ recs, r.nodeId = nodeId → ∃ s₀, BuffersOk maxLinks s₀ ∧
      readRecords bytesInFlash ((nodeId : ℤ) - 1) fuel (recs.flatMap NodeRecord.bytes) idx s total =
        some (true, recordSchedule r s₀)) ∧
    ((∀ r ∈ recs, r.nodeId ≠ nodeId) → ∃ s',
      readRecords bytesInFlash ((nodeId : ℤ) - 1) fuel (recs.flatMap NodeRecord.bytes) idx s total =
        some (false, s')) := by
  -- On the records; the one of the node is read, the others are skipped.
  induction recs generalizing fuel idx s total with
  | nil =>
    obtain ⟨fuel, rfl⟩ : ∃ k, fuel = k + 1 := ⟨fuel - 1, by simp at hfuel; omega⟩
    refine ⟨by simp, fun _ => ?_⟩
    obtain ⟨r, hr, hne⟩ := readRecord_nil idx s
    exact ⟨r.schedule, by simp [readRecords, hr, hne]⟩
  | cons r recs ih =>
    obtain ⟨fuel, rfl⟩ : ∃ k, fuel = k + 1 := ⟨fuel - 1, by omega⟩
    have hr := hrecs r (by simp)
    have hpos := length_bytes_pos r
    rw [List.flatMap_cons, List.length_append] at hfuel htotal
    push_cast at htotal
    have hread := readRecord_bytes hr hs idx (recs.flatMap NodeRecord.bytes)
    have hid : ((cUint8 ((r.nodeId : ℤ) - 1)).toNat : ℤ) = (r.nodeId : ℤ) - 1 :=
      toNat_cUint8 (by have := hr.nodeId.1; omega) (by have := hr.nodeId.2; omega)
    rw [List.map_cons, List.nodup_cons] at hnd
    obtain ⟨hfound, hnone⟩ := ih (fun r hr => hrecs r (by simp [hr])) hnd.2 fuel
      (cUint8 ((r.nodeId : ℤ) - 1)) (recordSchedule r s) (total + r.bytes.length)
      (recordSchedule_buffersOk hr hs) (by omega) (by push_cast; omega)
    by_cases heq : r.nodeId = nodeId
    · -- this is the record
      have hstop : readRecords bytesInFlash ((nodeId : ℤ) - 1) (fuel + 1)
          (r.bytes ++ recs.flatMap NodeRecord.bytes) idx s total =
            some (true, recordSchedule r s) := by
        rw [readRecords, hread]
        simp only [ne_eq, not_true_eq_false, if_false, hid]
        rw [if_neg (by omega)]
      rw [List.flatMap_cons, hstop]
      refine ⟨fun r' hr' hr'id => ?_, fun hne => absurd heq (hne r (by simp))⟩
      rcases List.mem_cons.1 hr' with rfl | hr'
      · exact ⟨s, hs, rfl⟩
      · refine absurd ?_ hnd.1
        rw [heq, ← hr'id]
        exact List.mem_map_of_mem hr'
    · -- another node's record: the search goes on behind it
      have hnext : readRecords bytesInFlash ((nodeId : ℤ) - 1) (fuel + 1)
          (r.bytes ++ recs.flatMap NodeRecord.bytes) idx s total =
            readRecords bytesInFlash ((nodeId : ℤ) - 1) fuel (recs.flatMap NodeRecord.bytes)
              (cUint8 ((r.nodeId : ℤ) - 1)) (recordSchedule r s) (total + r.bytes.length) := by
        rw [readRecords, hread]
        simp only [ne_eq, not_true_eq_false, if_false, hid]
        rw [if_pos ⟨by omega, by omega⟩]
      rw [List.flatMap_cons, hnext]
      refine ⟨fun r' hr' hr'id => ?_, fun hne => hnone fun r' hr' => hne r' (by simp [hr'])⟩
      rcases List.mem_cons.1 hr' with rfl | hr'
      · exact absurd hr'id heq
      · exact hfound r' hr' hr'id

/-! ## The header -/

/-- A header with eight entries per table and every number below 256. -/
structure HeaderFits (h : ScheduleHeader) : Prop where
  slotframeLength : h.slotframeLength < 256
  numFlows : h.numFlows < 256
  senders : h.senderOfFlow.length = 8 ∧ ∀ n ∈ h.senderOfFlow, n < 256
  receivers : h.receiverOfFlow.length = 8 ∧ ∀ n ∈ h.receiverOfFlow, n < 256
  first : h.firstTxSlotInFlow.length = 8 ∧ ∀ n ∈ h.firstTxSlotInFlow, n < 256
  last : h.lastTxSlotInFlow.length = 8 ∧ ∀ n ∈ h.lastTxSlotInFlow, n < 256

/-- The tables of the general configuration have room for all flows. -/
structure TablesOk (c : UniversalConfig) : Prop where
  senders : c.senderOfFlow.length = 8
  receivers : c.receiverOfFlow.length = 8
  first : c.firstTxSlotInFlow.length = 8
  last : c.lastTxSlotInFlow.length = 8

/-- The decoded configuration carries the numbers of the header. -/
structure ConfigDecodes (h : ScheduleHeader) (c : UniversalConfig) : Prop where
  scheduleLength : c.scheduleLength.toNat = h.slotframeLength
  slotFrames : c.slotFrames.toNat = h.numFlows
  senders : c.senderOfFlow.map UInt8.toNat = h.senderOfFlow
  receivers : c.receiverOfFlow.map UInt8.toNat = h.receiverOfFlow
  first : c.firstTxSlotInFlow.map UInt8.toNat = h.firstTxSlotInFlow
  last : c.lastTxSlotInFlow.map UInt8.toNat = h.lastTxSlotInFlow

/-- The head of the file is read back. -/
theorem readConfig_bytes {h : ScheduleHeader} {c : UniversalConfig} (hh : HeaderFits h)
    (hc : TablesOk c) (rest : List UInt8) :
    ∃ c', readConfig (h.bytes ++ rest) c = (c', some rest) ∧ ConfigDecodes h c' := by
  have hlen : ∀ {l : List ℕ}, l.length = 8 → (l.map fun n : ℕ => cUint8 n).length = masterNumFlows := by
    intro l hl
    rw [List.length_map, hl]
    rfl
  have hbytes : h.bytes ++ rest = cUint8 h.slotframeLength :: cUint8 h.numFlows ::
      ((h.senderOfFlow.map fun n : ℕ => cUint8 n) ++
        ((h.receiverOfFlow.map fun n : ℕ => cUint8 n) ++
          ((h.firstTxSlotInFlow.map fun n : ℕ => cUint8 n) ++
            ((h.lastTxSlotInFlow.map fun n : ℕ => cUint8 n) ++ rest)))) := by
    simp [ScheduleHeader.bytes]
  refine ⟨⟨cUint8 h.slotframeLength, cUint8 h.numFlows, h.senderOfFlow.map fun n : ℕ => cUint8 n,
    h.receiverOfFlow.map fun n : ℕ => cUint8 n, h.firstTxSlotInFlow.map fun n : ℕ => cUint8 n,
    h.lastTxSlotInFlow.map fun n : ℕ => cUint8 n⟩, ?_, ?_⟩
  · rw [hbytes]
    simp only [readConfig, cfsReadByte_cons,
      cfsRead_append_full (hlen hh.senders.1) hc.senders,
      cfsRead_append_full (hlen hh.receivers.1) hc.receivers,
      cfsRead_append_full (hlen hh.first.1) hc.first,
      cfsRead_append_full (hlen hh.last.1) hc.last]
    rw [if_neg (by decide)]
  · exact ⟨toNat_cUint8_nat hh.slotframeLength, toNat_cUint8_nat hh.numFlows,
      map_toNat_cUint8 hh.senders.2, map_toNat_cUint8 hh.receivers.2, map_toNat_cUint8 hh.first.2,
      map_toNat_cUint8 hh.last.2⟩

/-- The head of the file is not empty. -/
theorem length_header_bytes_pos (h : ScheduleHeader) : 1 ≤ h.bytes.length := by
  simp [ScheduleHeader.bytes]

/-! ## Whole files -/

/-- Header and records, read back from a stored file. -/
theorem readFromFlashById_bytes {maxLinks : ℕ} {h : ScheduleHeader} {recs : List NodeRecord}
    (hh : HeaderFits h) (hrecs : ∀ r ∈ recs, RecordFits maxLinks r)
    (hnd : (recs.map NodeRecord.nodeId).Nodup) {c : UniversalConfig} {s : MasterTschSchedule}
    (hc : TablesOk c) (hs : BuffersOk maxLinks s) (nodeId : ℕ) :
    (∀ r ∈ recs, r.nodeId = nodeId → ∃ c' s₀, ConfigDecodes h c' ∧ BuffersOk maxLinks s₀ ∧
      readFromFlashById (storedFile (h.bytes ++ recs.flatMap NodeRecord.bytes)) c s
        ((nodeId : ℤ) - 1) = some (true, c', recordSchedule r s₀)) ∧
    ((∀ r ∈ recs, r.nodeId ≠ nodeId) → ∃ c' s',
      readFromFlashById (storedFile (h.bytes ++ recs.flatMap NodeRecord.bytes)) c s
        ((nodeId : ℤ) - 1) = some (false, c', s')) := by
  obtain ⟨c', hconfig, hdec⟩ := readConfig_bytes hh hc (recs.flatMap NodeRecord.bytes)
  have hpos := length_header_bytes_pos h
  have hfile : readFromFlashById (storedFile (h.bytes ++ recs.flatMap NodeRecord.bytes)) c s
      ((nodeId : ℤ) - 1) =
        (readRecords (h.bytes ++ recs.flatMap NodeRecord.bytes).length ((nodeId : ℤ) - 1)
          ((h.bytes ++ recs.flatMap NodeRecord.bytes).length + 1) (recs.flatMap NodeRecord.bytes)
          0 s 0).map fun r => (r.1, c', r.2) := by
    simp only [readFromFlashById, storedFile, hconfig]
  obtain ⟨hfound, hnone⟩ := readRecords_bytes
    ((h.bytes ++ recs.flatMap NodeRecord.bytes).length : ℕ) nodeId hrecs hnd
    ((h.bytes ++ recs.flatMap NodeRecord.bytes).length + 1) 0 s 0 hs
    (by simp) (by push_cast [List.length_append]; omega)
  rw [hfile]
  constructor
  · intro r hr hid
    obtain ⟨s₀, hs₀, hread⟩ := hfound r hr hid
    exact ⟨c', s₀, hdec, hs₀, by rw [hread]; rfl⟩
  · intro hne
    obtain ⟨s', hread⟩ := hnone hne
    exact ⟨c', s', by rw [hread]; rfl⟩

/-- A schedule that the file format can carry: flows numbered within `1..8`,
everything else below 256, and no node with more links than it has room for. -/
structure Encodable (S : Schedule) (nodeIds : List ℕ) (minimalScheduleLength maxLinks : ℕ) :
    Prop where
  flowNumber : ∀ f ∈ S.flows, 1 ≤ f.flowNumber ∧ f.flowNumber ≤ 8
  distinct : (S.flows.map (·.flowNumber)).Nodup
  cellFlow : ∀ ch t c, cellAt S.schedule ch t = some c → 1 ≤ c.flowNumber ∧ c.flowNumber ≤ 8
  endpoints : ∀ f ∈ S.flows, f.source < 256 ∧ f.destination < 256
  nodes : ∀ n ∈ nodeIds, 1 ≤ n ∧ n < 256
  participants : ∀ ch t c, cellAt S.schedule ch t = some c → ∀ n ∈ c.participants, n < 256
  length : ∀ row ∈ S.schedule.head?, slotframeLength row.length minimalScheduleLength < 256
  attributes : ∀ id t ch, S.attrs id = some (t, ch) → t < 256 ∧ ch < 256
  counts : ∀ f ∈ S.flows, ∀ n v, f.maxTransmissions n = some v → 0 ≤ v ∧ v < 256
  links : ∀ d, getNodeSchedule S nodeIds = .ok d → ∀ e ∈ d,
    e.2.length < 256 ∧ e.2.length ≤ maxLinks

section

variable {S : Schedule} {nodeIds : List ℕ} {minimalScheduleLength maxLinks : ℕ}

/-- There are at most eight flows. -/
theorem length_flows_le (h : Encodable S nodeIds minimalScheduleLength maxLinks) :
    S.flows.length ≤ 8 := by
  have hsub : (S.flows.map (·.flowNumber)).Subperm (List.range' 1 8) := by
    refine List.subperm_of_subset h.distinct fun n hn => ?_
    obtain ⟨f, hf, rfl⟩ := List.mem_map.1 hn
    have := h.flowNumber f hf
    rw [List.mem_range'_1]
    omega
  simpa using hsub.length_le

/-- A cell has a place in the schedule. -/
theorem cellTimeslot_spec {o : Option Cell} {t : ℕ} (h : cellTimeslot S o = .ok t) :
    ∃ id ch, S.attrs id = some (t, ch) := by
  unfold cellTimeslot at h
  split at h
  · cases h
  · next cell =>
    split at h
    · next t' ch heq =>
      cases h
      exact ⟨cell.ident, ch, heq⟩
    · cases h

/-- The head of an encodable schedule fits its fields. -/
theorem scheduleHeader_fits (h : Encodable S nodeIds minimalScheduleLength maxLinks)
    {header : ScheduleHeader} (hh : scheduleHeader S minimalScheduleLength = .ok header) :
    HeaderFits header := by
  have hslot : ∀ n, (n = 0 ∨ ∃ f ∈ S.flows, ∃ o, cellTimeslot S o = .ok n) → n < 256 := by
    rintro n (rfl | ⟨f, -, o, ho⟩)
    · omega
    · obtain ⟨id, ch, hid⟩ := cellTimeslot_spec ho
      exact (h.attributes id n ch hid).1
  rcases scheduleHeader_spec hh with ⟨row, hrow, hlen, hnum, h1, h2, h3, h4⟩
  obtain ⟨l1, m1⟩ := flowTable_spec h.distinct h1
  obtain ⟨l2, m2⟩ := flowTable_spec h.distinct h2
  obtain ⟨l3, m3⟩ := flowTable_spec h.distinct h3
  obtain ⟨l4, m4⟩ := flowTable_spec h.distinct h4
  have hcount := length_flows_le h
  refine ⟨?_, by omega, ⟨l1, fun n hn => ?_⟩, ⟨l2, fun n hn => ?_⟩,
    ⟨l3, fun n hn => hslot n ?_⟩, ⟨l4, fun n hn => hslot n ?_⟩⟩
  · rw [hlen]
    exact h.length row (by rw [Option.mem_def, List.head?_eq_getElem?]; exact hrow)
  · rcases m1 n hn with rfl | ⟨f, hf, hv⟩
    · omega
    · cases hv
      exact (h.endpoints f hf).1
  · rcases m2 n hn with rfl | ⟨f, hf, hv⟩
    · omega
    · cases hv
      exact (h.endpoints f hf).2
  · exact (m3 n hn).imp id fun ⟨f, hf, hv⟩ => ⟨f, hf, _, hv⟩
  · exact (m4 n hn).imp id fun ⟨f, hf, hv⟩ => ⟨f, hf, _, hv⟩

/-- The record of every node fits its fields. -/
theorem nodeRecord_fits (h : Encodable S nodeIds minimalScheduleLength maxLinks)
    {d : NodeSchedules} (hd : getNodeSchedule S nodeIds = .ok d) {e : Host.Node × List Cell}
    (he : e ∈ d) {r : NodeRecord} (hr : nodeRecord S e = .ok r) : RecordFits maxLinks r := by
  -- A record has the cells of its node, which are cells of the schedule.
  obtain ⟨cells, hcells, hok⟩ := getNodeSchedule_ok hd
  obtain ⟨hid, hown, hlinks, hfw, hmt⟩ := nodeRecord_spec hr
  obtain ⟨hlen, hmem, -⟩ := sortedListOfLinks_spec hlinks
  have hcell : ∀ c ∈ e.2, ∃ ch t, cellAt S.schedule ch t = some c := fun c hc =>
    gridCells_mem hcells ((hok.sound e he).2 c hc).1
  refine ⟨?_, ?_, ?_, ?_, by rw [hfw]; rfl, ?_, ?_, ?_⟩
  · rw [hid]
    exact h.nodes e.1 (hok.sound e he).1
  · intro x hx
    rw [hown] at hx
    obtain ⟨f, hf, rfl⟩ := Option.map_eq_some_iff.1 hx
    have hfm := List.mem_of_find?_eq_some hf
    have := h.flowNumber f hfm
    exact ⟨⟨this.1, by omega⟩, (h.endpoints f hfm).2⟩
  · intro l hl
    obtain ⟨c, hc, hlink⟩ := hmem l hl
    obtain ⟨hrole, hattr, hflow⟩ := cellLink_spec hlink
    obtain ⟨ch, t, hat⟩ := hcell c hc
    have hf := (h.cellFlow ch t c hat).2
    have hopt := (linkRole_option_le hrole).1
    have ha := h.attributes _ _ _ hattr
    exact ⟨by omega, by omega, ha.1, ha.2⟩
  · rw [hlen]
    exact h.links d hd e he
  · intro n hn
    rw [hfw] at hn
    obtain ⟨idx, -, hn⟩ := List.mem_map.1 hn
    by_cases h0 : n = 0
    · omega
    · obtain ⟨l, hl, -, -, rfl⟩ := flowForward_mem hn h0
      obtain ⟨c, hc, hlink⟩ := hmem l hl
      obtain ⟨ch, t, hat⟩ := hcell c hc
      exact h.participants ch t c hat _ (linkRole_option_le (cellLink_spec hlink).1).2
  · have := (forall₂_of_mapM hmt).length_eq
    simpa [numOfFlows] using this.symm
  · intro v hv
    obtain ⟨idx, -, hv⟩ := forall₂_mem_right (forall₂_of_mapM hmt) hv
    unfold maxTransmissionOf at hv
    split_ifs at hv with hpart
    · cases hf : getFlowFromId S idx with
      | none => rw [hf] at hv; cases hv
      | some f =>
        rw [hf] at hv
        cases hm : f.maxTransmissions e.1 with
        | none =>
          simp only [hm, Option.getD_none, Except.ok.injEq] at hv
          omega
        | some w =>
          simp only [hm, Option.getD_some, Except.ok.injEq] at hv
          rw [← hv]
          exact h.counts f (List.mem_of_find?_eq_some hf) e.1 w hm
    · cases hv
      omega

/-- The header and the records of an encoded schedule, and that they fit. -/
theorem generate_parts {file : List UInt8}
    (hgen : generateForEnhancedBeacon S nodeIds minimalScheduleLength = .ok file)
    (h : Encodable S nodeIds minimalScheduleLength maxLinks) :
    ∃ header recs, scheduleHeader S minimalScheduleLength = .ok header ∧
      nodeRecords S nodeIds = .ok recs ∧ file = header.bytes ++ recs.flatMap NodeRecord.bytes ∧
      HeaderFits header ∧ (∀ r ∈ recs, RecordFits maxLinks r) ∧
      (recs.map NodeRecord.nodeId).Nodup := by
  unfold generateForEnhancedBeacon at hgen
  cases hrecs : nodeRecords S nodeIds with
  | error e => rw [hrecs] at hgen; cases hgen
  | ok recs =>
    cases hheader : scheduleHeader S minimalScheduleLength with
    | error e => rw [hrecs] at hgen; simp [bind, Except.bind, hheader] at hgen
    | ok header =>
      rw [hrecs] at hgen
      simp only [bind, Except.bind, hheader, pure, Except.pure, Except.ok.injEq] at hgen
      refine ⟨header, recs, rfl, rfl, hgen.symm, scheduleHeader_fits h hheader, ?_, ?_⟩
      · intro r hr
        obtain ⟨d, e, hd, he, hre⟩ := nodeRecords_mem hrecs hr
        exact nodeRecord_fits h hd he hre
      · exact nodup_nodeRecords hrecs

/-- What the node reads is what the encoder put together; a node without a
record is told so. -/
theorem readFromFlashById_generate {file : List UInt8}
    (hgen : generateForEnhancedBeacon S nodeIds minimalScheduleLength = .ok file)
    (h : Encodable S nodeIds minimalScheduleLength maxLinks) :
    ∃ header recs, scheduleHeader S minimalScheduleLength = .ok header ∧
      nodeRecords S nodeIds = .ok recs ∧
      ∀ c s, TablesOk c → BuffersOk maxLinks s →
        (∀ r ∈ recs, ∃ c' s', ConfigDecodes header c' ∧ Decodes r s' ∧
          readFromFlashById (storedFile file) c s ((r.nodeId : ℤ) - 1) = some (true, c', s')) ∧
        ∀ nodeId : ℕ, (∀ r ∈ recs, r.nodeId ≠ nodeId) → ∃ c' s',
          readFromFlashById (storedFile file) c s ((nodeId : ℤ) - 1) = some (false, c', s') := by
  obtain ⟨header, recs, hheader, hrecs, rfl, hhead, hfits, hnd⟩ := generate_parts hgen h
  refine ⟨header, recs, hheader, hrecs, fun c s hc hs => ⟨fun r hr => ?_, fun nodeId hne => ?_⟩⟩
  · obtain ⟨c', s₀, hdec, -, hread⟩ :=
      (readFromFlashById_bytes hhead hfits hnd hc hs r.nodeId).1 r hr rfl
    exact ⟨c', recordSchedule r s₀, hdec, recordSchedule_decodes (hfits r hr) s₀, hread⟩
  · exact (readFromFlashById_bytes hhead hfits hnd hc hs nodeId).2 hne

end

/-! ## An example -/

/-- One flow over one hop, in one cell. -/
def oneHopSchedule : Schedule where
  flows := [{ graph := [(1, [(2, 1)]), (2, [])], flowNumber := 1, source := 1, destination := 2
              path := [[1, 2]], cost := [1], cells := [⟨(0, 0), 1, [1, 2]⟩]
              maxTransmissions := fun n => if n = 1 then some 1 else none }]
  schedule := [[some ⟨(0, 0), 1, [1, 2]⟩]]
  lastTimeslot := 0
  attrs := fun id => if id = (0, 0) then some (0, 0) else none

/-- Its file: the header, a record for the sender and one for the receiver. -/
def oneHopFile : List UInt8 :=
  [1, 1, 1, 0, 0, 0, 0, 0, 0, 0, 2, 0, 0, 0, 0, 0, 0, 0] ++ List.replicate 16 0 ++
  [0, 1, 2, 1, 1, 1, 0, 0, 2, 0, 0, 0, 0, 0, 0, 0, 1, 0, 0, 0, 0, 0, 0, 0] ++
  [1, 0, 1, 1, 2, 0, 0] ++ List.replicate 16 0

/-- The two nodes of the schedule of one hop. -/
theorem oneHop_nodeSchedule : getNodeSchedule oneHopSchedule [1, 2] =
    .ok [(1, [⟨(0, 0), 1, [1, 2]⟩]), (2, [⟨(0, 0), 1, [1, 2]⟩])] := rfl

/-- The links of one of its nodes, from its only cell. -/
theorem oneHop_links (n option neighbor : ℕ)
    (h : [(⟨(0, 0), 1, [1, 2]⟩ : Cell)].mapM (cellLink oneHopSchedule n) =
      .ok [⟨0, 0, option, 1, neighbor⟩]) :
    sortedListOfLinks oneHopSchedule n [⟨(0, 0), 1, [1, 2]⟩] =
      .ok [⟨0, 0, option, 1, neighbor⟩] := by
  rw [sortedListOfLinks, h]
  simp [bind, Except.bind, pure, Except.pure]

/-- The records of its nodes. -/
theorem oneHop_records : nodeRecords oneHopSchedule [1, 2] = .ok
    [⟨1, some (1, 2), [⟨0, 0, 1, 1, 2⟩], [2, 0, 0, 0, 0, 0, 0, 0], [1, 0, 0, 0, 0, 0, 0, 0]⟩,
     ⟨2, none, [⟨0, 0, 2, 1, 1⟩], [0, 0, 0, 0, 0, 0, 0, 0], [0, 0, 0, 0, 0, 0, 0, 0]⟩] := by
  have h1 := oneHop_links 1 1 2 rfl
  have h2 := oneHop_links 2 2 1 rfl
  rw [nodeRecords, oneHop_nodeSchedule]
  simp only [bind, Except.bind, List.mapM_cons, List.mapM_nil, nodeRecord, h1, h2]
  rfl

/-- Its file. -/
theorem oneHop_generate : generateForEnhancedBeacon oneHopSchedule [1, 2] 0 = .ok oneHopFile := by
  rw [generateForEnhancedBeacon, oneHop_records]
  rfl

/-- It has one cell. -/
theorem oneHop_cellAt {ch t : ℕ} {c : Cell} (h : cellAt oneHopSchedule.schedule ch t = some c) :
    ch = 0 ∧ t = 0 ∧ c = ⟨(0, 0), 1, [1, 2]⟩ := by
  cases ch with
  | zero =>
    cases t with
    | zero => exact ⟨rfl, rfl, by simpa [cellAt, oneHopSchedule, eq_comm] using h⟩
    | succ t => simp [cellAt, oneHopSchedule] at h
  | succ ch => simp [cellAt, oneHopSchedule] at h

/-- It can be encoded. -/
theorem oneHop_encodable {minimal : ℕ} (hlen : slotframeLength 1 minimal < 256) :
    Encodable oneHopSchedule [1, 2] minimal 50 where
  flowNumber := by simp [oneHopSchedule]
  distinct := by simp [oneHopSchedule]
  cellFlow := by
    intro ch t c h
    rcases oneHop_cellAt h with ⟨-, -, rfl⟩
    simp
  endpoints := by simp [oneHopSchedule]
  nodes := by simp
  participants := by
    intro ch t c h
    rcases oneHop_cellAt h with ⟨-, -, rfl⟩
    simp
  length := by simpa [oneHopSchedule] using hlen
  attributes := by
    intro id t ch h
    simp only [oneHopSchedule] at h
    split_ifs at h
    cases h
    omega
  counts := by
    intro f hf n v hv
    obtain rfl := List.mem_singleton.1 hf
    simp only at hv
    split_ifs at hv
    cases hv
    omega
  links := by
    intro d hd e he
    rw [oneHop_nodeSchedule] at hd
    cases hd
    have : e.2.length = 1 := by
      rcases List.mem_cons.1 he with rfl | he
      · rfl
      · obtain rfl := List.mem_singleton.1 he
        rfl
    omega

/-- Its file is read back by both nodes. -/
theorem readFromFlashById_oneHop :
    ∃ header recs, scheduleHeader oneHopSchedule 0 = .ok header ∧
      nodeRecords oneHopSchedule [1, 2] = .ok recs ∧
      ∀ c s, TablesOk c → BuffersOk 50 s →
        (∀ r ∈ recs, ∃ c' s', ConfigDecodes header c' ∧ Decodes r s' ∧
          readFromFlashById (storedFile oneHopFile) c s ((r.nodeId : ℤ) - 1) =
            some (true, c', s')) ∧
        ∀ nodeId : ℕ, (∀ r ∈ recs, r.nodeId ≠ nodeId) → ∃ c' s',
          readFromFlashById (storedFile oneHopFile) c s ((nodeId : ℤ) - 1) = some (false, c', s') :=
  readFromFlashById_generate oneHop_generate (oneHop_encodable (by decide))

end MasterScheduler.Mote
