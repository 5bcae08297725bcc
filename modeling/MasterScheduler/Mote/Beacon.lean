import MasterScheduler.Mote.ElementBytes
import MasterScheduler.Mote.Framer
import Mathlib.Data.List.GetD

/-!
# MasterScheduler.Mote.Beacon — enhanced beacons

How `tsch-packet.c` builds an enhanced beacon, patches the time into it before
it is sent, and reads one. The neighbor discovery elements are compiled in; the
optional elements of a build are there or not.

- `parseEb_updateEb`: what was put into a beacon is what a receiver reads.
-/

namespace MasterScheduler.Mote.Beacon

open Lib Memory Hopping Frame802154 Framer Elements

/-! ## Creating a beacon -/

/-- `tsch_timing` in microseconds. -/
structure Timing where
  us : List UInt16
  length_us : us.length = tschTsElementsCount

/-- `tsch_hopping_sequence` and `tsch_hopping_sequence_length`. -/
structure HoppingSequence where
  channels : List UInt8
  length_channels : channels.length = tschHoppingSequenceMaxLen
  length : UInt16

/-- Slotframe 0 and its link at timeslot 0, as far as a beacon carries them. -/
structure Slotframe0 where
  handle : UInt16
  size : UInt16
  link0 : SlotframeAndLinksLink

/-- `schedule_received`. -/
structure ScheduleReceived where
  bytes : List UInt8
  length_bytes : bytes.length = frame802154eIeScheduleBitVector

/-- What a node puts into its beacons. -/
structure Node where
  /-- With `TSCH_PACKET_EB_WITH_TIMESLOT_TIMING`. -/
  tschTiming : Option Timing
  /-- With `TSCH_PACKET_EB_WITH_HOPPING_SEQUENCE`. -/
  tschHoppingSequence : Option HoppingSequence
  /-- With `TSCH_PACKET_EB_WITH_SLOTFRAME_AND_LINK`, when both are in the schedule. -/
  slotframe0 : Option Slotframe0
  /-- `sequence_number` before it is incremented. -/
  sequenceNumber : UInt16
  tschRank : UInt8
  tschIsCoordinator : Bool
  linkaddrNodeAddr : Linkaddr
  /-- The address of `tsch_queue_get_time_source()`. -/
  timeSource : Option Linkaddr
  scheduleVersion : UInt8
  schedulePackets : UInt16
  scheduleReceived : ScheduleReceived
  /-- `NODE_ID_INDEX`. -/
  nodeIdIndex : Fin 8

/-- `ie_time_source`. A node that is not the coordinator follows the pointer to its time
source; without one this has no value. -/
def Node.ieTimeSource (node : Node) : Option UInt8 :=
  if node.tschIsCoordinator then some (node.linkaddrNodeAddr.u8.getD node.nodeIdIndex 0)
  else node.timeSource.map fun addr => addr.u8.getD node.nodeIdIndex 0

/-- The timing of the record. -/
def withTiming (ies : Ies) : Option Timing → Ies
  | none => ies
  | some timing => { ies with ieTschTimeslotId := 1, ieTschTimeslot := timing.us }

/-- The hopping sequence of the record; one that is too long is left out. -/
def withHoppingSequence (ies : Ies) : Option HoppingSequence → Ies
  | none => ies
  | some hopping =>
      if hopping.length.toNat ≤ tschHoppingSequenceMaxLen then
        { ies with
          ieChannelHoppingSequenceId := 1
          ieHoppingSequenceLen := hopping.length
          ieHoppingSequenceList := hopping.channels.take hopping.length.toNat ++
            ies.ieHoppingSequenceList.drop hopping.length.toNat }
      else ies

/-- The slotframe of the record. -/
def withSlotframe (ies : Ies) : Option Slotframe0 → Ies
  | none => ies
  | some sf0 =>
      { ies with ieTschSlotframeAndLink :=
          { numSlotframes := 1, slotframeHandle := sf0.handle.toUInt8, slotframeSize := sf0.size,
            numLinks := 1, links := sf0.link0 :: ies.ieTschSlotframeAndLink.links.tail } }

/-- The record `tsch_packet_create_eb` prepares. The time and the join priority are left for
later. -/
def ebIes (node : Node) : Option Ies :=
  node.ieTimeSource.map fun ieTimeSource =>
    let ies := withSlotframe (withHoppingSequence (withTiming Ies.zero node.tschTiming)
      node.tschHoppingSequence) node.slotframe0
    { ies with
      ieSequenceNumber := node.sequenceNumber + 1
      ieRank := node.tschRank
      ieTimeSource := ieTimeSource
      ieScheduleVersion := node.scheduleVersion
      ieSchedulePackets := node.schedulePackets
      ieScheduleReceived := node.scheduleReceived.bytes }

/-- The writers of a beacon, in their order. -/
def ebWriters (ies : Ies) : List Writer :=
  [createIeTschSynchronization ies, createIeTschTimeslot ies,
    createIeTschChannelHoppingSequence ies, createIeTschSlotframeAndLink ies,
    createIeTschNeighborDiscovery ies, createIeTschRank ies, createIeTimeSource ies,
    createIeScheduleVersion ies, createIeSchedulePackets ies,
    createIeScheduleReceived ies frame802154eIeScheduleBitVector]

/-- One writer at `p`, and the data length behind it. -/
def appendIe (st : Packetbuf × ℕ) (w : Writer) : Option (Packetbuf × ℕ) :=
  match w st.1.mem st.2 (remaininglen st.1) with
  | none => none
  | some (mem, ieLen) => some (setDatalen { st.1 with mem := mem } (datalen st.1 + ieLen),
      st.2 + ieLen)

/-- `payload_ie_hdr_len`. -/
def payloadIeHdrLen : ℕ := 2

/-- What `tsch_packet_create_eb` returns and stores through its pointers. -/
structure Eb where
  pb : Packetbuf
  hdrLen : UInt8
  tschSyncIeOffset : UInt8
  len : ℕ

/-- The container around the elements: the data is shifted behind its descriptor. -/
def wrapMlme (ies : Ies) (pb : Packetbuf) : Option Packetbuf := do
  let ies := { ies with ieMlmeLen := UInt16.ofNat (datalen pb) }
  let pb := setDatalen
    { pb with mem := pb.mem.move (dataptr pb + payloadIeHdrLen) (dataptr pb) (datalen pb) }
    (datalen pb + payloadIeHdrLen)
  let (mem, _) ← createIeMlme ies pb.mem (dataptr pb) (remaininglen pb)
  return { pb with mem := mem }

/-- The header termination in front of the container. Whether there was room for it is not
looked at. -/
def terminateHeader (pb : Packetbuf) : Option Packetbuf := do
  let pb := (hdralloc pb 2).getD pb
  let (mem, _) ← createIeHeaderListTermination1 pb.mem 0 (remaininglen pb)
  return { pb with mem := mem }

/-- `tsch_packet_create_eb`. -/
def createEb (panId : UInt16) (macDsn : UInt8) (node : Node) (pb : Packetbuf) : Option Eb := do
  let ies ← ebIes node
  let pb := clear pb
  let (pb, _) ← (ebWriters ies).foldlM appendIe (pb, dataptr pb)
  let pb ← wrapMlme ies pb
  let pb ← terminateHeader pb
  let pb := { pb with
    frameType := beaconFrame.val.toUInt16, macMetadata := 1, sender := node.linkaddrNodeAddr,
    receiver := linkaddrNull }
  let (pb, _) ← framerCreate panId macDsn pb
  return { pb := pb
           hdrLen := UInt8.ofNat (packetbufHdrlen pb)
           tschSyncIeOffset := UInt8.ofNat (packetbufHdrlen pb + payloadIeHdrLen)
           len := totlen pb }

/-! ## Updating and reading a beacon -/

/-- `tsch_packet_update_eb` on a frame of `bufSize` bytes at `buf`. -/
def updateEb (tschCurrentAsn : Asn) (tschJoinPriority : UInt8) (m : Memory) (buf bufSize : ℕ)
    (tschSyncIeOffset : UInt8) : Memory :=
  let ies := { Ies.zero with ieAsn := tschCurrentAsn, ieJoinPriority := tschJoinPriority }
  match createIeTschSynchronization ies m (buf + tschSyncIeOffset.toNat)
      (bufSize - tschSyncIeOffset.toNat) with
  | none => m
  | some (m, _) => m

/-- What `tsch_packet_parse_eb` returns and stores through its pointers. -/
structure ParsedEb where
  frame : Frame
  ies : Ies
  hdrLen : UInt8
  currLen : UInt8

/-- `tsch_packet_parse_eb` on a frame of `bufSize` bytes at `buf`. -/
def parseEb (sixtop : Bool) (m : Memory) (buf bufSize : ℕ) (frame : Frame) : Option ParsedEb :=
  let (frame, ret) := Frame802154.parse m buf bufSize frame
  if ret = 0 then none
  else if frame.fcf.frameVersion.val < ieee802154v2015.val ∨ frame.fcf.frameType ≠ beaconFrame then
    none
  else
    let currLen := UInt8.ofNat ret
    -- A beacon without a join priority counts as one with the largest.
    let ies := { Ies.zero with ieJoinPriority := 0xff }
    if frame.fcf.ieListPresent then
      let r := parseInformationElements sixtop
        (m.read (buf + currLen.toNat) (bufSize - currLen.toNat)) ies
      match r.result with
      | .error _ => none
      | .ok len => some ⟨frame, r.ies, UInt8.ofNat ret + r.ies.iePayloadIeOffset,
          currLen + UInt8.ofNat len⟩
    else some ⟨frame, ies, UInt8.ofNat ret + ies.iePayloadIeOffset, currLen⟩

/-! ## The bytes of a beacon -/

section Bytes

variable {ies : Ies} {pb pb' : Packetbuf} {bs : List UInt8}

/-- Writers that succeed one behind the other leave their bytes in a row. -/
theorem foldlM_appendIe {ws : List Writer} {bss : List (List UInt8)}
    (hws : List.Forall₂ Appends ws bss) {st st' : Packetbuf × ℕ} (hptr : st.2 = totlen st.1)
    (h : ws.foldlM appendIe st = some st') :
    contents st'.1 = contents st.1 ++ bss.flatten ∧ st'.1.bufptr = st.1.bufptr ∧
      st'.1.hdrlen = st.1.hdrlen ∧ SameAttrs st.1 st'.1 := by
  induction hws generalizing st with
  | nil =>
    cases h
    exact ⟨(List.append_nil _).symm, rfl, rfl, rfl⟩
  | @cons w bs ws bss hw _ ih =>
    rw [List.foldlM_cons] at h
    rcases Option.bind_eq_some_iff.mp h with ⟨st₁, hstep, h⟩
    rw [appendIe] at hstep
    split at hstep
    · cases hstep
    case h_2 mem ieLen hwrite =>
      cases hstep
      rcases hw _ _ _ _ _ hwrite with ⟨_, hread, hbelow⟩
      rw [hptr] at hread hbelow
      have htot : totlen (setDatalen { st.1 with mem := mem } (datalen st.1 + ieLen)) =
          totlen st.1 + ieLen := by
        simp only [totlen, setDatalen, datalen, packetbufHdrlen]
        omega
      rcases ih (by rw [htot, hptr]) h with ⟨hcontents, hbufptr, hhdrlen, hsame⟩
      have hstep : SameAttrs st.1 (setDatalen { st.1 with mem := mem } (datalen st.1 + ieLen)) := rfl
      refine ⟨?_, hbufptr, hhdrlen, hstep.trans hsame⟩
      rw [hcontents, List.flatten_cons, ← List.append_assoc]
      congr 1
      rw [contents, htot, read_append, Nat.zero_add]
      congr 1
      exact read_congr fun i _ hi => hbelow i (by omega)

/-- Without a header the frame is its buffer. -/
theorem totlen_eq (hbufptr : pb.bufptr = 0) (hhdrlen : pb.hdrlen = 0) : totlen pb = pb.buflen := by
  simp [totlen, packetbufHdrlen, datalen, hbufptr, hhdrlen]

/-- The container is the data behind a descriptor with its length. -/
theorem wrapMlme_contents (hbufptr : pb.bufptr = 0) (hhdrlen : pb.hdrlen = 0)
    (h : wrapMlme ies pb = some pb') :
    contents pb' = createPayloadIeDescriptor .mlme (UInt16.ofNat (contents pb).length).toNat ++
        contents pb ∧ pb'.bufptr = 0 ∧ pb'.hdrlen = 0 ∧ SameAttrs pb pb' := by
  have hdata : dataptr pb = 0 := by simp [dataptr, packetbufHdrlen, hbufptr, hhdrlen]
  have htot := totlen_eq hbufptr hhdrlen
  rcases Option.bind_eq_some_iff.mp h with ⟨⟨mem, n⟩, hmlme, h⟩
  cases h
  refine ⟨?_, hbufptr, hhdrlen, rfl⟩
  rw [createIeMlme] at hmlme
  split at hmlme
  case isFalse => cases hmlme
  case isTrue =>
    rw [Option.some.injEq, Prod.mk.injEq] at hmlme
    rcases hmlme with ⟨rfl, _⟩
    have hlen : (contents pb).length = pb.buflen := by
      rw [contents, length_read, htot]
    have hnew : totlen (setDatalen pb (pb.buflen + 2)) = 2 + pb.buflen :=
      (@totlen_eq (setDatalen pb (pb.buflen + 2)) hbufptr hhdrlen).trans (Nat.add_comm _ _)
    have hread := read_write_move pb.mem (dataptr pb) pb.buflen
      (createPayloadIeDescriptor .mlme (UInt16.ofNat (contents pb).length).toNat)
    rw [hlen] at hread ⊢
    change Memory.read (Memory.write _ (dataptr pb) _) 0 (totlen (setDatalen pb (pb.buflen + 2))) = _
    rw [hnew, contents, htot]
    rw [hdata] at hread ⊢
    exact hread

/-- The termination is in front of the data, unless the packet is too long for any header. -/
theorem terminateHeader_contents (h : terminateHeader pb = some pb') :
    SameAttrs pb pb' ∧ (packetbufSize < 2 + totlen pb' ∨
      contents pb' = createHeaderIeDescriptor .headerListTermination1 0 ++ contents pb ∧
        pb'.bufptr = pb.bufptr ∧ pb'.hdrlen = pb.hdrlen + 2) := by
  rcases Option.bind_eq_some_iff.mp h with ⟨⟨mem, n⟩, hterm, h⟩
  cases h
  rw [createIeHeaderListTermination1, createHeaderIe] at hterm
  split at hterm
  case isFalse => cases hterm
  case isTrue =>
    rw [Option.some.injEq, Prod.mk.injEq] at hterm
    rcases hterm with ⟨rfl, _⟩
    cases halloc : hdralloc pb 2 with
    | none =>
      refine ⟨rfl, .inl ?_⟩
      rw [hdralloc] at halloc
      split at halloc
      case isTrue hfull => exact hfull
      case isFalse => cases halloc
    | some pb₁ =>
      refine ⟨(sameAttrs_hdralloc halloc).trans rfl, .inr ?_⟩
      rcases hdralloc_eq_some halloc with ⟨_, _, hbufptr, _, hhdrlen⟩
      exact ⟨hdralloc_write halloc, hbufptr, hhdrlen⟩

end Bytes

/-! ## The elements of a beacon -/

/-- The sub-element of a hopping sequence. -/
def hoppingSubie (ies : Ies) : Subie where
  element := .channelHoppingSequence
  content := (hoppingContent ies).take (hoppingLen ies)
  writes :=
    .hoppingSequenceId ies.ieChannelHoppingSequenceId ::
      if ies.ieChannelHoppingSequenceId = 0 then []
      else [.hoppingSequenceLen ies.ieHoppingSequenceLen, .hoppingSequenceList
        ((List.range ies.ieHoppingSequenceLen.toNat).map (ies.ieHoppingSequenceList.getD · 0))]

/-- The sub-element of a slotframe. -/
def slotframeSubie (ies : Ies) : Subie where
  element := .tschSlotframeAndLink
  content := slotframeContent ies.ieTschSlotframeAndLink
  writes :=
    let sf := ies.ieTschSlotframeAndLink
    if sf.numSlotframes = 0 then []
    else [.slotframeAndLink sf.numSlotframes sf.slotframeHandle sf.slotframeSize sf.numLinks
      ((List.range sf.numLinks.toNat).map (sf.links.getD · ⟨0, 0, 0⟩))]

/-- The sub-element of the timing. -/
def timeslotSubie (ies : Ies) : Subie where
  element := .tschTimeslot
  content := timeslotContent ies
  writes :=
    .timeslotId ies.ieTschTimeslotId ::
      if ies.ieTschTimeslotId = 0 then []
      else [.timeslot ((List.range tschTsElementsCount).map (ies.ieTschTimeslot.getD · 0))]

/-- The sub-elements behind the first one. -/
def ebTail (ies : Ies) : List Subie :=
  [timeslotSubie ies, hoppingSubie ies, slotframeSubie ies,
    ⟨.sequenceNumber, le16 ies.ieSequenceNumber.toNat, [.sequenceNumber ies.ieSequenceNumber]⟩,
    ⟨.rank, [ies.ieRank], [.rank ies.ieRank]⟩,
    ⟨.timeSource, [ies.ieTimeSource], [.timeSource ies.ieTimeSource]⟩,
    ⟨.scheduleVersion, [ies.ieScheduleVersion], [.scheduleVersion ies.ieScheduleVersion]⟩,
    ⟨.schedulePackets, le16 ies.ieSchedulePackets.toNat, [.schedulePackets ies.ieSchedulePackets]⟩,
    ⟨.scheduleReceived,
      (List.range frame802154eIeScheduleBitVector).map (ies.ieScheduleReceived.getD · 0),
      [.scheduleReceived
        ((List.range frame802154eIeScheduleBitVector).map (ies.ieScheduleReceived.getD · 0))]⟩]

/-- The sub-element of the time. -/
def synchronizationSubie (ies : Ies) : Subie where
  element := .tschSynchronization
  content := synchronizationContent ies
  writes := [.synchronization ies.ieAsn ies.ieJoinPriority]

/-- The sub-elements of a beacon. -/
def ebSubies (ies : Ies) : List Subie := synchronizationSubie ies :: ebTail ies

section Elements

variable {ies : Ies} {rest : List UInt8}

/-- Every writer of a beacon leaves its sub-element. -/
theorem ebWriters_append (ies : Ies) :
    List.Forall₂ Appends (ebWriters ies) ((ebSubies ies).map Subie.bytes) := by
  have hhop : Appends (createIeTschChannelHoppingSequence ies) (hoppingSubie ies).bytes := by
    have hle : hoppingLen ies ≤ (hoppingContent ies).length := by
      rw [length_hoppingContent, hoppingLen]
      split <;> omega
    have h := @createIeTschChannelHoppingSequence_appends ies
    rw [Subie.bytes, if_pos (show (hoppingSubie ies).element ∈ mlmeLongIes from .head _)]
    simp only [hoppingSubie, List.length_take, min_eq_left hle]
    exact h
  refine .cons createMlmeShortIe_appends (.cons createMlmeShortIe_appends (.cons hhop
    (.cons createIeTschSlotframeAndLink_appends ?_)))
  exact .cons createMlmeShortIe_appends (.cons createMlmeShortIe_appends
    (.cons createMlmeShortIe_appends (.cons createMlmeShortIe_appends
      (.cons createMlmeShortIe_appends (.cons createMlmeShortIe_appends .nil)))))

/-- The synchronisation IE is read back. -/
theorem parseSynchronization_content (ies : Ies) (rest : List UInt8) :
    parseSynchronization (synchronizationContent ies ++ rest) 6 =
      .ok [.synchronization ies.ieAsn ies.ieJoinPriority] := by
  change Except.ok [Write.synchronization ⟨UInt32.ofNat (dword _ _ _ _), _⟩ _] = _
  rw [dword_le32 ies.ieAsn.ls4b.toNat_lt, UInt32.ofNat_toNat]

/-- A number that was appended is read back. -/
theorem read16_append (pre rest : List UInt8) {n : ℕ} (h : n < 65536) :
    read16 (pre ++ (le16 n ++ rest)) pre.length = .ok n := by
  rw [read16_of_lt (by simp; omega), List.getD_append_right _ _ _ _ (le_refl _),
    List.getD_append_right _ _ _ _ (Nat.le_add_right _ 1), Nat.sub_self,
    Nat.add_sub_cancel_left]
  exact congrArg Except.ok (word_le16 h)

/-- The words of a list, one behind the other. -/
theorem read16_flatMap (pre rest : List UInt8) {f : ℕ → ℕ} {n i : ℕ} (hi : i < n)
    (h : f i < 65536) :
    read16 (pre ++ (List.range n).flatMap (fun i => le16 (f i)) ++ rest) (pre.length + 2 * i) =
      .ok (f i) := by
  have hsplit : ∃ rest', (List.range n).flatMap (fun i => le16 (f i)) =
      (List.range i).flatMap (fun i => le16 (f i)) ++ (le16 (f i) ++ rest') := by
    rcases Nat.exists_eq_add_of_lt hi with ⟨k, rfl⟩
    rw [Nat.add_assoc, List.range_add, List.flatMap_append, Nat.add_comm k 1, List.range_add,
      List.map_append, List.flatMap_append]
    exact ⟨_, rfl⟩
  rcases hsplit with ⟨rest', hsplit⟩
  have hlen : (pre ++ (List.range i).flatMap fun i => le16 (f i)).length = pre.length + 2 * i := by
    rw [List.length_append, length_flatMap_le16]
  rw [hsplit, ← hlen, ← List.append_assoc, List.append_assoc _ _ rest, List.append_assoc _ _ rest]
  exact read16_append _ _ h

/-- The timeslot IE is read back. -/
theorem parseTimeslot_content (ies : Ies) (rest : List UInt8) :
    parseTimeslot (timeslotContent ies ++ rest) (timeslotContent ies).length =
      .ok (timeslotSubie ies).writes := by
  by_cases hid : ies.ieTschTimeslotId = 0
  · simp only [timeslotContent, timeslotSubie, if_pos hid]
    rfl
  · have hlen : (timeslotContent ies).length = 25 := by
      rw [timeslotContent, if_neg hid, List.length_cons, length_flatMap_le16]
      rfl
    rw [parseTimeslot, hlen, if_neg (by decide), if_pos rfl]
    simp only [timeslotContent, timeslotSubie, if_neg hid]
    rw [mapM_ok (g := fun i => (ies.ieTschTimeslot.getD i 0).toNat)]
    · change Except.ok [_, Write.timeslot (List.map UInt16.ofNat (List.map _ _))] = _
      rw [List.map_map]
      simp only [Function.comp_def, UInt16.ofNat_toNat]
    · intro i hi
      rw [List.mem_range] at hi
      exact read16_flatMap [ies.ieTschTimeslotId] rest hi (UInt16.toNat_lt _)

/-- The hopping sequence is read back. -/
theorem parseHopping_content (hlen : ies.ieHoppingSequenceLen.toNat ≤ tschHoppingSequenceMaxLen)
    (rest : List UInt8) :
    parseMlmeLongIe ((hoppingSubie ies).content ++ rest) (hoppingSubie ies).content.length
        .channelHoppingSequence = .ok (hoppingSubie ies).writes := by
  -- The identity alone, or the whole sequence.
  by_cases hid : ies.ieChannelHoppingSequenceId = 0
  · simp only [hoppingSubie, hoppingLen, if_pos hid]
    rfl
  · have hcontent : (hoppingSubie ies).content = hoppingContent ies := by
      simp only [hoppingSubie, hoppingLen, if_neg hid]
      rw [← length_hoppingContent, List.take_length]
    have hwrites : (hoppingSubie ies).writes = [.hoppingSequenceId ies.ieChannelHoppingSequenceId,
        .hoppingSequenceLen ies.ieHoppingSequenceLen, .hoppingSequenceList
          ((List.range ies.ieHoppingSequenceLen.toNat).map
            (ies.ieHoppingSequenceList.getD · 0))] := by
      simp only [hoppingSubie, if_neg hid]
    -- The length stands behind the fixed fields, the list behind it.
    have hread : read16 (hoppingContent ies ++ rest) 8 = .ok ies.ieHoppingSequenceLen.toNat := by
      have h := read16_append [ies.ieChannelHoppingSequenceId, 0, 0, 0, 0, 0, 0, 0]
        ((List.range ies.ieHoppingSequenceLen.toNat).map (ies.ieHoppingSequenceList.getD · 0) ++
          [0, 0] ++ rest) ies.ieHoppingSequenceLen.toNat_lt
      rw [List.append_assoc] at h
      rw [hoppingContent, List.append_assoc, List.append_assoc, List.append_assoc]
      exact h
    have hlist : readBytes (hoppingContent ies ++ rest) 10 ies.ieHoppingSequenceLen.toNat =
        .ok ((List.range ies.ieHoppingSequenceLen.toNat).map
          (ies.ieHoppingSequenceList.getD · 0)) := by
      rw [readBytes_of_le (by rw [List.length_append, length_hoppingContent]; omega)]
      congr 1
      have hdrop : (hoppingContent ies ++ rest).drop 10 =
          (List.range ies.ieHoppingSequenceLen.toNat).map (ies.ieHoppingSequenceList.getD · 0) ++
            ([0, 0] ++ rest) := by
        simp [hoppingContent, le16]
      rw [hdrop, List.take_left' (by simp)]
    rw [hcontent, hwrites, parseMlmeLongIe, length_hoppingContent, if_pos (by omega)]
    have hbyte : readByte (hoppingContent ies ++ rest) 0 = .ok ies.ieChannelHoppingSequenceId := rfl
    simp only [hbyte, hread, hlist, bind, Except.bind, pure, Except.pure]
    rw [if_pos (by omega), if_pos ⟨hlen, trivial⟩, UInt16.ofNat_toNat]

/-- A slotframe IE without slotframe is read back. -/
theorem parseSlotframe_none (h : ies.ieTschSlotframeAndLink.numSlotframes = 0)
    (hrest : 4 ≤ rest.length) :
    parseSlotframeAndLink ((slotframeSubie ies).content ++ rest) (slotframeSubie ies).content.length =
      .ok (slotframeSubie ies).writes := by
  have hcontent : (slotframeSubie ies).content = [0] := by
    simp [slotframeSubie, slotframeContent, h]
  have hwrites : (slotframeSubie ies).writes = [] := by
    simp [slotframeSubie, h]
  rw [hcontent, hwrites, parseSlotframeAndLink, if_pos (by decide),
    readByte_of_lt (by simp), readByte_of_lt (by simp; omega)]
  rfl

/-- A slotframe IE with one slotframe is read back. -/
theorem parseSlotframe_one {sf : SlotframeAndLinks} (h : ies.ieTschSlotframeAndLink = sf)
    (hone : sf.numSlotframes = 1) (hlinks : sf.numLinks = 1) :
    parseSlotframeAndLink ((slotframeSubie ies).content ++ rest) (slotframeSubie ies).content.length =
      .ok (slotframeSubie ies).writes := by
  rcases sf with ⟨ns, handle, size, nl, links⟩
  subst hone hlinks
  simp only [slotframeSubie, h]
  change Except.ok [Write.slotframeAndLink 1 handle (UInt16.ofNat (word _ _)) 1
    [⟨UInt16.ofNat (word _ _), UInt16.ofNat (word _ _), _⟩]] = _
  rw [word_le16 size.toNat_lt, word_le16 (UInt16.toNat_lt _), word_le16 (UInt16.toNat_lt _)]
  simp only [UInt16.ofNat_toNat]
  rfl

/-- A record that its sub-elements tell as a whole: what none of them carries is zero. -/
structure Prepared (ies : Ies) : Prop where
  hopping_le : ies.ieHoppingSequenceLen.toNat ≤ tschHoppingSequenceMaxLen
  slotframe : ies.ieTschSlotframeAndLink.numSlotframes = 0 ∨
    ies.ieTschSlotframeAndLink.numSlotframes = 1 ∧ ies.ieTschSlotframeAndLink.numLinks = 1
  others_eq : ies.ieTimeCorrection = 0 ∧ ies.ieIsNack = 0 ∧ ies.ieMlmeLen = 0 ∧
    ies.ieOverhearing = 0 ∧ ies.sixtopIeContentPtr = 0 ∧ ies.sixtopIeContentLen = 0
  timing_eq : (if ies.ieTschTimeslotId = 0 then Ies.zero.ieTschTimeslot
    else (List.range tschTsElementsCount).map (ies.ieTschTimeslot.getD · 0)) = ies.ieTschTimeslot
  hopping_zero : ies.ieChannelHoppingSequenceId = 0 → ies.ieHoppingSequenceLen = 0 ∧
    ies.ieHoppingSequenceList = Ies.zero.ieHoppingSequenceList
  hopping_eq : ies.ieChannelHoppingSequenceId ≠ 0 →
    (List.range ies.ieHoppingSequenceLen.toNat).map (ies.ieHoppingSequenceList.getD · 0) ++
      Ies.zero.ieHoppingSequenceList.drop ies.ieHoppingSequenceLen.toNat = ies.ieHoppingSequenceList
  slotframe_zero : ies.ieTschSlotframeAndLink.numSlotframes = 0 →
    ies.ieTschSlotframeAndLink = Ies.zero.ieTschSlotframeAndLink
  slotframe_eq : ies.ieTschSlotframeAndLink.numSlotframes ≠ 0 →
    (List.range ies.ieTschSlotframeAndLink.numLinks.toNat).map
        (ies.ieTschSlotframeAndLink.links.getD · ⟨0, 0, 0⟩) ++
      Ies.zero.ieTschSlotframeAndLink.links.drop ies.ieTschSlotframeAndLink.numLinks.toNat =
      ies.ieTschSlotframeAndLink.links
  received_eq : (List.range frame802154eIeScheduleBitVector).map (ies.ieScheduleReceived.getD · 0) =
    ies.ieScheduleReceived

/-- The length of the hopping sequence in the beacon. -/
theorem length_hoppingSubie (ies : Ies) : (hoppingSubie ies).content.length = hoppingLen ies := by
  have hle : hoppingLen ies ≤ (hoppingContent ies).length := by
    rw [length_hoppingContent, hoppingLen]
    split <;> omega
  simp only [hoppingSubie, List.length_take, min_eq_left hle]

/-- The parser reads every sub-element of a beacon. -/
theorem ebSubies_accepted (h : Prepared ies) : Accepted (ebSubies ies) [] := by
  have htime : (timeslotContent ies).length < 256 := by
    rw [timeslotContent]
    split
    · exact (by decide : 1 < 256)
    · rw [List.length_cons, length_flatMap_le16]
      decide
  have hhop : (hoppingSubie ies).content.length < 2048 := by
    have hle := h.hopping_le
    rw [length_hoppingSubie, hoppingLen, tschHoppingSequenceMaxLen] at *
    split <;> omega
  have hslot : (slotframeSubie ies).content.length < 256 := by
    rcases h.slotframe with h0 | ⟨h1, hl⟩
    · simp [slotframeSubie, slotframeContent, h0]
    · simp only [slotframeSubie]
      rw [length_slotframeContent (by rw [h1]; decide), h1, hl]
      decide
  refine ⟨.inl ⟨(by decide : Element.tschSynchronization ∈ mlmeShortIes),
      (by decide : 6 < 256), ?_⟩,
    .inl ⟨(by decide : Element.tschTimeslot ∈ mlmeShortIes), htime, ?_⟩,
    .inr ⟨.head _, hhop, ?_⟩,
    .inl ⟨(by decide : Element.tschSlotframeAndLink ∈ mlmeShortIes), hslot, ?_⟩, ?_⟩
  · rw [List.append_assoc]
    exact parseSynchronization_content _ _
  · rw [List.append_assoc]
    exact parseTimeslot_content _ _
  · rw [List.append_assoc]
    exact parseHopping_content h.hopping_le _
  · rw [List.append_assoc]
    rcases h.slotframe with h0 | ⟨h1, hl⟩
    · exact parseSlotframe_none h0 (by simp [subiesBytes, Subie.bytes]; omega)
    · exact parseSlotframe_one rfl h1 hl
  -- The others have a fixed length.
  refine ⟨.inl ⟨by simp [mlmeShortIes], (by decide : 2 < 256), ?_⟩,
    .inl ⟨by simp [mlmeShortIes], (by decide : 1 < 256), rfl⟩,
    .inl ⟨by simp [mlmeShortIes], (by decide : 1 < 256), rfl⟩,
    .inl ⟨by simp [mlmeShortIes], (by decide : 1 < 256), rfl⟩,
    .inl ⟨by simp [mlmeShortIes], (by decide : 2 < 256), ?_⟩,
    .inl ⟨by simp [mlmeShortIes], (by decide : 3 < 256), rfl⟩, trivial⟩
  · change Except.ok [Write.sequenceNumber (UInt16.ofNat (word _ _))] = _
    rw [word_le16 (UInt16.toNat_lt _), UInt16.ofNat_toNat]
  · change Except.ok [Write.schedulePackets (UInt16.ofNat (word _ _))] = _
    rw [word_le16 (UInt16.toNat_lt _), UInt16.ofNat_toNat]

variable {node : Node}

/-- The first elements of a list, by index. -/
theorem map_getD_range {α : Type} (l : List α) (d : α) {n : ℕ} (h : n ≤ l.length) :
    (List.range n).map (l.getD · d) = l.take n := by
  apply List.ext_getElem (by simp [h])
  intro i h₁ h₂
  rw [List.length_map, List.length_range] at h₁
  rw [List.getElem_map, List.getElem_range, List.getElem_take, List.getD_eq_getElem _ _ (by omega)]

/-- Every field of the record comes from one part of the node. -/
theorem ebIes_eq (h : ebIes node = some ies) : ∃ ieTimeSource, node.ieTimeSource = some ieTimeSource ∧
    ies = { Ies.zero with
      ieTschTimeslotId := (withTiming Ies.zero node.tschTiming).ieTschTimeslotId
      ieTschTimeslot := (withTiming Ies.zero node.tschTiming).ieTschTimeslot
      ieChannelHoppingSequenceId :=
        (withHoppingSequence Ies.zero node.tschHoppingSequence).ieChannelHoppingSequenceId
      ieHoppingSequenceLen :=
        (withHoppingSequence Ies.zero node.tschHoppingSequence).ieHoppingSequenceLen
      ieHoppingSequenceList :=
        (withHoppingSequence Ies.zero node.tschHoppingSequence).ieHoppingSequenceList
      ieTschSlotframeAndLink := (withSlotframe Ies.zero node.slotframe0).ieTschSlotframeAndLink
      ieSequenceNumber := node.sequenceNumber + 1
      ieRank := node.tschRank
      ieTimeSource := ieTimeSource
      ieScheduleVersion := node.scheduleVersion
      ieSchedulePackets := node.schedulePackets
      ieScheduleReceived := node.scheduleReceived.bytes } := by
  rcases Option.map_eq_some_iff.mp h with ⟨ieTimeSource, hsource, rfl⟩
  refine ⟨ieTimeSource, hsource, ?_⟩
  cases node.slotframe0 <;> cases node.tschTiming <;> cases node.tschHoppingSequence with
  | none => rfl
  | some hopping =>
    simp only [withSlotframe, withHoppingSequence, withTiming]
    split <;> rfl

/-- The hopping sequence is the one of the node. -/
theorem hopping_prepared (hopping : HoppingSequence)
    (h : hopping.length.toNat ≤ tschHoppingSequenceMaxLen) :
    (List.range hopping.length.toNat).map ((hopping.channels.take hopping.length.toNat ++
        Ies.zero.ieHoppingSequenceList.drop hopping.length.toNat).getD · 0) =
      hopping.channels.take hopping.length.toNat := by
  have hlen : (hopping.channels.take hopping.length.toNat).length = hopping.length.toNat := by
    rw [List.length_take, hopping.length_channels, min_eq_left h]
  rw [map_getD_range _ _ (by rw [List.length_append, hlen]; omega), List.take_left' hlen]

/-- The elements of a node are those of a beacon. -/
theorem ebIes_prepared (h : ebIes node = some ies) : Prepared ies := by
  rcases ebIes_eq h with ⟨ieTimeSource, _, rfl⟩
  -- One case for each group of elements the node sets.
  constructor
  case hopping_le =>
    cases node.tschHoppingSequence with
    | none => exact Nat.zero_le _
    | some hopping =>
      simp only [withHoppingSequence]
      split
      case isTrue hle => exact hle
      case isFalse => exact Nat.zero_le _
  case slotframe =>
    cases node.slotframe0 with
    | none => exact .inl rfl
    | some sf0 => exact .inr ⟨rfl, rfl⟩
  case others_eq => exact ⟨rfl, rfl, rfl, rfl, rfl, rfl⟩
  case timing_eq =>
    cases node.tschTiming with
    | none => rfl
    | some timing =>
      change (List.range tschTsElementsCount).map (timing.us.getD · 0) = timing.us
      rw [← timing.length_us, map_getD_range _ _ (le_refl _), List.take_length]
  case hopping_zero =>
    cases node.tschHoppingSequence with
    | none => exact fun _ => ⟨rfl, rfl⟩
    | some hopping =>
      simp only [withHoppingSequence]
      split
      · exact fun h => absurd h (by decide : (1 : UInt8) ≠ 0)
      · exact fun _ => ⟨rfl, rfl⟩
  case hopping_eq =>
    cases node.tschHoppingSequence with
    | none => exact fun h => absurd rfl h
    | some hopping =>
      simp only [withHoppingSequence]
      split
      case isTrue hle =>
        intro _
        dsimp only
        rw [hopping_prepared hopping hle]
      case isFalse => exact fun h => absurd rfl h
  case slotframe_zero =>
    cases node.slotframe0 with
    | none => exact fun _ => rfl
    | some sf0 => exact fun h => absurd h (by decide : (1 : UInt8) ≠ 0)
  case slotframe_eq =>
    cases node.slotframe0 with
    | none => exact fun h => absurd rfl h
    | some sf0 => exact fun _ => rfl
  case received_eq =>
    dsimp only
    rw [← node.scheduleReceived.length_bytes, map_getD_range _ _ (le_refl _), List.take_length]

section Assign

variable {base : Ies}

/-- The timeslot is recorded. -/
theorem foldl_timeslotSubie (h : Prepared ies)
    (hbase : base.ieTschTimeslot = Ies.zero.ieTschTimeslot) :
    (timeslotSubie ies).writes.foldl Ies.assign base =
      { base with
        ieTschTimeslotId := ies.ieTschTimeslotId, ieTschTimeslot := ies.ieTschTimeslot } := by
  rw [← h.timing_eq]
  simp only [timeslotSubie]
  split
  · rw [← hbase]
    rfl
  · rfl

/-- The hopping sequence is recorded. -/
theorem foldl_hoppingSubie (h : Prepared ies) (hlen : base.ieHoppingSequenceLen = 0)
    (hlist : base.ieHoppingSequenceList = Ies.zero.ieHoppingSequenceList) :
    (hoppingSubie ies).writes.foldl Ies.assign base =
      { base with
        ieChannelHoppingSequenceId := ies.ieChannelHoppingSequenceId
        ieHoppingSequenceLen := ies.ieHoppingSequenceLen
        ieHoppingSequenceList := ies.ieHoppingSequenceList } := by
  simp only [hoppingSubie]
  split
  case isTrue hid =>
    rw [(h.hopping_zero hid).1, (h.hopping_zero hid).2, ← hlen, ← hlist]
    rfl
  case isFalse hid =>
    simp only [List.foldl_cons, List.foldl_nil, Ies.assign, List.length_map, List.length_range,
      hlist]
    rw [h.hopping_eq hid]

/-- The slotframe is recorded. -/
theorem foldl_slotframeSubie (h : Prepared ies)
    (hbase : base.ieTschSlotframeAndLink = Ies.zero.ieTschSlotframeAndLink) :
    (slotframeSubie ies).writes.foldl Ies.assign base =
      { base with ieTschSlotframeAndLink := ies.ieTschSlotframeAndLink } := by
  simp only [slotframeSubie]
  split
  case isTrue hns =>
    rw [h.slotframe_zero hns, ← hbase]
    rfl
  case isFalse hns =>
    simp only [List.foldl_cons, List.foldl_nil, Ies.assign, List.length_map, List.length_range,
      hbase]
    rw [h.slotframe_eq hns]

/-- The receiver's record is the one the beacon was made from. -/
theorem containerIes_ebSubies (h : Prepared ies) :
    containerIes (ebSubies ies) { Ies.zero with ieJoinPriority := 0xff } =
      { ies with iePayloadIeOffset := 2 } := by
  simp only [containerIes, ebSubies, ebTail, List.flatMap_cons, List.foldl_append]
  rw [foldl_timeslotSubie h, foldl_hoppingSubie h, foldl_slotframeSubie h, h.received_eq]
  · rcases h.others_eq with ⟨h₁, h₂, h₃, h₄, h₅, h₆⟩
    simp only [List.flatMap_nil, List.foldl_cons, List.foldl_nil, Ies.assign, synchronizationSubie,
      Ies.zero, h₁, h₂, h₃, h₄, h₅, h₆]
  all_goals rfl

end Assign

end Elements

/-! ## The round trip -/

section RoundTrip

variable {panId : UInt16} {macDsn : UInt8} {node : Node} {pb : Packetbuf} {eb : Eb}

/-- The control field of a beacon. -/
def ebFcf : Fcf where
  frameType := beaconFrame
  securityEnabled := false
  framePending := false
  ackRequired := false
  panidCompression := true
  sequenceNumberSuppression := true
  ieListPresent := true
  destAddrMode := shortAddrMode
  frameVersion := ieee802154v2015
  srcAddrMode := longAddrMode

/-- The header of a beacon has 14 bytes. -/
theorem create_of_ebFcf {params : Frame} (h : params.fcf = ebFcf) :
    (create params).1.fcf = ebFcf ∧ Frame802154.hdrlen params = 14 ∧
      ¬ Skewed (create params).1.fcf := by
  have hfcf : (create params).1.fcf = ebFcf := by
    simp only [create, fieldLen, h]
    rfl
  refine ⟨hfcf, ?_, ?_⟩
  · simp only [Frame802154.hdrlen, fieldLen, h]
    rfl
  · rw [hfcf]
    rintro ⟨_, hdest, _⟩
    exact absurd hdest (by decide)

/-- The control field of a beacon. -/
theorem setupParams_fcf (hdest : pb.receiver = linkaddrNull) (htype : pb.frameType = 0)
    (hmeta : pb.macMetadata = 1) (hnoSrc : pb.macNoSrcAddr = 0) (hnoDest : pb.macNoDestAddr = 0) :
    (setupParams panId (assignSeqno macDsn pb)).fcf = ebFcf := by
  have hattrs : ∀ pb : Packetbuf, pb.receiver = linkaddrNull → pb.frameType = 0 →
      pb.macMetadata = 1 → pb.macNoSrcAddr = 0 → pb.macNoDestAddr = 0 →
      (setupParams panId pb).fcf = ebFcf := by
    intro pb hdest htype hmeta hnoSrc hnoDest
    simp only [setupParams, holdsBroadcast, hdest, htype, hmeta, hnoSrc, hnoDest]
    rfl
  unfold assignSeqno
  split
  · exact hattrs _ hdest htype hmeta hnoSrc hnoDest
  · exact hattrs _ hdest htype hmeta hnoSrc hnoDest

/-- A beacon that was created: a header of 14 bytes in front of its elements. -/
theorem createEb_eq_some (h : createEb panId macDsn node pb = some eb) :
    ∃ ies params, ebIes node = some ies ∧ params.fcf = ebFcf ∧
      copyto eb.pb = (create params).2 ++ containerBytes (ebSubies ies) ∧
      eb.len = 14 + (containerBytes (ebSubies ies)).length ∧ eb.len ≤ packetbufSize ∧
      eb.hdrLen = 16 ∧ eb.tschSyncIeOffset = 18 := by
  -- The elements, the container, the header termination and the frame header, one after the other.
  rcases Option.bind_eq_some_iff.mp h with ⟨ies, hies, h⟩
  rcases Option.bind_eq_some_iff.mp h with ⟨⟨pb₁, p⟩, hfold, h⟩
  rcases Option.bind_eq_some_iff.mp h with ⟨pb₂, hwrap, h⟩
  rcases Option.bind_eq_some_iff.mp h with ⟨pb₃, hterm, h⟩
  rcases Option.bind_eq_some_iff.mp h with ⟨⟨pb₄, n⟩, hframe, h⟩
  rw [Option.pure_def, Option.some.injEq] at h
  subst h
  -- What each of them puts in front is read off the buffer.
  rcases foldlM_appendIe (ebWriters_append ies) rfl hfold with ⟨hc₁, hb₁, hh₁, hs₁⟩
  rcases wrapMlme_contents hb₁ hh₁ hwrap with ⟨hc₂, hb₂, hh₂, hs₂⟩
  rcases terminateHeader_contents hterm with ⟨hs₃, hc₃⟩
  have hs := (hs₁.trans hs₂).trans hs₃
  rcases framerCreate_contents hframe with ⟨hn, hroom, hc₄, hb₄, hl₄, hh₄⟩
  have hfcf : (setupParams panId (assignSeqno macDsn { pb₃ with
      frameType := beaconFrame.val.toUInt16, macMetadata := 1, sender := node.linkaddrNodeAddr,
      receiver := linkaddrNull })).fcf = ebFcf := by
    refine setupParams_fcf rfl rfl rfl ?_ ?_
    · rw [hs]
      rfl
    · rw [hs]
      rfl
  generalize setupParams panId (assignSeqno macDsn _) = params at *
  rcases create_of_ebFcf hfcf with ⟨_, hhdr, _⟩
  rw [hhdr] at hn
  subst hn
  rcases hc₃ with hfull | ⟨hc₃, hb₃, hh₃⟩
  · -- The termination has overwritten the data, but no header fits any more.
    change 14 + totlen pb₃ ≤ _ at hroom
    omega
  change 14 + totlen pb₃ ≤ _ at hroom
  change contents pb₄ = _ ++ contents pb₃ at hc₄
  have hsubies : contents pb₁ = subiesBytes (ebSubies ies) := by
    have hclear : contents (clear pb) = [] := rfl
    rw [hc₁, hclear, List.nil_append, subiesBytes, List.flatMap_def]
  have hlen₃ : totlen pb₃ = 4 + (subiesBytes (ebSubies ies)).length := by
    rw [← length_contents, hc₃, hc₂, hsubies, List.length_append, List.length_append]
    rw [← Nat.add_assoc]
    rfl
  have hcontainer : contents pb₃ = containerBytes (ebSubies ies) := by
    have hsmall : (UInt16.ofNat (subiesBytes (ebSubies ies)).length).toNat =
        (subiesBytes (ebSubies ies)).length := by
      rw [UInt16.toNat_ofNat', Nat.mod_eq_of_lt]
      rw [packetbufSize] at hroom
      omega
    rw [hc₃, hc₂, hsubies, hsmall, containerBytes, List.append_assoc]
  have htot₄ : totlen pb₄ = 14 + (containerBytes (ebSubies ies)).length := by
    rw [← length_contents, hc₄, List.length_append, length_create, hhdr, hcontainer]
  have hhdr₄ : packetbufHdrlen pb₄ = 16 := by
    rw [packetbufHdrlen, hb₄, hh₄]
    change pb₃.bufptr + (pb₃.hdrlen + 14) = 16
    rw [hb₃, hh₃, hb₂, hh₂]
  have hle : totlen pb₄ ≤ packetbufSize := by
    rw [htot₄, ← hcontainer, length_contents]
    exact hroom
  refine ⟨ies, params, hies, hfcf, ?_, htot₄, hle, ?_, ?_⟩
  · have hbufptr : pb₄.bufptr = 0 := hb₄.trans (hb₃.trans hb₂)
    rw [← hcontainer, ← hc₄]
    exact copyto_eq_contents hbufptr hle
  · simp only [hhdr₄]
    rfl
  · simp only [hhdr₄]
    rfl

/-- The elements of a beacon around the one that is updated. -/
theorem containerBytes_ebSubies (ies : Ies) : ∃ pre : List UInt8, pre.length = 4 ∧
    ∀ (asn : Asn) (joinPriority : UInt8),
      containerBytes (ebSubies { ies with ieAsn := asn, ieJoinPriority := joinPriority }) =
        pre ++ ((synchronizationSubie
          { ies with ieAsn := asn, ieJoinPriority := joinPriority }).bytes ++
            subiesBytes (ebTail ies)) := by
  have hlen : ∀ s : Subie, s.content.length = 6 →
      (subiesBytes (s :: ebTail ies)).length = 8 + (subiesBytes (ebTail ies)).length := by
    intro s hs
    rw [subiesBytes, List.flatMap_cons, List.length_append, length_bytes, hs]
    rfl
  refine ⟨createHeaderIeDescriptor .headerListTermination1 0 ++
    createPayloadIeDescriptor .mlme (8 + (subiesBytes (ebTail ies)).length), rfl, ?_⟩
  intro asn joinPriority
  have h := hlen (synchronizationSubie { ies with ieAsn := asn, ieJoinPriority := joinPriority }) rfl
  rw [containerBytes, ebSubies]
  change _ ++ createPayloadIeDescriptor .mlme (subiesBytes (_ :: ebTail ies)).length ++
    subiesBytes (_ :: ebTail ies) = _
  rw [h]
  rfl

/-- The update writes ASN and join priority. -/
theorem updateEb_eq {asn : Asn} {joinPriority : UInt8} {m : Memory} {buf bufSize : ℕ}
    {offset : UInt8} (ies : Ies) (h : offset.toNat + 8 ≤ bufSize) :
    updateEb asn joinPriority m buf bufSize offset = m.write (buf + offset.toNat)
      (synchronizationSubie { ies with ieAsn := asn, ieJoinPriority := joinPriority }).bytes := by
  rw [updateEb, createIeTschSynchronization, createMlmeShortIe, if_neg (by omega)]
  rfl

/-- A receiver of a beacon's bytes. -/
theorem parseEb_of_read {sixtop : Bool} {m : Memory} {buf len : ℕ} {params frame : Frame} {ies : Ies}
    (hfcf : params.fcf = ebFcf) (hies : Prepared ies) (hlen : len ≤ packetbufSize)
    (hsize : len = 14 + (containerBytes (ebSubies ies)).length)
    (h : m.read buf len = (create params).2 ++ containerBytes (ebSubies ies)) :
    ∃ r, parseEb sixtop m buf len frame = some r ∧ r.currLen.toNat = len ∧ r.hdrLen = 16 ∧
      r.ies = { ies with iePayloadIeOffset := 2 } := by
  rcases create_of_ebFcf hfcf with ⟨hcreate, hhdr, hskew⟩
  have hlist := length_create params
  rw [hhdr] at hlist
  rw [packetbufSize] at hlen
  rw [hsize, ← hlist, ← List.length_append] at h
  -- The header and the elements are parsed from their own part of the frame.
  rcases read_append_inj h with ⟨hheader, hcontainer⟩
  have hround := @parse_of_read m frame params buf len hheader (by omega) hskew
  have hparse := parse_container_end sixtop { Ies.zero with ieJoinPriority := 0xff }
    (by simp [ebSubies]) (ebSubies_accepted hies) (by omega)
  rw [containerIes_ebSubies hies] at hparse
  have hret := hround.length_eq
  have hread := hround.fcf_eq
  rw [hhdr] at hret
  rw [hcreate] at hread
  rw [hlist] at hcontainer
  rw [parseEb]
  generalize Frame802154.parse m buf len frame = r at hret hread ⊢
  rcases r with ⟨frame', ret⟩
  dsimp only at hret hread ⊢
  subst hret
  rw [if_neg (by decide), if_neg (by rw [hread]; decide), hread]
  have hrest : len - (UInt8.ofNat 14).toNat = (containerBytes (ebSubies ies)).length := by
    rw [hsize]
    exact Nat.add_sub_cancel_left _ _
  have hbuf : m.read (buf + (UInt8.ofNat 14).toNat) (len - (UInt8.ofNat 14).toNat) =
      containerBytes (ebSubies ies) := by
    rw [hrest]
    exact hcontainer
  simp only [ebFcf, if_true, hbuf, hparse.1, hparse.2]
  refine ⟨_, rfl, ?_, rfl, rfl⟩
  change (UInt8.ofNat 14 + UInt8.ofNat (containerBytes (ebSubies ies)).length).toNat = len
  rw [UInt8.toNat_add, UInt8.toNat_ofNat', UInt8.toNat_ofNat']
  omega

/-- A record that says about a node, and about the time it was sent, what its beacon is for. -/
structure Announces (node : Node) (asn : Asn) (joinPriority : UInt8) (ies : Ies) : Prop where
  asn_eq : ies.ieAsn = asn
  joinPriority_eq : ies.ieJoinPriority = joinPriority
  /-- The number is incremented for every beacon, before it is used. -/
  sequenceNumber_eq : ies.ieSequenceNumber = node.sequenceNumber + 1
  rank_eq : ies.ieRank = node.tschRank
  timeSource_eq :
    ∃ addr, (if node.tschIsCoordinator then some node.linkaddrNodeAddr else node.timeSource) =
      some addr ∧ ies.ieTimeSource = addr.u8.getD node.nodeIdIndex 0
  scheduleVersion_eq : ies.ieScheduleVersion = node.scheduleVersion
  schedulePackets_eq : ies.ieSchedulePackets = node.schedulePackets
  scheduleReceived_eq : ies.ieScheduleReceived = node.scheduleReceived.bytes
  timing : ∀ timing, node.tschTiming = some timing →
    ies.ieTschTimeslotId = 1 ∧ ies.ieTschTimeslot = timing.us
  hopping : ∀ hopping, node.tschHoppingSequence = some hopping →
    hopping.length.toNat ≤ tschHoppingSequenceMaxLen →
    ies.ieChannelHoppingSequenceId = 1 ∧ ies.ieHoppingSequenceLen = hopping.length ∧
      ies.ieHoppingSequenceList.take hopping.length.toNat =
        hopping.channels.take hopping.length.toNat
  slotframe : ∀ sf0, node.slotframe0 = some sf0 →
    let sf := ies.ieTschSlotframeAndLink
    sf.numSlotframes = 1 ∧ sf.slotframeHandle = sf0.handle.toUInt8 ∧
      sf.slotframeSize = sf0.size ∧ sf.numLinks = 1 ∧ sf.links.head? = some sf0.link0

/-- The record of a beacon announces its node. -/
theorem ebIes_announces {ies : Ies} (h : ebIes node = some ies) (asn : Asn) (joinPriority : UInt8)
    (offset : UInt8) : Announces node asn joinPriority
      { ies with ieAsn := asn, ieJoinPriority := joinPriority, iePayloadIeOffset := offset } := by
  rcases ebIes_eq h with ⟨ieTimeSource, hsource, rfl⟩
  refine ⟨rfl, rfl, rfl, rfl, ?_, rfl, rfl, rfl, ?_, ?_, ?_⟩
  · rw [Node.ieTimeSource] at hsource
    split at hsource
    case isTrue hcoord => exact ⟨_, if_pos hcoord, (Option.some.inj hsource).symm⟩
    case isFalse hcoord =>
      rcases Option.map_eq_some_iff.mp hsource with ⟨addr, haddr, hbyte⟩
      exact ⟨addr, (if_neg hcoord).trans haddr, hbyte.symm⟩
  · intro timing htiming
    rw [htiming]
    exact ⟨rfl, rfl⟩
  · intro hopping hhopping hle
    have hlen : (hopping.channels.take hopping.length.toNat).length = hopping.length.toNat := by
      rw [List.length_take, hopping.length_channels, min_eq_left hle]
    rw [hhopping]
    simp only [withHoppingSequence, if_pos hle]
    exact ⟨trivial, trivial, List.take_left' hlen⟩
  · intro sf0 hsf0
    rw [hsf0]
    exact ⟨rfl, rfl, rfl, rfl, rfl⟩

/-- A beacon that was created and then given the time is read by a receiver as a whole, with
everything that was put into it: it announces the node. The update touches its eight bytes only,
and these are the synchronization element. -/
theorem parseEb_updateEb (sixtop : Bool) (panId : UInt16) (macDsn : UInt8) (node : Node)
    (pb : Packetbuf) (eb : Eb) (h : createEb panId macDsn node pb = some eb) (m : Memory) (buf : ℕ)
    (hm : m.read buf eb.len = copyto eb.pb) (asn : Asn) (joinPriority : UInt8) (frame : Frame) :
    ∃ ies r, ebIes node = some ies ∧
      let ies' := { ies with ieAsn := asn, ieJoinPriority := joinPriority }
      let m' := updateEb asn joinPriority m buf eb.len eb.tschSyncIeOffset
      let sync := buf + eb.tschSyncIeOffset.toNat
      m.read sync 8 = (synchronizationSubie ies).bytes ∧
      m'.read sync 8 = (synchronizationSubie ies').bytes ∧
      (∀ i, i < sync ∨ sync + 8 ≤ i → m' i = m i) ∧
      parseEb sixtop m' buf eb.len frame = some r ∧ r.currLen.toNat = eb.len ∧
      r.hdrLen = eb.hdrLen ∧ r.ies = { ies' with iePayloadIeOffset := 2 } ∧
      Announces node asn joinPriority r.ies := by
  rcases createEb_eq_some h with ⟨ies, params, hies, hfcf, hcopy, hlen, hle, hhdrLen, hoffset⟩
  rcases containerBytes_ebSubies ies with ⟨pre, hpre, hbytes⟩
  have hold := hbytes ies.ieAsn ies.ieJoinPriority
  have hnew := hbytes asn joinPriority
  have hprep : Prepared { ies with ieAsn := asn, ieJoinPriority := joinPriority } := by
    rcases ebIes_prepared hies with ⟨h₁, h₂, h₃, h₄, h₅, h₆, h₇, h₈, h₉⟩
    exact ⟨h₁, h₂, h₃, h₄, h₅, h₆, h₇, h₈, h₉⟩
  have hoff : eb.tschSyncIeOffset.toNat = ((create params).2 ++ pre).length := by
    rw [hoffset, List.length_append, length_create, (create_of_ebFcf hfcf).2.1, hpre]
    rfl
  have hsync : (synchronizationSubie ies).bytes.length = 8 := rfl
  have hsync' : ∀ asn joinPriority, (synchronizationSubie
      { ies with ieAsn := asn, ieJoinPriority := joinPriority }).bytes.length =
        (synchronizationSubie ies).bytes.length := fun _ _ => rfl
  have hsize : eb.len = ((create params).2 ++ containerBytes (ebSubies ies)).length := by
    rw [List.length_append, length_create, (create_of_ebFcf hfcf).2.1, hlen]
  have hsame : (containerBytes (ebSubies { ies with ieAsn := asn, ieJoinPriority := joinPriority
      })).length = (containerBytes (ebSubies ies)).length := by
    rw [hnew, List.length_append, List.length_append, hsync', ← List.length_append,
      ← List.length_append]
    exact congrArg List.length hold.symm
  have hroom : eb.tschSyncIeOffset.toNat + 8 ≤ eb.len := by
    have hlong := congrArg List.length hold
    rw [List.length_append, List.length_append] at hlong
    rw [hoff, hlen, List.length_append, length_create, (create_of_ebFcf hfcf).2.1]
    change (containerBytes (ebSubies ies)).length = pre.length + (8 + _) at hlong
    omega
  -- The frame before the update, cut around the element.
  rw [hcopy, hsize] at hm
  have hcut : (create params).2 ++ containerBytes (ebSubies ies) = ((create params).2 ++ pre) ++
      ((synchronizationSubie ies).bytes ++ subiesBytes (ebTail ies)) := by
    rw [List.append_assoc]
    exact congrArg _ hold
  rw [hcut] at hm
  have hpatch := read_write_patch (hsync' asn joinPriority) hm
  rw [← hoff, ← updateEb_eq ies hroom, List.append_assoc, ← hnew, List.length_append, hsame,
    ← List.length_append, ← hsize] at hpatch
  rcases @parseEb_of_read sixtop _ buf eb.len params frame _ hfcf hprep hle
    (by rw [hsame]; exact hlen) hpatch with ⟨r, hparse, hcurr, hhdr, hr⟩
  refine ⟨ies, r, hies, ?_, ?_, ?_, hparse, hcurr, hhdr.trans hhdrLen.symm, hr,
    hr ▸ ebIes_announces hies asn joinPriority 2⟩
  · have hmid := (read_append_inj (read_append_inj hm).2).1
    rw [← hoff] at hmid
    exact hmid
  · rw [updateEb_eq ies hroom]
    exact read_write_self _ _ _
  · intro i hi
    rw [updateEb_eq ies hroom]
    rcases hi with hi | hi
    · exact write_below hi
    · exact write_above hi

/-- A coordinator that sends its timing, its hopping sequence and no slotframe. -/
def coordinator : Node where
  tschTiming := some ⟨List.replicate tschTsElementsCount 1800, rfl⟩
  tschHoppingSequence := some ⟨[15, 20, 25, 26] ++ List.replicate 12 0, rfl, 4⟩
  slotframe0 := none
  sequenceNumber := 41
  tschRank := 3
  tschIsCoordinator := true
  linkaddrNodeAddr := ⟨[9, 0, 0, 0, 0, 0, 0, 0], rfl⟩
  timeSource := none
  scheduleVersion := 2
  schedulePackets := 513
  scheduleReceived := ⟨[1, 2, 3], rfl⟩
  nodeIdIndex := 0

/-- The beacon of a coordinator with packets. -/
theorem parseEb_coordinator : ∃ eb r, createEb 0xabcd 1 coordinator emptyPacketbuf = some eb ∧
    parseEb false (updateEb ⟨7, 1⟩ 5 eb.pb.mem 0 eb.len eb.tschSyncIeOffset) 0 eb.len
      (setupParams 0 emptyPacketbuf) = some r ∧ r.currLen.toNat = eb.len ∧
    Announces coordinator ⟨7, 1⟩ 5 r.ies ∧ r.ies.ieSequenceNumber = 42 ∧ r.ies.ieTimeSource = 9 ∧
    r.ies.ieScheduleReceived = [1, 2, 3] := by
  have hsome : (createEb 0xabcd 1 coordinator emptyPacketbuf).isSome := by decide
  have hbuf : ((createEb 0xabcd 1 coordinator emptyPacketbuf).get hsome).pb.bufptr = 0 ∧
      totlen ((createEb 0xabcd 1 coordinator emptyPacketbuf).get hsome).pb ≤ packetbufSize := by
    decide +revert
  rcases parseEb_updateEb false 0xabcd 1 coordinator emptyPacketbuf _ (Option.some_get hsome).symm
    _ 0 (copyto_eq_contents hbuf.1 hbuf.2).symm ⟨7, 1⟩ 5 (setupParams 0 emptyPacketbuf) with
    ⟨ies, r, hies, _, _, _, hparse, hlen, _, hr, hannounces⟩
  refine ⟨_, r, (Option.some_get hsome).symm, hparse, hlen, hannounces,
    hannounces.sequenceNumber_eq, ?_, hannounces.scheduleReceived_eq⟩
  rcases hannounces.timeSource_eq with ⟨addr, haddr, hbyte⟩
  cases haddr
  exact hbyte

end RoundTrip

end MasterScheduler.Mote.Beacon
