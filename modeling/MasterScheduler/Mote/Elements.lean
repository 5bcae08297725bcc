import MasterScheduler.Lib.Bytes
import MasterScheduler.Mote.Hopping

/-!
# MasterScheduler.Mote.Elements — information elements of a frame

The information elements of `frame802154e-ie.c`: how one is stored into a
buffer, and the loop that reads them back. The neighbor discovery elements are
compiled in; `sixtop` says whether the build has `TSCH_WITH_SIXTOP`, which
adds one more payload element to the loop.

A read outside of the buffer stops the parser with a fault.
-/

namespace MasterScheduler.Mote.Elements

open Lib Hopping

/-! ## Elements and their descriptors -/

/-- The elements the parser knows, over its four enumerations of identifiers. -/
inductive Element where
  | ackNackTimeCorrection
  | headerListTermination1
  | headerListTermination2
  | mlme
  | ietf
  | payloadListTermination
  | tschSynchronization
  | tschSlotframeAndLink
  | tschTimeslot
  | overhearing
  | sequenceNumber
  | rank
  | timeSource
  | scheduleVersion
  | schedulePackets
  | scheduleReceived
  | channelHoppingSequence
deriving DecidableEq, Repr

/-- The identifier of an element in its enumeration. -/
def Element.id : Element → ℕ
  | .ackNackTimeCorrection => 0x1e
  | .headerListTermination1 => 0x7e
  | .headerListTermination2 => 0x7f
  | .mlme => 0x1
  | .ietf => 0x5
  | .payloadListTermination => 0xf
  | .tschSynchronization => 0x1a
  | .tschSlotframeAndLink => 0x1b
  | .tschTimeslot => 0x1c
  | .overhearing => 0x37
  | .sequenceNumber => 0x38
  | .rank => 0x39
  | .timeSource => 0x3a
  | .scheduleVersion => 0x3b
  | .schedulePackets => 0x3c
  | .scheduleReceived => 0x3d
  | .channelHoppingSequence => 0x9

/-- The cases of the switch over header elements. -/
def headerIes : List Element :=
  [.headerListTermination1, .headerListTermination2, .ackNackTimeCorrection]

/-- The cases of the switch over payload elements. -/
def payloadIes (sixtop : Bool) : List Element :=
  if sixtop then [.mlme, .ietf, .payloadListTermination] else [.mlme, .payloadListTermination]

/-- The cases of the switch over short sub-elements. -/
def mlmeShortIes : List Element :=
  [.tschSlotframeAndLink, .tschSynchronization, .tschTimeslot, .overhearing, .sequenceNumber,
    .rank, .timeSource, .scheduleVersion, .schedulePackets, .scheduleReceived]

/-- The cases of the switch over long sub-elements. -/
def mlmeLongIes : List Element := [.channelHoppingSequence]

/-- The case of a switch an identifier selects. -/
def select (cases : List Element) (id : ℕ) : Option Element := cases.find? (·.id = id)

/-- `create_header_ie_descriptor`. -/
def createHeaderIeDescriptor (e : Element) (ieLen : ℕ) : List UInt8 :=
  le16 (ieLen % 128 + e.id % 256 * 128)

/-- `create_payload_ie_descriptor`. -/
def createPayloadIeDescriptor (e : Element) (ieLen : ℕ) : List UInt8 :=
  le16 (ieLen % 2048 + e.id % 16 * 2048 + 32768)

/-- `create_mlme_short_ie_descriptor`. -/
def createMlmeShortIeDescriptor (e : Element) (ieLen : ℕ) : List UInt8 :=
  le16 (ieLen % 256 + e.id % 128 * 256)

/-- `create_mlme_long_ie_descriptor`. -/
def createMlmeLongIeDescriptor (e : Element) (ieLen : ℕ) : List UInt8 :=
  le16 (ieLen % 2048 + e.id % 16 * 2048 + 32768)

/-! ## The record of elements -/

/-- `struct tsch_slotframe_and_links_link`. -/
structure SlotframeAndLinksLink where
  timeslot : UInt16
  channelOffset : UInt16
  linkOptions : UInt8
deriving DecidableEq, Repr

/-- `struct tsch_slotframe_and_links`; `links` has `FRAME802154E_IE_MAX_LINKS` entries. -/
structure SlotframeAndLinks where
  numSlotframes : UInt8
  slotframeHandle : UInt8
  slotframeSize : UInt16
  numLinks : UInt8
  links : List SlotframeAndLinksLink
deriving DecidableEq, Repr

/-- `struct ieee802154_ies`, less `ie_tsch_synchronization_offset`, which nothing uses. -/
structure Ies where
  ieTimeCorrection : ℤ
  ieIsNack : UInt8
  iePayloadIeOffset : UInt8
  ieMlmeLen : UInt16
  ieAsn : Asn
  ieJoinPriority : UInt8
  ieTschTimeslotId : UInt8
  ieTschTimeslot : List UInt16
  ieTschSlotframeAndLink : SlotframeAndLinks
  ieOverhearing : UInt8
  ieSequenceNumber : UInt16
  ieRank : UInt8
  ieTimeSource : UInt8
  ieScheduleVersion : UInt8
  ieSchedulePackets : UInt16
  ieScheduleReceived : List UInt8
  ieChannelHoppingSequenceId : UInt8
  ieHoppingSequenceLen : UInt16
  ieHoppingSequenceList : List UInt8
  /-- The pointer as an offset from the start of the elements. -/
  sixtopIeContentPtr : ℕ
  sixtopIeContentLen : UInt16
deriving DecidableEq, Repr

/-- `tsch_ts_elements_count`. -/
def tschTsElementsCount : ℕ := 12

/-- `FRAME802154E_IE_MAX_LINKS`. -/
def frame802154eIeMaxLinks : ℕ := 4

/-- `TSCH_HOPPING_SEQUENCE_MAX_LEN`. -/
def tschHoppingSequenceMaxLen : ℕ := 16

/-- `FRAME802154E_IE_SCHEDULE_BIT_VECTOR`. -/
def frame802154eIeScheduleBitVector : ℕ := 3

/-- The record after `memset` to zero. -/
def Ies.zero : Ies where
  ieTimeCorrection := 0
  ieIsNack := 0
  iePayloadIeOffset := 0
  ieMlmeLen := 0
  ieAsn := ⟨0, 0⟩
  ieJoinPriority := 0
  ieTschTimeslotId := 0
  ieTschTimeslot := List.replicate tschTsElementsCount 0
  ieTschSlotframeAndLink := ⟨0, 0, 0, 0, List.replicate frame802154eIeMaxLinks ⟨0, 0, 0⟩⟩
  ieOverhearing := 0
  ieSequenceNumber := 0
  ieRank := 0
  ieTimeSource := 0
  ieScheduleVersion := 0
  ieSchedulePackets := 0
  ieScheduleReceived := List.replicate frame802154eIeScheduleBitVector 0
  ieChannelHoppingSequenceId := 0
  ieHoppingSequenceLen := 0
  ieHoppingSequenceList := List.replicate tschHoppingSequenceMaxLen 0
  sixtopIeContentPtr := 0
  sixtopIeContentLen := 0

/-- The assignments to the record while an element is parsed. -/
inductive Write where
  | payloadIeOffset (n : UInt8)
  | timeCorrection (isNack : UInt8) (driftUs : ℤ)
  | synchronization (asn : Asn) (joinPriority : UInt8)
  | slotframeAndLink (numSlotframes handle : UInt8) (size : UInt16) (numLinks : UInt8)
      (links : List SlotframeAndLinksLink)
  | timeslotId (id : UInt8)
  | timeslot (values : List UInt16)
  | overhearing (value : UInt8)
  | sequenceNumber (value : UInt16)
  | rank (value : UInt8)
  | timeSource (value : UInt8)
  | scheduleVersion (value : UInt8)
  | schedulePackets (value : UInt16)
  | scheduleReceived (bytes : List UInt8)
  | hoppingSequenceId (value : UInt8)
  | hoppingSequenceLen (value : UInt16)
  | hoppingSequenceList (channels : List UInt8)
  | sixtopContent (ptr : ℕ) (len : UInt16)
deriving DecidableEq, Repr

/-- The elements whose fields an assignment is to. -/
def Write.owners : Write → List Element
  | .payloadIeOffset _ => [.headerListTermination1, .headerListTermination2]
  | .timeCorrection .. => [.ackNackTimeCorrection]
  | .synchronization .. => [.tschSynchronization]
  | .slotframeAndLink .. => [.tschSlotframeAndLink]
  | .timeslotId _ | .timeslot _ => [.tschTimeslot]
  | .overhearing _ => [.overhearing]
  | .sequenceNumber _ => [.sequenceNumber]
  | .rank _ => [.rank]
  | .timeSource _ => [.timeSource]
  | .scheduleVersion _ => [.scheduleVersion]
  | .schedulePackets _ => [.schedulePackets]
  | .scheduleReceived _ => [.scheduleReceived]
  | .hoppingSequenceId _ | .hoppingSequenceLen _ | .hoppingSequenceList _ =>
      [.channelHoppingSequence]
  | .sixtopContent .. => [.ietf]

/-- The record after an assignment. An array keeps its entries behind the ones assigned. -/
def Ies.assign (ies : Ies) : Write → Ies
  | .payloadIeOffset n => { ies with iePayloadIeOffset := n }
  | .timeCorrection isNack driftUs =>
      { ies with ieIsNack := isNack, ieTimeCorrection := driftUs }
  | .synchronization asn joinPriority =>
      { ies with ieAsn := asn, ieJoinPriority := joinPriority }
  | .slotframeAndLink numSlotframes handle size numLinks links =>
      { ies with ieTschSlotframeAndLink :=
          { numSlotframes := numSlotframes, slotframeHandle := handle, slotframeSize := size,
            numLinks := numLinks,
            links := links ++ ies.ieTschSlotframeAndLink.links.drop links.length } }
  | .timeslotId id => { ies with ieTschTimeslotId := id }
  | .timeslot values => { ies with ieTschTimeslot := values }
  | .overhearing value => { ies with ieOverhearing := value }
  | .sequenceNumber value => { ies with ieSequenceNumber := value }
  | .rank value => { ies with ieRank := value }
  | .timeSource value => { ies with ieTimeSource := value }
  | .scheduleVersion value => { ies with ieScheduleVersion := value }
  | .schedulePackets value => { ies with ieSchedulePackets := value }
  | .scheduleReceived bytes => { ies with ieScheduleReceived := bytes }
  | .hoppingSequenceId value => { ies with ieChannelHoppingSequenceId := value }
  | .hoppingSequenceLen value => { ies with ieHoppingSequenceLen := value }
  | .hoppingSequenceList channels =>
      { ies with ieHoppingSequenceList :=
          channels ++ ies.ieHoppingSequenceList.drop channels.length }
  | .sixtopContent ptr len => { ies with sixtopIeContentPtr := ptr, sixtopIeContentLen := len }

/-! ## Reading one element -/

/-- Why the parser stops without a length: a read outside of the buffer, `-1`, or
rounds left over in the loop of the model. -/
inductive Stop where
  | fault
  | reject
  | outOfFuel
deriving DecidableEq, Repr

/-- `buf[i]`. -/
def readByte (buf : List UInt8) (i : ℕ) : Except Stop UInt8 :=
  match buf[i]? with
  | some b => .ok b
  | none => .error .fault

/-- `READ16`. -/
def read16 (buf : List UInt8) (i : ℕ) : Except Stop ℕ := do
  let lo ← readByte buf i
  let hi ← readByte buf (i + 1)
  return word lo hi

/-- `memcpy` from the buffer. -/
def readBytes (buf : List UInt8) (i n : ℕ) : Except Stop (List UInt8) :=
  (List.range' i n).mapM (readByte buf)

section Reads

variable {buf : List UInt8} {i n : ℕ}

theorem readByte_of_lt (h : i < buf.length) : readByte buf i = .ok (buf.getD i 0) := by
  rw [readByte, List.getD_eq_getElem?_getD, List.getElem?_eq_getElem h]
  rfl

theorem readByte_of_ge (h : buf.length ≤ i) : readByte buf i = .error .fault := by
  rw [readByte, List.getElem?_eq_none h]

theorem read16_of_lt (h : i + 1 < buf.length) :
    read16 buf i = .ok (word (buf.getD i 0) (buf.getD (i + 1) 0)) := by
  rw [read16, readByte_of_lt (by omega), readByte_of_lt h]
  rfl

theorem read16_of_ge (h : buf.length ≤ i + 1) : read16 buf i = .error .fault := by
  rw [read16]
  by_cases hi : i < buf.length
  · rw [readByte_of_lt hi, readByte_of_ge h]
    rfl
  · rw [readByte_of_ge (by omega)]
    rfl

theorem readBytes_of_le (h : i + n ≤ buf.length) :
    readBytes buf i n = .ok ((buf.drop i).take n) := by
  rw [readBytes, mapM_ok (g := fun j => buf.getD j 0)]
  · congr 1
    apply List.ext_getElem?
    intro j
    by_cases hj : j < n
    · simp [hj, List.getElem?_eq_getElem (show i + j < buf.length by omega)]
    · rw [List.getElem?_eq_none (by simpa using hj), List.getElem?_eq_none (by simp; omega)]
  · intro j hj
    rw [List.mem_range'_1] at hj
    exact readByte_of_lt (by omega)

end Reads

/-- `frame802154e_parse_header_ie`. The correction is cast from 12 to 16 bits. -/
def parseHeaderIe (buf : List UInt8) (len : ℕ) : Element → Except Stop (List Write)
  | .ackNackTimeCorrection =>
      if len = 2 then do
        let field ← read16 buf 0
        let driftUs : ℤ := if field / 2048 % 2 = 1 then (field % 4096 : ℕ) - 4096 else field % 4096
        return [.timeCorrection (if field / 32768 = 1 then 1 else 0) driftUs]
      else .error .reject
  | _ => .error .reject

/-- One round of the loop over the links of a slotframe. -/
def parseLink (buf : List UInt8) (i : ℕ) : Except Stop SlotframeAndLinksLink := do
  let timeslot ← read16 buf (5 + i * 5)
  let channelOffset ← read16 buf (5 + i * 5 + 2)
  let linkOptions ← readByte buf (5 + i * 5 + 4)
  return ⟨UInt16.ofNat timeslot, UInt16.ofNat channelOffset, linkOptions⟩

/-- The case `MLME_SHORT_IE_TSCH_SLOFTRAME_AND_LINK`. The number of links is read before
the number of slotframes is looked at. -/
def parseSlotframeAndLink (buf : List UInt8) (len : ℕ) : Except Stop (List Write) :=
  if 1 ≤ len then do
    let numSlotframes ← readByte buf 0
    let numLinks ← readByte buf 4
    if numSlotframes = 0 then return []
    else if numSlotframes.toNat ≤ 1 ∧ numLinks.toNat ≤ frame802154eIeMaxLinks ∧
        len = 1 + numSlotframes.toNat * (4 + 5 * numLinks.toNat) then do
      let handle ← readByte buf 1
      let size ← read16 buf 2
      let links ← (List.range numLinks.toNat).mapM (parseLink buf)
      return [.slotframeAndLink numSlotframes handle (UInt16.ofNat size) numLinks links]
    else .error .reject
  else .error .reject

/-- The case `MLME_SHORT_IE_TSCH_TIMESLOT`. -/
def parseTimeslot (buf : List UInt8) (len : ℕ) : Except Stop (List Write) :=
  if len = 1 then do
    let id ← readByte buf 0
    return [.timeslotId id]
  else if len = 25 then do
    let id ← readByte buf 0
    let values ← (List.range tschTsElementsCount).mapM fun i => read16 buf (1 + 2 * i)
    return [.timeslotId id, .timeslot (values.map UInt16.ofNat)]
  else .error .reject

/-- The case `MLME_SHORT_IE_TSCH_SYNCHRONIZATION`. -/
def parseSynchronization (buf : List UInt8) (len : ℕ) : Except Stop (List Write) :=
  if len = 6 then do
    let b₀ ← readByte buf 0
    let b₁ ← readByte buf 1
    let b₂ ← readByte buf 2
    let b₃ ← readByte buf 3
    let ms1b ← readByte buf 4
    let joinPriority ← readByte buf 5
    return [.synchronization ⟨UInt32.ofNat (dword b₀ b₁ b₂ b₃), ms1b⟩ joinPriority]
  else .error .reject

/-- The cases that store one byte. -/
def parseByte (field : UInt8 → Write) (buf : List UInt8) (len : ℕ) : Except Stop (List Write) :=
  if len = 1 then do
    let value ← readByte buf 0
    return [field value]
  else .error .reject

/-- The case `MLME_SHORT_IE_SCHEDULE_RECEIVED`. -/
def parseScheduleReceived (buf : List UInt8) (len : ℕ) : Except Stop (List Write) :=
  if len = 3 then do
    let bytes ← readBytes buf 0 frame802154eIeScheduleBitVector
    return [.scheduleReceived bytes]
  else .error .reject

/-- `frame802154e_parse_mlme_short_ie`. -/
def parseMlmeShortIe (buf : List UInt8) (len : ℕ) : Element → Except Stop (List Write)
  | .tschSlotframeAndLink => parseSlotframeAndLink buf len
  | .tschSynchronization => parseSynchronization buf len
  | .tschTimeslot => parseTimeslot buf len
  | .overhearing => parseByte .overhearing buf len
  | .sequenceNumber =>
      if len = 2 then do
        let value ← read16 buf 0
        return [.sequenceNumber (UInt16.ofNat value)]
      else .error .reject
  | .rank => parseByte .rank buf len
  | .timeSource => parseByte .timeSource buf len
  | .scheduleVersion => parseByte .scheduleVersion buf len
  | .schedulePackets =>
      if len = 2 then do
        let value ← read16 buf 0
        return [.schedulePackets (UInt16.ofNat value)]
      -- The case has no `break`: any other length is tried as a received vector.
      else parseScheduleReceived buf len
  | .scheduleReceived => parseScheduleReceived buf len
  | _ => .error .reject

/-- `frame802154e_parse_mlme_long_ie`. A length that does not fit the sequence only leaves
the list unassigned. -/
def parseMlmeLongIe (buf : List UInt8) (len : ℕ) : Element → Except Stop (List Write)
  | .channelHoppingSequence =>
      if 0 < len then do
        let id ← readByte buf 0
        if 1 < len then do
          let sequenceLen ← read16 buf 8
          if sequenceLen ≤ tschHoppingSequenceMaxLen ∧ len = 12 + sequenceLen then do
            let channels ← readBytes buf 10 sequenceLen
            return [.hoppingSequenceId id, .hoppingSequenceLen (UInt16.ofNat sequenceLen),
              .hoppingSequenceList channels]
          else return [.hoppingSequenceId id, .hoppingSequenceLen (UInt16.ofNat sequenceLen)]
        else return [.hoppingSequenceId id]
      else .error .reject
  | _ => .error .reject

/-! ## The loop over the elements -/

/-- The state of the loop; in a container `nested_mlme_len` bytes of it are left. -/
inductive ParsingState where
  | headerIe
  | payloadIe
  | mlmeSubie (nestedMlmeLen : ℕ)
deriving DecidableEq, Repr

/-- The locals of `frame802154e_parse_information_elements`. -/
structure Parser where
  parsingState : ParsingState
  /-- `buf - start`. -/
  offset : ℕ
  /-- The bytes from `buf` to the end of the buffer. -/
  buf : List UInt8
  bufSize : UInt8
  ies : Ies
  /-- Every assignment so far, with the element it was made for. -/
  log : List (Element × Write)

/-- What the body of the loop ends with: `len` for the next round, or the result. -/
inductive Control where
  | next (len : ℕ)
  | done (result : Except Stop ℕ)

/-- What the caller sees of a run, with the assignments made in it. -/
structure Parsed where
  result : Except Stop ℕ
  ies : Ies
  log : List (Element × Write)

/-- `buf += len; buf_size -= len`. -/
def Parser.advance (p : Parser) (len : ℕ) : Parser :=
  { p with offset := p.offset + len, buf := p.buf.drop len, bufSize := p.bufSize - UInt8.ofNat len }

/-- The assignments for one element. -/
def Parser.store (p : Parser) (e : Element) (writes : List Write) : Parser :=
  { p with ies := writes.foldl Ies.assign p.ies, log := p.log ++ writes.map fun w => (e, w) }

def Parser.stop (p : Parser) (result : Except Stop ℕ) : Parsed := ⟨result, p.ies, p.log⟩

/-- The case `PARSING_HEADER_IE` of the body. -/
def headerStep (p : Parser) (ieDesc : ℕ) : Parser × Control :=
  if ieDesc / 32768 ≠ 0 then (p, .done (.error .reject))
  else
    let len := ieDesc % 128
    match select headerIes (ieDesc / 128 % 256) with
    | some .headerListTermination1 =>
        if len = 0 then
          ({ p.store .headerListTermination1 [.payloadIeOffset (UInt8.ofNat p.offset)] with
              parsingState := .payloadIe }, .next len)
        else (p, .done (.error .reject))
    | some .headerListTermination2 =>
        if len = 0 then
          (p.store .headerListTermination2 [.payloadIeOffset (UInt8.ofNat p.offset)],
            .done (.ok p.offset))
        else (p, .done (.error .reject))
    | some e =>
        if p.bufSize.toNat < len then (p, .done (.error .reject))
        else
          match parseHeaderIe p.buf len e with
          | .error stop => (p, .done (.error stop))
          | .ok writes => (p.store e writes, .next len)
    | none => (p, .done (.error .reject))

/-- The case `PARSING_PAYLOAD_IE` of the body. The bytes of a 6top element are not compared
with the bytes left. -/
def payloadStep (sixtop : Bool) (p : Parser) (ieDesc : ℕ) : Parser × Control :=
  if ieDesc / 32768 ≠ 1 then (p, .done (.error .reject))
  else
    let len := ieDesc % 2048
    match select (payloadIes sixtop) (ieDesc / 2048 % 16) with
    | some .mlme => ({ p with parsingState := .mlmeSubie len }, .next 0)
    | some .ietf =>
        match readByte p.buf 0 with
        | .error stop => (p, .done (.error stop))
        | .ok subId =>
            -- `SIXTOP_SUBIE_ID`; any other sub-element is skipped as it is.
            if subId = 0xc9 then
              (p.store .ietf [.sixtopContent (p.offset + 1) (UInt16.ofNat len - 1)], .next len)
            else (p, .next len)
    | some .payloadListTermination =>
        if len = 0 then (p, .done (.ok p.offset)) else (p, .done (.error .reject))
    | _ => (p, .done (.error .reject))

/-- What a sub-element descriptor announces: the element and its length. -/
def subieOf (ieDesc : ℕ) : Option Element × ℕ :=
  if ieDesc / 32768 = 0 then (select mlmeShortIes (ieDesc / 256 % 128), ieDesc % 256)
  else (select mlmeLongIes (ieDesc / 2048 % 16), ieDesc % 2048)

/-- The case `PARSING_MLME_SUBIE` of the body. -/
def mlmeStep (p : Parser) (nestedMlmeLen ieDesc : ℕ) : Parser × Control :=
  match subieOf ieDesc with
  | (none, _) => (p, .done (.error .reject))
  | (some e, len) =>
      if p.bufSize.toNat < len then (p, .done (.error .reject))
      else
        match
          if ieDesc / 32768 = 0 then parseMlmeShortIe p.buf len e
          else parseMlmeLongIe p.buf len e with
        | .error stop => (p, .done (.error stop))
        | .ok writes =>
            let p := p.store e writes
            if nestedMlmeLen < 2 + len then (p, .done (.error .reject))
            else if nestedMlmeLen = 2 + len then ({ p with parsingState := .payloadIe }, .next len)
            else ({ p with parsingState := .mlmeSubie (nestedMlmeLen - (2 + len)) }, .next len)

/-- The body of the loop. -/
def parseIe (sixtop : Bool) (p : Parser) : Parser × Control :=
  if p.bufSize.toNat < 2 then (p, .done (.error .reject))
  else
    match read16 p.buf 0 with
    | .error stop => (p, .done (.error stop))
    | .ok ieDesc =>
        let p := p.advance 2
        match p.parsingState with
        | .headerIe => headerStep p ieDesc
        | .payloadIe => payloadStep sixtop p ieDesc
        | .mlmeSubie nestedMlmeLen => mlmeStep p nestedMlmeLen ieDesc

/-- The end of the function, behind the loop. -/
def Parser.finish (p : Parser) : Parsed :=
  match p.parsingState with
  | .headerIe =>
      { p with ies := p.ies.assign (.payloadIeOffset (UInt8.ofNat p.offset)) }.stop (.ok p.offset)
  | _ => p.stop (.ok p.offset)

/-- The loop `while(buf_size > 0)`. -/
def parseLoop (sixtop : Bool) : ℕ → Parser → Parsed
  | 0, p => p.stop (.error .outOfFuel)
  | fuel + 1, p =>
      if p.bufSize = 0 then p.finish
      else
        match parseIe sixtop p with
        | (p, .next len) => parseLoop sixtop fuel (p.advance len)
        | (p, .done result) => p.stop result

/-- The locals before the first round. -/
def Parser.init (buf : List UInt8) (ies : Ies) : Parser where
  parsingState := .headerIe
  offset := 0
  buf := buf
  bufSize := UInt8.ofNat buf.length
  ies := ies.assign (.payloadIeOffset 0)
  log := []

/-- `frame802154e_parse_information_elements` on a buffer of at most 255 bytes. Every round
takes two bytes or more, so the length of the buffer bounds the rounds. -/
def parseInformationElements (sixtop : Bool) (buf : List UInt8) (ies : Ies) : Parsed :=
  parseLoop sixtop (buf.length + 1) (Parser.init buf ies)

end MasterScheduler.Mote.Elements
