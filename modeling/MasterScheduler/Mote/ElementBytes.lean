import MasterScheduler.Mote.ElementSafety

/-!
# MasterScheduler.Mote.ElementBytes — elements from the writer to the parser

The functions of `frame802154e-ie.c` that store an element into a buffer, and
what the parser does with the bytes they leave.

- `Appends`: what a writer leaves in memory.
- `parseLoop_subies`: the parser over a container of sub-elements.
-/

namespace MasterScheduler.Mote.Elements

open Lib Memory

/-! ## Writers -/

/-- A writer stores at `buf`, where `len` bytes are free, and returns the length of its
element, or fails. -/
abbrev Writer := Memory → ℕ → ℕ → Option (Memory × ℕ)

/-- The writers of header elements without content. -/
def createHeaderIe (e : Element) : Writer := fun m buf len =>
  if 2 ≤ len then some (m.write buf (createHeaderIeDescriptor e 0), 2) else none

/-- `frame80215e_create_ie_header_list_termination_1`. -/
def createIeHeaderListTermination1 : Writer := createHeaderIe .headerListTermination1

/-- `frame80215e_create_ie_header_list_termination_2`. -/
def createIeHeaderListTermination2 : Writer := createHeaderIe .headerListTermination2

/-- `frame80215e_create_ie_payload_list_termination`. -/
def createIePayloadListTermination : Writer := fun m buf len =>
  if 2 ≤ len then some (m.write buf (createPayloadIeDescriptor .payloadListTermination 0), 2)
  else none

/-- `frame80215e_create_ie_mlme`. -/
def createIeMlme (ies : Ies) : Writer := fun m buf len =>
  if 2 ≤ len then some (m.write buf (createPayloadIeDescriptor .mlme ies.ieMlmeLen.toNat), 2)
  else none

/-- `frame80215e_create_ie_ietf`: the descriptor in front of a content that is there already. -/
def createIeIetf (ies : Ies) : Writer := fun m buf len =>
  if 2 ≤ len then
    some (m.write buf (createPayloadIeDescriptor .ietf ies.sixtopIeContentLen.toNat),
      2 + ies.sixtopIeContentLen.toNat)
  else none

/-- The writers of short sub-elements, by the number of free bytes they ask for. -/
def createMlmeShortIe (e : Element) (need : ℕ) (content : List UInt8) : Writer := fun m buf len =>
  if len < need then none
  else some (m.write buf (createMlmeShortIeDescriptor e content.length ++ content),
    2 + content.length)

def synchronizationContent (ies : Ies) : List UInt8 :=
  le32 ies.ieAsn.ls4b.toNat ++ [ies.ieAsn.ms1b, ies.ieJoinPriority]

/-- `frame80215e_create_ie_tsch_synchronization`. -/
def createIeTschSynchronization (ies : Ies) : Writer :=
  createMlmeShortIe .tschSynchronization 8 (synchronizationContent ies)

def linkContent (link : SlotframeAndLinksLink) : List UInt8 :=
  le16 link.timeslot.toNat ++ le16 link.channelOffset.toNat ++ [link.linkOptions]

def slotframeContent (sf : SlotframeAndLinks) : List UInt8 :=
  sf.numSlotframes :: if sf.numSlotframes = 1 then
    sf.slotframeHandle :: le16 sf.slotframeSize.toNat ++ sf.numLinks ::
      (List.range sf.numLinks.toNat).flatMap fun i => linkContent (sf.links.getD i ⟨0, 0, 0⟩)
  else []

/-- `frame80215e_create_ie_tsch_slotframe_and_link`. -/
def createIeTschSlotframeAndLink (ies : Ies) : Writer := fun m buf len =>
  let sf := ies.ieTschSlotframeAndLink
  let ieLen := 1 + sf.numSlotframes.toNat * (4 + 5 * sf.numLinks.toNat)
  if 1 < sf.numSlotframes.toNat ∨ frame802154eIeMaxLinks < sf.numLinks.toNat ∨ len < 2 + ieLen then
    none
  else some (m.write buf (createMlmeShortIeDescriptor .tschSlotframeAndLink ieLen ++
    slotframeContent sf), 2 + ieLen)

def timeslotContent (ies : Ies) : List UInt8 :=
  ies.ieTschTimeslotId :: if ies.ieTschTimeslotId = 0 then [] else
    (List.range tschTsElementsCount).flatMap fun i => le16 (ies.ieTschTimeslot.getD i 0).toNat

/-- `frame80215e_create_ie_tsch_timeslot`: the identifier alone, or all of the timing. -/
def createIeTschTimeslot (ies : Ies) : Writer :=
  createMlmeShortIe .tschTimeslot (2 + if ies.ieTschTimeslotId = 0 then 1 else 25)
    (timeslotContent ies)

/-- Channel page, number of channels, configuration, sequence and current hop. -/
def hoppingContent (ies : Ies) : List UInt8 :=
  [ies.ieChannelHoppingSequenceId, 0, 0, 0, 0, 0, 0, 0] ++ le16 ies.ieHoppingSequenceLen.toNat ++
    (List.range ies.ieHoppingSequenceLen.toNat).map (ies.ieHoppingSequenceList.getD · 0) ++ [0, 0]

/-- `frame80215e_create_ie_tsch_channel_hopping_sequence`. The sequence is stored also where
the length of the element covers its identifier only. -/
def createIeTschChannelHoppingSequence (ies : Ies) : Writer := fun m buf len =>
  if tschHoppingSequenceMaxLen < ies.ieHoppingSequenceLen.toNat then none
  else
    let ieLen :=
      if ies.ieChannelHoppingSequenceId = 0 then 1 else 12 + ies.ieHoppingSequenceLen.toNat
    if 2 + ieLen ≤ len then
      some (m.write buf (createMlmeLongIeDescriptor .channelHoppingSequence ieLen ++
        hoppingContent ies), 2 + ieLen)
    else none

/-- `frame80215e_create_ie_overhearing`; like the other elements of one byte, it asks for two
free bytes where it takes three. -/
def createIeOverhearing (ies : Ies) : Writer := createMlmeShortIe .overhearing 2 [ies.ieOverhearing]

/-- `frame80215e_create_ie_tsch_neighbor_discovery`. -/
def createIeTschNeighborDiscovery (ies : Ies) : Writer :=
  createMlmeShortIe .sequenceNumber 4 (le16 ies.ieSequenceNumber.toNat)

/-- `frame80215e_create_ie_tsch_rank`. -/
def createIeTschRank (ies : Ies) : Writer := createMlmeShortIe .rank 2 [ies.ieRank]

/-- `frame80215e_create_ie_time_source`. -/
def createIeTimeSource (ies : Ies) : Writer := createMlmeShortIe .timeSource 2 [ies.ieTimeSource]

/-- `frame80215e_create_ie_schedule_version`. -/
def createIeScheduleVersion (ies : Ies) : Writer :=
  createMlmeShortIe .scheduleVersion 2 [ies.ieScheduleVersion]

/-- `frame80215e_create_ie_schedule_packets`. -/
def createIeSchedulePackets (ies : Ies) : Writer :=
  createMlmeShortIe .schedulePackets 4 (le16 ies.ieSchedulePackets.toNat)

/-- `frame80215e_create_ie_schedule_received`. -/
def createIeScheduleReceived (ies : Ies) (arrayLen : ℕ) : Writer :=
  createMlmeShortIe .scheduleReceived (2 + arrayLen)
    ((List.range arrayLen).map (ies.ieScheduleReceived.getD · 0))

/-! ## What a writer leaves -/

/-- A writer that succeeds leaves these bytes at its place and nothing new below it. What it
leaves behind them is not told. -/
def Appends (w : Writer) (bytes : List UInt8) : Prop :=
  ∀ m buf len m' n, w m buf len = some (m', n) →
    n = bytes.length ∧ m'.read buf n = bytes ∧ ∀ i < buf, m' i = m i

section Writers

variable {e : Element} {need : ℕ} {content : List UInt8} {ies : Ies}

/-- A short sub-IE is its descriptor and its content. -/
theorem createMlmeShortIe_appends :
    Appends (createMlmeShortIe e need content)
      (createMlmeShortIeDescriptor e content.length ++ content) := by
  intro m buf len m' n h
  rw [createMlmeShortIe] at h
  split at h
  · cases h
  · cases h
    have hlen : (createMlmeShortIeDescriptor e content.length ++ content).length =
        2 + content.length := by
      rw [List.length_append]
      rfl
    refine ⟨hlen.symm, ?_, fun i hi => write_below hi⟩
    rw [← hlen]
    exact read_write_self _ _ _

/-- Two bytes for every word. -/
theorem length_flatMap_le16 (n : ℕ) (f : ℕ → ℕ) :
    ((List.range n).flatMap fun i => le16 (f i)).length = 2 * n := by
  rw [List.length_flatMap]
  simp [Nat.mul_comm]

/-- The length of the slotframe IE. -/
theorem length_slotframeContent {sf : SlotframeAndLinks} (h : sf.numSlotframes.toNat ≤ 1) :
    (slotframeContent sf).length = 1 + sf.numSlotframes.toNat * (4 + 5 * sf.numLinks.toNat) := by
  unfold slotframeContent
  split
  case isTrue h1 =>
    have hlinks : ((List.range sf.numLinks.toNat).flatMap
        fun i => linkContent (sf.links.getD i ⟨0, 0, 0⟩)).length = 5 * sf.numLinks.toNat := by
      rw [List.length_flatMap]
      simp [linkContent, Nat.mul_comm]
    simp only [List.length_cons, List.length_append, List.cons_append, length_le16, hlinks, h1]
    change _ = 1 + 1 * (4 + 5 * sf.numLinks.toNat)
    omega
  case isFalse h1 =>
    have h0 : sf.numSlotframes.toNat = 0 := by
      have hne : sf.numSlotframes.toNat ≠ 1 := fun h => h1 (UInt8.toNat_inj.mp h)
      omega
    rw [h0]
    simp

/-- The slotframe IE is appended. -/
theorem createIeTschSlotframeAndLink_appends :
    Appends (createIeTschSlotframeAndLink ies)
      (createMlmeShortIeDescriptor .tschSlotframeAndLink
        (slotframeContent ies.ieTschSlotframeAndLink).length ++
        slotframeContent ies.ieTschSlotframeAndLink) := by
  intro m buf len m' n h
  rw [createIeTschSlotframeAndLink] at h
  split at h
  · cases h
  case isFalse hno =>
    rw [not_or, not_lt] at hno
    rw [← length_slotframeContent hno.1] at h
    have hw : createMlmeShortIe .tschSlotframeAndLink 0
        (slotframeContent ies.ieTschSlotframeAndLink) m buf len = some (m', n) := by
      rw [createMlmeShortIe, if_neg (Nat.not_lt_zero _)]
      exact h
    exact createMlmeShortIe_appends m buf len m' n hw

/-- The length of the hopping sequence. -/
theorem length_hoppingContent : (hoppingContent ies).length = 12 + ies.ieHoppingSequenceLen.toNat := by
  simp [hoppingContent]
  omega

/-- The length of a hopping sequence element. -/
def hoppingLen (ies : Ies) : ℕ :=
  if ies.ieChannelHoppingSequenceId = 0 then 1 else 12 + ies.ieHoppingSequenceLen.toNat

/-- The hopping sequence IE is appended. -/
theorem createIeTschChannelHoppingSequence_appends :
    Appends (createIeTschChannelHoppingSequence ies)
      (createMlmeLongIeDescriptor .channelHoppingSequence (hoppingLen ies) ++
        (hoppingContent ies).take (hoppingLen ies)) := by
  intro m buf len m' n h
  have hle : hoppingLen ies ≤ (hoppingContent ies).length := by
    rw [length_hoppingContent, hoppingLen]
    split <;> omega
  rw [createIeTschChannelHoppingSequence] at h
  split at h
  · cases h
  dsimp only at h
  rw [← hoppingLen] at h
  split at h
  case isFalse => cases h
  case isTrue =>
    cases h
    have hdesc : (createMlmeLongIeDescriptor .channelHoppingSequence (hoppingLen ies)).length = 2 :=
      rfl
    refine ⟨?_, ?_, fun i hi => write_below hi⟩
    · rw [List.length_append, List.length_take, min_eq_left hle, hdesc]
    · have hself := read_write_self m buf
        (createMlmeLongIeDescriptor .channelHoppingSequence (hoppingLen ies) ++ hoppingContent ies)
      rw [← List.take_append_drop (hoppingLen ies) (hoppingContent ies), ← List.append_assoc]
        at hself ⊢
      have h := (read_append_inj hself).1
      rw [List.length_append, List.length_take, min_eq_left hle, hdesc] at h
      simpa only [List.take_append_drop, List.append_assoc] using h

end Writers

/-! ## What the parser makes of them -/

/-- The locals of the parser at a position of its buffer. -/
def Parser.atPosition (parsingState : ParsingState) (offset : ℕ) (buf : List UInt8) (ies : Ies)
    (log : List (Element × Write)) : Parser :=
  ⟨parsingState, offset, buf, UInt8.ofNat buf.length, ies, log⟩

/-- A sub-element: its content, and the assignments parsing it makes. -/
structure Subie where
  element : Element
  content : List UInt8
  writes : List Write

/-- The bytes of a sub-element. -/
def Subie.bytes (s : Subie) : List UInt8 :=
  (if s.element ∈ mlmeLongIes then createMlmeLongIeDescriptor s.element s.content.length
    else createMlmeShortIeDescriptor s.element s.content.length) ++ s.content

def subiesBytes (subies : List Subie) : List UInt8 := subies.flatMap Subie.bytes

/-- The parser reads each of these sub-elements, whatever stands behind the last. -/
def Accepted : List Subie → List UInt8 → Prop
  | [], _ => True
  | s :: subies, rest =>
      (s.element ∈ mlmeShortIes ∧ s.content.length < 256 ∧
          parseMlmeShortIe (s.content ++ subiesBytes subies ++ rest) s.content.length s.element =
            .ok s.writes ∨
        s.element ∈ mlmeLongIes ∧ s.content.length < 2048 ∧
          parseMlmeLongIe (s.content ++ subiesBytes subies ++ rest) s.content.length s.element =
            .ok s.writes) ∧ Accepted subies rest

section Parsing

variable {sixtop : Bool} {fuel offset nested : ℕ} {rest : List UInt8} {ies : Ies}
  {log : List (Element × Write)}

/-- A sub-IE is two bytes longer than its content. -/
theorem length_bytes (s : Subie) : s.bytes.length = 2 + s.content.length := by
  unfold Subie.bytes
  split <;> rw [List.length_append] <;> rfl

/-- The first two bytes are the descriptor of the sub-element. -/
theorem bytes_eq {s : Subie} {subies : List Subie} (h : Accepted (s :: subies) rest) :
    ∃ lo hi, s.bytes = lo :: hi :: s.content ∧
      subieOf (word lo hi) = (some s.element, s.content.length) ∧
      (if word lo hi / 32768 = 0 then
          parseMlmeShortIe (s.content ++ subiesBytes subies ++ rest) s.content.length s.element
        else parseMlmeLongIe (s.content ++ subiesBytes subies ++ rest) s.content.length s.element) =
        .ok s.writes := by
  rcases h.1 with ⟨he, hlen, hparse⟩ | ⟨he, hlen, hparse⟩
  · have hlong : s.element ∉ mlmeLongIes := by
      intro hl
      simp only [mlmeLongIes, List.mem_singleton] at hl
      rw [hl] at he
      exact absurd he (by decide)
    have hdesc := (short_descriptor_iff he hlen).mp rfl
    refine ⟨_, _, ?_, hdesc.1, ?_⟩
    · rw [Subie.bytes, if_neg hlong]
      rfl
    · rw [if_pos hdesc.2]
      exact hparse
  · have hdesc := (long_descriptor_iff he hlen).mp rfl
    refine ⟨_, _, ?_, hdesc.1, ?_⟩
    · rw [Subie.bytes, if_pos he]
      rfl
    · rw [if_neg (by rw [hdesc.2]; decide)]
      exact hparse

/-- The parser goes on behind an element. -/
theorem advance_atPosition (parsingState : ParsingState) (offset : ℕ) (content rest : List UInt8)
    (ies : Ies) (log : List (Element × Write)) :
    (Parser.atPosition parsingState offset (content ++ rest) ies log).advance content.length =
      Parser.atPosition parsingState (offset + content.length) rest ies log := by
  simp only [Parser.advance, Parser.atPosition, List.drop_left, Parser.mk.injEq, true_and, and_true]
  rw [List.length_append]
  apply UInt8.toNat_inj.mp
  rw [UInt8.toNat_sub]
  simp only [UInt8.toNat_ofNat']
  omega

/-- The body of the loop behind a descriptor. -/
def dispatch (sixtop : Bool) (p : Parser) (ieDesc : ℕ) : Parser × Control :=
  match p.parsingState with
  | .headerIe => headerStep p ieDesc
  | .payloadIe => payloadStep sixtop p ieDesc
  | .mlmeSubie nestedMlmeLen => mlmeStep p nestedMlmeLen ieDesc

/-- One round of the parser. -/
theorem parseLoop_atPosition {parsingState : ParsingState} {lo hi : UInt8} {tail : List UInt8}
    (hlen : tail.length + 2 ≤ 255) :
    parseLoop sixtop (fuel + 1)
        (.atPosition parsingState offset (lo :: hi :: tail) ies log) =
      match dispatch sixtop (.atPosition parsingState (offset + 2) tail ies log) (word lo hi) with
      | (p, .next len) => parseLoop sixtop fuel (p.advance len)
      | (p, .done result) => p.stop result := by
  have hsize : (Parser.atPosition parsingState offset (lo :: hi :: tail) ies log).bufSize.toNat =
      tail.length + 2 := by
    rw [Parser.atPosition, UInt8.toNat_ofNat', List.length_cons, List.length_cons]
    omega
  have hne : (Parser.atPosition parsingState offset (lo :: hi :: tail) ies log).bufSize ≠ 0 := by
    intro h0
    rw [h0] at hsize
    simp at hsize
  have hadv := advance_atPosition parsingState offset [lo, hi] tail ies log
  rw [parseLoop, if_neg hne, parseIe, if_neg (by omega), read16_of_lt (by simp [Parser.atPosition])]
  dsimp only
  rw [show (Parser.atPosition parsingState offset (lo :: hi :: tail) ies log).advance 2 =
    Parser.atPosition parsingState (offset + 2) tail ies log from hadv]
  rfl

/-- What is left of the buffer. -/
theorem bufSize_atPosition {parsingState : ParsingState} {buf : List UInt8}
    (hlen : buf.length ≤ 255) :
    (Parser.atPosition parsingState offset buf ies log).bufSize.toNat = buf.length := by
  rw [Parser.atPosition, UInt8.toNat_ofNat']
  omega

/-- One round over a sub-element of a container. -/
theorem parseLoop_subie {s : Subie} {subies : List Subie} (h : Accepted (s :: subies) rest)
    (hlen : (subiesBytes (s :: subies) ++ rest).length ≤ 255)
    (hnested : 2 + s.content.length ≤ nested) :
    parseLoop sixtop (fuel + 1)
        (.atPosition (.mlmeSubie nested) offset (subiesBytes (s :: subies) ++ rest) ies log) =
      parseLoop sixtop fuel (.atPosition
        (if nested = 2 + s.content.length then .payloadIe
          else .mlmeSubie (nested - (2 + s.content.length)))
        (offset + s.bytes.length) (subiesBytes subies ++ rest) (s.writes.foldl Ies.assign ies)
        (log ++ s.writes.map fun w => (s.element, w))) := by
  rcases bytes_eq h with ⟨lo, hi, hbytes, hsub, hparse⟩
  have hbuf : subiesBytes (s :: subies) ++ rest =
      lo :: hi :: (s.content ++ (subiesBytes subies ++ rest)) := by
    rw [subiesBytes, List.flatMap_cons, hbytes]
    simp [subiesBytes]
  rw [List.append_assoc] at hparse
  rw [hbuf] at hlen ⊢
  simp only [List.length_cons, List.length_append] at hlen
  rw [parseLoop_atPosition (by simp only [List.length_append]; omega)]
  have hsize : ¬ (Parser.atPosition (.mlmeSubie nested) (offset + 2)
      (s.content ++ (subiesBytes subies ++ rest)) ies log).bufSize.toNat < s.content.length := by
    rw [bufSize_atPosition (by simp only [List.length_append]; omega)]
    simp
  -- The descriptor selects the sub-IE, which the parser accepts by assumption.
  have hstep : dispatch sixtop (.atPosition (.mlmeSubie nested) (offset + 2)
      (s.content ++ (subiesBytes subies ++ rest)) ies log) (word lo hi) =
      (.atPosition (if nested = 2 + s.content.length then .payloadIe
          else .mlmeSubie (nested - (2 + s.content.length))) (offset + 2)
        (s.content ++ (subiesBytes subies ++ rest)) (s.writes.foldl Ies.assign ies)
        (log ++ s.writes.map fun w => (s.element, w)), .next s.content.length) := by
    change mlmeStep _ nested (word lo hi) = _
    rw [mlmeStep, hsub]
    dsimp only
    rw [if_neg hsize]
    split
    case h_1 stop hstop => cases hparse.symm.trans hstop
    case h_2 writes hwrites =>
      obtain rfl := Except.ok.inj (hparse.symm.trans hwrites)
      rw [if_neg (by omega)]
      split <;> rfl
  rw [hstep]
  dsimp only
  rw [advance_atPosition, length_bytes, Nat.add_assoc]

/-- The run over a container that its sub-elements fill. -/
theorem parseLoop_subies {subies : List Subie} (hne : subies ≠ []) (h : Accepted subies rest)
    (hlen : (subiesBytes subies ++ rest).length ≤ 255) :
    ∃ log', parseLoop sixtop (fuel + subies.length) (.atPosition
        (.mlmeSubie (subiesBytes subies).length) offset (subiesBytes subies ++ rest) ies log) =
      parseLoop sixtop fuel (.atPosition .payloadIe (offset + (subiesBytes subies).length) rest
        ((subies.flatMap Subie.writes).foldl Ies.assign ies) log') := by
  -- On the sub-IEs of the container, whose length counts down to the last one.
  induction subies generalizing offset ies log with
  | nil => exact absurd rfl hne
  | cons s subies ih =>
    have hsize : (subiesBytes (s :: subies)).length =
        2 + s.content.length + (subiesBytes subies).length := by
      rw [subiesBytes, List.flatMap_cons, List.length_append, length_bytes]
      rfl
    rw [List.length_cons, ← Nat.add_assoc, parseLoop_subie h hlen (by omega), hsize]
    by_cases hnil : subies = []
    · -- The last one: the container is used up.
      subst hnil
      refine ⟨log ++ s.writes.map fun w => (s.element, w), ?_⟩
      rw [if_pos (by simp [subiesBytes]), length_bytes]
      simp [subiesBytes]
    · have hpos : 0 < (subiesBytes subies).length := by
        cases subies with
        | nil => exact absurd rfl hnil
        | cons s' subies =>
          rw [subiesBytes, List.flatMap_cons, List.length_append, length_bytes]
          omega
      rw [if_neg (by omega), Nat.add_sub_cancel_left]
      have hlen' : (subiesBytes subies ++ rest).length ≤ 255 := by
        rw [List.length_append] at hlen ⊢
        omega
      rcases @ih (offset + s.bytes.length) (s.writes.foldl Ies.assign ies)
        (log ++ s.writes.map fun w => (s.element, w)) hnil h.2 hlen' with ⟨log', hrun⟩
      refine ⟨log', ?_⟩
      rw [hrun, List.flatMap_cons, List.foldl_append, length_bytes]
      simp only [Nat.add_assoc]

/-- Header list termination 1 and a container of sub-elements. -/
def containerBytes (subies : List Subie) : List UInt8 :=
  createHeaderIeDescriptor .headerListTermination1 0 ++
    createPayloadIeDescriptor .mlme (subiesBytes subies).length ++ subiesBytes subies

/-- The record behind a container. -/
def containerIes (subies : List Subie) (ies : Ies) : Ies :=
  (subies.flatMap Subie.writes).foldl Ies.assign (ies.assign (.payloadIeOffset 2))

/-- The container with its terminations. -/
theorem length_containerBytes (subies : List Subie) :
    (containerBytes subies).length = 4 + (subiesBytes subies).length := by
  simp only [containerBytes, List.length_append]
  rfl

/-- A sub-IE has a byte at least. -/
theorem length_le_length_subiesBytes (subies : List Subie) :
    subies.length ≤ (subiesBytes subies).length := by
  induction subies with
  | nil => exact Nat.le_refl _
  | cons s subies ih =>
    rw [subiesBytes, List.flatMap_cons, List.length_append, length_bytes]
    change _ ≤ _ + (subiesBytes subies).length
    rw [List.length_cons]
    omega

/-- The header termination leads to the payload IEs. -/
theorem parseLoop_headerListTermination1 (hlen : rest.length + 2 ≤ 255) :
    parseLoop sixtop (fuel + 1) (.atPosition .headerIe offset
        (createHeaderIeDescriptor .headerListTermination1 0 ++ rest) ies log) =
      parseLoop sixtop fuel (.atPosition .payloadIe (offset + 2) rest
        (ies.assign (.payloadIeOffset (UInt8.ofNat (offset + 2))))
        (log ++ [(.headerListTermination1, .payloadIeOffset (UInt8.ofNat (offset + 2)))])) := by
  rw [createHeaderIeDescriptor, le16, List.cons_append, List.cons_append, List.nil_append,
    parseLoop_atPosition hlen]
  have hadv := fun log => advance_atPosition .payloadIe (offset + 2) [] rest
    (ies.assign (.payloadIeOffset (UInt8.ofNat (offset + 2)))) log
  exact congrArg (parseLoop sixtop fuel) (hadv _)

/-- The container leads to its sub-IEs. -/
theorem parseLoop_mlme {len : ℕ} (hmax : len < 2048) (hlen : rest.length + 2 ≤ 255) :
    parseLoop sixtop (fuel + 1) (.atPosition .payloadIe offset
        (createPayloadIeDescriptor .mlme len ++ rest) ies log) =
      parseLoop sixtop fuel (.atPosition (.mlmeSubie len) (offset + 2) rest ies log) := by
  have hann : announced sixtop .payloadIe (word _ _) = some (.mlme, len) :=
    (payload_descriptor_iff (by cases sixtop <;> decide) hmax).mp rfl
  rw [createPayloadIeDescriptor, le16, List.cons_append, List.cons_append, List.nil_append,
    parseLoop_atPosition hlen]
  generalize word _ _ = ieDesc at hann ⊢
  have hstep : dispatch sixtop (.atPosition .payloadIe (offset + 2) rest ies log) ieDesc =
      (.atPosition (.mlmeSubie len) (offset + 2) rest ies log, .next 0) := by
    change payloadStep sixtop _ ieDesc = _
    rw [announced] at hann
    split at hann
    case isFalse => cases hann
    case isTrue htype =>
      rcases Option.map_eq_some_iff.mp hann with ⟨e, hsel, heq⟩
      rw [Prod.mk.injEq] at heq
      rcases heq with ⟨rfl, rfl⟩
      rw [payloadStep, if_neg (not_not.mpr htype), hsel]
      rfl
  rw [hstep]
  exact congrArg (parseLoop sixtop fuel)
    (advance_atPosition (.mlmeSubie len) (offset + 2) [] rest ies log)

/-- The payload termination ends the elements. -/
theorem parseLoop_payloadListTermination (hlen : rest.length + 2 ≤ 255) :
    parseLoop sixtop (fuel + 1) (.atPosition .payloadIe offset
        (createPayloadIeDescriptor .payloadListTermination 0 ++ rest) ies log) =
      ⟨.ok (offset + 2), ies, log⟩ := by
  rw [createPayloadIeDescriptor, le16, List.cons_append, List.cons_append, List.nil_append,
    parseLoop_atPosition hlen]
  cases sixtop <;> rfl

/-- The parser over a list termination, a container, and what follows. -/
theorem parse_container (sixtop : Bool) (ies : Ies) {subies : List Subie}
    (hne : subies ≠ []) (h : Accepted subies rest)
    (hlen : (containerBytes subies ++ rest).length ≤ 255) :
    ∃ log' k, parseInformationElements sixtop (containerBytes subies ++ rest) ies =
      parseLoop sixtop (k + rest.length + 1) (.atPosition .payloadIe (containerBytes subies).length
        rest (containerIes subies ies) log') := by
  have hsize := length_containerBytes subies
  have hle := length_le_length_subiesBytes subies
  rw [List.length_append] at hlen
  have hfuel : (containerBytes subies ++ rest).length + 1 =
      ((subiesBytes subies).length - subies.length + 2 + rest.length + 1) + subies.length + 1 + 1 := by
    rw [List.length_append, hsize]
    omega
  have hinit : Parser.init (containerBytes subies ++ rest) ies = .atPosition .headerIe 0
      (createHeaderIeDescriptor .headerListTermination1 0 ++
        (createPayloadIeDescriptor .mlme (subiesBytes subies).length ++
          (subiesBytes subies ++ rest))) (ies.assign (.payloadIeOffset 0)) [] := by
    rw [containerBytes, List.append_assoc, List.append_assoc]
    rfl
  have hmlme : (createPayloadIeDescriptor .mlme (subiesBytes subies).length).length = 2 := rfl
  rw [parseInformationElements, hinit, hfuel, parseLoop_headerListTermination1, parseLoop_mlme]
  · rcases @parseLoop_subies sixtop ((subiesBytes subies).length - subies.length + 2 + rest.length + 1)
      4 rest (ies.assign (.payloadIeOffset 2))
      [(.headerListTermination1, .payloadIeOffset 2)] subies hne h
      (by rw [List.length_append]; omega) with ⟨log', hrun⟩
    refine ⟨log', (subiesBytes subies).length - subies.length + 2, ?_⟩
    rw [hsize]
    exact hrun
  · omega
  · rw [List.length_append]
    omega
  · rw [List.length_append, List.length_append, hmlme]
    omega

/-- A container at the end of the buffer. -/
theorem parse_container_end (sixtop : Bool) (ies : Ies) {subies : List Subie}
    (hne : subies ≠ []) (h : Accepted subies [])
    (hlen : (containerBytes subies).length ≤ 255) :
    (parseInformationElements sixtop (containerBytes subies) ies).result =
        .ok (containerBytes subies).length ∧
      (parseInformationElements sixtop (containerBytes subies) ies).ies =
        containerIes subies ies := by
  rcases parse_container sixtop ies hne h (by simpa using hlen) with
    ⟨log', k, hrun⟩
  rw [List.append_nil] at hrun
  rw [hrun, parseLoop, if_pos (by rfl)]
  exact ⟨rfl, rfl⟩

/-- A container in front of a payload list termination: what follows it is not looked at. -/
theorem parse_container_terminated (sixtop : Bool) (ies : Ies) {subies : List Subie}
    (hne : subies ≠ [])
    (h : Accepted subies (createPayloadIeDescriptor .payloadListTermination 0 ++ rest))
    (hlen : (containerBytes subies).length + 2 + rest.length ≤ 255) :
    (parseInformationElements sixtop (containerBytes subies ++
          (createPayloadIeDescriptor .payloadListTermination 0 ++ rest)) ies).result =
        .ok ((containerBytes subies).length + 2) ∧
      (parseInformationElements sixtop (containerBytes subies ++
          (createPayloadIeDescriptor .payloadListTermination 0 ++ rest)) ies).ies =
        containerIes subies ies := by
  have hterm : (createPayloadIeDescriptor .payloadListTermination 0).length = 2 := rfl
  rcases parse_container sixtop ies hne h
    (by simp only [List.length_append, hterm]; omega) with ⟨log', k, hrun⟩
  rw [hrun, parseLoop_payloadListTermination]
  · exact ⟨rfl, rfl⟩
  · omega

end Parsing

end MasterScheduler.Mote.Elements
