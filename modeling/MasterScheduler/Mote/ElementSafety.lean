import MasterScheduler.Mote.Elements
import Mathlib.Logic.Relation

/-!
# MasterScheduler.Mote.ElementSafety — what the parser of elements owes its caller

`WellFormed` is the grammar of a sequence of elements, `Safe` what a parser of
it owes its caller. The parser of `Mote.Elements` keeps to it on some buffers
only: `Clean` names them by a walk over the elements of the buffer, which looks
at descriptors, lengths and the bytes left.

- `Reads`: what parsing one element does, by the fit of its length.
- `Round`, `parseIe_round`: what one round of the loop does, by the place it
  starts at.
-/

namespace MasterScheduler.Mote.Elements

open Lib

/-! ## The grammar -/

/-- The lengths of an element that carries no length of its own in its content. -/
def Element.lengths : Element → List ℕ
  | .ackNackTimeCorrection => [2]
  | .headerListTermination1 | .headerListTermination2 | .payloadListTermination => [0]
  | .tschSynchronization => [6]
  | .tschTimeslot => [1, 25]
  | .overhearing | .rank | .timeSource | .scheduleVersion => [1]
  | .sequenceNumber | .schedulePackets => [2]
  | .scheduleReceived => [3]
  | .mlme | .ietf | .tschSlotframeAndLink | .channelHoppingSequence => []

/-- The content has the length its element prescribes: no slotframe or one with at most four
links, a default hopping sequence or one of at most sixteen channels. -/
def Prescribed : Element → List UInt8 → Prop
  | .tschSlotframeAndLink, content =>
      content = [0] ∨ content[0]? = some 1 ∧ ∃ numLinks, content[4]? = some numLinks ∧
        numLinks.toNat ≤ frame802154eIeMaxLinks ∧ content.length = 5 + 5 * numLinks.toNat
  | .channelHoppingSequence, content =>
      content.length = 1 ∨ ∃ lo hi, content[8]? = some lo ∧ content[9]? = some hi ∧
        word lo hi ≤ tschHoppingSequenceMaxLen ∧ content.length = 12 + word lo hi
  | .ietf, content => 0 < content.length ∧ content.length < 2048
  | e, content => content.length ∈ e.lengths

/-- A well-formed sequence of elements, from a state of the parser on. A container is left
when its announced length is used up. -/
inductive WellFormed (sixtop : Bool) : ParsingState → List UInt8 → Prop
  | headerEnd : WellFormed sixtop .headerIe []
  | header {content rest : List UInt8} :
      Prescribed .ackNackTimeCorrection content → WellFormed sixtop .headerIe rest →
      WellFormed sixtop .headerIe
        (createHeaderIeDescriptor .ackNackTimeCorrection content.length ++ content ++ rest)
  | headerListTermination1 {rest : List UInt8} :
      WellFormed sixtop .payloadIe rest →
      WellFormed sixtop .headerIe (createHeaderIeDescriptor .headerListTermination1 0 ++ rest)
  | headerListTermination2 :
      WellFormed sixtop .headerIe (createHeaderIeDescriptor .headerListTermination2 0)
  | payloadEnd : WellFormed sixtop .payloadIe []
  | mlme {len : ℕ} {rest : List UInt8} :
      len < 2048 → WellFormed sixtop (.mlmeSubie len) rest →
      WellFormed sixtop .payloadIe (createPayloadIeDescriptor .mlme len ++ rest)
  | ietf {content rest : List UInt8} :
      sixtop = true → Prescribed .ietf content → WellFormed sixtop .payloadIe rest →
      WellFormed sixtop .payloadIe
        (createPayloadIeDescriptor .ietf content.length ++ content ++ rest)
  | payloadListTermination :
      WellFormed sixtop .payloadIe (createPayloadIeDescriptor .payloadListTermination 0)
  | short {e : Element} {n : ℕ} {content rest : List UInt8} :
      e ∈ mlmeShortIes → Prescribed e content → WellFormed sixtop (.mlmeSubie n) rest →
      WellFormed sixtop (.mlmeSubie (2 + content.length + n))
        (createMlmeShortIeDescriptor e content.length ++ content ++ rest)
  | long {e : Element} {n : ℕ} {content rest : List UInt8} :
      e ∈ mlmeLongIes → Prescribed e content → WellFormed sixtop (.mlmeSubie n) rest →
      WellFormed sixtop (.mlmeSubie (2 + content.length + n))
        (createMlmeLongIeDescriptor e content.length ++ content ++ rest)
  | filled {rest : List UInt8} :
      WellFormed sixtop .payloadIe rest → WellFormed sixtop (.mlmeSubie 0) rest

/-- What the parser owes its caller on a buffer: it ends, reads inside of the buffer,
accepts well-formed sequences only, and assigns to the fields of the element at hand. -/
structure Safe (sixtop : Bool) (buf : List UInt8) (r : Parsed) : Prop where
  ends : r.result ≠ .error .outOfFuel
  inside : r.result ≠ .error .fault
  accepts : ∀ n, r.result = .ok n →
    n ≤ buf.length ∧ WellFormed sixtop .headerIe (buf.take n)
  own : ∀ e w, (e, w) ∈ r.log → e ∈ w.owners

/-! ## The walk over the elements of a buffer -/

/-- A position between two elements. -/
structure Place where
  parsingState : ParsingState
  rest : List UInt8

/-- The element and length a descriptor announces. -/
def announced (sixtop : Bool) : ParsingState → ℕ → Option (Element × ℕ)
  | .headerIe, ieDesc =>
      if ieDesc / 32768 = 0 then
        (select headerIes (ieDesc / 128 % 256)).map fun e => (e, ieDesc % 128)
      else none
  | .payloadIe, ieDesc =>
      if ieDesc / 32768 = 1 then
        (select (payloadIes sixtop) (ieDesc / 2048 % 16)).map fun e => (e, ieDesc % 2048)
      else none
  | .mlmeSubie _, ieDesc => (subieOf ieDesc).1.map fun e => (e, (subieOf ieDesc).2)

/-- The element at a place, its length, and the bytes behind its descriptor. -/
def Place.ie (sixtop : Bool) (pl : Place) : Option (Element × ℕ × List UInt8) :=
  match pl.rest with
  | lo :: hi :: tail =>
      (announced sixtop pl.parsingState (word lo hi)).map fun ie => (ie.1, ie.2, tail)
  | _ => none

/-- How the length of an element fits the bytes behind its descriptor. -/
inductive Fit where
  /-- As prescribed. -/
  | exact
  /-- Not as prescribed, and let through. -/
  | lax
  /-- Refused. -/
  | wrong
  /-- A field is read that is not in the buffer. -/
  | overread
  /-- A field of another element is assigned. -/
  | foreign
  /-- The element reaches past the end and is not refused. -/
  | overrun
deriving DecidableEq, Repr

/-- The fit of an element, where the code does not check what `Prescribed` asks for:

- a slotframe and link element is read up to its fifth byte, and without a
  slotframe its length is not looked at;
- a hopping sequence is read up to its tenth byte unless its length is one, and
  its length is not compared;
- a schedule packets element of length three is taken for a received vector;
- an IETF element is not compared with the bytes left. What is left is counted
  in a byte and wraps; at one byte the next round refuses the rest. -/
def fit (len : ℕ) (tail : List UInt8) : Element → Fit
  | .mlme => .exact
  | .tschSlotframeAndLink =>
      if len = 0 ∨ tail.length < len then .wrong
      else if tail.length < 5 then .overread
      else if tail[0]? = some 0 then if len = 1 then .exact else .lax
      else if tail[0]? = some 1 ∧ (tail.getD 4 0).toNat ≤ frame802154eIeMaxLinks ∧
          len = 5 + 5 * (tail.getD 4 0).toNat then .exact
      else .wrong
  | .channelHoppingSequence =>
      if len = 0 ∨ tail.length < len then .wrong
      else if len = 1 then .exact
      else if tail.length < 10 then .overread
      else if word (tail.getD 8 0) (tail.getD 9 0) ≤ tschHoppingSequenceMaxLen ∧
          len = 12 + word (tail.getD 8 0) (tail.getD 9 0) then .exact
      else .lax
  | .ietf =>
      if tail.length = 0 then .overread
      else if len = 0 then .lax
      else if len ≤ tail.length then .exact
      else if len % 256 = (tail.length + 255) % 256 then .wrong
      else .overrun
  | .schedulePackets =>
      if tail.length < len then .wrong
      else if len = 2 then .exact
      else if len = 3 then .foreign
      else .wrong
  | e => if len ∈ e.lengths ∧ len ≤ tail.length then .exact else .wrong

/-- The place behind an element that is let through. -/
def Place.after (sixtop : Bool) (pl : Place) : Option Place :=
  match pl.ie sixtop with
  | none => none
  | some (e, len, tail) =>
      if fit len tail e = .exact ∨ fit len tail e = .lax then
        match pl.parsingState, e with
        | .headerIe, .headerListTermination1 => some ⟨.payloadIe, tail⟩
        | .headerIe, .headerListTermination2 => none
        | .headerIe, _ => some ⟨.headerIe, tail.drop len⟩
        | .payloadIe, .mlme => some ⟨.mlmeSubie len, tail⟩
        | .payloadIe, .payloadListTermination => none
        | .payloadIe, _ => some ⟨.payloadIe, tail.drop len⟩
        | .mlmeSubie nested, _ =>
            if nested < 2 + len then none
            else if nested = 2 + len then some ⟨.payloadIe, tail.drop len⟩
            else some ⟨.mlmeSubie (nested - (2 + len)), tail.drop len⟩
      else none

/-- The places of the walk from a place on. -/
def Visits (sixtop : Bool) : Place → Place → Prop :=
  Relation.ReflTransGen fun pl pl' => pl.after sixtop = some pl'

/-- At this place the parser leaves the buffer or its element. -/
def Harmful (sixtop : Bool) (pl : Place) : Prop :=
  ∃ e len tail, pl.ie sixtop = some (e, len, tail) ∧
    (fit len tail e = .overread ∨ fit len tail e = .foreign ∨ fit len tail e = .overrun)

/-- At this place the sequence is over: the buffer ends, or a list termination stands there. -/
def Ends (sixtop : Bool) (pl : Place) : Prop :=
  pl.rest = [] ∨ ∃ e tail, pl.ie sixtop = some (e, 0, tail) ∧
    (e = .headerListTermination2 ∨ e = .payloadListTermination)

/-- At this place a length is let through that is not as prescribed: that of an element, or
that of a container the buffer ends in. -/
def Loose (sixtop : Bool) (pl : Place) : Prop :=
  (∃ e len tail, pl.ie sixtop = some (e, len, tail) ∧ fit len tail e = .lax) ∨
    pl.rest = [] ∧ ∃ nested, 0 < nested ∧ pl.parsingState = .mlmeSubie nested

/-- The buffers on which the missing checks do not matter. A loose length matters only if
no element is refused behind it. -/
structure Clean (sixtop : Bool) (pl : Place) : Prop where
  harmless : ∀ pl', Visits sixtop pl pl' → ¬ Harmful sixtop pl'
  strict : (∃ pl', Visits sixtop pl pl' ∧ Ends sixtop pl') →
    ∀ pl', Visits sixtop pl pl' → ¬ Loose sixtop pl'

/-! ## Descriptors -/

section Descriptors

variable {sixtop : Bool} {e : Element} {len n : ℕ} {lo hi : UInt8}

/-- The case that is taken has the identifier. -/
theorem select_eq_some {cases : List Element} {id : ℕ} (h : select cases id = some e) :
    e ∈ cases ∧ e.id = id := by
  constructor
  · exact List.mem_of_find?_eq_some h
  · simpa using List.find?_some h

/-- An element is taken under its identifier. -/
theorem select_id {cases : List Element} (hnd : (cases.map Element.id).Nodup) (he : e ∈ cases) :
    select cases e.id = some e := by
  induction cases with
  | nil => cases he
  | cons c cases ih =>
    rw [List.map_cons, List.nodup_cons] at hnd
    rw [select, List.find?_cons]
    rcases List.mem_cons.mp he with rfl | he
    · simp
    · have hne : c.id ≠ e.id := by
        intro heq
        exact hnd.1 (heq ▸ List.mem_map_of_mem he)
      simpa [hne, select] using ih hnd.2 he

/-- The identifiers of payload elements tell them apart. -/
theorem nodup_payloadIes : ((payloadIes sixtop).map Element.id).Nodup := by
  cases sixtop <;> decide

/-- Identifiers of header elements fit their field. -/
theorem id_lt_of_mem_headerIes (he : e ∈ headerIes) : e.id < 128 := by
  revert he
  cases e <;> decide

theorem id_lt_of_mem_mlmeShortIes (he : e ∈ mlmeShortIes) : e.id < 128 := by
  revert he
  cases e <;> decide

theorem id_lt_of_mem_mlmeLongIes (he : e ∈ mlmeLongIes) : e.id < 16 := by
  revert he
  cases e <;> decide

theorem id_lt_of_mem_payloadIes (he : e ∈ payloadIes sixtop) : e.id < 16 := by
  revert he
  cases sixtop <;> cases e <;> decide

/-- A descriptor is made of the word its fields are read from. -/
theorem header_descriptor_iff (he : e ∈ headerIes) (hlen : len < 128) :
    createHeaderIeDescriptor e len = [lo, hi] ↔
      announced sixtop .headerIe (word lo hi) = some (e, len) := by
  have hid := id_lt_of_mem_headerIes he
  constructor
  · intro h
    rw [createHeaderIeDescriptor, le16] at h
    have hw : word lo hi = len % 128 + e.id % 256 * 128 := by
      cases h
      exact word_le16 (by omega)
    have hsel : word lo hi / 128 % 256 = e.id := by omega
    rw [announced, if_pos (by omega), hsel, select_id (by decide) he, Option.map_some]
    rw [show word lo hi % 128 = len by omega]
  · intro h
    rw [announced] at h
    split at h
    · rcases Option.map_eq_some_iff.mp h with ⟨e', hsel, heq⟩
      cases heq
      rw [createHeaderIeDescriptor, (select_eq_some hsel).2, ← le16_word]
      congr 1
      omega
    · cases h

/-- A descriptor of a payload element announces the element and its length. -/
theorem payload_descriptor_iff (he : e ∈ payloadIes sixtop) (hlen : len < 2048) :
    createPayloadIeDescriptor e len = [lo, hi] ↔
      announced sixtop .payloadIe (word lo hi) = some (e, len) := by
  have hid := id_lt_of_mem_payloadIes he
  constructor
  · intro h
    rw [createPayloadIeDescriptor, le16] at h
    have hw : word lo hi = len % 2048 + e.id % 16 * 2048 + 32768 := by
      cases h
      exact word_le16 (by omega)
    have hsel : word lo hi / 2048 % 16 = e.id := by omega
    rw [announced, if_pos (by omega), hsel, select_id nodup_payloadIes he, Option.map_some]
    rw [show word lo hi % 2048 = len by omega]
  · intro h
    rw [announced] at h
    split at h
    · rcases Option.map_eq_some_iff.mp h with ⟨e', hsel, heq⟩
      cases heq
      rw [createPayloadIeDescriptor, (select_eq_some hsel).2, ← le16_word]
      congr 1
      omega
    · cases h

/-- So does a short descriptor of a sub-element. -/
theorem short_descriptor_iff (he : e ∈ mlmeShortIes) (hlen : len < 256) :
    createMlmeShortIeDescriptor e len = [lo, hi] ↔ subieOf (word lo hi) = (some e, len) ∧
      word lo hi / 32768 = 0 := by
  have hid := id_lt_of_mem_mlmeShortIes he
  constructor
  · intro h
    rw [createMlmeShortIeDescriptor, le16] at h
    have hw : word lo hi = len % 256 + e.id % 128 * 256 := by
      cases h
      exact word_le16 (by omega)
    have hsel : word lo hi / 256 % 128 = e.id := by omega
    have htype : word lo hi / 32768 = 0 := by omega
    refine ⟨?_, htype⟩
    rw [subieOf, if_pos htype, hsel, select_id (by decide) he]
    rw [show word lo hi % 256 = len by omega]
  · rintro ⟨h, htype⟩
    rw [subieOf, if_pos htype, Prod.mk.injEq] at h
    rw [createMlmeShortIeDescriptor, (select_eq_some h.1).2, ← le16_word]
    congr 1
    omega

/-- And a long one. -/
theorem long_descriptor_iff (he : e ∈ mlmeLongIes) (hlen : len < 2048) :
    createMlmeLongIeDescriptor e len = [lo, hi] ↔ subieOf (word lo hi) = (some e, len) ∧
      word lo hi / 32768 = 1 := by
  have hid := id_lt_of_mem_mlmeLongIes he
  constructor
  · intro h
    rw [createMlmeLongIeDescriptor, le16] at h
    have hw : word lo hi = len % 2048 + e.id % 16 * 2048 + 32768 := by
      cases h
      exact word_le16 (by omega)
    have hsel : word lo hi / 2048 % 16 = e.id := by omega
    refine ⟨?_, by omega⟩
    rw [subieOf, if_neg (by omega), hsel, select_id (by decide) he]
    rw [show word lo hi % 2048 = len by omega]
  · rintro ⟨h, htype⟩
    rw [subieOf, if_neg (by omega), Prod.mk.injEq] at h
    rw [createMlmeLongIeDescriptor, (select_eq_some h.1).2, ← le16_word]
    congr 1
    omega

end Descriptors

/-! ## One element -/

/-- What parsing one element does, by the fit of its length. -/
inductive Reads (e : Element) : Except Stop (List Write) → Fit → Prop
  | exact {writes : List Write} : (∀ w ∈ writes, e ∈ w.owners) → Reads e (.ok writes) .exact
  | lax {writes : List Write} : (∀ w ∈ writes, e ∈ w.owners) → Reads e (.ok writes) .lax
  | wrong : Reads e (.error .reject) .wrong
  | overread : Reads e (.error .fault) .overread
  | foreign {writes : List Write} :
      (∃ w ∈ writes, e ∉ w.owners) → Reads e (.ok writes) .foreign

section OneElement

variable {buf : List UInt8} {len : ℕ} {e : Element}

/-- The time correction is read as its format says. -/
theorem parseHeaderIe_reads (hlen : len ≤ buf.length) :
    Reads .ackNackTimeCorrection (parseHeaderIe buf len .ackNackTimeCorrection)
      (fit len buf .ackNackTimeCorrection) := by
  by_cases h : len = 2
  · subst h
    rw [parseHeaderIe, if_pos rfl, read16_of_lt (by omega)]
    simp only [fit, Element.lengths, List.mem_singleton, true_and, if_pos hlen]
    exact .exact (by simp [Write.owners])
  · simp only [parseHeaderIe, fit, Element.lengths, List.mem_singleton, h, false_and, if_false]
    exact .wrong

/-- The links are read where the buffer has room for them. -/
theorem parseLinks_ok {numLinks : ℕ} (h : 5 + 5 * numLinks ≤ buf.length) :
    ∃ links, (List.range numLinks).mapM (parseLink buf) = .ok links := by
  have hlink : ∀ i ∈ List.range numLinks, ∃ link, parseLink buf i = .ok link ∧ True := by
    intro i hi
    rw [List.mem_range] at hi
    rw [parseLink, read16_of_lt (by omega), read16_of_lt (by omega), readByte_of_lt (by omega)]
    exact ⟨_, rfl, trivial⟩
  rcases mapM_forall₂ hlink with ⟨links, hlinks, _⟩
  exact ⟨links, hlinks⟩

/-- Slotframe and links are read as the code says, also behind the end. -/
theorem parseSlotframeAndLink_reads (hlen : len ≤ buf.length) :
    Reads .tschSlotframeAndLink (parseSlotframeAndLink buf len)
      (fit len buf .tschSlotframeAndLink) := by
  by_cases h0 : len = 0
  · rw [parseSlotframeAndLink, if_neg (by omega), fit, if_pos (.inl h0)]
    exact .wrong
  rw [parseSlotframeAndLink, if_pos (by omega), fit, if_neg (by omega),
    readByte_of_lt (by omega)]
  -- The length of the links is read before it is compared.
  by_cases h5 : buf.length < 5
  · rw [if_pos h5, readByte_of_ge (by omega)]
    exact .overread
  rw [if_neg h5, readByte_of_lt (by omega)]
  have hget : buf[0]? = some (buf.getD 0 0) := by
    rw [List.getD_eq_getElem?_getD, List.getElem?_eq_getElem (by omega)]
    rfl
  rw [hget]
  generalize buf.getD 0 0 = numSlotframes
  generalize hlinks : buf.getD 4 0 = numLinks
  change Reads _ (if numSlotframes = 0 then _ else _) _
  -- Without slotframes nothing else is read.
  by_cases hs0 : numSlotframes = 0
  · rw [if_pos hs0, if_pos (by rw [hs0])]
    by_cases h1 : len = 1
    · rw [if_pos h1]
      exact .exact (by simp)
    · rw [if_neg h1]
      exact .lax (by simp)
  rw [if_neg hs0, if_neg (show ¬ some numSlotframes = some 0 by simpa using hs0)]
  by_cases hs1 : numSlotframes = 1
  · subst hs1
    by_cases hfit : numLinks.toNat ≤ frame802154eIeMaxLinks ∧ len = 5 + 5 * numLinks.toNat
    · have hcond : (1 : UInt8).toNat ≤ 1 ∧ numLinks.toNat ≤ frame802154eIeMaxLinks ∧
          len = 1 + (1 : UInt8).toNat * (4 + 5 * numLinks.toNat) := by
        refine ⟨by decide, hfit.1, ?_⟩
        rw [hfit.2, show (1 : UInt8).toNat = 1 from rfl]
        omega
      have hsize : 5 + 5 * numLinks.toNat ≤ buf.length := by omega
      rcases parseLinks_ok hsize with ⟨links, hl⟩
      rw [if_pos hcond, if_pos ⟨rfl, hfit⟩, readByte_of_lt (by omega), read16_of_lt (by omega), hl]
      exact .exact (by simp [Write.owners])
    · have hcond : ¬ ((1 : UInt8).toNat ≤ 1 ∧ numLinks.toNat ≤ frame802154eIeMaxLinks ∧
          len = 1 + (1 : UInt8).toNat * (4 + 5 * numLinks.toNat)) := by
        rintro ⟨_, hmax, hl⟩
        rw [show (1 : UInt8).toNat = 1 from rfl] at hl
        exact hfit ⟨hmax, by omega⟩
      rw [if_neg hcond, if_neg fun h => hfit h.2]
      exact .wrong
  · have hgt : ¬ numSlotframes.toNat ≤ 1 := by
      intro h
      have h0 : numSlotframes.toNat ≠ 0 := fun h => hs0 (UInt8.toNat_inj.mp h)
      have h1 : numSlotframes.toNat ≠ 1 := fun h => hs1 (UInt8.toNat_inj.mp h)
      omega
    have hne : ¬ (some numSlotframes = some 1 ∧ numLinks.toNat ≤ frame802154eIeMaxLinks ∧
        len = 5 + 5 * numLinks.toNat) := fun h => hs1 (by simpa using h.1)
    rw [if_neg fun h => hgt h.1, if_neg hne]
    exact .wrong

/-- The timeslot is read as its format says. -/
theorem parseTimeslot_reads (hlen : len ≤ buf.length) :
    Reads .tschTimeslot (parseTimeslot buf len) (fit len buf .tschTimeslot) := by
  by_cases h1 : len = 1
  · subst h1
    rw [parseTimeslot, if_pos rfl, readByte_of_lt (by omega)]
    simp only [fit, Element.lengths, List.mem_cons, true_or, true_and, if_pos hlen]
    exact .exact (by simp [Write.owners])
  by_cases h25 : len = 25
  · subst h25
    have hvalues : (List.range tschTsElementsCount).mapM (fun i => read16 buf (1 + 2 * i)) =
        .ok ((List.range tschTsElementsCount).map
          fun i => word (buf.getD (1 + 2 * i) 0) (buf.getD (1 + 2 * i + 1) 0)) := by
      apply mapM_ok
      intro i hi
      rw [List.mem_range, tschTsElementsCount] at hi
      exact read16_of_lt (by omega)
    rw [parseTimeslot, if_neg h1, if_pos rfl, readByte_of_lt (by omega), hvalues]
    simp only [fit, Element.lengths, List.mem_cons, true_or, or_true, true_and, if_pos hlen]
    exact .exact (by simp [Write.owners])
  · simp only [parseTimeslot, fit, Element.lengths, List.mem_cons, List.not_mem_nil, h1, h25,
      or_self, false_and, if_false]
    exact .wrong

/-- The synchronization is read as its format says. -/
theorem parseSynchronization_reads (hlen : len ≤ buf.length) :
    Reads .tschSynchronization (parseSynchronization buf len)
      (fit len buf .tschSynchronization) := by
  by_cases h : len = 6
  · subst h
    simp only [parseSynchronization, if_pos, readByte_of_lt (show 0 < buf.length by omega),
      readByte_of_lt (show 1 < buf.length by omega), readByte_of_lt (show 2 < buf.length by omega),
      readByte_of_lt (show 3 < buf.length by omega), readByte_of_lt (show 4 < buf.length by omega),
      readByte_of_lt (show 5 < buf.length by omega), fit, Element.lengths, List.mem_singleton,
      true_and, if_pos hlen]
    exact .exact (by simp [Write.owners])
  · simp only [parseSynchronization, fit, Element.lengths, List.mem_singleton, h, false_and,
      if_false]
    exact .wrong

/-- The elements of one byte. -/
theorem parseByte_reads {field : UInt8 → Write} (hfield : ∀ b, e ∈ (field b).owners)
    (hlen : len ≤ buf.length) :
    Reads e (parseByte field buf len)
      (if len ∈ [1] ∧ len ≤ buf.length then .exact else .wrong) := by
  by_cases h : len = 1
  · subst h
    rw [parseByte, if_pos rfl, readByte_of_lt (by omega), if_pos ⟨by simp, hlen⟩]
    exact .exact (by simpa using hfield _)
  · rw [parseByte, if_neg h, if_neg fun hc => h (by simpa using hc.1)]
    exact .wrong

/-- Three bytes are read for the nodes that have the schedule. -/
theorem parseScheduleReceived_ok (hlen : 3 ≤ buf.length) :
    parseScheduleReceived buf 3 = .ok [.scheduleReceived ((buf.drop 0).take 3)] := by
  rw [parseScheduleReceived, if_pos rfl, frame802154eIeScheduleBitVector,
    readBytes_of_le (by omega)]
  rfl

/-- Every short sub-element. -/
theorem parseMlmeShortIe_reads (he : e ∈ mlmeShortIes) (hlen : len ≤ buf.length) :
    Reads e (parseMlmeShortIe buf len e) (fit len buf e) := by
  simp only [mlmeShortIes, List.mem_cons, List.not_mem_nil, or_false] at he
  -- One case for each short sub-IE.
  rcases he with rfl | rfl | rfl | rfl | rfl | rfl | rfl | rfl | rfl | rfl
  · exact parseSlotframeAndLink_reads hlen
  · exact parseSynchronization_reads hlen
  · exact parseTimeslot_reads hlen
  · exact parseByte_reads (by simp [Write.owners]) hlen
  · by_cases h : len = 2
    · subst h
      rw [parseMlmeShortIe, if_pos rfl, read16_of_lt (by omega)]
      simp only [fit, Element.lengths, List.mem_singleton, true_and, if_pos hlen]
      exact .exact (by simp [Write.owners])
    · simp only [parseMlmeShortIe, fit, Element.lengths, List.mem_singleton, h, false_and,
        if_false]
      exact .wrong
  · exact parseByte_reads (by simp [Write.owners]) hlen
  · exact parseByte_reads (by simp [Write.owners]) hlen
  · exact parseByte_reads (by simp [Write.owners]) hlen
  · -- Schedule packets: a length of three falls through to the received vector.
    rw [parseMlmeShortIe, fit, if_neg (show ¬ buf.length < len by omega)]
    by_cases h2 : len = 2
    · subst h2
      rw [if_pos rfl, if_pos rfl, read16_of_lt (by omega)]
      exact .exact (by simp [Write.owners])
    rw [if_neg h2, if_neg h2]
    by_cases h3 : len = 3
    · subst h3
      rw [if_pos rfl, parseScheduleReceived_ok hlen]
      exact .foreign ⟨_, List.mem_singleton_self _, by simp [Write.owners]⟩
    · rw [if_neg h3, parseScheduleReceived, if_neg h3]
      exact .wrong
  · by_cases h3 : len = 3
    · subst h3
      rw [parseMlmeShortIe, parseScheduleReceived_ok hlen]
      simp only [fit, Element.lengths, List.mem_singleton, true_and, if_pos hlen]
      exact .exact (by simp [Write.owners])
    · simp only [parseMlmeShortIe, parseScheduleReceived, fit, Element.lengths,
        List.mem_singleton, h3, false_and, if_false]
      exact .wrong

/-- The hopping sequence, the only long one. -/
theorem parseMlmeLongIe_reads (he : e ∈ mlmeLongIes) (hlen : len ≤ buf.length) :
    Reads e (parseMlmeLongIe buf len e) (fit len buf e) := by
  simp only [mlmeLongIes, List.mem_singleton] at he
  subst he
  by_cases h0 : len = 0
  · rw [parseMlmeLongIe, if_neg (by omega), fit, if_pos (.inl h0)]
    exact .wrong
  rw [parseMlmeLongIe, if_pos (by omega), fit, if_neg (by omega), readByte_of_lt (by omega)]
  by_cases h1 : len = 1
  · subst h1
    rw [if_pos rfl]
    exact .exact (by simp [Write.owners])
  rw [if_neg h1]
  change Reads _ (if 1 < len then _ else _) _
  rw [if_pos (by omega)]
  by_cases h10 : buf.length < 10
  · rw [if_pos h10, read16_of_ge (by omega)]
    exact .overread
  rw [if_neg h10, read16_of_lt (by omega)]
  generalize word (buf.getD 8 0) (buf.getD (8 + 1) 0) = sequenceLen
  change Reads _ (if sequenceLen ≤ tschHoppingSequenceMaxLen ∧ len = 12 + sequenceLen
    then _ else _) _
  by_cases hfit : sequenceLen ≤ tschHoppingSequenceMaxLen ∧ len = 12 + sequenceLen
  · rw [if_pos hfit, if_pos hfit, readBytes_of_le (by omega)]
    exact .exact (by simp [Write.owners])
  · rw [if_neg hfit, if_neg hfit]
    exact .lax (by simp [Write.owners])

end OneElement

/-! ## One round of the loop -/

/-- Only fields of the element at hand were assigned between two states. -/
def Own (p p' : Parser) : Prop :=
  ∃ log, p'.log = p.log ++ log ∧ ∀ e w, (e, w) ∈ log → e ∈ w.owners

/-- What the body does behind the descriptor of the element at a place. -/
inductive Round (sixtop : Bool) (pl : Place) (p : Parser) : Parser × Control → Prop
  | refuse {p' : Parser} : pl.after sixtop = none → ¬ Harmful sixtop pl → ¬ Ends sixtop pl →
      Own p p' → Round sixtop pl p (p', .done (.error .reject))
  | fault {p' : Parser} : Harmful sixtop pl → Round sixtop pl p (p', .done (.error .fault))
  | foreign {p' : Parser} {c : Control} : Harmful sixtop pl →
      (∃ e w, (e, w) ∈ p'.log ∧ e ∉ w.owners) →
      (c = .done (.error .reject) ∨ ∃ len, c = .next len ∧ p'.buf = p.buf ∧
        p'.bufSize = p.bufSize ∧ len ≤ p.buf.length) → Round sixtop pl p (p', c)
  | terminate {p' : Parser} : Ends sixtop pl → ¬ Harmful sixtop pl → pl.after sixtop = none →
      Own p p' → Round sixtop pl p (p', .done (.ok p.offset))
  | skip {p' : Parser} {len : ℕ} {parsingState : ParsingState} :
      pl.after sixtop = some ⟨parsingState, p.buf.drop len⟩ → ¬ Harmful sixtop pl → Own p p' →
      p'.parsingState = parsingState → p'.offset = p.offset → p'.buf = p.buf →
      p'.bufSize = p.bufSize → len ≤ p.buf.length → Round sixtop pl p (p', .next len)
  | overrun {p' : Parser} (len : ℕ) : Harmful sixtop pl → p'.offset = p.offset →
      p'.buf = p.buf → p'.bufSize = p.bufSize → p.buf.length < len →
      len % 256 ≠ (p.buf.length + 255) % 256 → Round sixtop pl p (p', .next len)
  | underrun {p' : Parser} (len : ℕ) : pl.after sixtop = none → ¬ Harmful sixtop pl →
      ¬ Ends sixtop pl → Own p p' → p'.bufSize = p.bufSize →
      len % 256 = (p.buf.length + 255) % 256 → Round sixtop pl p (p', .next len)

/-- The counter of bytes left does not wrap. -/
theorem toNat_sub_ofNat (size : UInt8) {len : ℕ} (h : len ≤ size.toNat) :
    (size - UInt8.ofNat len).toNat = size.toNat - len := by
  have hlt := size.toNat_lt
  have hlen : (UInt8.ofNat len).toNat = len := by
    rw [UInt8.toNat_ofNat']
    exact Nat.mod_eq_of_lt (by omega)
  rw [UInt8.toNat_sub_of_le, hlen]
  rw [UInt8.le_iff_toNat_le, hlen]
  exact h

section OneRound

variable {sixtop : Bool} {p p' : Parser} {e : Element} {len nested : ℕ} {lo hi : UInt8}
  {parsingState : ParsingState} {tail : List UInt8}

theorem Own.refl (p : Parser) : Own p p := ⟨[], by simp, by simp⟩

/-- An element that assigns its own fields only. -/
theorem own_store {writes : List Write} (h : ∀ w ∈ writes, e ∈ w.owners) :
    Own p (p.store e writes) := by
  refine ⟨_, rfl, ?_⟩
  intro e' w hw
  rw [List.mem_map] at hw
  rcases hw with ⟨w', hw', heq⟩
  cases heq
  exact h w hw'

/-- The element at a place is the announced one. -/
theorem ie_eq_some (tail : List UInt8)
    (h : announced sixtop parsingState (word lo hi) = some (e, len)) :
    Place.ie sixtop ⟨parsingState, lo :: hi :: tail⟩ = some (e, len, tail) := by
  simp only [Place.ie, h, Option.map_some]

theorem ie_eq_none (tail : List UInt8)
    (h : announced sixtop parsingState (word lo hi) = none) :
    Place.ie sixtop ⟨parsingState, lo :: hi :: tail⟩ = none := by
  simp only [Place.ie, h, Option.map_none]

/-- An element does harm by what it reads or assigns. -/
theorem harmful_iff {pl : Place} (h : pl.ie sixtop = some (e, len, tail)) :
    Harmful sixtop pl ↔
      fit len tail e = .overread ∨ fit len tail e = .foreign ∨ fit len tail e = .overrun := by
  constructor
  · rintro ⟨e', len', tail', hie, hfit⟩
    rw [h] at hie
    cases hie
    exact hfit
  · intro hfit
    exact ⟨e, len, tail, h, hfit⟩

/-- The parser ends at a termination of length zero. -/
theorem ends_cons_iff (h : Place.ie sixtop ⟨parsingState, lo :: hi :: tail⟩ = some (e, len, tail)) :
    Ends sixtop ⟨parsingState, lo :: hi :: tail⟩ ↔
      len = 0 ∧ (e = .headerListTermination2 ∨ e = .payloadListTermination) := by
  constructor
  · rintro (hnil | ⟨e', tail', hie, he⟩)
    · cases hnil
    · rw [h] at hie
      cases hie
      exact ⟨rfl, he⟩
  · rintro ⟨rfl, he⟩
    exact .inr ⟨e, tail, h, he⟩

/-- A descriptor that announces nothing is refused. -/
theorem round_none (h : announced sixtop parsingState (word lo hi) = none) :
    Round sixtop ⟨parsingState, lo :: hi :: p.buf⟩ p (p, .done (.error .reject)) := by
  have hie := ie_eq_none p.buf h
  apply Round.refuse
  · simp only [Place.after, hie]
  · rintro ⟨e, len, tail, h', _⟩
    rw [hie] at h'
    cases h'
  · rintro (h' | ⟨e, tail, h', _⟩)
    · cases h'
    · rw [hie] at h'
      cases h'
  · exact Own.refl p

/-- An element of the wrong length is refused. -/
theorem round_wrong (h : announced sixtop parsingState (word lo hi) = some (e, len))
    (hfit : fit len p.buf e = .wrong) (hown : Own p p') :
    Round sixtop ⟨parsingState, lo :: hi :: p.buf⟩ p (p', .done (.error .reject)) := by
  have hie := ie_eq_some p.buf h
  apply Round.refuse
  · simp only [Place.after, hie, hfit]
    rfl
  · rw [harmful_iff hie, hfit]
    decide
  · rw [ends_cons_iff hie]
    rintro ⟨rfl, rfl | rfl⟩
    · simp [fit, Element.lengths] at hfit
    · simp [fit, Element.lengths] at hfit
  · exact hown

/-- A place whose element does harm. -/
theorem harmful_of_fit (h : announced sixtop parsingState (word lo hi) = some (e, len))
    (hfit : fit len tail e = .overread ∨ fit len tail e = .foreign ∨ fit len tail e = .overrun) :
    Harmful sixtop ⟨parsingState, lo :: hi :: tail⟩ :=
  (harmful_iff (ie_eq_some tail h)).mpr hfit

/-- A place whose element does none. -/
theorem not_harmful_of_fit (h : announced sixtop parsingState (word lo hi) = some (e, len))
    (hfit : fit len tail e = .exact ∨ fit len tail e = .lax) :
    ¬ Harmful sixtop ⟨parsingState, lo :: hi :: tail⟩ := by
  rw [harmful_iff (ie_eq_some tail h)]
  rcases hfit with hfit | hfit <;> rw [hfit] <;> decide

/-- Elements without a check of their own are compared with the bytes left. -/
theorem fit_of_length_lt (he : e ≠ .mlme) (he' : e ≠ .ietf) (h : tail.length < len) :
    fit len tail e = .wrong := by
  cases e <;> simp_all [fit]

/-- One round at a header element. -/
theorem headerStep_round (hstate : p.parsingState = .headerIe)
    (hfed : p.bufSize.toNat = p.buf.length) :
    Round sixtop ⟨.headerIe, lo :: hi :: p.buf⟩ p (headerStep p (word lo hi)) := by
  rw [headerStep]
  by_cases htype : word lo hi / 32768 = 0
  case neg =>
    rw [if_pos htype]
    apply round_none
    rw [announced, if_neg htype]
  rw [if_neg (not_not.mpr htype)]
  have hann : announced sixtop .headerIe (word lo hi) =
      (select headerIes (word lo hi / 128 % 256)).map fun e => (e, word lo hi % 128) := by
    rw [announced, if_pos htype]
  dsimp only
  -- The type is one of the header IEs, or the frame is rejected.
  cases hsel : select headerIes (word lo hi / 128 % 256) with
  | none =>
    apply round_none
    rw [hann, hsel, Option.map_none]
  | some e =>
    rw [hsel, Option.map_some] at hann
    have hie := ie_eq_some p.buf hann
    have he := (select_eq_some hsel).1
    simp only [headerIes, List.mem_cons, List.not_mem_nil, or_false] at he
    rcases he with rfl | rfl | rfl
    · -- List termination 1: payload elements follow.
      dsimp only
      by_cases hlen : word lo hi % 128 = 0
      · rw [if_pos hlen, hlen]
        rw [hlen] at hann hie
        have hfit : fit 0 p.buf .headerListTermination1 = .exact := by simp [fit, Element.lengths]
        have hafter : Place.after sixtop ⟨.headerIe, lo :: hi :: p.buf⟩ =
            some ⟨.payloadIe, p.buf.drop 0⟩ := by
          simp only [Place.after, hie, hfit, true_or, if_true, List.drop_zero]
        exact .skip hafter (not_harmful_of_fit hann (.inl hfit)) (own_store (by simp [Write.owners]))
          rfl rfl rfl rfl (by omega)
      · rw [if_neg hlen]
        exact round_wrong hann (by simp [fit, Element.lengths, hlen]) (Own.refl p)
    · -- List termination 2: the elements end here.
      dsimp only
      by_cases hlen : word lo hi % 128 = 0
      · rw [if_pos hlen]
        rw [hlen] at hann hie
        have hfit : fit 0 p.buf .headerListTermination2 = .exact := by simp [fit, Element.lengths]
        apply Round.terminate
        · rw [ends_cons_iff hie]
          exact ⟨rfl, .inl rfl⟩
        · exact not_harmful_of_fit hann (.inl hfit)
        · simp only [Place.after, hie, hfit, true_or, if_true]
        · exact own_store (by simp [Write.owners])
      · rw [if_neg hlen]
        exact round_wrong hann (by simp [fit, Element.lengths, hlen]) (Own.refl p)
    · dsimp only
      rw [hfed]
      by_cases hlen : p.buf.length < word lo hi % 128
      · rw [if_pos hlen]
        exact round_wrong hann (fit_of_length_lt (by simp) (by simp) hlen) (Own.refl p)
      rw [if_neg hlen]
      have hreads := parseHeaderIe_reads (Nat.le_of_not_lt hlen)
      generalize hparse : parseHeaderIe p.buf (word lo hi % 128) .ackNackTimeCorrection = parsed
      generalize hfit : fit (word lo hi % 128) p.buf .ackNackTimeCorrection = f
      rw [hparse, hfit] at hreads
      have hafter : f = .exact ∨ f = .lax → Place.after sixtop ⟨.headerIe, lo :: hi :: p.buf⟩ =
          some ⟨.headerIe, p.buf.drop (word lo hi % 128)⟩ := by
        intro hf
        simp only [Place.after, hie, hfit, if_pos hf]
      cases hreads with
      | exact hown =>
        exact .skip (hafter (.inl rfl)) (not_harmful_of_fit hann (.inl hfit)) (own_store hown)
          hstate rfl rfl rfl (by omega)
      | lax hown =>
        exact .skip (hafter (.inr rfl)) (not_harmful_of_fit hann (.inr hfit)) (own_store hown)
          hstate rfl rfl rfl (by omega)
      | wrong => exact round_wrong hann hfit (Own.refl p)
      | overread => exact Round.fault (harmful_of_fit hann (.inl hfit))
      | foreign hw =>
        simp only [fit] at hfit
        split at hfit <;> cases hfit

/-- The two continuations of an IETF element differ in what they store only. -/
theorem ietf_round (hann : announced sixtop .payloadIe (word lo hi) = some (.ietf, len))
    (hstate : p'.parsingState = .payloadIe) (hown : Own p p') (hoffset : p'.offset = p.offset)
    (hbuf : p'.buf = p.buf) (hsize : p'.bufSize = p.bufSize) (hne : p.buf.length ≠ 0) :
    Round sixtop ⟨.payloadIe, lo :: hi :: p.buf⟩ p (p', .next len) := by
  have hie := ie_eq_some p.buf hann
  by_cases hlen : len ≤ p.buf.length
  · have hfit : fit len p.buf .ietf = .exact ∨ fit len p.buf .ietf = .lax := by
      by_cases h0 : len = 0 <;> simp [fit, hne, h0, hlen]
    have hafter : Place.after sixtop ⟨.payloadIe, lo :: hi :: p.buf⟩ =
        some ⟨.payloadIe, p.buf.drop len⟩ := by
      simp only [Place.after, hie, if_pos hfit]
    exact .skip hafter (not_harmful_of_fit hann hfit) hown hstate hoffset hbuf hsize hlen
  have h0 : len ≠ 0 := by omega
  by_cases hres : len % 256 = (p.buf.length + 255) % 256
  · -- One byte is left of the counter: the next round refuses it.
    have hfit : fit len p.buf .ietf = .wrong := by simp [fit, hne, h0, hlen, hres]
    apply Round.underrun len _ _ _ hown hsize hres
    · simp only [Place.after, hie, hfit]
      rfl
    · rw [harmful_iff hie, hfit]
      decide
    · rw [ends_cons_iff hie]
      rintro ⟨h, _⟩
      exact h0 h
  · have hfit : fit len p.buf .ietf = .overrun := by simp [fit, hne, h0, hlen, hres]
    exact .overrun len (harmful_of_fit hann (.inr (.inr hfit))) hoffset hbuf hsize (by omega) hres

/-- One round at a payload element. -/
theorem payloadStep_round (hstate : p.parsingState = .payloadIe) :
    Round sixtop ⟨.payloadIe, lo :: hi :: p.buf⟩ p (payloadStep sixtop p (word lo hi)) := by
  rw [payloadStep]
  by_cases htype : word lo hi / 32768 = 1
  case neg =>
    rw [if_pos htype]
    apply round_none
    rw [announced, if_neg htype]
  rw [if_neg (not_not.mpr htype)]
  have hann : announced sixtop .payloadIe (word lo hi) =
      (select (payloadIes sixtop) (word lo hi / 2048 % 16)).map fun e => (e, word lo hi % 2048) := by
    rw [announced, if_pos htype]
  dsimp only
  -- The type is one of the payload IEs, or the frame is rejected.
  cases hsel : select (payloadIes sixtop) (word lo hi / 2048 % 16) with
  | none =>
    apply round_none
    rw [hann, hsel, Option.map_none]
  | some e =>
    rw [hsel, Option.map_some] at hann
    have hie := ie_eq_some p.buf hann
    have he : e = .mlme ∨ e = .ietf ∨ e = .payloadListTermination := by
      have he := (select_eq_some hsel).1
      cases sixtop <;> simp [payloadIes] at he <;> tauto
    rcases he with rfl | rfl | rfl
    · -- The container is entered, whatever its length.
      have hafter : Place.after sixtop ⟨.payloadIe, lo :: hi :: p.buf⟩ =
          some ⟨.mlmeSubie (word lo hi % 2048), p.buf.drop 0⟩ := by
        simp only [Place.after, hie, fit, true_or, if_true, List.drop_zero]
      exact .skip hafter (not_harmful_of_fit hann (.inl rfl)) (Own.refl p) rfl rfl rfl rfl
        (by omega)
    · dsimp only
      by_cases hne : p.buf.length = 0
      · rw [readByte_of_ge (by omega)]
        exact .fault (harmful_of_fit hann (.inl (by simp [fit, hne])))
      rw [readByte_of_lt (by omega)]
      dsimp only
      split
      · exact ietf_round hann hstate (own_store (by simp [Write.owners])) rfl rfl rfl hne
      · exact ietf_round hann hstate (Own.refl p) rfl rfl rfl hne
    · dsimp only
      by_cases hlen : word lo hi % 2048 = 0
      · rw [if_pos hlen]
        rw [hlen] at hann hie
        have hfit : fit 0 p.buf .payloadListTermination = .exact := by
          simp [fit, Element.lengths]
        apply Round.terminate
        · rw [ends_cons_iff hie]
          exact ⟨rfl, .inr rfl⟩
        · exact not_harmful_of_fit hann (.inl hfit)
        · simp only [Place.after, hie, hfit, true_or, if_true]
        · exact Own.refl p
      · rw [if_neg hlen]
        exact round_wrong hann (by simp [fit, Element.lengths, hlen]) (Own.refl p)

/-- A sub-element is of the kind that its descriptor says. -/
theorem mem_of_subieOf (h : subieOf (word lo hi) = (some e, len)) :
    word lo hi / 32768 = 0 ∧ e ∈ mlmeShortIes ∨ word lo hi / 32768 ≠ 0 ∧ e ∈ mlmeLongIes := by
  rw [subieOf] at h
  split at h
  case isTrue htype =>
    rw [Prod.mk.injEq] at h
    exact .inl ⟨htype, (select_eq_some h.1).1⟩
  case isFalse htype =>
    rw [Prod.mk.injEq] at h
    exact .inr ⟨htype, (select_eq_some h.1).1⟩

/-- A sub-element is read by the function its type bit selects. -/
theorem subie_reads {buf : List UInt8} (h : subieOf (word lo hi) = (some e, len))
    (hlen : len ≤ buf.length) :
    Reads e (if word lo hi / 32768 = 0 then parseMlmeShortIe buf len e
      else parseMlmeLongIe buf len e) (fit len buf e) := by
  rcases mem_of_subieOf h with ⟨htype, he⟩ | ⟨htype, he⟩
  · rw [if_pos htype]
    exact parseMlmeShortIe_reads he hlen
  · rw [if_neg htype]
    exact parseMlmeLongIe_reads he hlen

/-- A sub-element is no container. -/
theorem subie_ne (h : subieOf (word lo hi) = (some e, len)) : e ≠ .mlme ∧ e ≠ .ietf ∧
    e ≠ .headerListTermination2 ∧ e ≠ .payloadListTermination := by
  rcases mem_of_subieOf h with ⟨_, he⟩ | ⟨_, he⟩
  · simp only [mlmeShortIes, List.mem_cons, List.not_mem_nil, or_false] at he
    rcases he with rfl | rfl | rfl | rfl | rfl | rfl | rfl | rfl | rfl | rfl <;> decide
  · simp only [mlmeLongIes, List.mem_singleton] at he
    subst he
    decide

/-- A sub-element that was read is skipped if the container has room for it. -/
theorem subie_round {writes : List Write} (h : subieOf (word lo hi) = (some e, len))
    (hfit : fit len p.buf e = .exact ∨ fit len p.buf e = .lax)
    (hown : ∀ w ∈ writes, e ∈ w.owners) (hlen : len ≤ p.buf.length) :
    Round sixtop ⟨.mlmeSubie nested, lo :: hi :: p.buf⟩ p
      (if nested < 2 + len then (p.store e writes, .done (.error .reject))
      else if nested = 2 + len then
        ({ p.store e writes with parsingState := .payloadIe }, .next len)
      else ({ p.store e writes with parsingState := .mlmeSubie (nested - (2 + len)) },
        .next len)) := by
  have hann : announced sixtop (.mlmeSubie nested) (word lo hi) = some (e, len) := by
    rw [announced, h]
    rfl
  have hie := ie_eq_some p.buf hann
  have hharm := not_harmful_of_fit hann hfit
  by_cases hlt : nested < 2 + len
  · rw [if_pos hlt]
    apply Round.refuse _ hharm _ (own_store hown)
    · simp only [Place.after, hie, if_pos hfit, if_pos hlt]
    · rw [ends_cons_iff hie]
      rintro ⟨_, he | he⟩
      · exact (subie_ne h).2.2.1 he
      · exact (subie_ne h).2.2.2 he
  rw [if_neg hlt]
  by_cases heq : nested = 2 + len
  · rw [if_pos heq]
    have hafter : Place.after sixtop ⟨.mlmeSubie nested, lo :: hi :: p.buf⟩ =
        some ⟨.payloadIe, p.buf.drop len⟩ := by
      simp only [Place.after, hie, if_pos hfit, if_neg hlt, if_pos heq]
    exact .skip hafter hharm (own_store hown) rfl rfl rfl rfl hlen
  · rw [if_neg heq]
    have hafter : Place.after sixtop ⟨.mlmeSubie nested, lo :: hi :: p.buf⟩ =
        some ⟨.mlmeSubie (nested - (2 + len)), p.buf.drop len⟩ := by
      simp only [Place.after, hie, if_pos hfit, if_neg hlt, if_neg heq]
    exact .skip hafter hharm (own_store hown) rfl rfl rfl rfl hlen

/-- One round at a sub-element. -/
theorem mlmeStep_round (hfed : p.bufSize.toNat = p.buf.length) :
    Round sixtop ⟨.mlmeSubie nested, lo :: hi :: p.buf⟩ p (mlmeStep p nested (word lo hi)) := by
  rw [mlmeStep]
  rcases hsub : subieOf (word lo hi) with ⟨_ | e, len⟩
  · apply round_none
    rw [announced, hsub]
    rfl
  have hann : announced sixtop (.mlmeSubie nested) (word lo hi) = some (e, len) := by
    rw [announced, hsub]
    rfl
  dsimp only
  rw [hfed]
  by_cases hlen : p.buf.length < len
  · rw [if_pos hlen]
    exact round_wrong hann (fit_of_length_lt (subie_ne hsub).1 (subie_ne hsub).2.1 hlen)
      (Own.refl p)
  rw [if_neg hlen]
  have hreads := subie_reads hsub (Nat.le_of_not_lt hlen)
  generalize hparse : (if word lo hi / 32768 = 0 then parseMlmeShortIe p.buf len e
    else parseMlmeLongIe p.buf len e) = parsed
  generalize hfit : fit len p.buf e = f
  rw [hparse, hfit] at hreads
  cases hreads with
  | exact hown => exact subie_round hsub (.inl hfit) hown (by omega)
  | lax hown => exact subie_round hsub (.inr hfit) hown (by omega)
  | wrong => exact round_wrong hann hfit (Own.refl p)
  | overread => exact .fault (harmful_of_fit hann (.inl hfit))
  | foreign hw =>
    -- The field is assigned before the length of the container is looked at.
    rcases hw with ⟨w, hw, hforeign⟩
    have hmem : (e, w) ∈ (p.store e _).log :=
      List.mem_append_right _ (List.mem_map_of_mem hw)
    have hharm := harmful_of_fit hann (.inr (.inl hfit))
    dsimp only
    split
    · exact .foreign hharm ⟨e, w, hmem, hforeign⟩ (.inl rfl)
    have hnext : len ≤ p.buf.length := by omega
    split
    · exact .foreign hharm ⟨e, w, hmem, hforeign⟩ (.inr ⟨len, rfl, rfl, rfl, hnext⟩)
    · exact .foreign hharm ⟨e, w, hmem, hforeign⟩ (.inr ⟨len, rfl, rfl, rfl, hnext⟩)

/-- One round of the parser. -/
theorem parseIe_round (sixtop : Bool) (hbuf : p.buf = lo :: hi :: tail)
    (hfed : p.bufSize.toNat = p.buf.length) :
    Round sixtop ⟨p.parsingState, p.buf⟩ (p.advance 2) (parseIe sixtop p) := by
  have hlen : p.buf.length = tail.length + 2 := by simp [hbuf]
  have hread : read16 p.buf 0 = .ok (word lo hi) := by
    rw [read16_of_lt (by omega), hbuf]
    rfl
  have hadv : (p.advance 2).buf = tail := by simp [Parser.advance, hbuf]
  have hfed' : (p.advance 2).bufSize.toNat = (p.advance 2).buf.length := by
    rw [hadv, Parser.advance, toNat_sub_ofNat _ (by omega)]
    omega
  rw [parseIe, if_neg (by omega), hread]
  dsimp only
  have hplace : p.buf = lo :: hi :: (p.advance 2).buf := by rw [hadv, hbuf]
  have hstate : (p.advance 2).parsingState = p.parsingState := rfl
  rw [hplace, hstate]
  cases hps : p.parsingState with
  | headerIe => exact headerStep_round (hstate.trans hps) hfed'
  | payloadIe => exact payloadStep_round (hstate.trans hps)
  | mlmeSubie nested => exact mlmeStep_round hfed'

end OneRound

end MasterScheduler.Mote.Elements
