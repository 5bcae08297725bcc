import MasterScheduler.Mote.ElementSafety

/-!
# MasterScheduler.Mote.ElementRuns — whole runs of the parser of elements

The rounds of `Mote.ElementSafety` follow the walk over the elements of a
buffer, and so does the grammar.

- `wellFormed_after`: the grammar along one step of the walk.
- `parseLoop_tracks`: what a run does, by the walk from the place it starts at.
- `parse_safe_iff`: the buffers the parser is safe on.
-/

namespace MasterScheduler.Mote.Elements

open Lib

/-! ## The grammar along the walk -/

section Grammar

variable {sixtop : Bool} {e : Element} {len k nested : ℕ} {lo hi : UInt8} {tail : List UInt8}

/-- Content of a prescribed length is prescribed. -/
theorem prescribed_of_mem_lengths (hlen : len ≤ tail.length) (hmem : len ∈ e.lengths) :
    Prescribed e (tail.take len) := by
  have hl : (tail.take len).length ∈ e.lengths := by
    rw [List.length_take, min_eq_left hlen]
    exact hmem
  cases e <;> first | exact hl | simp [Element.lengths] at hmem

/-- A slotframe IE is prescribed when its length is that of its links. -/
theorem prescribed_slotframe_iff (hlen : len ≤ tail.length)
    (hfit : fit len tail .tschSlotframeAndLink = .exact ∨
      fit len tail .tschSlotframeAndLink = .lax) :
    Prescribed .tschSlotframeAndLink (tail.take len) ↔
      fit len tail .tschSlotframeAndLink = .exact := by
  -- The element may be empty.
  rcases tail with _ | ⟨b, tail⟩
  · have h0 : len = 0 := by simpa using hlen
    simp [fit, h0] at hfit
  simp only [fit, List.getElem?_cons_zero, Option.some.injEq] at hfit ⊢
  by_cases hw : len = 0 ∨ (b :: tail).length < len
  · rw [if_pos hw] at hfit
    exact absurd hfit (by decide)
  rw [if_neg hw] at hfit ⊢
  by_cases h5 : (b :: tail).length < 5
  · rw [if_pos h5] at hfit
    exact absurd hfit (by decide)
  rw [if_neg h5] at hfit ⊢
  obtain ⟨n, rfl⟩ : ∃ n, len = n + 1 := ⟨len - 1, by omega⟩
  rw [List.take_succ_cons, Prescribed, List.getElem?_cons_zero, Option.some.injEq]
  -- Without slotframes the length is one; else it is that of the links of each.
  by_cases hb0 : b = 0
  · subst hb0
    rw [if_pos rfl]
    constructor
    · rintro (h | ⟨h, _⟩)
      · have hn : n = 0 := by
          have := congrArg List.length h
          simp only [List.length_cons, List.length_take, List.length_nil] at this hlen
          omega
        rw [if_pos (by omega)]
      · exact absurd h (by decide)
    · intro h
      split at h
      · left
        rw [show n = 0 by omega]
        rfl
      · cases h
  · -- One slotframe: the number of links is inside of the content.
    rw [if_neg hb0] at hfit ⊢
    split at hfit
    case isFalse => simp at hfit
    case isTrue hone =>
      rw [if_pos hone]
      refine ⟨fun _ => rfl, fun _ => .inr ⟨hone.1, _, ?_, hone.2.1, ?_⟩⟩
      · rw [← List.take_succ_cons, List.getElem?_take_of_lt (by omega),
          List.getElem?_eq_getElem (by omega), List.getD_eq_getElem?_getD,
          List.getElem?_eq_getElem (by omega)]
        rfl
      · rw [← List.take_succ_cons, List.length_take, min_eq_left hlen]
        exact hone.2.2

/-- A hopping sequence is prescribed when its length is that of the list. -/
theorem prescribed_hopping_iff (hlen : len ≤ tail.length)
    (hfit : fit len tail .channelHoppingSequence = .exact ∨
      fit len tail .channelHoppingSequence = .lax) :
    Prescribed .channelHoppingSequence (tail.take len) ↔
      fit len tail .channelHoppingSequence = .exact := by
  have hl : (tail.take len).length = len := by rw [List.length_take, min_eq_left hlen]
  simp only [fit] at hfit ⊢
  by_cases hw : len = 0 ∨ tail.length < len
  · simp [hw] at hfit
  rw [if_neg hw] at hfit ⊢
  rw [Prescribed, hl]
  -- The identity alone is a prescribed length too.
  by_cases h1 : len = 1
  · simp [h1]
  rw [if_neg h1] at hfit ⊢
  by_cases h10 : tail.length < 10
  · simp [h10] at hfit
  rw [if_neg h10]
  -- The length of the list stands in bytes 8 and 9.
  have hget : ∀ i, i < 10 → tail[i]? = some (tail.getD i 0) := by
    intro i hi
    rw [List.getD_eq_getElem?_getD, List.getElem?_eq_getElem (by omega)]
    rfl
  have htake : ∀ i, i < len → i < 10 → (tail.take len)[i]? = some (tail.getD i 0) := by
    intro i hi hi'
    rw [List.getElem?_take_of_lt hi, hget i hi']
  constructor
  · rintro (h | ⟨a, b, ha, hb, hmax, h⟩)
    · exact absurd h h1
    · rw [htake 8 (by omega) (by omega), Option.some.injEq] at ha
      rw [htake 9 (by omega) (by omega), Option.some.injEq] at hb
      rw [ha, hb, if_pos ⟨hmax, h⟩]
  · intro h
    split at h
    case isTrue hseq =>
      exact .inr ⟨_, _, htake 8 (by omega) (by omega), htake 9 (by omega) (by omega),
        hseq.1, hseq.2⟩
    case isFalse => cases h

/-- An element that is let through has the prescribed length when it fits exactly. -/
theorem prescribed_iff (he : e ≠ .mlme) (hlen : len ≤ tail.length) (hmax : len < 2048)
    (hfit : fit len tail e = .exact ∨ fit len tail e = .lax) :
    Prescribed e (tail.take len) ↔ fit len tail e = .exact := by
  cases e with
  | mlme => exact absurd rfl he
  | tschSlotframeAndLink => exact prescribed_slotframe_iff hlen hfit
  | channelHoppingSequence => exact prescribed_hopping_iff hlen hfit
  | ietf =>
    rw [Prescribed, List.length_take, min_eq_left hlen]
    simp only [fit] at hfit ⊢
    by_cases ht : tail.length = 0
    · simp [ht] at hfit
    rw [if_neg ht]
    by_cases h0 : len = 0
    · simp [h0]
    · simp [h0, hlen, hmax, Nat.pos_of_ne_zero h0]
  | schedulePackets =>
    simp only [fit, if_neg (show ¬ tail.length < len by omega)] at hfit ⊢
    by_cases h2 : len = 2
    · rw [if_pos h2]
      refine ⟨fun _ => rfl, fun _ => prescribed_of_mem_lengths hlen ?_⟩
      simp [Element.lengths, h2]
    · rw [if_neg h2] at hfit
      split at hfit <;> simp at hfit
  | _ =>
    -- The elements of a fixed length are let through when they have it.
    simp only [fit] at hfit ⊢
    split at hfit
    case isTrue hmem =>
      rw [if_pos hmem]
      exact ⟨fun _ => rfl, fun _ => prescribed_of_mem_lengths hlen hmem.1⟩
    case isFalse => simp at hfit

/-- A descriptor at the front is known. -/
theorem descriptor_append_inj {n : ℕ} {rest y : List UInt8} (h : lo :: hi :: y = le16 n ++ rest) :
    le16 n = [lo, hi] ∧ rest = y := by
  simp only [le16, List.cons_append, List.nil_append, List.cons.injEq] at h
  exact ⟨by rw [le16, h.1, h.2.1], h.2.2.symm⟩

/-- The first header element of a well-formed sequence. -/
theorem wellFormed_header_iff {y : List UInt8}
    (hann : announced sixtop .headerIe (word lo hi) = some (e, len)) :
    WellFormed sixtop .headerIe (lo :: hi :: y) ↔
      (e = .ackNackTimeCorrection ∧ len ≤ y.length ∧ Prescribed e (y.take len) ∧
        WellFormed sixtop .headerIe (y.drop len)) ∨
      (e = .headerListTermination1 ∧ len = 0 ∧ WellFormed sixtop .payloadIe y) ∨
      (e = .headerListTermination2 ∧ len = 0 ∧ y = []) := by
  constructor
  · intro h
    generalize hx : lo :: hi :: y = x at h
    -- The constructors of the grammar that start with this descriptor.
    cases h with
    | headerEnd => cases hx
    | header hcontent hrest =>
      rw [List.append_assoc] at hx
      rcases descriptor_append_inj hx with ⟨hdesc, rfl⟩
      have hlen := hcontent
      simp only [Prescribed, Element.lengths, List.mem_singleton] at hlen
      rw [← createHeaderIeDescriptor, header_descriptor_iff (by decide) (by omega), hann] at hdesc
      cases hdesc
      left
      refine ⟨rfl, by simp, ?_, ?_⟩
      · simpa using hcontent
      · simpa using hrest
    | headerListTermination1 hrest =>
      rcases descriptor_append_inj hx with ⟨hdesc, rfl⟩
      rw [← createHeaderIeDescriptor, header_descriptor_iff (by decide) (by omega), hann] at hdesc
      cases hdesc
      exact .inr (.inl ⟨rfl, rfl, hrest⟩)
    | headerListTermination2 =>
      rw [createHeaderIeDescriptor, ← List.append_nil (le16 _)] at hx
      rcases descriptor_append_inj hx with ⟨hdesc, rfl⟩
      rw [← createHeaderIeDescriptor, header_descriptor_iff (by decide) (by omega), hann] at hdesc
      cases hdesc
      exact .inr (.inr ⟨rfl, rfl, rfl⟩)
  · rintro (⟨rfl, hlen, hcontent, hrest⟩ | ⟨rfl, rfl, hrest⟩ | ⟨rfl, rfl, rfl⟩)
    · have hl : (y.take len).length = len := by rw [List.length_take, min_eq_left hlen]
      have hlen2 := hcontent
      simp only [Prescribed, Element.lengths, List.mem_singleton, hl] at hlen2
      have hdesc := (header_descriptor_iff (by decide) (by omega)).mpr hann
      have h := WellFormed.header hcontent hrest
      rwa [hl, hdesc, List.append_assoc, List.take_append_drop] at h
    · have hdesc := (header_descriptor_iff (by decide) (by omega)).mpr hann
      have h := WellFormed.headerListTermination1 hrest
      rwa [hdesc] at h
    · have hdesc := (header_descriptor_iff (by decide) (by omega)).mpr hann
      have h : WellFormed sixtop .headerIe _ := .headerListTermination2
      rwa [hdesc] at h

/-- A payload IE is one of the known ones, with a length of 11 bits. -/
theorem announced_payload_mem (hann : announced sixtop .payloadIe (word lo hi) = some (e, len)) :
    e ∈ payloadIes sixtop ∧ len < 2048 := by
  rw [announced] at hann
  split at hann
  · rcases Option.map_eq_some_iff.mp hann with ⟨e', hsel, heq⟩
    cases heq
    exact ⟨(select_eq_some hsel).1, Nat.mod_lt _ (by omega)⟩
  · cases hann

/-- The MLME container is a payload IE. -/
theorem mlme_mem_payloadIes : Element.mlme ∈ payloadIes sixtop := by
  cases sixtop <;> decide

/-- So is the list termination. -/
theorem payloadListTermination_mem_payloadIes :
    Element.payloadListTermination ∈ payloadIes sixtop := by
  cases sixtop <;> decide

/-- The first payload element of a well-formed sequence. -/
theorem wellFormed_payload_iff {y : List UInt8}
    (hann : announced sixtop .payloadIe (word lo hi) = some (e, len)) :
    WellFormed sixtop .payloadIe (lo :: hi :: y) ↔
      (e = .mlme ∧ WellFormed sixtop (.mlmeSubie len) y) ∨
      (e = .ietf ∧ len ≤ y.length ∧ Prescribed e (y.take len) ∧
        WellFormed sixtop .payloadIe (y.drop len)) ∨
      (e = .payloadListTermination ∧ len = 0 ∧ y = []) := by
  constructor
  · intro h
    generalize hx : lo :: hi :: y = x at h
    -- The constructors of the grammar that start with this descriptor.
    cases h with
    | payloadEnd => cases hx
    | mlme hlt hrest =>
      rcases descriptor_append_inj hx with ⟨hdesc, rfl⟩
      rw [← createPayloadIeDescriptor, payload_descriptor_iff mlme_mem_payloadIes hlt, hann]
        at hdesc
      cases hdesc
      exact .inl ⟨rfl, hrest⟩
    | ietf hsix hcontent hrest =>
      rw [List.append_assoc] at hx
      rcases descriptor_append_inj hx with ⟨hdesc, rfl⟩
      have hmem : Element.ietf ∈ payloadIes sixtop := by
        rw [hsix]
        decide
      rw [← createPayloadIeDescriptor, payload_descriptor_iff hmem hcontent.2, hann] at hdesc
      cases hdesc
      refine .inr (.inl ⟨rfl, by simp, ?_, ?_⟩)
      · simpa using hcontent
      · simpa using hrest
    | payloadListTermination =>
      rw [createPayloadIeDescriptor, ← List.append_nil (le16 _)] at hx
      rcases descriptor_append_inj hx with ⟨hdesc, rfl⟩
      rw [← createPayloadIeDescriptor,
        payload_descriptor_iff payloadListTermination_mem_payloadIes (by omega), hann] at hdesc
      cases hdesc
      exact .inr (.inr ⟨rfl, rfl, rfl⟩)
  · rcases announced_payload_mem hann with ⟨hmem, hmax⟩
    have hdesc := (payload_descriptor_iff hmem hmax).mpr hann
    rintro (⟨rfl, hrest⟩ | ⟨rfl, hlen, hcontent, hrest⟩ | ⟨rfl, rfl, rfl⟩)
    · have h := WellFormed.mlme hmax hrest
      rwa [hdesc] at h
    · have hl : (y.take len).length = len := by rw [List.length_take, min_eq_left hlen]
      have hsix : sixtop = true := by
        cases sixtop
        · exact absurd hmem (by decide)
        · rfl
      have h := WellFormed.ietf hsix hcontent hrest
      rwa [hl, hdesc, List.append_assoc, List.take_append_drop] at h
    · have h : WellFormed sixtop .payloadIe _ := .payloadListTermination
      rwa [hdesc] at h

/-- A sub-IE has the length of its form. -/
theorem subieOf_lt (h : subieOf (word lo hi) = (some e, len)) :
    word lo hi / 32768 = 0 ∧ len < 256 ∨ word lo hi / 32768 = 1 ∧ len < 2048 := by
  have hw := word_lt lo hi
  rw [subieOf] at h
  split at h
  · rw [Prod.mk.injEq] at h
    exact .inl ⟨by assumption, by omega⟩
  · rw [Prod.mk.injEq] at h
    exact .inr ⟨by omega, by omega⟩

/-- A short sub-IE has a length of 8 bits. -/
theorem prescribed_short_length_lt {content : List UInt8} (he : e ∈ mlmeShortIes)
    (h : Prescribed e content) : content.length < 256 := by
  simp only [mlmeShortIes, List.mem_cons, List.not_mem_nil, or_false] at he
  rcases he with rfl | rfl | rfl | rfl | rfl | rfl | rfl | rfl | rfl | rfl
  · rcases h with rfl | ⟨_, n, _, hn, hlen⟩
    · decide
    · rw [frame802154eIeMaxLinks] at hn
      omega
  all_goals
    simp only [Prescribed, Element.lengths, List.mem_cons, List.not_mem_nil, or_false] at h
    omega

/-- A long sub-IE has a length of 11 bits. -/
theorem prescribed_long_length_lt {content : List UInt8} (he : e ∈ mlmeLongIes)
    (h : Prescribed e content) : content.length < 2048 := by
  simp only [mlmeLongIes, List.mem_singleton] at he
  subst he
  rcases h with h | ⟨lo, hi, _, _, hmax, hlen⟩
  · omega
  · rw [tschHoppingSequenceMaxLen] at hmax
    omega

/-- The first sub-element of a container that is not used up. -/
theorem wellFormed_subie_iff {y : List UInt8} (hsub : subieOf (word lo hi) = (some e, len))
    (hnested : 0 < nested) :
    WellFormed sixtop (.mlmeSubie nested) (lo :: hi :: y) ↔
      len ≤ y.length ∧ 2 + len ≤ nested ∧ Prescribed e (y.take len) ∧
        WellFormed sixtop (.mlmeSubie (nested - (2 + len))) (y.drop len) := by
  constructor
  · intro h
    generalize hx : lo :: hi :: y = x at h
    -- The container is not used up, so a sub-IE follows, in one of the two forms.
    cases h with
    | filled => omega
    | short he hcontent hrest =>
      rw [List.append_assoc] at hx
      rcases descriptor_append_inj hx with ⟨hdesc, rfl⟩
      rw [← createMlmeShortIeDescriptor,
        short_descriptor_iff he (prescribed_short_length_lt he hcontent), hsub] at hdesc
      cases hdesc.1
      refine ⟨by simp, by omega, by simpa using hcontent, ?_⟩
      simpa using hrest
    | long he hcontent hrest =>
      rw [List.append_assoc] at hx
      rcases descriptor_append_inj hx with ⟨hdesc, rfl⟩
      rw [← createMlmeLongIeDescriptor,
        long_descriptor_iff he (prescribed_long_length_lt he hcontent), hsub] at hdesc
      cases hdesc.1
      refine ⟨by simp, by omega, by simpa using hcontent, ?_⟩
      simpa using hrest
  · rintro ⟨hlen, hfits, hcontent, hrest⟩
    have hl : (y.take len).length = len := by rw [List.length_take, min_eq_left hlen]
    have hn : 2 + len + (nested - (2 + len)) = nested := by omega
    rcases mem_of_subieOf hsub with ⟨htype, he⟩ | ⟨htype, he⟩
    · rcases subieOf_lt hsub with ⟨_, hmax⟩ | ⟨htype', _⟩
      · have hdesc := (short_descriptor_iff he hmax).mpr ⟨hsub, htype⟩
        have h := WellFormed.short he hcontent hrest
        rwa [hl, hdesc, List.append_assoc, List.take_append_drop, hn] at h
      · omega
    · rcases subieOf_lt hsub with ⟨htype', _⟩ | ⟨htype', hmax⟩
      · omega
      · have hdesc := (long_descriptor_iff he hmax).mpr ⟨hsub, htype'⟩
        have h := WellFormed.long he hcontent hrest
        rwa [hl, hdesc, List.append_assoc, List.take_append_drop, hn] at h

/-- At the end of a container the payload IEs go on. -/
theorem wellFormed_mlmeSubie_zero_iff {y : List UInt8} :
    WellFormed sixtop (.mlmeSubie 0) y ↔ WellFormed sixtop .payloadIe y := by
  constructor
  · intro h
    generalize hn : ParsingState.mlmeSubie 0 = parsingState at h
    cases h with
    | filled h => exact h
    | short _ _ _ =>
      rw [ParsingState.mlmeSubie.injEq] at hn
      omega
    | long _ _ _ =>
      rw [ParsingState.mlmeSubie.injEq] at hn
      omega
    | _ => cases hn
  · exact WellFormed.filled

/-- What is loose is the first element. -/
theorem loose_cons_iff {parsingState : ParsingState}
    (h : Place.ie sixtop ⟨parsingState, lo :: hi :: tail⟩ = some (e, len, tail)) :
    Loose sixtop ⟨parsingState, lo :: hi :: tail⟩ ↔ fit len tail e = .lax := by
  constructor
  · rintro (⟨e', len', tail', hie, hfit⟩ | ⟨hnil, _⟩)
    · rw [h] at hie
      cases hie
      exact hfit
    · cases hnil
  · intro hfit
    exact .inl ⟨e, len, tail, h, hfit⟩

/-- A buffer that ends between two elements. -/
theorem wellFormed_nil_iff {parsingState : ParsingState} :
    WellFormed sixtop parsingState [] ↔ ¬ Loose sixtop ⟨parsingState, []⟩ := by
  have hloose : Loose sixtop ⟨parsingState, []⟩ ↔
      ∃ nested, 0 < nested ∧ parsingState = .mlmeSubie nested := by
    constructor
    · rintro (⟨e, len, tail, h, _⟩ | ⟨_, h⟩)
      · cases h
      · exact h
    · exact fun h => .inr ⟨rfl, h⟩
  rw [hloose]
  cases parsingState with
  | headerIe => exact ⟨fun _ => by simp, fun _ => .headerEnd⟩
  | payloadIe => exact ⟨fun _ => by simp, fun _ => .payloadEnd⟩
  | mlmeSubie nested =>
    constructor
    · rintro h ⟨n, hn, heq⟩
      rw [ParsingState.mlmeSubie.injEq] at heq
      subst heq
      generalize hx : ([] : List UInt8) = x at h
      cases h with
      | filled => omega
      | short _ _ _ => cases hx
      | long _ _ _ => cases hx
    · intro h
      have h0 : nested = 0 := by
        by_contra hne
        exact h ⟨nested, by omega, rfl⟩
      rw [h0]
      exact .filled .payloadEnd

/-- A list termination closes a well-formed sequence. -/
theorem wellFormed_of_ends {parsingState : ParsingState}
    (h : Ends sixtop ⟨parsingState, lo :: hi :: tail⟩) :
    WellFormed sixtop parsingState [lo, hi] ∧ ¬ Loose sixtop ⟨parsingState, lo :: hi :: tail⟩ := by
  rcases h with hnil | ⟨e, tail', hie, he⟩
  · cases hnil
  have hie' := hie
  simp only [Place.ie, Option.map_eq_some_iff, Prod.mk.injEq, Prod.exists] at hie'
  rcases hie' with ⟨e', len', hann, rfl, rfl, rfl⟩
  refine ⟨?_, ?_⟩
  -- In each state a descriptor without successor ends the elements.
  · cases parsingState with
    | headerIe =>
      rw [wellFormed_header_iff hann]
      rcases he with rfl | rfl
      · exact .inr (.inr ⟨rfl, rfl, rfl⟩)
      · -- No header element has the identifier of a payload element.
        rw [announced] at hann
        split at hann
        · rcases Option.map_eq_some_iff.mp hann with ⟨e', hsel, heq⟩
          rw [Prod.mk.injEq] at heq
          rcases heq with ⟨rfl, _⟩
          exact absurd (select_eq_some hsel).1 (by decide)
        · cases hann
    | payloadIe =>
      rw [wellFormed_payload_iff hann]
      rcases he with rfl | rfl
      · have hmem := (announced_payload_mem hann).1
        cases sixtop <;> exact absurd hmem (by decide)
      · exact .inr (.inr ⟨rfl, rfl, rfl⟩)
    | mlmeSubie nested =>
      rw [announced] at hann
      rcases Option.map_eq_some_iff.mp hann with ⟨e', hsub, heq⟩
      rw [Prod.mk.injEq] at heq
      rcases heq with ⟨rfl, _⟩
      have hne := subie_ne (Prod.ext hsub rfl : subieOf (word lo hi) = (some e', _))
      rcases he with rfl | rfl
      · exact absurd rfl hne.2.2.1
      · exact absurd rfl hne.2.2.2
  · rw [loose_cons_iff hie]
    rcases he with rfl | rfl <;> simp [fit, Element.lengths]

/-- The length of an element that is let through is in the buffer. -/
theorem length_le_of_fit (he : e ≠ .mlme)
    (hfit : fit len tail e = .exact ∨ fit len tail e = .lax) : len ≤ tail.length := by
  by_contra hlt
  by_cases hi : e = .ietf
  · subst hi
    simp only [fit] at hfit
    split_ifs at hfit <;> first | omega | simp at hfit
  · rw [fit_of_length_lt he hi (by omega)] at hfit
    exact absurd hfit (by decide)

/-- A header IE is one of the known ones. -/
theorem announced_header_mem (hann : announced sixtop .headerIe (word lo hi) = some (e, len)) :
    e ∈ headerIes := by
  rw [announced] at hann
  split at hann
  · rcases Option.map_eq_some_iff.mp hann with ⟨e', hsel, heq⟩
    rw [Prod.mk.injEq] at heq
    rcases heq with ⟨rfl, _⟩
    exact (select_eq_some hsel).1
  · cases hann

/-- What a step of the walk skips. -/
inductive Skips (sixtop : Bool) : Place → Place → Element → ℕ → List UInt8 → Prop
  | headerListTermination1 {lo hi : UInt8} {tail : List UInt8} :
      announced sixtop .headerIe (word lo hi) = some (.headerListTermination1, 0) →
      Skips sixtop ⟨.headerIe, lo :: hi :: tail⟩ ⟨.payloadIe, tail⟩ .headerListTermination1 0 tail
  | header {lo hi : UInt8} {len : ℕ} {tail : List UInt8} :
      announced sixtop .headerIe (word lo hi) = some (.ackNackTimeCorrection, len) →
      Skips sixtop ⟨.headerIe, lo :: hi :: tail⟩ ⟨.headerIe, tail.drop len⟩
        .ackNackTimeCorrection len tail
  | mlme {lo hi : UInt8} {len : ℕ} {tail : List UInt8} :
      announced sixtop .payloadIe (word lo hi) = some (.mlme, len) →
      Skips sixtop ⟨.payloadIe, lo :: hi :: tail⟩ ⟨.mlmeSubie len, tail⟩ .mlme len tail
  | ietf {lo hi : UInt8} {len : ℕ} {tail : List UInt8} :
      announced sixtop .payloadIe (word lo hi) = some (.ietf, len) →
      Skips sixtop ⟨.payloadIe, lo :: hi :: tail⟩ ⟨.payloadIe, tail.drop len⟩ .ietf len tail
  | subie {lo hi : UInt8} {e : Element} {len nested : ℕ} {tail : List UInt8} :
      subieOf (word lo hi) = (some e, len) → 2 + len ≤ nested →
      Skips sixtop ⟨.mlmeSubie nested, lo :: hi :: tail⟩
        ⟨if nested = 2 + len then .payloadIe else .mlmeSubie (nested - (2 + len)), tail.drop len⟩
        e len tail

/-- One element is skipped, or one container entered. -/
theorem after_cases {pl pl' : Place} (h : pl.after sixtop = some pl') :
    ∃ e len tail, pl.ie sixtop = some (e, len, tail) ∧
      (fit len tail e = .exact ∨ fit len tail e = .lax) ∧ Skips sixtop pl pl' e len tail := by
  rcases pl with ⟨parsingState, rest⟩
  -- There are two bytes for a descriptor, or there is no successor.
  rcases rest with _ | ⟨lo, _ | ⟨hi, tail⟩⟩
  · cases h
  · cases h
  cases hann : announced sixtop parsingState (word lo hi) with
  | none => simp [Place.after, ie_eq_none tail hann] at h
  | some ie =>
  rcases ie with ⟨e, len⟩
  have hie := ie_eq_some tail hann
  by_cases hfit : fit len tail e = .exact ∨ fit len tail e = .lax
  case neg => simp [Place.after, hie, hfit] at h
  refine ⟨e, len, tail, hie, hfit, ?_⟩
  simp only [Place.after, hie, if_pos hfit] at h
  cases parsingState with
  | headerIe =>
    have he := announced_header_mem hann
    simp only [headerIes, List.mem_cons, List.not_mem_nil, or_false] at he
    rcases he with rfl | rfl | rfl
    · cases h
      have h0 : len = 0 := by
        by_contra hne
        simp [fit, Element.lengths, hne] at hfit
      subst h0
      exact .headerListTermination1 hann
    · cases h
    · cases h
      exact .header hann
  | payloadIe =>
    have he : e = .mlme ∨ e = .ietf ∨ e = .payloadListTermination := by
      have he := (announced_payload_mem hann).1
      cases sixtop <;> simp [payloadIes] at he <;> tauto
    rcases he with rfl | rfl | rfl
    · cases h
      exact .mlme hann
    · cases h
      exact .ietf hann
    · cases h
  | mlmeSubie nested =>
    have hsub : subieOf (word lo hi) = (some e, len) := by
      rw [announced] at hann
      rcases Option.map_eq_some_iff.mp hann with ⟨e', hsub, heq⟩
      cases heq
      exact Prod.ext hsub rfl
    dsimp only at h
    by_cases hlt : nested < 2 + len
    · simp [hlt] at h
    rw [if_neg hlt] at h
    have hskip : Skips sixtop ⟨.mlmeSubie nested, lo :: hi :: tail⟩ _ e len tail :=
      .subie hsub (Nat.le_of_not_lt hlt)
    by_cases heq : nested = 2 + len
    · rw [if_pos heq] at h hskip
      cases h
      exact hskip
    · rw [if_neg heq] at h hskip
      cases h
      exact hskip

/-- The walk does not go on behind the end of a list. -/
theorem Skips.not_termination {pl pl' : Place} (h : Skips sixtop pl pl' e len tail) :
    ¬ (e = .headerListTermination2 ∨ e = .payloadListTermination) := by
  cases h with
  | subie hsub _ =>
    rintro (rfl | rfl)
    · exact (subie_ne hsub).2.2.1 rfl
    · exact (subie_ne hsub).2.2.2 rfl
  | _ => simp

/-- Behind an element that is let through, the sequence goes on. -/
theorem wellFormed_after {pl pl' : Place} (h : pl.after sixtop = some pl') :
    ∃ n, pl.rest.length = n + 2 + pl'.rest.length ∧ ∀ k,
      (WellFormed sixtop pl.parsingState (pl.rest.take (n + 2 + k)) ↔
        ¬ Loose sixtop pl ∧ WellFormed sixtop pl'.parsingState (pl'.rest.take k)) := by
  rcases after_cases h with ⟨e, len, tail, hie, hfit, hskip⟩
  have hlax : ¬ fit len tail e = .lax ↔ fit len tail e = .exact := by
    rcases hfit with hf | hf <;> rw [hf] <;> decide
  have hcons : ∀ (lo hi : UInt8) (n k : ℕ),
      (lo :: hi :: tail).take (n + 2 + k) = lo :: hi :: tail.take (n + k) := by
    intro lo hi n k
    rw [show n + 2 + k = n + k + 1 + 1 by omega, List.take_succ_cons, List.take_succ_cons]
  -- The content of the element and what is behind it, in a prefix of the buffer.
  have htake : ∀ k, (tail.take (len + k)).take len = tail.take len := by
    intro k
    rw [List.take_take, min_eq_left (by omega)]
  have hdrop : ∀ k, (tail.take (len + k)).drop len = (tail.drop len).take k := by
    intro k
    rw [List.drop_take, Nat.add_sub_cancel_left]
  cases hskip with
  | headerListTermination1 hann =>
    refine ⟨0, by simp; omega, fun k => ?_⟩
    rw [hcons, wellFormed_header_iff hann, loose_cons_iff hie, hlax, Nat.zero_add]
    simp [fit, Element.lengths]
  | header hann =>
    have hlen := length_le_of_fit (by simp) hfit
    refine ⟨len, by simp; omega, fun k => ?_⟩
    have hmax : len < 2048 := by
      simp only [fit, Element.lengths, List.mem_singleton] at hfit
      split at hfit
      · omega
      · simp at hfit
    rw [hcons, wellFormed_header_iff hann, loose_cons_iff hie, hlax, htake, hdrop,
      prescribed_iff (by simp) hlen hmax hfit]
    simp [hlen]
  | mlme hann =>
    refine ⟨0, by simp; omega, fun k => ?_⟩
    rw [hcons, wellFormed_payload_iff hann, loose_cons_iff hie, hlax, Nat.zero_add]
    simp [fit]
  | ietf hann =>
    have hlen := length_le_of_fit (by simp) hfit
    refine ⟨len, by simp; omega, fun k => ?_⟩
    rw [hcons, wellFormed_payload_iff hann, loose_cons_iff hie, hlax, htake, hdrop,
      prescribed_iff (by simp) hlen (announced_payload_mem hann).2 hfit]
    simp [hlen]
  | subie hsub hnested =>
    have hne := (subie_ne hsub).1
    have hlen := length_le_of_fit hne hfit
    have hmax : len < 2048 := by
      rcases subieOf_lt hsub with ⟨_, hlt⟩ | ⟨_, hlt⟩ <;> omega
    refine ⟨len, by simp; omega, fun k => ?_⟩
    rw [hcons, wellFormed_subie_iff hsub (by omega), loose_cons_iff hie, hlax, htake, hdrop,
      prescribed_iff hne hlen hmax hfit]
    split
    case isTrue heq =>
      rw [heq, Nat.sub_self, wellFormed_mlmeSubie_zero_iff]
      simp [hlen]
    case isFalse => simp [hlen, hnested]

end Grammar

/-! ## The whole run -/

section Run

variable {sixtop : Bool} {p : Parser} {fuel : ℕ}

/-- A stored element is logged. -/
theorem log_prefix_store {e : Element} {writes : List Write} :
    p.log <+: (p.store e writes).log := List.prefix_append _ _

/-- A header IE keeps the log. -/
theorem log_prefix_headerStep {ieDesc : ℕ} : p.log <+: (headerStep p ieDesc).1.log := by
  unfold headerStep
  split
  · exact List.prefix_refl _
  dsimp only
  split <;> try split
  all_goals first | exact List.prefix_refl _ | exact log_prefix_store | skip
  split
  · exact List.prefix_refl _
  · exact log_prefix_store

/-- A payload IE keeps the log. -/
theorem log_prefix_payloadStep {ieDesc : ℕ} :
    p.log <+: (payloadStep sixtop p ieDesc).1.log := by
  unfold payloadStep
  split
  · exact List.prefix_refl _
  dsimp only
  split <;> try split
  all_goals first | exact List.prefix_refl _ | skip
  split
  · exact log_prefix_store
  · exact List.prefix_refl _

/-- A sub-IE keeps the log. -/
theorem log_prefix_mlmeStep {nested ieDesc : ℕ} :
    p.log <+: (mlmeStep p nested ieDesc).1.log := by
  unfold mlmeStep
  split
  · exact List.prefix_refl _
  split
  · exact List.prefix_refl _
  split
  · exact List.prefix_refl _
  dsimp only
  split
  · exact log_prefix_store
  split
  · exact log_prefix_store
  · exact log_prefix_store

/-- So does every element. -/
theorem log_prefix_parseIe (sixtop : Bool) (p : Parser) :
    p.log <+: (parseIe sixtop p).1.log := by
  have hadvance : (p.advance 2).log = p.log := rfl
  unfold parseIe
  split
  · exact List.prefix_refl _
  split
  · exact List.prefix_refl _
  dsimp only
  split
  · exact hadvance ▸ log_prefix_headerStep
  · exact hadvance ▸ log_prefix_payloadStep
  · exact hadvance ▸ log_prefix_mlmeStep

/-- No assignment is undone. -/
theorem log_prefix_parseLoop (sixtop : Bool) (fuel : ℕ) (p : Parser) :
    p.log <+: (parseLoop sixtop fuel p).log := by
  induction fuel generalizing p with
  | zero => exact List.prefix_refl _
  | succ fuel ih =>
    rw [parseLoop]
    split
    · unfold Parser.finish
      split <;> exact List.prefix_refl _
    have hstep := log_prefix_parseIe sixtop p
    split
    case h_1 p' len heq =>
      rw [heq] at hstep
      exact hstep.trans (ih (p'.advance len))
    case h_2 p' result heq =>
      rw [heq] at hstep
      exact hstep

/-- The result leaves the buffer or a field of its element. -/
def Violates (p : Parser) (r : Parsed) : Prop :=
  r.result = .error .fault ∨ (∃ n, r.result = .ok n ∧ p.offset + p.buf.length < n) ∨
    ∃ e w, (e, w) ∈ r.log ∧ e ∉ w.owners

/-- What a run does, by the walk from the place it starts at. -/
structure Tracks (sixtop : Bool) (p : Parser) (r : Parsed) : Prop where
  ends : r.result ≠ .error .outOfFuel
  violates_iff : Violates p r ↔
    ∃ pl, Visits sixtop ⟨p.parsingState, p.buf⟩ pl ∧ Harmful sixtop pl
  accepts_iff : ¬ Violates p r → ((∃ n, r.result = .ok n) ↔
    ∃ pl, Visits sixtop ⟨p.parsingState, p.buf⟩ pl ∧ Ends sixtop pl)
  wellFormed_iff : ¬ Violates p r → ∀ n, r.result = .ok n → ∃ k, n = p.offset + k ∧
    (WellFormed sixtop p.parsingState (p.buf.take k) ↔
      ∀ pl, Visits sixtop ⟨p.parsingState, p.buf⟩ pl → ¬ Loose sixtop pl)

/-- Nothing follows a place without a next one. -/
theorem visits_of_none {pl pl' : Place} (h : pl.after sixtop = none) :
    Visits sixtop pl pl' ↔ pl' = pl := by
  constructor
  · intro hv
    rcases Relation.ReflTransGen.cases_head hv with heq | ⟨next, hstep, _⟩
    · exact heq.symm
    · rw [h] at hstep
      cases hstep
  · rintro rfl
    exact .refl

/-- A place is visited at once or from the next one. -/
theorem visits_of_some {pl next pl' : Place} (h : pl.after sixtop = some next) :
    Visits sixtop pl pl' ↔ pl' = pl ∨ Visits sixtop next pl' := by
  constructor
  · intro hv
    rcases Relation.ReflTransGen.cases_head hv with heq | ⟨next', hstep, hrest⟩
    · exact .inl heq.symm
    · rw [h] at hstep
      cases hstep
      exact .inr hrest
  · rintro (rfl | hrest)
    · exact .refl
    · exact .head h hrest

/-- What a good outcome is. -/
theorem not_violates {p : Parser} {r : Parsed} (hfault : r.result ≠ .error .fault)
    (hok : ∀ n, r.result = .ok n → n ≤ p.offset + p.buf.length)
    (hlog : ∀ e w, (e, w) ∈ r.log → e ∈ w.owners) : ¬ Violates p r := by
  rintro (h | ⟨n, h, hlt⟩ | ⟨e, w, hmem, hforeign⟩)
  · exact hfault h
  · have := hok n h
    omega
  · exact hforeign (hlog e w hmem)

/-- What was logged is logged. -/
theorem Own.log {p p' : Parser} (h : Own p p') (hlog : ∀ e w, (e, w) ∈ p.log → e ∈ w.owners) :
    ∀ e w, (e, w) ∈ p'.log → e ∈ w.owners := by
  rcases h with ⟨log, heq, hown⟩
  intro e w hmem
  rw [heq] at hmem
  rcases List.mem_append.mp hmem with hmem | hmem
  · exact hlog e w hmem
  · exact hown e w hmem

/-- A run that is refused where the walk stops. -/
theorem tracks_of_refused {r : Parsed} (hr : r.result = .error .reject)
    (hlog : ∀ e w, (e, w) ∈ r.log → e ∈ w.owners)
    (hafter : Place.after sixtop ⟨p.parsingState, p.buf⟩ = none)
    (hharm : ¬ Harmful sixtop ⟨p.parsingState, p.buf⟩)
    (hends : ¬ Ends sixtop ⟨p.parsingState, p.buf⟩) : Tracks sixtop p r := by
  have hviol : ¬ Violates p r := by
    apply not_violates _ _ hlog
    · rw [hr]
      simp
    · rw [hr]
      simp
  constructor
  · rw [hr]
    simp
  · refine ⟨fun h => absurd h hviol, ?_⟩
    rintro ⟨pl, hv, hh⟩
    rw [visits_of_none hafter] at hv
    exact absurd (hv ▸ hh) hharm
  · intro _
    refine ⟨?_, ?_⟩
    · rintro ⟨n, hn⟩
      rw [hr] at hn
      cases hn
    · rintro ⟨pl, hv, hh⟩
      rw [visits_of_none hafter] at hv
      exact absurd (hv ▸ hh) hends
  · intro _ n hn
    rw [hr] at hn
    cases hn

/-- A run that leaves the buffer or the element at the first place of the walk. -/
theorem tracks_of_violates {r : Parsed} (hr : r.result ≠ .error .outOfFuel)
    (hviol : Violates p r) (hharm : Harmful sixtop ⟨p.parsingState, p.buf⟩) :
    Tracks sixtop p r := by
  constructor
  · exact hr
  · exact ⟨fun _ => ⟨_, .refl, hharm⟩, fun _ => hviol⟩
  · exact fun h => absurd hviol h
  · exact fun h => absurd hviol h

/-- The counter and the bytes left agree behind an element that is in the buffer. -/
theorem advance_fed {p : Parser} {len : ℕ} (hfed : p.bufSize.toNat = p.buf.length)
    (hlen : len ≤ p.buf.length) :
    (p.advance len).bufSize.toNat = (p.advance len).buf.length := by
  rw [Parser.advance, toNat_sub_ofNat _ (by omega), List.length_drop, hfed]

/-- The counter wraps when it is taken below zero. -/
theorem advance_bufSize_eq_one_iff {p : Parser} {len : ℕ} :
    (p.advance len).bufSize.toNat = 1 ↔ len % 256 = (p.bufSize.toNat + 255) % 256 := by
  have hlt := p.bufSize.toNat_lt
  rw [Parser.advance, UInt8.toNat_sub, UInt8.toNat_ofNat']
  omega

/-- One byte is no descriptor. -/
theorem parseLoop_one (h : p.bufSize.toNat = 1) :
    parseLoop sixtop (fuel + 1) p = p.stop (.error .reject) := by
  have hne : p.bufSize ≠ 0 := by
    intro h0
    rw [h0] at h
    cases h
  rw [parseLoop, if_neg hne, parseIe, if_pos (by omega)]

/-- A run that has left the buffer. -/
theorem parseLoop_outside (sixtop : Bool) (fuel : ℕ) (hbuf : p.buf = [])
    (h : p.bufSize.toNat ≠ 1) :
    (parseLoop sixtop (fuel + 1) p).result = .ok p.offset ∨
      (parseLoop sixtop (fuel + 1) p).result = .error .fault := by
  rw [parseLoop]
  by_cases h0 : p.bufSize = 0
  · left
    rw [if_pos h0, Parser.finish]
    split <;> rfl
  · right
    have hne : p.bufSize.toNat ≠ 0 := fun hn => h0 (UInt8.toNat_inj.mp hn)
    rw [if_neg h0, parseIe, if_neg (by omega), hbuf, read16_of_ge (by simp)]
    rfl

/-- Nothing is left. -/
theorem parseLoop_nil (hbuf : p.buf = []) (hfed : p.bufSize.toNat = p.buf.length) :
    parseLoop sixtop (fuel + 1) p = p.finish := by
  have h0 : p.bufSize = 0 := by
    rw [hbuf] at hfed
    exact UInt8.toNat_inj.mp hfed
  rw [parseLoop, if_pos h0]

/-- The parser ends within as many rounds as there are bytes. -/
theorem parseLoop_ends (sixtop : Bool) (hfed : p.bufSize.toNat = p.buf.length)
    (hfuel : p.buf.length < fuel) :
    (parseLoop sixtop fuel p).result ≠ .error .outOfFuel := by
  induction fuel generalizing p with
  | zero => omega
  | succ fuel ih =>
  rcases hbuf : p.buf with _ | ⟨lo, _ | ⟨hi, tail⟩⟩
  · rw [parseLoop_nil hbuf hfed, Parser.finish]
    split <;> simp [Parser.stop]
  · rw [parseLoop_one (by rw [hfed, hbuf]; rfl)]
    simp [Parser.stop]
  have hround := parseIe_round sixtop hbuf hfed
  have hlen : p.buf.length = tail.length + 2 := by simp [hbuf]
  have hne : p.bufSize ≠ 0 := by
    intro h0
    rw [h0] at hfed
    simp only [UInt8.toNat_zero] at hfed
    omega
  have hfed' := advance_fed hfed (show 2 ≤ p.buf.length by omega)
  have htail : (p.advance 2).buf = tail := by simp [Parser.advance, hbuf]
  rw [parseLoop, if_neg hne]
  rcases hstep : parseIe sixtop p with ⟨p', c⟩
  rw [hstep] at hround
  -- A round that goes on leaves fewer bytes, inside of the buffer or past its end.
  have hnext : ∀ {len : ℕ}, p'.buf = (p.advance 2).buf → p'.bufSize = (p.advance 2).bufSize →
      len ≤ (p.advance 2).buf.length →
      (parseLoop sixtop fuel (p'.advance len)).result ≠ .error .outOfFuel := by
    intro len hb hs hl
    apply ih
    · exact advance_fed (by rw [hb, hs, hfed']) (by rw [hb]; exact hl)
    · simp only [Parser.advance, List.length_drop, hb]
      simp only [Parser.advance, List.length_drop] at hl
      omega
  cases hround with
  | refuse => simp [Parser.stop]
  | fault => simp [Parser.stop]
  | terminate => simp [Parser.stop]
  | foreign _ _ hc =>
    rcases hc with rfl | ⟨len, rfl, hb, hs, hl⟩
    · simp [Parser.stop]
    · exact hnext hb hs hl
  | skip _ _ _ _ _ hb hs hl => exact hnext hb hs hl
  | overrun len _ _ hb _ hlt _ =>
    obtain ⟨fuel, rfl⟩ : ∃ n, fuel = n + 1 := ⟨fuel - 1, by omega⟩
    have hnil : (p'.advance len).buf = [] := by
      simp only [Parser.advance, hb]
      exact List.drop_eq_nil_of_le (by simpa [Parser.advance] using hlt.le)
    by_cases hone : (p'.advance len).bufSize.toNat = 1
    · dsimp only
      rw [parseLoop_one hone]
      simp [Parser.stop]
    · dsimp only
      rcases parseLoop_outside sixtop fuel hnil hone with h | h <;> simp [h]
  | underrun len _ _ _ _ hs hres =>
    obtain ⟨fuel, rfl⟩ : ∃ n, fuel = n + 1 := ⟨fuel - 1, by omega⟩
    dsimp only
    rw [parseLoop_one (advance_bufSize_eq_one_iff.mpr (by rw [hs, hfed']; exact hres))]
    simp [Parser.stop]

/-- A run at the end of the buffer. -/
theorem tracks_finish (hbuf : p.buf = []) (hlog : ∀ e w, (e, w) ∈ p.log → e ∈ w.owners) :
    Tracks sixtop p p.finish := by
  have hafter : Place.after sixtop ⟨p.parsingState, p.buf⟩ = none := by
    rw [hbuf]
    rfl
  have hresult : p.finish.result = .ok p.offset := by
    unfold Parser.finish
    split <;> rfl
  have hflog : p.finish.log = p.log := by
    unfold Parser.finish
    split <;> rfl
  -- Nothing is violated: there is no fault, the offset is the length, the log is its own.
  have hviol : ¬ Violates p p.finish := by
    apply not_violates
    · rw [hresult]
      simp
    · rw [hresult]
      intro n hn
      cases hn
      omega
    · rw [hflog]
      exact hlog
  constructor
  · rw [hresult]
    simp
  · refine ⟨fun h => absurd h hviol, ?_⟩
    rintro ⟨pl, hv, e, len, tail, hie, _⟩
    rw [visits_of_none hafter] at hv
    rw [hv, hbuf] at hie
    cases hie
  · intro _
    exact ⟨fun _ => ⟨_, .refl, .inl hbuf⟩, fun _ => ⟨_, hresult⟩⟩
  · intro _ n hn
    rw [hresult] at hn
    cases hn
    refine ⟨0, rfl, ?_⟩
    rw [List.take_zero, wellFormed_nil_iff, ← hbuf]
    constructor
    · intro h pl hv
      rw [visits_of_none hafter] at hv
      exact hv ▸ h
    · exact fun h => h _ .refl

/-- A run that ends at a list termination. -/
theorem tracks_of_terminated {lo hi : UInt8} {tail : List UInt8} {r : Parsed}
    (hbuf : p.buf = lo :: hi :: tail) (hr : r.result = .ok (p.offset + 2))
    (hlog : ∀ e w, (e, w) ∈ r.log → e ∈ w.owners)
    (hafter : Place.after sixtop ⟨p.parsingState, p.buf⟩ = none)
    (hharm : ¬ Harmful sixtop ⟨p.parsingState, p.buf⟩)
    (hends : Ends sixtop ⟨p.parsingState, p.buf⟩) : Tracks sixtop p r := by
  have hlen : p.buf.length = tail.length + 2 := by simp [hbuf]
  have hviol : ¬ Violates p r := by
    apply not_violates _ _ hlog
    · rw [hr]
      simp
    · rw [hr]
      intro n hn
      cases hn
      omega
  constructor
  · rw [hr]
    simp
  · refine ⟨fun h => absurd h hviol, ?_⟩
    rintro ⟨pl, hv, hh⟩
    rw [visits_of_none hafter] at hv
    exact absurd (hv ▸ hh) hharm
  · exact fun _ => ⟨fun _ => ⟨_, .refl, hends⟩, fun _ => ⟨_, hr⟩⟩
  · intro _ n hn
    rw [hr] at hn
    cases hn
    rw [hbuf] at hends hafter ⊢
    rcases wellFormed_of_ends hends with ⟨hwf, hloose⟩
    refine ⟨2, rfl, ⟨fun _ pl hv => ?_, fun _ => hwf⟩⟩
    rw [visits_of_none hafter] at hv
    exact hv ▸ hloose

/-- A run that goes on behind an element. -/
theorem tracks_of_skipped {next : Parser} {r : Parsed} (htracks : Tracks sixtop next r)
    (hafter : Place.after sixtop ⟨p.parsingState, p.buf⟩ = some ⟨next.parsingState, next.buf⟩)
    (hharm : ¬ Harmful sixtop ⟨p.parsingState, p.buf⟩)
    (hoffset : next.offset + next.buf.length = p.offset + p.buf.length) :
    Tracks sixtop p r := by
  -- Skipping an element violates nothing, so the rest decides.
  have hviol : Violates p r ↔ Violates next r := by
    unfold Violates
    rw [hoffset]
  have hvisits : ∀ pl, Visits sixtop ⟨p.parsingState, p.buf⟩ pl ↔
      pl = ⟨p.parsingState, p.buf⟩ ∨ Visits sixtop ⟨next.parsingState, next.buf⟩ pl :=
    fun pl => visits_of_some hafter
  have hends : ¬ Ends sixtop ⟨p.parsingState, p.buf⟩ := by
    rintro (hnil | ⟨e, tail, hie, he⟩)
    · dsimp only at hnil
      rw [hnil] at hafter
      cases hafter
    · rcases after_cases hafter with ⟨e', len', tail', hie', _, hskip⟩
      rw [hie] at hie'
      cases hie'
      exact hskip.not_termination he
  constructor
  · exact htracks.ends
  · rw [hviol, htracks.violates_iff]
    constructor
    · rintro ⟨pl, hv, hh⟩
      exact ⟨pl, (hvisits pl).mpr (.inr hv), hh⟩
    · rintro ⟨pl, hv, hh⟩
      rcases (hvisits pl).mp hv with rfl | hv
      · exact absurd hh hharm
      · exact ⟨pl, hv, hh⟩
  · intro hv
    rw [hviol] at hv
    rw [htracks.accepts_iff hv]
    constructor
    · rintro ⟨pl, hv, hh⟩
      exact ⟨pl, (hvisits pl).mpr (.inr hv), hh⟩
    · rintro ⟨pl, hv, hh⟩
      rcases (hvisits pl).mp hv with rfl | hv
      · exact absurd hh hends
      · exact ⟨pl, hv, hh⟩
  · intro hv n hn
    rw [hviol] at hv
    rcases htracks.wellFormed_iff hv n hn with ⟨k, hk, hwf⟩
    rcases wellFormed_after hafter with ⟨m, hm, hiff⟩
    refine ⟨m + 2 + k, by dsimp only at hm; omega, ?_⟩
    rw [hiff k, hwf]
    constructor
    · rintro ⟨hloose, hrest⟩ pl hpl
      rcases (hvisits pl).mp hpl with rfl | hpl
      · exact hloose
      · exact hrest pl hpl
    · intro h
      exact ⟨h _ .refl, fun pl hpl => h pl ((hvisits pl).mpr (.inr hpl))⟩

/-- A run over a buffer follows the walk over its elements. -/
theorem parseLoop_tracks (hfed : p.bufSize.toNat = p.buf.length) (hfuel : p.buf.length < fuel)
    (hlog : ∀ e w, (e, w) ∈ p.log → e ∈ w.owners) :
    Tracks sixtop p (parseLoop sixtop fuel p) := by
  induction fuel generalizing p with
  | zero => omega
  | succ fuel ih =>
  have hends := parseLoop_ends sixtop hfed hfuel
  rcases hbuf : p.buf with _ | ⟨lo, _ | ⟨hi, tail⟩⟩
  · rw [parseLoop_nil hbuf hfed]
    exact tracks_finish hbuf hlog
  · -- One byte is no descriptor.
    rw [parseLoop_one (by rw [hfed, hbuf]; rfl)]
    apply tracks_of_refused rfl hlog
    · rw [hbuf]
      rfl
    · rw [hbuf]
      rintro ⟨e, len, tail, hie, _⟩
      cases hie
    · rw [hbuf]
      rintro (h | ⟨e, tail, hie, _⟩)
      · cases h
      · cases hie
  have hround := parseIe_round sixtop hbuf hfed
  have hlen : p.buf.length = tail.length + 2 := by simp [hbuf]
  have hne : p.bufSize ≠ 0 := by
    intro h0
    rw [h0] at hfed
    simp only [UInt8.toNat_zero] at hfed
    omega
  have hfed' := advance_fed hfed (show 2 ≤ p.buf.length by omega)
  have htail : (p.advance 2).buf.length = tail.length := by simp [Parser.advance, hbuf]
  rw [parseLoop, if_neg hne] at hends ⊢
  rcases hstep : parseIe sixtop p with ⟨p', c⟩
  rw [hstep] at hround hends
  have hlog' : Own (p.advance 2) p' → ∀ e w, (e, w) ∈ p'.log → e ∈ w.owners :=
    fun hown => hown.log hlog
  cases hround with
  | refuse hafter hharm hnot hown => exact tracks_of_refused rfl (hlog' hown) hafter hharm hnot
  | fault hharm => exact tracks_of_violates (by simp [Parser.stop]) (.inl rfl) hharm
  | terminate hend hharm hafter hown =>
    exact tracks_of_terminated hbuf rfl (hlog' hown) hafter hharm hend
  | foreign hharm hforeign hc =>
    -- The assignment stays in the log, whatever the rest of the run does.
    rcases hforeign with ⟨e, w, hmem, hne⟩
    rcases hc with rfl | ⟨len, rfl, _⟩
    · exact tracks_of_violates hends (.inr (.inr ⟨e, w, hmem, hne⟩)) hharm
    · have hprefix := log_prefix_parseLoop sixtop fuel (p'.advance len)
      exact tracks_of_violates hends (.inr (.inr ⟨e, w, hprefix.subset hmem, hne⟩)) hharm
  | skip hafter hharm hown hps hoffset hb hs hl =>
    rename_i len _
    have hnext : (p'.advance len).buf = (p.advance 2).buf.drop len := by
      simp only [Parser.advance, hb]
    refine tracks_of_skipped (?_ : Tracks sixtop (p'.advance len) _) ?_ hharm ?_
    · apply ih
      · exact advance_fed (by rw [hb, hs, hfed']) (by rw [hb]; exact hl)
      · rw [hnext, List.length_drop]
        omega
      · exact hlog' hown
    · rw [hafter, hnext, ← hps]
      rfl
    · rw [hnext, List.length_drop]
      simp only [Parser.advance] at hoffset hl htail ⊢
      omega
  | overrun len hharm hoffset hb hs hlt hres =>
    obtain ⟨fuel, rfl⟩ : ∃ n, fuel = n + 1 := ⟨fuel - 1, by omega⟩
    have hnil : (p'.advance len).buf = [] := by
      simp only [Parser.advance, hb]
      exact List.drop_eq_nil_of_le (by simpa [Parser.advance] using hlt.le)
    have hone : (p'.advance len).bufSize.toNat ≠ 1 := by
      rw [Ne, advance_bufSize_eq_one_iff, hs, hfed']
      exact hres
    refine tracks_of_violates hends ?_ hharm
    rcases parseLoop_outside sixtop fuel hnil hone with h | h
    · right
      left
      refine ⟨_, h, ?_⟩
      simp only [Parser.advance] at hoffset hlt htail ⊢
      omega
    · exact .inl h
  | underrun len hafter hharm hnot hown hs hres =>
    obtain ⟨fuel, rfl⟩ : ∃ n, fuel = n + 1 := ⟨fuel - 1, by omega⟩
    dsimp only
    rw [parseLoop_one (advance_bufSize_eq_one_iff.mpr (by rw [hs, hfed']; exact hres))]
    exact tracks_of_refused rfl (hlog' hown) hafter hharm hnot

/-- The parser is safe on the buffers whose walk meets none of the lengths it does not check. -/
theorem parse_safe_iff (sixtop : Bool) (buf : List UInt8) (ies : Ies) (hsize : buf.length ≤ 255) :
    Safe sixtop buf (parseInformationElements sixtop buf ies) ↔
      Clean sixtop ⟨.headerIe, buf⟩ := by
  have hfed : (Parser.init buf ies).bufSize.toNat = (Parser.init buf ies).buf.length := by
    rw [Parser.init, UInt8.toNat_ofNat']
    exact Nat.mod_eq_of_lt (by omega)
  -- The run of the parser is tracked from its first state.
  have htracks : Tracks sixtop (Parser.init buf ies) (parseInformationElements sixtop buf ies) :=
    parseLoop_tracks hfed (Nat.lt_succ_self _) (by simp [Parser.init])
  generalize parseInformationElements sixtop buf ies = r at htracks ⊢
  have hviol := htracks.violates_iff
  have haccepts := htracks.accepts_iff
  have hwf := htracks.wellFormed_iff
  simp only [Violates, Parser.init, Nat.zero_add] at hviol haccepts hwf
  constructor
  · intro hsafe
    have hnot : ¬ (r.result = .error .fault ∨ (∃ n, r.result = .ok n ∧ buf.length < n) ∨
        ∃ e w, (e, w) ∈ r.log ∧ e ∉ w.owners) := by
      rintro (h | ⟨n, hn, hlt⟩ | ⟨e, w, hmem, hforeign⟩)
      · exact hsafe.inside h
      · have := (hsafe.accepts n hn).1
        omega
      · exact hforeign (hsafe.own e w hmem)
    constructor
    · intro pl hv hharm
      exact hnot (hviol.mpr ⟨pl, hv, hharm⟩)
    · intro hend
      rcases (haccepts hnot).mpr hend with ⟨n, hn⟩
      rcases hwf hnot n hn with ⟨k, rfl, hiff⟩
      exact hiff.mp (hsafe.accepts _ hn).2
  · intro hclean
    have hnot : ¬ (r.result = .error .fault ∨ (∃ n, r.result = .ok n ∧ buf.length < n) ∨
        ∃ e w, (e, w) ∈ r.log ∧ e ∉ w.owners) := by
      intro h
      rcases hviol.mp h with ⟨pl, hv, hharm⟩
      exact hclean.harmless pl hv hharm
    constructor
    · exact htracks.ends
    · exact fun h => hnot (.inl h)
    · intro n hn
      refine ⟨?_, ?_⟩
      · by_contra hlt
        exact hnot (.inr (.inl ⟨n, hn, by omega⟩))
      · rcases hwf hnot n hn with ⟨k, rfl, hiff⟩
        exact hiff.mpr (hclean.strict ((haccepts hnot).mp ⟨_, hn⟩))
    · intro e w hmem
      by_contra hforeign
      exact hnot (.inr (.inr ⟨e, w, hmem, hforeign⟩))

/-- The element at a place is as long as its format says. -/
def Place.exact (sixtop : Bool) (pl : Place) : Bool :=
  (pl.ie sixtop).any fun ie => decide (fit ie.2.1 ie.2.2 ie.1 = .exact)

/-- The elements of a walk are, up to its end. -/
def exactWalk (sixtop : Bool) : ℕ → Place → Bool
  | 0, _ => false
  | n + 1, pl => pl.exact sixtop &&
    match pl.after sixtop with
    | none => true
    | some next => exactWalk sixtop n next

/-- The walk that checks every place finds an inexact one. -/
theorem exact_of_visits : ∀ {n : ℕ} {pl pl' : Place}, exactWalk sixtop n pl = true →
    Visits sixtop pl pl' → pl'.exact sixtop = true
  | n + 1, pl, pl', hwalk, hv => by
    obtain ⟨hexact, hrest⟩ := Bool.and_eq_true_iff.mp hwalk
    cases hafter : pl.after sixtop with
    | none =>
      obtain rfl := (visits_of_none hafter).mp hv
      exact hexact
    | some next =>
      rw [hafter] at hrest
      rcases (visits_of_some hafter).mp hv with rfl | hv'
      · exact hexact
      · exact exact_of_visits hrest hv'

/-- Where all elements have the length of their format, nothing goes wrong. -/
theorem clean_of_exactWalk {n : ℕ} {pl : Place} (hwalk : exactWalk sixtop n pl = true) :
    Clean sixtop pl := by
  have hexact : ∀ {pl' : Place}, Visits sixtop pl pl' → ∃ e len tail,
      pl'.ie sixtop = some (e, len, tail) ∧ fit len tail e = .exact := by
    intro pl' hv
    obtain ⟨⟨e, len, tail⟩, hie, hfit⟩ :=
      (Option.any_eq_true _ _).mp (exact_of_visits hwalk hv)
    exact ⟨e, len, tail, hie, of_decide_eq_true hfit⟩
  constructor
  · rintro pl' hv ⟨e, len, tail, hie, hharm⟩
    obtain ⟨e', len', tail', hie', hfit⟩ := hexact hv
    rw [hie'] at hie
    cases hie
    rw [hfit] at hharm
    rcases hharm with h | h | h <;> cases h
  · rintro _ pl' hv hloose
    obtain ⟨e', len', tail', hie', hfit⟩ := hexact hv
    rcases hloose with ⟨e, len, tail, hie, hlax⟩ | ⟨hnil, -⟩
    · rw [hie'] at hie
      cases hie
      rw [hfit] at hlax
      cases hlax
    · -- there is no element at the end of the buffer
      rw [Place.ie, hnil] at hie'
      cases hie'

/-- A container with the timeslot and the synchronization, between two list terminations. -/
def timingBytes : List UInt8 :=
  [0x00, 0x3f, 0x0b, 0x88, 0x01, 0x1c, 0x00, 0x06, 0x1a, 0x05, 0x00, 0x00, 0x00, 0x00, 0x01,
    0x00, 0xf8]

/-- A beacon with a container of two sub-IEs and a byte of payload is parsed safely. -/
theorem parse_container_safe :
    Safe false timingBytes (parseInformationElements false timingBytes Ies.zero) :=
  (parse_safe_iff false timingBytes Ies.zero (by decide)).mpr
    (clean_of_exactWalk (n := 5) (by decide))

/-- A slotframe and link element without slotframes at the end of a frame: the number of
links is read four bytes behind the end. -/
theorem parse_slotframe_overread :
    ¬ Safe false [0x00, 0x3f, 0x03, 0x88, 0x01, 0x1b, 0x00]
      (parseInformationElements false [0x00, 0x3f, 0x03, 0x88, 0x01, 0x1b, 0x00] Ies.zero) :=
  fun h => h.inside rfl

end Run

end MasterScheduler.Mote.Elements
