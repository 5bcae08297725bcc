import MasterScheduler.Mote.ElementSafety

/-!
# MasterScheduler.Mote.ElementOffset — where the payload elements begin

Link-layer security asks the parser of information elements only for
`ie_payload_ie_offset`, on bytes behind which others follow in memory.

1. **Reads**: the parser looks at up to eight bytes behind its buffer, and ends.
2. **Offset**: it is decided by the header elements alone.

The build has no 6top elements (`TSCH_WITH_SIXTOP` is 0 by default).
-/

namespace MasterScheduler.Mote.Elements

open Lib

section

variable {p p' : Parser} {e : Element} {buf : List UInt8} {len ieDesc fuel n : ℕ}
  {writes : List Write}

/-! ## Reads -/

/-- The parser ends in one of the ways the source knows. -/
def Returns (r : Except Stop ℕ) : Prop := r = .error .reject ∨ ∃ n, r = .ok n

/-- The bytes behind the buffer that the parser may look at are there. -/
def Wide (p : Parser) : Prop := p.bufSize.toNat + 8 ≤ p.buf.length

/-- Only a list termination assigns the offset. -/
theorem assign_offset {ies : Ies} {w : Write} (h : ∀ n, w ≠ .payloadIeOffset n) :
    (ies.assign w).iePayloadIeOffset = ies.iePayloadIeOffset := by
  cases w with
  | payloadIeOffset n => exact absurd rfl (h n)
  | _ => rfl

theorem store_offset (h : ∀ w ∈ writes, ∀ n, w ≠ .payloadIeOffset n) :
    (p.store e writes).ies.iePayloadIeOffset = p.ies.iePayloadIeOffset := by
  have hfold : ∀ (ies : Ies), (writes.foldl Ies.assign ies).iePayloadIeOffset =
      ies.iePayloadIeOffset := by
    induction writes with
    | nil =>
      intro ies
      rfl
    | cons w ws ih =>
      intro ies
      rw [List.foldl_cons, ih (fun w' hw' => h w' (by simp [hw'])),
        assign_offset (h w (by simp))]
  exact hfold p.ies

theorem ne_offset_of_owner {w : Write} (he : e ∈ w.owners) (h₁ : e ≠ .headerListTermination1)
    (h₂ : e ≠ .headerListTermination2) : ∀ n, w ≠ .payloadIeOffset n := by
  rintro n rfl
  simp only [Write.owners, List.mem_cons, List.not_mem_nil, or_false] at he
  rcases he with rfl | rfl
  · exact h₁ rfl
  · exact h₂ rfl

/-- No field is missing if eight bytes follow an element. -/
theorem fit_ne_overread (he : e ≠ .ietf) (hwide : len + 8 ≤ buf.length) :
    fit len buf e ≠ .overread := by
  intro h
  cases e with
  | mlme => cases h
  | ietf => exact he rfl
  | _ =>
    simp only [fit] at h
    split_ifs at h <;> omega

/-- A field of another element is assigned in one case only. -/
theorem eq_schedulePackets_of_foreign (h : fit len buf e = .foreign) :
    e = .schedulePackets ∧ len = 3 := by
  cases e with
  | mlme => cases h
  | schedulePackets =>
    simp only [fit] at h
    split_ifs at h with _ _ hlen
    · exact ⟨rfl, hlen⟩
  | _ =>
    simp only [fit] at h
    split_ifs at h

/-- How the parser reads a sub-element. -/
def parseMlmeIe (short : Bool) (buf : List UInt8) (len : ℕ) (e : Element) :
    Except Stop (List Write) :=
  if short then parseMlmeShortIe buf len e else parseMlmeLongIe buf len e

theorem parseMlmeIe_cases {short : Bool}
    (he : e ∈ if short then mlmeShortIes else mlmeLongIes) (hwide : len + 8 ≤ buf.length) :
    parseMlmeIe short buf len e = .error .reject ∨
      ∃ writes, parseMlmeIe short buf len e = .ok writes ∧
        ∀ w ∈ writes, ∀ n, w ≠ .payloadIeOffset n := by
  have hlen : len ≤ buf.length := by omega
  have hreads : Reads e (parseMlmeIe short buf len e) (fit len buf e) := by
    cases short with
    | true => exact parseMlmeShortIe_reads he hlen
    | false => exact parseMlmeLongIe_reads he hlen
  have hne : e ≠ .headerListTermination1 ∧ e ≠ .headerListTermination2 ∧ e ≠ .ietf := by
    refine ⟨?_, ?_, ?_⟩ <;> rintro rfl <;> cases short <;> simp [mlmeShortIes, mlmeLongIes] at he
  have hover := fit_ne_overread hne.2.2 hwide
  have hforeign (h : fit len buf e = .foreign) := eq_schedulePackets_of_foreign h
  generalize hparse : parseMlmeIe short buf len e = r at hreads ⊢
  generalize hfit : fit len buf e = f at hreads hover hforeign
  cases hreads with
  | exact hown => exact .inr ⟨_, rfl, fun w hw => ne_offset_of_owner (hown w hw) hne.1 hne.2.1⟩
  | lax hown => exact .inr ⟨_, rfl, fun w hw => ne_offset_of_owner (hown w hw) hne.1 hne.2.1⟩
  | wrong => exact .inl rfl
  | overread => exact absurd rfl hover
  | foreign =>
    obtain ⟨rfl, rfl⟩ := hforeign rfl
    cases short with
    | true =>
      have hread : parseMlmeIe true buf 3 .schedulePackets =
          .ok [.scheduleReceived ((buf.drop 0).take 3)] := parseScheduleReceived_ok hlen
      rw [hread] at hparse
      refine .inr ⟨_, rfl, ?_⟩
      rw [← Except.ok.inj hparse]
      intro w hw n
      rw [List.mem_singleton.mp hw]
      simp
    | false => simp [mlmeLongIes] at he

/-- What the body of the loop does behind a descriptor, as far as it matters here. -/
structure Body (p : Parser) (r : Parser × Control) : Prop where
  buf : r.1.buf = p.buf
  bufSize : r.1.bufSize = p.bufSize
  offset : r.1.offset = p.offset
  done : ∀ result, r.2 = .done result → Returns result
  next : ∀ len, r.2 = .next len → len ≤ p.bufSize.toNat

/-- Behind the header elements the offset stays. -/
structure Inner (p : Parser) (r : Parser × Control) : Prop extends Body p r where
  ies : r.1.ies.iePayloadIeOffset = p.ies.iePayloadIeOffset
  state : ∀ len, r.2 = .next len → r.1.parsingState ≠ .headerIe

theorem body_reject : Body p (p, .done (.error .reject)) :=
  ⟨rfl, rfl, rfl, by rintro _ ⟨⟩; exact .inl rfl, by rintro _ ⟨⟩⟩

theorem inner_reject : Inner p (p, .done (.error .reject)) :=
  ⟨body_reject, rfl, by rintro _ ⟨⟩⟩

theorem payloadStep_inner : Inner p (payloadStep false p ieDesc) := by
  unfold payloadStep
  split
  · exact inner_reject
  · dsimp only
    split
    · exact ⟨⟨rfl, rfl, rfl, by rintro _ ⟨⟩, by rintro _ ⟨⟩; exact Nat.zero_le _⟩, rfl,
        by rintro _ ⟨⟩; simp⟩
    · rename_i hsel
      have hmem := (select_eq_some hsel).1
      simp [payloadIes] at hmem
    · split
      · exact ⟨⟨rfl, rfl, rfl, by rintro _ ⟨⟩; exact .inr ⟨_, rfl⟩, by rintro _ ⟨⟩⟩, rfl,
          by rintro _ ⟨⟩⟩
      · exact inner_reject
    · exact inner_reject

theorem mlmeStep_inner {nested : ℕ} (hwide : Wide p) : Inner p (mlmeStep p nested ieDesc) := by
  unfold Wide at hwide
  unfold mlmeStep
  -- A sub-IE that is unknown or too long for its container is rejected.
  split
  · exact inner_reject
  · rename_i e len hsub
    split
    · exact inner_reject
    · rename_i hlen
      have he : e ∈ if decide (ieDesc / 32768 = 0) then mlmeShortIes else mlmeLongIes := by
        unfold subieOf at hsub
        split at hsub
        · rename_i hshort
          simp only [hshort, decide_true, if_true]
          exact (select_eq_some (Prod.mk.inj hsub).1).1
        · rename_i hlong
          simp only [hlong, decide_false]
          exact (select_eq_some (Prod.mk.inj hsub).1).1
      have hcases := parseMlmeIe_cases he (show len + 8 ≤ p.buf.length by omega)
      have hparse : (if ieDesc / 32768 = 0 then parseMlmeShortIe p.buf len e
          else parseMlmeLongIe p.buf len e) =
          parseMlmeIe (decide (ieDesc / 32768 = 0)) p.buf len e := by
        simp [parseMlmeIe]
      rw [hparse]
      rcases hcases with hreject | ⟨writes, hok, hkeep⟩
      · rw [hreject]
        exact inner_reject
      · rw [hok]
        have hstore := store_offset (p := p) (e := e) hkeep
        dsimp only
        have hstored : ∀ {state : ParsingState}, state ≠ .headerIe →
            Inner p ({ p.store e writes with parsingState := state }, .next len) := by
          intro state hstate
          exact ⟨⟨rfl, rfl, rfl, by rintro _ ⟨⟩, by rintro _ ⟨⟩; omega⟩, hstore,
            by rintro _ ⟨⟩; exact hstate⟩
        split
        · exact ⟨⟨rfl, rfl, rfl, by rintro _ ⟨⟩; exact .inl rfl, by rintro _ ⟨⟩⟩, hstore,
            by rintro _ ⟨⟩⟩
        · split
          · exact hstored (by simp)
          · exact hstored (by simp)

variable (ieDesc) in
theorem headerStep_body (hwide : Wide p) : Body p (headerStep p ieDesc) := by
  unfold Wide at hwide
  unfold headerStep
  -- A termination ends the header IEs; any other element is read within the frame.
  split
  · exact body_reject
  · dsimp only
    split
    · split
      · exact ⟨rfl, rfl, rfl, by rintro _ ⟨⟩, by rintro _ ⟨⟩; omega⟩
      · exact body_reject
    · split
      · exact ⟨rfl, rfl, rfl, by rintro _ ⟨⟩; exact .inr ⟨_, rfl⟩, by rintro _ ⟨⟩⟩
      · exact body_reject
    · rename_i e _ _ hsel
      split
      · exact body_reject
      · rename_i hlen
        have hmem := (select_eq_some hsel).1
        simp only [headerIes, List.mem_cons, List.not_mem_nil, or_false] at hmem
        have hreads : Reads .ackNackTimeCorrection
            (parseHeaderIe p.buf (ieDesc % 128) .ackNackTimeCorrection)
            (fit (ieDesc % 128) p.buf .ackNackTimeCorrection) :=
          parseHeaderIe_reads (by omega)
        have hover : fit (ieDesc % 128) p.buf .ackNackTimeCorrection ≠ .overread :=
          fit_ne_overread (by simp) (by omega)
        rcases hmem with rfl | rfl | rfl
        · simp_all
        · simp_all
        · generalize parseHeaderIe p.buf (ieDesc % 128) .ackNackTimeCorrection = r at hreads ⊢
          generalize fit (ieDesc % 128) p.buf .ackNackTimeCorrection = f at hreads hover
          cases hreads with
          | overread => exact absurd rfl hover
          | wrong => exact body_reject
          | _ => exact ⟨rfl, rfl, rfl, by rintro _ ⟨⟩, by rintro _ ⟨⟩; omega⟩
    · exact body_reject

/-- The descriptor at the front of a buffer. -/
def Parser.descriptor (p : Parser) : ℕ := word (p.buf.getD 0 0) (p.buf.getD 1 0)

/-- The body behind a descriptor. -/
def Parser.body (p : Parser) (ieDesc : ℕ) : Parser × Control :=
  match p.parsingState with
  | .headerIe => headerStep p ieDesc
  | .payloadIe => payloadStep false p ieDesc
  | .mlmeSubie nestedMlmeLen => mlmeStep p nestedMlmeLen ieDesc

theorem parseIe_eq (hwide : Wide p) (h : 2 ≤ p.bufSize.toNat) :
    parseIe false p = (p.advance 2).body p.descriptor := by
  unfold Wide at hwide
  rw [parseIe, if_neg (by omega), read16_of_lt (by omega)]
  rfl

theorem Wide.advance (hwide : Wide p) (h : len ≤ p.bufSize.toNat) : Wide (p.advance len) := by
  unfold Wide at hwide ⊢
  simp only [Parser.advance, toNat_sub_ofNat _ h, List.length_drop]
  omega

variable (ieDesc) in
theorem body_body (hwide : Wide p) : Body p (p.body ieDesc) := by
  unfold Parser.body
  split
  · exact headerStep_body ieDesc hwide
  · exact payloadStep_inner.toBody
  · exact (mlmeStep_inner hwide).toBody

variable (ieDesc) in
theorem body_inner (hwide : Wide p) (hstate : p.parsingState ≠ .headerIe) :
    Inner p (p.body ieDesc) := by
  unfold Parser.body
  split
  · rename_i h
    exact absurd h hstate
  · exact payloadStep_inner
  · exact mlmeStep_inner hwide

/-- One round. -/
theorem parseLoop_succ (hwide : Wide p) (h : 2 ≤ p.bufSize.toNat) :
    parseLoop false (fuel + 1) p =
      match (p.advance 2).body p.descriptor with
      | (p', .next len) => parseLoop false fuel (p'.advance len)
      | (p', .done result) => p'.stop result := by
  have hne : p.bufSize ≠ 0 := by
    intro hzero
    rw [hzero] at h
    exact absurd h (by decide)
  rw [parseLoop, if_neg hne]
  rcases hbody : (p.advance 2).body p.descriptor with ⟨p', c⟩
  cases c with
  | next len => simp only [parseIe_eq hwide h, hbody]
  | done result => simp only [parseIe_eq hwide h, hbody]

theorem parseLoop_empty (h : p.bufSize = 0) : parseLoop false (fuel + 1) p = p.finish := by
  rw [parseLoop, if_pos h]

theorem parseLoop_single (h : p.bufSize.toNat = 1) :
    parseLoop false (fuel + 1) p = p.stop (.error .reject) := by
  have hne : p.bufSize ≠ 0 := by
    intro hzero
    rw [hzero] at h
    exact absurd h (by decide)
  rw [parseLoop, if_neg hne, parseIe, if_pos (by omega)]

/-- What is left for the next round. -/
theorem Body.rest {p' : Parser} (h : Body p (p', .next len)) (hwide : Wide p) :
    Wide (p'.advance len) ∧ (p'.advance len).bufSize.toNat = p.bufSize.toNat - len := by
  have hlen := h.next len rfl
  have hbuf : p'.buf = p.buf := h.buf
  have hsize : p'.bufSize = p.bufSize := h.bufSize
  have hwide' : Wide p' := by
    rw [Wide, hbuf, hsize]
    exact hwide
  have hlen' : len ≤ p'.bufSize.toNat := by rwa [hsize]
  refine ⟨hwide'.advance hlen', ?_⟩
  rw [← hsize]
  exact toNat_sub_ofNat _ hlen'

theorem parseLoop_returns (hwide : Wide p) (hfuel : p.bufSize.toNat < fuel) :
    Returns (parseLoop false fuel p).result := by
  induction fuel generalizing p with
  | zero => omega
  | succ fuel ih =>
    rcases Nat.lt_or_ge p.bufSize.toNat 2 with h | h
    · by_cases hzero : p.bufSize = 0
      · rw [parseLoop_empty hzero, Parser.finish]
        split <;> exact .inr ⟨_, rfl⟩
      · have hone : p.bufSize.toNat = 1 := by
          have hne : p.bufSize.toNat ≠ 0 := fun h₀ => hzero (UInt8.toNat_inj.mp h₀)
          omega
        rw [parseLoop_single hone]
        exact .inl rfl
    · rw [parseLoop_succ hwide h]
      have hadv := hwide.advance h
      have hbody := body_body p.descriptor hadv
      have hsize : (p.advance 2).bufSize.toNat = p.bufSize.toNat - 2 := toNat_sub_ofNat _ h
      rcases hstep : (p.advance 2).body p.descriptor with ⟨p', c⟩
      rw [hstep] at hbody
      cases c with
      | done result => exact hbody.done result rfl
      | next len =>
        obtain ⟨hwide', hrest⟩ := hbody.rest hadv
        exact ih hwide' (by omega)

/-- Behind the header elements the offset is final. -/
theorem parseLoop_offset (hwide : Wide p) (hstate : p.parsingState ≠ .headerIe) :
    (parseLoop false fuel p).ies.iePayloadIeOffset = p.ies.iePayloadIeOffset := by
  induction fuel generalizing p with
  | zero => rfl
  | succ fuel ih =>
    rcases Nat.lt_or_ge p.bufSize.toNat 2 with h | h
    · by_cases hzero : p.bufSize = 0
      · rw [parseLoop_empty hzero, Parser.finish]
        split
        · rename_i hheader
          exact absurd hheader hstate
        · rfl
      · have hone : p.bufSize.toNat = 1 := by
          have hne : p.bufSize.toNat ≠ 0 := fun h₀ => hzero (UInt8.toNat_inj.mp h₀)
          omega
        rw [parseLoop_single hone]
        rfl
    · rw [parseLoop_succ hwide h]
      have hadv := hwide.advance h
      have hinner := body_inner p.descriptor hadv hstate
      rcases hstep : (p.advance 2).body p.descriptor with ⟨p', c⟩
      rw [hstep] at hinner
      have hies : p'.ies.iePayloadIeOffset = p.ies.iePayloadIeOffset := hinner.ies
      cases c with
      | done result => exact hies
      | next len =>
        obtain ⟨hwide', -⟩ := hinner.toBody.rest hadv
        have hnext := ih hwide' (hinner.state len rfl)
        exact hnext.trans hies

/-! ## Offset -/

/-- Two parsers among the header elements, at the same place. -/
structure Together (p q : Parser) : Prop where
  left : Wide p
  right : Wide q
  leftState : p.parsingState = .headerIe
  rightState : q.parsingState = .headerIe
  offset : q.offset = p.offset
  bufSize : q.bufSize = p.bufSize

theorem Together.advance {q : Parser} (h : Together p q) (hlen : len ≤ p.bufSize.toNat) :
    Together (p.advance len) (q.advance len) := by
  refine ⟨h.left.advance hlen, h.right.advance (by rwa [h.bufSize]), h.leftState, h.rightState,
    ?_, ?_⟩
  · simp only [Parser.advance, h.offset]
  · simp only [Parser.advance, h.bufSize]

/-- What a header element does to both: it is refused, ends the header elements, or is followed
by another one. -/
inductive HeaderRound (p q : Parser) (ieDesc : ℕ) : Prop
  | reject : headerStep p ieDesc = (p, .done (.error .reject)) → HeaderRound p q ieDesc
  | payload {p' q' : Parser} : headerStep p ieDesc = (p', .next 0) →
      headerStep q ieDesc = (q', .next 0) → p'.parsingState ≠ .headerIe →
      q'.parsingState ≠ .headerIe → p'.ies.iePayloadIeOffset = UInt8.ofNat p.offset →
      q'.ies.iePayloadIeOffset = UInt8.ofNat p.offset → HeaderRound p q ieDesc
  | last {p' q' : Parser} {r : Except Stop ℕ} : headerStep p ieDesc = (p', .done r) →
      headerStep q ieDesc = (q', .done r) → p'.ies.iePayloadIeOffset = UInt8.ofNat p.offset →
      q'.ies.iePayloadIeOffset = UInt8.ofNat p.offset → HeaderRound p q ieDesc
  | header {p' q' : Parser} : headerStep p ieDesc = (p', .next 2) →
      headerStep q ieDesc = (q', .next 2) → p'.parsingState = p.parsingState →
      q'.parsingState = q.parsingState →
      p'.ies.iePayloadIeOffset = p.ies.iePayloadIeOffset → HeaderRound p q ieDesc

variable (ieDesc) in
theorem headerStep_together {q : Parser} (h : Together p q) : HeaderRound p q ieDesc := by
  by_cases htype : ieDesc / 32768 = 0
  case neg =>
    apply HeaderRound.reject
    rw [headerStep, if_pos htype]
  have hp : ∀ r : Parser, headerStep r ieDesc = _ := fun r => by
    rw [headerStep, if_neg (not_not.mpr htype)]
  dsimp only at hp
  -- Two parsers at the same element go on in the same way.
  cases hsel : select headerIes (ieDesc / 128 % 256) with
  | none =>
    apply HeaderRound.reject
    rw [hp, hsel]
  | some e =>
    have hmem := (select_eq_some hsel).1
    simp only [headerIes, List.mem_cons, List.not_mem_nil, or_false] at hmem
    rcases hmem with rfl | rfl | rfl
    · by_cases hlen : ieDesc % 128 = 0
      · apply HeaderRound.payload
        · rw [hp, hsel]
          dsimp only
          rw [if_pos hlen, hlen]
        · rw [hp, hsel]
          dsimp only
          rw [if_pos hlen, hlen]
        · simp
        · simp
        · rfl
        · rw [← h.offset]
          rfl
      · apply HeaderRound.reject
        rw [hp, hsel]
        dsimp only
        rw [if_neg hlen]
    · by_cases hlen : ieDesc % 128 = 0
      · apply HeaderRound.last
        · rw [hp, hsel]
          dsimp only
          rw [if_pos hlen]
        · rw [hp, hsel]
          dsimp only
          rw [if_pos hlen, h.offset]
        · rfl
        · rw [← h.offset]
          rfl
      · apply HeaderRound.reject
        rw [hp, hsel]
        dsimp only
        rw [if_neg hlen]
    · have hleft := h.left
      have hright := h.right
      unfold Wide at hleft hright
      by_cases hlen : ieDesc % 128 = 2 ∧ 2 ≤ p.bufSize.toNat
      · obtain ⟨hlen, hsize⟩ := hlen
        have hparse : ∀ r : Parser, Wide r → r.bufSize = p.bufSize → ∃ writes,
            headerStep r ieDesc = (r.store .ackNackTimeCorrection writes, .next 2) ∧
              ∀ w ∈ writes, ∀ n, w ≠ .payloadIeOffset n := by
          intro r hwide hr
          unfold Wide at hwide
          rw [hr] at hwide
          rw [hp, hsel]
          dsimp only
          rw [if_neg (by rw [hr]; omega), hlen, parseHeaderIe, if_pos rfl,
            read16_of_lt (by omega)]
          refine ⟨_, rfl, ?_⟩
          intro w hw n
          rw [List.mem_singleton.mp hw]
          simp
        obtain ⟨writes, hleft', hkeep⟩ := hparse p h.left rfl
        obtain ⟨writes', hright', -⟩ := hparse q h.right h.bufSize
        exact .header hleft' hright' rfl rfl (store_offset hkeep)
      · apply HeaderRound.reject
        rw [hp, hsel]
        dsimp only
        split
        · rfl
        · rw [parseHeaderIe, if_neg (by omega)]

/-- The bytes up to the offset decide it: another buffer with the same header elements has the
same offset, whatever follows them. -/
theorem parseLoop_together {q : Parser} (h : Together p q)
    (hfits : p.offset + p.bufSize.toNat < 256)
    (hok : (parseLoop false fuel p).result = .ok n) :
    p.offset ≤ (parseLoop false fuel p).ies.iePayloadIeOffset.toNat ∧
      (parseLoop false fuel p).ies.iePayloadIeOffset.toNat ≤ p.offset + p.bufSize.toNat ∧
      ((∀ i, p.offset + i < (parseLoop false fuel p).ies.iePayloadIeOffset.toNat →
          p.buf.getD i 0 = q.buf.getD i 0) →
        (parseLoop false fuel q).ies.iePayloadIeOffset =
          (parseLoop false fuel p).ies.iePayloadIeOffset) := by
  induction fuel generalizing p q with
  | zero => cases hok
  | succ fuel ih =>
    have htoNat : ∀ k, k < 256 → (UInt8.ofNat k).toNat = k := by
      intro k hk
      rw [UInt8.toNat_ofNat']
      omega
    rcases Nat.lt_or_ge p.bufSize.toNat 2 with hsize | hsize
    · by_cases hzero : p.bufSize = 0
      · have hfinish : ∀ r : Parser, r.parsingState = .headerIe →
            r.finish.ies.iePayloadIeOffset = UInt8.ofNat r.offset := by
          intro r hr
          rw [Parser.finish, hr]
          rfl
        rw [parseLoop_empty hzero, parseLoop_empty (by rw [h.bufSize, hzero]),
          hfinish p h.leftState, hfinish q h.rightState, h.offset, htoNat _ (by omega)]
        exact ⟨le_rfl, by omega, fun _ => rfl⟩
      · have hone : p.bufSize.toNat = 1 := by
          have hne : p.bufSize.toNat ≠ 0 := fun h₀ => hzero (UInt8.toNat_inj.mp h₀)
          omega
        rw [parseLoop_single hone] at hok
        cases hok
    · have hqsize : 2 ≤ q.bufSize.toNat := by rwa [h.bufSize]
      have hadv := h.advance hsize
      have hpsize : (p.advance 2).bufSize.toNat = p.bufSize.toNat - 2 := toNat_sub_ofNat _ hsize
      have hpoff : (p.advance 2).offset = p.offset + 2 := rfl
      have hpbody : (p.advance 2).body p.descriptor = headerStep (p.advance 2) p.descriptor := by
        rw [Parser.body, hadv.leftState]
      have hqbody : (q.advance 2).body q.descriptor = headerStep (q.advance 2) q.descriptor := by
        rw [Parser.body, hadv.rightState]
      -- the descriptors agree once the offset is behind them
      have hdesc : ∀ o, p.offset + 2 ≤ o →
          (∀ i, p.offset + i < o → p.buf.getD i 0 = q.buf.getD i 0) →
          q.descriptor = p.descriptor := by
        intro o ho hagree
        rw [Parser.descriptor, Parser.descriptor, hagree 0 (by omega), hagree 1 (by omega)]
      rw [parseLoop_succ h.left hsize, hpbody] at hok ⊢
      rw [parseLoop_succ h.right hqsize, hqbody]
      cases headerStep_together p.descriptor hadv with
      | reject hreject =>
        rw [hreject] at hok
        cases hok
      | payload hp hq hps hqs hpo hqo =>
        rename_i p' q'
        have hb := body_body p.descriptor hadv.left
        rw [hpbody, hp] at hb
        have hb' := headerStep_body p.descriptor hadv.right
        rw [hq] at hb'
        rw [hp]
        dsimp only
        rw [parseLoop_offset (hb.rest hadv.left).1 hps]
        have hval : (p'.advance 0).ies.iePayloadIeOffset = UInt8.ofNat (p.offset + 2) := hpo
        rw [hval, htoNat _ (by omega)]
        refine ⟨by omega, by omega, ?_⟩
        intro hagree
        rw [hdesc _ le_rfl hagree, hq]
        dsimp only
        rw [parseLoop_offset (hb'.rest hadv.right).1 hqs]
        exact hqo
      | last hp hq hpo hqo =>
        rw [hp]
        have hval := hpo
        rw [hpoff] at hval
        dsimp only [Parser.stop]
        rw [hval, htoNat _ (by omega)]
        refine ⟨by omega, by omega, ?_⟩
        intro hagree
        rw [hdesc _ le_rfl hagree, hq]
        exact hqo
      | header hp hq hps hqs hpo =>
        rename_i p' q'
        have hb := headerStep_body p.descriptor hadv.left
        rw [hp] at hb
        have hb' := headerStep_body p.descriptor hadv.right
        rw [hq] at hb'
        have hp' : Together p' q' := by
          refine ⟨?_, ?_, hps.trans hadv.leftState, hqs.trans hadv.rightState, ?_, ?_⟩
          · rw [Wide, hb.buf, hb.bufSize]
            exact hadv.left
          · rw [Wide, hb'.buf, hb'.bufSize]
            exact hadv.right
          · rw [hb.offset, hb'.offset]
            exact hadv.offset
          · rw [hb.bufSize, hb'.bufSize]
            exact hadv.bufSize
        have hlen : 2 ≤ p'.bufSize.toNat := by
          rw [hb.bufSize]
          exact hb.next 2 rfl
        have hnext := hp'.advance hlen
        have hsize' : (p'.advance 2).bufSize.toNat = p.bufSize.toNat - 2 - 2 := by
          rw [← hpsize, ← hb.bufSize]
          exact toNat_sub_ofNat _ hlen
        have hoff' : (p'.advance 2).offset = p.offset + 2 + 2 := by
          simp only [Parser.advance]
          rw [hb.offset]
          rfl
        have hlen' : 2 ≤ p.bufSize.toNat - 2 := by
          rw [← hpsize]
          exact hb.next 2 rfl
        rw [hp] at hok ⊢
        dsimp only at hok ⊢
        obtain ⟨hge, hle, hsame⟩ := ih hnext (by omega) hok
        rw [hoff'] at hge hle hsame
        refine ⟨by omega, by omega, ?_⟩
        intro hagree
        rw [hdesc _ (by omega) hagree, hq]
        dsimp only
        apply hsame
        intro i hi
        have hbuf : (p'.advance 2).buf = p.buf.drop 4 := by
          simp only [Parser.advance]
          rw [hb.buf]
          simp [Parser.advance]
        have hbuf' : (q'.advance 2).buf = q.buf.drop 4 := by
          simp only [Parser.advance]
          rw [hb'.buf]
          simp [Parser.advance]
        have hbyte := hagree (4 + i) (by omega)
        simpa [hbuf, hbuf', List.getD_eq_getElem?_getD] using hbyte

/-- The offset lies in the buffer, also where the parser refuses the rest. -/
theorem parseLoop_offset_le (hwide : Wide p) (hstate : p.parsingState = .headerIe)
    (hfits : p.offset + p.bufSize.toNat < 256)
    (hoff : p.ies.iePayloadIeOffset.toNat ≤ p.offset) :
    (parseLoop false fuel p).ies.iePayloadIeOffset.toNat ≤ p.offset + p.bufSize.toNat := by
  -- On the fuel; the offset is written once, where the header IEs end.
  induction fuel generalizing p with
  | zero => exact hoff.trans (Nat.le_add_right _ _)
  | succ fuel ih =>
    have htoNat : ∀ k, k < 256 → (UInt8.ofNat k).toNat = k := by
      intro k hk
      rw [UInt8.toNat_ofNat']
      omega
    -- Without room for a descriptor the parser stops here.
    rcases Nat.lt_or_ge p.bufSize.toNat 2 with hsize | hsize
    · by_cases hzero : p.bufSize = 0
      · have hfinish : p.finish.ies.iePayloadIeOffset = UInt8.ofNat p.offset := by
          rw [Parser.finish, hstate]
          rfl
        rw [parseLoop_empty hzero, hfinish, htoNat _ (by omega)]
        exact Nat.le_add_right _ _
      · have hone : p.bufSize.toNat = 1 := by
          have hne : p.bufSize.toNat ≠ 0 := fun h₀ => hzero (UInt8.toNat_inj.mp h₀)
          omega
        rw [parseLoop_single hone]
        exact hoff.trans (Nat.le_add_right _ _)
    · have hadv := hwide.advance hsize
      have htogether : Together (p.advance 2) (p.advance 2) :=
        ⟨hadv, hadv, hstate, hstate, rfl, rfl⟩
      have hpsize : (p.advance 2).bufSize.toNat = p.bufSize.toNat - 2 := toNat_sub_ofNat _ hsize
      have hpbody : (p.advance 2).body p.descriptor = headerStep (p.advance 2) p.descriptor := by
        rw [Parser.body, htogether.leftState]
      have hb := headerStep_body p.descriptor hadv
      rw [parseLoop_succ hwide hsize, hpbody]
      cases headerStep_together p.descriptor htogether with
      | reject hp =>
        rw [hp]
        exact hoff.trans (Nat.le_add_right _ _)
      | payload hp hq hps hqs hpo hqo =>
        rename_i p' q'
        rw [hp] at hb ⊢
        dsimp only
        rw [parseLoop_offset (hb.rest hadv).1 hps]
        have hval : (p'.advance 0).ies.iePayloadIeOffset = UInt8.ofNat (p.offset + 2) := hpo
        rw [hval, htoNat _ (by omega)]
        omega
      | last hp hq hpo hqo =>
        rename_i p' q' r
        have hval : p'.ies.iePayloadIeOffset = UInt8.ofNat (p.offset + 2) := hpo
        rw [hp]
        dsimp only [Parser.stop]
        rw [hval, htoNat _ (by omega)]
        omega
      | header hp hq hps hqs hpo =>
        rename_i p' q'
        rw [hp] at hb ⊢
        dsimp only
        obtain ⟨hwide', hrest⟩ := hb.rest hadv
        have hlen : 2 ≤ p.bufSize.toNat - 2 := by
          rw [← hpsize]
          exact hb.next 2 rfl
        have hoff' : (p'.advance 2).offset = p.offset + 2 + 2 := by
          have hsame : p'.offset = p.offset + 2 := hb.offset
          simp only [Parser.advance, hsame]
        have hies : (p'.advance 2).ies.iePayloadIeOffset = p.ies.iePayloadIeOffset := hpo
        have hnext := ih hwide' (hps.trans hstate) (by omega) (by rw [hies]; omega)
        omega

end

end MasterScheduler.Mote.Elements
