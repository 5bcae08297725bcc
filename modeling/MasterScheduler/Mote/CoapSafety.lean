import MasterScheduler.Mote.Coap

/-!
# MasterScheduler.Mote.CoapSafety — where the CoAP parser looks

Everything that `coap_parse_message` touches lies in the message exactly if the
header and the token do, and no option that it gets to is cut off within its
own header: the length of the message is compared only behind these.

1. **Inside**: what a safe run is, and the messages on which it is one.
2. **Value**: the value of an option stays inside, and so do merged strings.
3. **Round**: one option.
4. **Result**: runs, in both directions.
-/

namespace MasterScheduler.Mote.Coap

open Lib

/-! ## Inside -/

/-- A range in the message. -/
def Access.Inside (dataLen : ℕ) : Access → Prop
  | read start len | write start len => len = 0 ∨ start + len ≤ dataLen
  | terminate _ => False

/-- All parts of a packet lie in the message. -/
structure Contained (dataLen : ℕ) (pkt : CoapPacket Slice) : Prop where
  token : coapHeaderLen + pkt.tokenLen.toNat ≤ dataLen
  strings : ∀ o, (pkt.strings o).start + (pkt.strings o).len ≤ dataLen
  payload : pkt.payload.start + pkt.payload.len ≤ dataLen

/-- The parser ends, touches only the message and the byte behind a payload, and the packet that
it accepts lies in the message. -/
def Safe (cfg : Config) (m : Memory) (dataLen : ℕ) : Prop :=
  ∃ r, coapParseMessage cfg m dataLen = some r ∧
    (∀ a ∈ r.parser.trace, a.Inside dataLen ∨
      a = .terminate (r.parser.pkt.payload.start + r.parser.pkt.payload.len)) ∧
    (r.status = .noError → Contained dataLen r.parser.pkt)

/-- The option numbers at which the parser gives up. -/
def Refused (number : ℕ) : Prop :=
  coapOptionSize1 < number ∨ ofNumber number = some (.string .proxyUri) ∨
    ofNumber number = some (.string .proxyScheme) ∨ ofNumber number = none ∧ number % 2 = 1

/-- The byte ends the options. -/
def Marker (b : UInt8) : Prop := b &&& 0xf0 = 0xf0

/-- From an option number and a position on, every option that is reached has its header in the
message. -/
inductive Bounded (m : Memory) (dataLen : ℕ) : ℕ → ℕ → Prop
  | done {number p : ℕ} : dataLen ≤ p → Bounded m dataLen number p
  | payload {number p : ℕ} : Marker (m p) → Bounded m dataLen number p
  | refused {number p delta length q : ℕ} : readHeader m p = (delta, length, q) → q ≤ dataLen →
      (dataLen < q + length ∨ Refused (number + delta)) → Bounded m dataLen number p
  | option {number p delta length q : ℕ} : readHeader m p = (delta, length, q) → q ≤ dataLen →
      Bounded m dataLen (number + delta) (q + length) → Bounded m dataLen number p

/-! ## Value -/

section

variable {cfg : Config} {m : Memory} {dataLen len p : ℕ} {s s' : Parser} {o : StringOption}

theorem lt_readExtension (m : Memory) (p nibble : ℕ) : p ≤ (readExtension m p nibble).2 := by
  unfold readExtension
  split_ifs <;> simp

theorem lt_readHeader (m : Memory) (p : ℕ) : p < (readHeader m p).2.2 := by
  have hdelta := lt_readExtension m (p + 1) (m p >>> 4).toNat
  have hlength := lt_readExtension m (readExtension m (p + 1) (m p >>> 4).toNat).2
    (m p &&& 0x0f).toNat
  exact lt_of_lt_of_le (Nat.lt_succ_self p) (hdelta.trans hlength)

theorem readExtension_congr {m m' : Memory} {nibble : ℕ} (h : ∀ i ≥ p, m' i = m i) :
    readExtension m' p nibble = readExtension m p nibble := by
  unfold readExtension
  rw [h p le_rfl, h (p + 1) (Nat.le_succ p)]

theorem readHeader_congr {m m' : Memory} (h : ∀ i ≥ p, m' i = m i) :
    readHeader m' p = readHeader m p := by
  have hdelta : readExtension m' (p + 1) (m p >>> 4).toNat =
      readExtension m (p + 1) (m p >>> 4).toNat :=
    readExtension_congr fun i hi => h i (by omega)
  have hle := lt_readExtension m (p + 1) (m p >>> 4).toNat
  unfold readHeader
  dsimp only
  rw [h p le_rfl, hdelta, readExtension_congr fun i hi => h i (by omega)]

/-- The strings end at a position, or before it. -/
def EndBy (pkt : CoapPacket Slice) (p : ℕ) : Prop :=
  ∀ o, (pkt.strings o).start + (pkt.strings o).len ≤ p

theorem EndBy.update {pkt : CoapPacket Slice} {slice : Slice} {p q : ℕ} (h : EndBy pkt p)
    (hpq : p ≤ q) (hslice : slice.start + slice.len ≤ q) :
    EndBy { pkt with strings := Function.update pkt.strings o slice } q := by
  intro o'
  dsimp only
  by_cases ho : o' = o
  · rw [ho, Function.update_self]
    exact hslice
  · rw [Function.update_of_ne ho]
    exact (h o').trans hpq

/-- What the value of an option, `len` bytes at the pointer, does to the parser. -/
structure Value (len : ℕ) (s s' : Parser) : Prop where
  currentOption : s'.currentOption = s.currentOption
  optionNumber : s'.optionNumber = s.optionNumber
  tokenLen : s'.pkt.tokenLen = s.pkt.tokenLen
  payload : s'.pkt.payload = s.pkt.payload
  strings : EndBy s'.pkt (s.currentOption + len)
  unread : ∀ i ≥ s.currentOption + len, s'.mem i = s.mem i
  trace : ∃ rest, s'.trace = s.trace ++ rest ∧
    ∀ a ∈ rest, ∀ dataLen, s.currentOption + len ≤ dataLen → a.Inside dataLen

theorem mergeMultiOption_value {separator : UInt8} (hp : p < s.currentOption)
    (h : EndBy s.pkt p) : Value len s (s.mergeMultiOption o len separator) := by
  have ho := h o
  unfold Parser.mergeMultiOption
  dsimp only
  split
  · refine ⟨rfl, rfl, rfl, rfl, ?_, ?_, _, rfl, ?_⟩
    · apply h.update (by omega)
      dsimp only
      omega
    · intro i hi
      dsimp only
      rw [Memory.move, Memory.write_above (by rw [Memory.length_read]; omega),
        Memory.write_above (by simp only [List.length_singleton]; omega)]
    · intro a ha dataLen hfits
      simp only [List.mem_cons, List.not_mem_nil, or_false] at ha
      rcases ha with rfl | rfl | rfl
      · exact .inr (by omega)
      · exact .inr hfits
      · exact .inr (by omega)
  · refine ⟨rfl, rfl, rfl, rfl, h.update (by omega) le_rfl, fun _ _ => rfl, [], ?_, ?_⟩
    · exact (List.append_nil _).symm
    · simp

/-- The value of an option that is known. -/
theorem parseKnown_value {o : CoapOption} (hp : p < s.currentOption) (h : EndBy s.pkt p)
    (huri : o ≠ .string .proxyUri) (hscheme : o ≠ .string .proxyScheme) :
    ∃ s', s.parseKnown o len = (s', .next) ∧ Value len s s' := by
  have hmono : EndBy s.pkt (s.currentOption + len) := fun o => (h o).trans (by omega)
  cases o with
  | int i =>
    refine ⟨_, rfl, rfl, rfl, rfl, rfl, hmono, fun _ _ => rfl, _, rfl, ?_⟩
    intro a ha dataLen hfits
    rw [List.mem_singleton.mp ha]
    exact .inr hfits
  | block b =>
    refine ⟨_, rfl, rfl, rfl, rfl, rfl, hmono, fun _ _ => rfl, _, rfl, ?_⟩
    intro a ha dataLen hfits
    rw [List.mem_singleton.mp ha]
    exact .inr hfits
  | bytes b =>
    refine ⟨_, rfl, rfl, rfl, rfl, rfl, hmono, fun _ _ => rfl, _, rfl, ?_⟩
    intro a ha dataLen hfits
    rw [List.mem_singleton.mp ha]
    exact .inr (by omega)
  | ifNoneMatch =>
    exact ⟨_, rfl, rfl, rfl, rfl, rfl, hmono, fun _ _ => rfl, [], (List.append_nil _).symm, by simp⟩
  | string o =>
    cases o with
    | uriHost =>
      exact ⟨_, rfl, rfl, rfl, rfl, rfl, h.update (by omega) le_rfl, fun _ _ => rfl, [],
        (List.append_nil _).symm, by simp⟩
    | proxyUri => exact absurd rfl huri
    | proxyScheme => exact absurd rfl hscheme
    | _ => exact ⟨_, rfl, mergeMultiOption_value hp h⟩

variable (s len) in
/-- The value of an option whose number is not refused. -/
theorem parseValue_value (hp : p < s.currentOption) (h : EndBy s.pkt p)
    (hnumber : ¬ Refused s.optionNumber) :
    ∃ s', s.parseValue len = (s', .next) ∧ Value len s s' := by
  have hmono : EndBy s.pkt (s.currentOption + len) := fun o => (h o).trans (by omega)
  unfold Refused at hnumber
  unfold Parser.parseValue
  cases ho : ofNumber s.optionNumber with
  | none =>
    have heven : ¬ s.optionNumber % 2 = 1 := fun hodd => hnumber (by simp [ho, hodd])
    dsimp only
    rw [if_neg heven]
    exact ⟨s, rfl, rfl, rfl, rfl, rfl, hmono, fun _ _ => rfl, [], (List.append_nil _).symm, by simp⟩
  | some o =>
    apply parseKnown_value hp h
    · rintro rfl
      exact hnumber (by simp [ho])
    · rintro rfl
      exact hnumber (by simp [ho])

variable (s len) in
/-- At a number that is refused the parser stops as it is. -/
theorem parseValue_refused (hnumber : Refused s.optionNumber)
    (hle : ¬ coapOptionSize1 < s.optionNumber) :
    ∃ status message, s.parseValue len = (s, .stop status message) ∧ status ≠ .noError := by
  unfold Parser.parseValue
  rcases hnumber with hlarge | huri | hscheme | ⟨hnone, hodd⟩
  · exact absurd hlarge hle
  · rw [huri]
    exact ⟨_, _, rfl, by simp⟩
  · rw [hscheme]
    exact ⟨_, _, rfl, by simp⟩
  · rw [hnone]
    dsimp only
    rw [if_pos hodd]
    exact ⟨_, _, rfl, by simp⟩

end

/-! ## Round -/

/-- The parser at the start of a round. -/
structure Running (m : Memory) (dataLen : ℕ) (s : Parser) : Prop where
  unread : ∀ i ≥ s.currentOption, s.mem i = m i
  strings : EndBy s.pkt s.currentOption
  payload : s.pkt.payload = ⟨0, 0⟩
  token : coapHeaderLen + s.pkt.tokenLen.toNat ≤ dataLen
  position : s.currentOption ≤ dataLen
  trace : ∀ a ∈ s.trace, a.Inside dataLen

section

variable {cfg : Config} {m : Memory} {dataLen delta length q fuel : ℕ} {s s' : Parser}
  {r : Parsed}

/-- The parser behind the header of an option. -/
def Parser.header (s : Parser) (delta q : ℕ) : Parser :=
  { s with
    currentOption := q
    trace := s.trace ++ [.read s.currentOption (q - s.currentOption)]
    optionNumber := s.optionNumber + delta
    pkt := s.pkt.setOption (s.optionNumber + delta) }

/-- A round at an option that fits, with a number that is not too large. -/
theorem round_eq (hmarker : ¬ Marker (s.mem s.currentOption))
    (hheader : readHeader s.mem s.currentOption = (delta, length, q))
    (hfits : ¬ dataLen < q + length) (hsmall : ¬ coapOptionSize1 < s.optionNumber + delta) :
    s.round cfg dataLen =
      ({ ((s.header delta q).parseValue length).1 with currentOption := q + length },
        ((s.header delta q).parseValue length).2) := by
  unfold Marker at hmarker
  unfold Parser.round
  rw [if_neg hmarker, hheader]
  dsimp only
  rw [if_neg hfits, if_neg hsmall]
  rfl

variable (cfg) in
/-- An option that is refused: its header was read. -/
theorem round_refused (hmarker : ¬ Marker (s.mem s.currentOption))
    (hheader : readHeader s.mem s.currentOption = (delta, length, q))
    (h : dataLen < q + length ∨ Refused (s.optionNumber + delta)) :
    ∃ s' status message, s.round cfg dataLen = (s', .stop status message) ∧ status ≠ .noError ∧
      s'.trace = s.trace ++ [.read s.currentOption (q - s.currentOption)] := by
  by_cases hlong : dataLen < q + length
  · unfold Marker at hmarker
    unfold Parser.round
    rw [if_neg hmarker, hheader]
    dsimp only
    rw [if_pos hlong]
    exact ⟨_, _, _, rfl, by simp, rfl⟩
  · have hnumber := h.resolve_left hlong
    by_cases hlarge : coapOptionSize1 < s.optionNumber + delta
    · unfold Marker at hmarker
      unfold Parser.round
      rw [if_neg hmarker, hheader]
      dsimp only
      rw [if_neg hlong, if_pos hlarge]
      exact ⟨_, _, _, rfl, by simp, rfl⟩
    · obtain ⟨status, message, hvalue, hstatus⟩ := parseValue_refused length (s.header delta q)
        hnumber hlarge
      rw [round_eq hmarker hheader hlong hlarge, hvalue]
      exact ⟨_, _, _, rfl, hstatus, rfl⟩

/-- An option that is taken. -/
structure Taken (s s' : Parser) (delta length q : ℕ) : Prop where
  currentOption : s'.currentOption = q + length
  optionNumber : s'.optionNumber = s.optionNumber + delta
  tokenLen : s'.pkt.tokenLen = s.pkt.tokenLen
  payload : s'.pkt.payload = s.pkt.payload
  strings : EndBy s'.pkt (q + length)
  unread : ∀ i ≥ q + length, s'.mem i = s.mem i
  trace : ∃ rest, s'.trace =
      s.trace ++ .read s.currentOption (q - s.currentOption) :: rest ∧
    ∀ a ∈ rest, ∀ dataLen, q + length ≤ dataLen → a.Inside dataLen

variable (cfg) in
theorem round_taken (hmarker : ¬ Marker (s.mem s.currentOption))
    (hheader : readHeader s.mem s.currentOption = (delta, length, q))
    (hstrings : EndBy s.pkt s.currentOption) (hfits : q + length ≤ dataLen)
    (hnumber : ¬ Refused (s.optionNumber + delta)) :
    ∃ s', s.round cfg dataLen = (s', .next) ∧ Taken s s' delta length q := by
  have hlt : s.currentOption < q := by
    have hlt := lt_readHeader s.mem s.currentOption
    rwa [hheader] at hlt
  obtain ⟨s', hvalue, h⟩ := parseValue_value length (s.header delta q) hlt hstrings hnumber
  rw [round_eq hmarker hheader (Nat.not_lt.mpr hfits) fun h => hnumber (.inl h), hvalue]
  obtain ⟨rest, htrace, hinside⟩ := h.trace
  refine ⟨_, rfl, rfl, h.optionNumber, h.tokenLen, h.payload, h.strings, h.unread, rest, ?_,
    hinside⟩
  dsimp only
  rw [htrace, Parser.header, List.append_assoc]
  rfl

theorem Running.taken (h : Running m dataLen s) (ht : Taken s s' delta length q)
    (hlt : s.currentOption < q) (hfits : q + length ≤ dataLen) : Running m dataLen s' := by
  obtain ⟨rest, htrace, hinside⟩ := ht.trace
  refine ⟨?_, ?_, ht.payload.trans h.payload, ?_, ?_, ?_⟩
  · intro i hi
    rw [ht.currentOption] at hi
    rw [ht.unread i hi, h.unread i (by omega)]
  · rw [ht.currentOption]
    exact ht.strings
  · rw [ht.tokenLen]
    exact h.token
  · rw [ht.currentOption]
    exact hfits
  · intro a ha
    rw [htrace, List.mem_append, List.mem_cons] at ha
    rcases ha with ha | rfl | ha
    · exact h.trace a ha
    · exact .inr (by omega)
    · exact hinside a ha dataLen hfits

/-! ## Result -/

/-- What a run of the loop has to end with. -/
def Fine (dataLen : ℕ) (r : Parsed) : Prop :=
  (∀ a ∈ r.parser.trace, a.Inside dataLen ∨
    a = .terminate (r.parser.pkt.payload.start + r.parser.pkt.payload.len)) ∧
  (r.status = .noError → Contained dataLen r.parser.pkt)

/-- The payload lies in the message. -/
theorem fine_payload (h : Running m dataLen s) (hlt : s.currentOption < dataLen) :
    Fine dataLen ⟨.noError, none, s.parsePayload cfg dataLen⟩ := by
  refine ⟨?_, fun _ => ⟨h.token, ?_, ?_⟩⟩
  · intro a ha
    simp only [Parser.parsePayload, List.mem_append, List.mem_cons, List.not_mem_nil,
      or_false] at ha
    rcases ha with ha | rfl | rfl
    · exact .inl (h.trace a ha)
    · exact .inl (.inr (by omega))
    · exact .inr rfl
  · intro o
    exact (h.strings o).trans h.position
  · simp only [Parser.parsePayload]
    omega

theorem fine_done (h : Running m dataLen s) : Fine dataLen ⟨.noError, none, s⟩ := by
  refine ⟨fun a ha => .inl (h.trace a ha), fun _ => ⟨h.token, ?_, ?_⟩⟩
  · intro o
    exact (h.strings o).trans h.position
  · rw [h.payload]
    exact Nat.zero_le _

theorem fine_refused {status : Status} {message : Option String} (h : Running m dataLen s)
    (htrace : s'.trace = s.trace ++ [.read s.currentOption (q - s.currentOption)])
    (hlt : s.currentOption < q) (hq : q ≤ dataLen) (hstatus : status ≠ .noError) :
    Fine dataLen ⟨status, message, s'⟩ := by
  refine ⟨?_, fun hok => absurd hok hstatus⟩
  intro a ha
  left
  rw [htrace, List.mem_append, List.mem_singleton] at ha
  rcases ha with ha | rfl
  · exact h.trace a ha
  · exact .inr (by omega)

theorem parseLoop_succ (hlt : s.currentOption < dataLen) :
    parseLoop cfg dataLen (fuel + 1) s =
      match s.round cfg dataLen with
      | (s, .next) => parseLoop cfg dataLen fuel s
      | (s, .stop status errorMessage) => some ⟨status, errorMessage, s⟩ := by
  rw [parseLoop]
  exact if_pos hlt

theorem parseLoop_end (hge : ¬ s.currentOption < dataLen) :
    parseLoop cfg dataLen (fuel + 1) s = some ⟨.noError, none, s⟩ := by
  rw [parseLoop]
  exact if_neg hge

theorem parseLoop_payload (hlt : s.currentOption < dataLen)
    (hmarker : Marker (s.mem s.currentOption)) :
    parseLoop cfg dataLen (fuel + 1) s =
      some ⟨.noError, none, s.parsePayload cfg dataLen⟩ := by
  unfold Marker at hmarker
  rw [parseLoop_succ hlt, Parser.round, if_pos hmarker]

/-- A round at an option with its header in the message, with what follows it. -/
theorem fine_of_header (h : Running m dataLen s)
    (hheader : readHeader m s.currentOption = (delta, length, q)) (hq : q ≤ dataLen)
    (hnext : ¬ (dataLen < q + length ∨ Refused (s.optionNumber + delta)) → ∀ s',
      Running m dataLen s' → s'.optionNumber = s.optionNumber + delta →
      s'.currentOption = q + length → ∃ r, parseLoop cfg dataLen fuel s' = some r ∧ Fine dataLen r) :
    ∃ r, parseLoop cfg dataLen (fuel + 1) s = some r ∧ Fine dataLen r := by
  by_cases hlt : s.currentOption < dataLen
  case neg => exact ⟨_, parseLoop_end hlt, fine_done h⟩
  by_cases hmarker : Marker (s.mem s.currentOption)
  · exact ⟨_, parseLoop_payload hlt hmarker, fine_payload h hlt⟩
  · have hlt' : s.currentOption < q := by
      have hlt' := lt_readHeader m s.currentOption
      rwa [hheader] at hlt'
    have hheader' : readHeader s.mem s.currentOption = (delta, length, q) := by
      rw [readHeader_congr h.unread, hheader]
    rw [parseLoop_succ hlt]
    by_cases hrefused : dataLen < q + length ∨ Refused (s.optionNumber + delta)
    · obtain ⟨s', status, message, hround, hstatus, htrace⟩ :=
        round_refused cfg hmarker hheader' hrefused
      rw [hround]
      exact ⟨_, rfl, fine_refused h htrace hlt' hq hstatus⟩
    · obtain ⟨hfits, hnumber⟩ := not_or.mp hrefused
      obtain ⟨s', hround, htaken⟩ :=
        round_taken cfg hmarker hheader' h.strings (Nat.not_lt.mp hfits) hnumber
      rw [hround]
      exact hnext hrefused s' (h.taken htaken hlt' (Nat.not_lt.mp hfits)) htaken.optionNumber
        htaken.currentOption

/-- A run from where every option has its header in the message. -/
theorem fine_of_bounded {number p : ℕ} (hb : Bounded m dataLen number p)
    (h : Running m dataLen s) (hnumber : s.optionNumber = number) (hp : s.currentOption = p)
    (hfuel : dataLen < p + fuel) :
    ∃ r, parseLoop cfg dataLen fuel s = some r ∧ Fine dataLen r := by
  have hposition := h.position
  induction hb generalizing s fuel with
  | @done number p hend =>
    obtain ⟨fuel, rfl⟩ : ∃ k, fuel = k + 1 := ⟨fuel - 1, by omega⟩
    exact ⟨_, parseLoop_end (by omega), fine_done h⟩
  | @payload number p hmarker =>
    obtain ⟨fuel, rfl⟩ : ∃ k, fuel = k + 1 := ⟨fuel - 1, by omega⟩
    by_cases hlt : s.currentOption < dataLen
    · have hmarker' : Marker (s.mem s.currentOption) := by
        rw [h.unread _ le_rfl, hp]
        exact hmarker
      exact ⟨_, parseLoop_payload hlt hmarker', fine_payload h hlt⟩
    · exact ⟨_, parseLoop_end hlt, fine_done h⟩
  | @refused number p delta length q hheader hq hrefused =>
    obtain ⟨fuel, rfl⟩ : ∃ k, fuel = k + 1 := ⟨fuel - 1, by omega⟩
    subst hp hnumber
    exact fine_of_header h hheader hq fun hnot => absurd hrefused hnot
  | @option number p delta length q hheader hq hrest ih =>
    obtain ⟨fuel, rfl⟩ : ∃ k, fuel = k + 1 := ⟨fuel - 1, by omega⟩
    subst hp hnumber
    have hlt := lt_readHeader m s.currentOption
    rw [hheader] at hlt
    apply fine_of_header h hheader hq
    intro _ s' h' hnumber' hp'
    exact ih h' hnumber' hp' (by dsimp only at hlt; omega) h'.position

/-- A run that stays inside has every header in the message. -/
theorem bounded_of_run (h : Running m dataLen s) (hrun : parseLoop cfg dataLen fuel s = some r)
    (hfine : ∀ a ∈ r.parser.trace, a.Inside dataLen ∨
      a = .terminate (r.parser.pkt.payload.start + r.parser.pkt.payload.len)) :
    Bounded m dataLen s.optionNumber s.currentOption := by
  -- On the rounds of the loop; the marker of the payload ends it.
  induction fuel generalizing s with
  | zero => cases hrun
  | succ fuel ih =>
    by_cases hlt : s.currentOption < dataLen
    case neg => exact .done (Nat.not_lt.mp hlt)
    by_cases hmarker : Marker (s.mem s.currentOption)
    · rw [h.unread _ le_rfl] at hmarker
      exact .payload hmarker
    -- The option is read from bytes the parser has not written.
    · have hheader : readHeader s.mem s.currentOption = readHeader m s.currentOption :=
        readHeader_congr h.unread
      have hlt' := lt_readHeader m s.currentOption
      rcases hread : readHeader m s.currentOption with ⟨delta, length, q⟩
      rw [hread] at hheader hlt'
      rw [parseLoop_succ hlt] at hrun
      by_cases hrefused : dataLen < q + length ∨ Refused (s.optionNumber + delta)
      · obtain ⟨s', status, message, hround, -, htrace⟩ :=
          round_refused cfg hmarker hheader hrefused
        rw [hround] at hrun
        obtain rfl := Option.some.inj hrun
        have hinside := hfine (.read s.currentOption (q - s.currentOption)) (by simp [htrace])
        have hq : q ≤ dataLen := by
          rcases hinside with (hzero | hle) | hterminate
          · dsimp only at hlt'
            omega
          · omega
          · cases hterminate
        exact .refused hread hq hrefused
      · obtain ⟨hfits, hnumber⟩ := not_or.mp hrefused
        obtain ⟨s', hround, htaken⟩ :=
          round_taken cfg hmarker hheader h.strings (Nat.not_lt.mp hfits) hnumber
        rw [hround] at hrun
        have hrest := ih (h.taken htaken hlt' (Nat.not_lt.mp hfits)) hrun
        rw [htaken.optionNumber, htaken.currentOption] at hrest
        exact .option hread (by omega) hrest

theorem running_start (h : coapHeaderLen + (parseHeader m).tokenLen.toNat ≤ dataLen) :
    Running m dataLen (.start m) := by
  refine ⟨fun _ _ => rfl, fun _ => Nat.zero_le _, rfl, h, h, ?_⟩
  intro a ha
  simp only [Parser.start, List.mem_cons, List.not_mem_nil, or_false] at ha
  rcases ha with rfl | rfl
  · exact .inr (by omega)
  · exact .inr h

/-- A header that is refused has been read. -/
theorem safe_of_badRequest (message : Option String)
    (h : coapParseMessage cfg m dataLen =
      some ⟨.badRequest400, message, ⟨parseHeader m, m, 0, 0, [.read 0 coapHeaderLen]⟩⟩) :
    Safe cfg m dataLen ↔ coapHeaderLen ≤ dataLen := by
  constructor
  · rintro ⟨r, hr, htrace, -⟩
    rw [h] at hr
    obtain rfl := Option.some.inj hr
    rcases htrace _ (List.mem_singleton_self _) with (hzero | hle) | hterminate
    · cases hzero
    · simpa using hle
    · cases hterminate
  · intro hle
    refine ⟨_, h, ?_, fun hok => absurd hok (by simp)⟩
    intro a ha
    rw [List.mem_singleton.mp ha]
    exact .inl (.inr (by simpa using hle))

/-- The parser is safe exactly on the messages with a whole header, a whole token and no option
that is cut off in its own header. -/
theorem safe_iff : Safe cfg m dataLen ↔ coapHeaderLen ≤ dataLen ∧
    ((parseHeader m).version = 1 → (parseHeader m).tokenLen ≤ 8 →
      coapHeaderLen + (parseHeader m).tokenLen.toNat ≤ dataLen ∧
      Bounded m dataLen 0 (coapHeaderLen + (parseHeader m).tokenLen.toNat)) := by
  by_cases hversion : (parseHeader m).version = 1
  case neg =>
    rw [safe_of_badRequest _ (by rw [coapParseMessage]; exact if_pos hversion)]
    exact ⟨fun h => ⟨h, fun hone => absurd hone hversion⟩, And.left⟩
  by_cases htoken : (parseHeader m).tokenLen ≤ 8
  case neg =>
    rw [safe_of_badRequest (some "Token Length must not be more than 8") (by
      rw [coapParseMessage]
      exact (if_neg (not_not.mpr hversion)).trans (if_pos (UInt8.not_le.mp htoken)))]
    exact ⟨fun h => ⟨h, fun _ hshort => absurd hshort htoken⟩, And.left⟩
  have hparse : coapParseMessage cfg m dataLen =
      parseLoop cfg dataLen (dataLen + 1) (.start m) := by
    rw [coapParseMessage]
    exact (if_neg (not_not.mpr hversion)).trans (if_neg (UInt8.not_lt.mpr htoken))
  have hposition : (Parser.start m).currentOption =
      coapHeaderLen + (parseHeader m).tokenLen.toNat := rfl
  constructor
  · rintro ⟨r, hr, hfine⟩
    rw [hparse] at hr
    have htail : coapHeaderLen + (parseHeader m).tokenLen.toNat ≤ dataLen := by
      by_contra hlong
      rw [parseLoop_end (by omega)] at hr
      obtain rfl := Option.some.inj hr
      exact hlong (hfine.2 rfl).token
    refine ⟨(Nat.le_add_right _ _).trans htail, fun _ _ => ⟨htail, ?_⟩⟩
    exact bounded_of_run (running_start htail) hr hfine.1
  · rintro ⟨-, h⟩
    obtain ⟨htail, hbounded⟩ := h hversion htoken
    rw [Safe, hparse]
    exact fine_of_bounded hbounded (running_start htail) rfl hposition (by omega)

/-- Four bytes that announce a token of eight: the token lies behind the message. -/
theorem not_safe_of_token :
    ¬ Safe Config.default (fun i => ([0x58, 0x01] : List UInt8).getD i 0) 4 := by
  rintro ⟨r, hr, -, hcontained⟩
  obtain rfl := Option.some.inj hr
  exact absurd (hcontained rfl).token (by decide)

end

end MasterScheduler.Mote.Coap
