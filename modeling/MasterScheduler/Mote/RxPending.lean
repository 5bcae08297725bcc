import MasterScheduler.Lib.Ring
import MasterScheduler.Mote.ElementRuns
import MasterScheduler.Mote.Frame802154

/-!
# MasterScheduler.Mote.RxPending — received frames on their way up

`tsch_rx_process_pending` takes the frames of the input ring one after the
other. The information elements of a data frame are parsed and cut out behind
the header. The length of the elements goes through a variable of eight bits
before it is compared with `-1`, so a failure is taken for a length of 255.

1. **Elements**: what the parser is given and what it returns.
2. **Model**: the body of the loop, and the loop over the ring.
3. **Elements and the frame**: without 6top, a length returned is within the frame.
4. **Frames**: `handlesAll_iff`, when every frame is handled as it should be.

The build is without link layer security. The parser may read behind the frame,
into the rest of the array that holds it; a read behind the array is a fault.
-/

namespace MasterScheduler.Mote.RxPending

open Lib Memory Frame802154 Elements

/-! ## Model -/

/-- `PACKETBUF_SIZE`, from `master-project-conf.h`. -/
def packetbufSize : ℕ := 96

/-- `TSCH_PACKET_MAX_LEN`. -/
def tschPacketMaxLen : ℕ := min 127 packetbufSize

/-- `struct input_packet`; the payload starts at the address 0. -/
structure InputPacket where
  payload : Memory
  rxAsn : Hopping.Asn
  len : ℕ
  rssi : ℤ
  channel : UInt8
  len_le : len ≤ tschPacketMaxLen
  /-- What the record `frame` holds before this frame is parsed into it. -/
  frame : Frame802154.Frame

namespace InputPacket

variable (c : InputPacket)

def bytes : List UInt8 := c.payload.read 0 c.len

/-- `frame802154_parse` of the payload. -/
def parse : Frame802154.Frame × ℕ := Frame802154.parse c.payload 0 c.len c.frame

/-- `ret`, in eight bits. -/
def ret : ℕ := c.parse.2 % 256

/-- The frame is a data frame with a list of elements. -/
def HasIes : Prop :=
  c.ret ≠ 0 ∧ c.parse.1.fcf.frameType = dataFrame ∧ c.parse.1.fcf.ieListPresent = true

/-- `frame802154e_parse_information_elements` behind the header. -/
def parseElements (sixtop : Bool) (ies : Ies) : Parsed :=
  parseLoop sixtop (tschPacketMaxLen + 1)
    { Parser.init (c.payload.read c.ret (tschPacketMaxLen - c.ret)) ies with
      bufSize := UInt8.ofNat (c.len - c.ret) }

/-- The result of the parser on the record after `memset`. -/
def parseIes (sixtop : Bool) : Except Stop ℕ := (c.parseElements sixtop Ies.zero).result

end InputPacket

/-- The value a call of the parser returns. -/
def returned : Except Stop ℕ → Except Stop ℤ
  | .ok n => .ok n
  | .error .reject => .ok (-1)
  | .error stop => .error stop

/-- The packet after `memmove` over `n` bytes behind the header. -/
def InputPacket.cut (c : InputPacket) (n : ℕ) : InputPacket :=
  { c with
    len := c.len - n
    len_le := (Nat.sub_le _ _).trans c.len_le
    payload := c.payload.move c.ret (c.ret + n) (c.len - n - c.ret) }

/-- The branch on a list of elements: the packet without them, or none if it is dropped. -/
def stripIes (sixtop : Bool) (c : InputPacket) : Except Stop (Option InputPacket) := do
  let ieLen := UInt8.ofInt (← returned (c.parseIes sixtop))
  if (ieLen.toNat : ℤ) = -1 then return none
  -- `memmove` takes its size without a sign.
  else if (c.len : ℤ) - ieLen.toNat - c.ret < 0 then throw .fault
  else return some (c.cut ieLen.toNat)

/-- A frame handed on; `packet_input` finds the bytes and the attributes in the packetbuf. -/
inductive Upcall where
  | packetInput (bytes : List UInt8) (rssi : ℤ) (channel : UInt8) (receivedAsn : UInt16)
  | ebInput (c : InputPacket)

/-- `packetbuf_copyfrom`, the attributes and `packet_input`. -/
def InputPacket.up (c : InputPacket) : Upcall :=
  .packetInput (c.payload.read 0 (min packetbufSize c.len)) c.rssi c.channel
    (UInt16.ofNat c.rxAsn.ls4b.toNat)

/-- The body of the loop, up to the removal from the ring. -/
def processInput (sixtop : Bool) (c : InputPacket) : Except Stop (Option Upcall) :=
  let frame := c.parse.1
  if c.ret ≠ 0 ∧ frame.fcf.frameType = dataFrame then
    if frame.fcf.ieListPresent then (stripIes sixtop c).map (Option.map InputPacket.up)
    else .ok (some c.up)
  else if c.ret ≠ 0 ∧ frame.fcf.frameVersion = ieee802154v2015 ∧
      frame.fcf.frameType = beaconFrame then
    .ok (some (.ebInput c))
  else .ok none

/-- The input ring, and what was handed on so far. -/
structure State where
  inputRingbuf : RingBuffer InputPacket
  up : List Upcall

/-- `tsch_rx_process_pending`. -/
def tschRxProcessPending (sixtop : Bool) (s : State) : Except Stop State :=
  match _h : s.inputRingbuf.peekGet with
  | none => .ok s
  | some c =>
      match processInput sixtop c with
      | .error stop => .error stop
      | .ok up => tschRxProcessPending sixtop ⟨s.inputRingbuf.get, s.up ++ up.toList⟩
termination_by s.inputRingbuf.elements
decreasing_by
  have hpos : 0 < s.inputRingbuf.elements := by
    unfold RingBuffer.peekGet at _h
    split_ifs at _h with hpos
    exact hpos
  have hget := RingBuffer.elements_get hpos
  omega

/-! ## What is asked of it -/

/-- What is to be handed on for a frame: nothing if its elements cannot be parsed, else the
frame without their bytes. Other frames are left to the code. -/
def Handled (sixtop : Bool) (c : InputPacket) (up : Option Upcall) : Prop :=
  (c.HasIes →
    match c.parseIes sixtop with
    | .ok n => c.ret + n ≤ c.len ∧
        up = some (.packetInput (c.bytes.take c.ret ++ c.bytes.drop (c.ret + n)) c.rssi c.channel
          (UInt16.ofNat c.rxAsn.ls4b.toNat))
    | .error .reject => up = none
    | .error _ => False) ∧
  (¬ c.HasIes → processInput sixtop c = .ok up)

/-- The call takes every frame out of the ring and hands on what is to be handed on, in order. -/
def HandlesAll (sixtop : Bool) (s : State) : Prop :=
  ∃ s' ups, tschRxProcessPending sixtop s = .ok s' ∧ s'.inputRingbuf.toList = [] ∧
    List.Forall₂ (Handled sixtop) s.inputRingbuf.toList ups ∧ s'.up = s.up ++ ups.flatMap Option.toList

/-! ## Elements and the frame -/

section Elements

variable {sixtop : Bool} {p : Parser} {fuel n : ℕ}

/-- A step of the parser that does not wait for more rounds of the loop. -/
def Terminates {α : Type} (x : Except Stop α) : Prop := x ≠ .error .outOfFuel

/-- What ends for every value, one after the other, ends. -/
theorem Terminates.bind {α β : Type} {x : Except Stop α} {f : α → Except Stop β} (hx : Terminates x)
    (hf : ∀ a, Terminates (f a)) : Terminates (x >>= f) := by
  cases x with
  | error stop => exact fun h => hx (by cases h; rfl)
  | ok a => exact hf a

/-- So does a map over a list. -/
theorem Terminates.mapM {α β : Type} {f : α → Except Stop β} (hf : ∀ a, Terminates (f a)) (l : List α) :
    Terminates (l.mapM f) := by
  induction l with
  | nil => nofun
  | cons a l ih =>
      rw [List.mapM_cons]
      exact (hf a).bind fun _ => ih.bind fun _ => nofun

/-- A read ends. -/
theorem terminates_readByte (buf : List UInt8) (i : ℕ) : Terminates (readByte buf i) := by
  unfold readByte
  split <;> nofun

/-- Two of them end. -/
theorem terminates_read16 (buf : List UInt8) (i : ℕ) : Terminates (read16 buf i) :=
  (terminates_readByte buf i).bind fun _ => (terminates_readByte buf (i + 1)).bind fun _ => nofun

/-- Reads of several bytes end. -/
theorem terminates_readBytes (buf : List UInt8) (i n : ℕ) : Terminates (readBytes buf i n) :=
  Terminates.mapM (terminates_readByte buf) _

/-- Every header IE is parsed in one go. -/
theorem terminates_parseHeaderIe (buf : List UInt8) (len : ℕ) (e : Element) :
    Terminates (parseHeaderIe buf len e) := by
  unfold parseHeaderIe
  split
  · split
    · exact (terminates_read16 buf 0).bind fun _ => nofun
    · nofun
  · nofun

/-- The loop over the links of a slotframe ends. -/
theorem terminates_parseSlotframeAndLink (buf : List UInt8) (len : ℕ) :
    Terminates (parseSlotframeAndLink buf len) := by
  unfold parseSlotframeAndLink
  split
  · refine (terminates_readByte buf 0).bind fun _ => (terminates_readByte buf 4).bind fun _ => ?_
    split
    · nofun
    · split
      · refine (terminates_readByte buf 1).bind fun _ => (terminates_read16 buf 2).bind fun _ => ?_
        refine (Terminates.mapM (fun i => ?_) _).bind fun _ => nofun
        exact (terminates_read16 buf _).bind fun _ => (terminates_read16 buf _).bind fun _ =>
          (terminates_readByte buf _).bind fun _ => nofun
      · nofun
  · nofun

/-- The timeslot IE is parsed in one go. -/
theorem terminates_parseTimeslot (buf : List UInt8) (len : ℕ) : Terminates (parseTimeslot buf len) := by
  unfold parseTimeslot
  split
  · exact (terminates_readByte buf 0).bind fun _ => nofun
  · split
    · exact (terminates_readByte buf 0).bind fun _ =>
        (Terminates.mapM (fun i => terminates_read16 buf _) _).bind fun _ => nofun
    · nofun

/-- The synchronisation IE is parsed in one go. -/
theorem terminates_parseSynchronization (buf : List UInt8) (len : ℕ) :
    Terminates (parseSynchronization buf len) := by
  unfold parseSynchronization
  split
  · exact (terminates_readByte buf 0).bind fun _ => (terminates_readByte buf 1).bind fun _ =>
      (terminates_readByte buf 2).bind fun _ => (terminates_readByte buf 3).bind fun _ =>
      (terminates_readByte buf 4).bind fun _ => (terminates_readByte buf 5).bind fun _ => nofun
  · nofun

/-- An IE of one byte is parsed in one go. -/
theorem terminates_parseByte (field : UInt8 → Write) (buf : List UInt8) (len : ℕ) :
    Terminates (parseByte field buf len) := by
  unfold parseByte
  split
  · exact (terminates_readByte buf 0).bind fun _ => nofun
  · nofun

/-- The IE of the received schedules is parsed in one go. -/
theorem terminates_parseScheduleReceived (buf : List UInt8) (len : ℕ) :
    Terminates (parseScheduleReceived buf len) := by
  unfold parseScheduleReceived
  split
  · exact (terminates_readBytes buf 0 _).bind fun _ => nofun
  · nofun

/-- Every short sub-IE ends. -/
theorem terminates_parseMlmeShortIe (buf : List UInt8) (len : ℕ) (e : Element) :
    Terminates (parseMlmeShortIe buf len e) := by
  unfold parseMlmeShortIe
  split
  case h_1 => exact terminates_parseSlotframeAndLink buf len
  case h_2 => exact terminates_parseSynchronization buf len
  case h_3 => exact terminates_parseTimeslot buf len
  case h_5 =>
    split
    · exact (terminates_read16 buf 0).bind fun _ => nofun
    · nofun
  case h_9 =>
    split
    · exact (terminates_read16 buf 0).bind fun _ => nofun
    · exact terminates_parseScheduleReceived buf len
  case h_10 => exact terminates_parseScheduleReceived buf len
  case h_11 => nofun
  all_goals exact terminates_parseByte _ buf len

/-- Every long sub-IE ends. -/
theorem terminates_parseMlmeLongIe (buf : List UInt8) (len : ℕ) (e : Element) :
    Terminates (parseMlmeLongIe buf len e) := by
  unfold parseMlmeLongIe
  split
  · split
    · refine (terminates_readByte buf 0).bind fun _ => ?_
      split
      · refine (terminates_read16 buf 8).bind fun _ => ?_
        split
        · exact (terminates_readBytes buf 10 _).bind fun _ => nofun
        · nofun
      · nofun
    · nofun
  · nofun

/-- The body of the loop leaves the place in the buffer to the loop, and takes no element that
is longer than the bytes left; a 6top element is not checked. -/
structure Bounded (sixtop : Bool) (p : Parser) (r : Parser × Control) : Prop where
  offset_eq : r.1.offset = p.offset
  bufSize_eq : r.1.bufSize = p.bufSize
  buf_eq : r.1.buf = p.buf
  control : match r.2 with
    | .next len => sixtop = false → len ≤ p.bufSize.toNat
    | .done (.ok n) => n = p.offset
    | .done (.error stop) => stop ≠ .outOfFuel

/-- A rejection at once stays within the buffer. -/
theorem bounded_reject : Bounded sixtop p (p, .done (.error .reject)) :=
  ⟨rfl, rfl, rfl, nofun⟩

/-- So does a stop in the middle of an IE. -/
theorem bounded_error {α : Type} {x : Except Stop α} {stop : Stop} (hx : Terminates x)
    (h : x = .error stop) : Bounded sixtop p (p, .done (.error stop)) := by
  refine ⟨rfl, rfl, rfl, fun hstop => hx ?_⟩
  rw [h, hstop]

/-- A header IE stays within its length. -/
theorem headerStep_bounded (ieDesc : ℕ) : Bounded sixtop p (headerStep p ieDesc) := by
  unfold headerStep
  split
  · exact bounded_reject
  dsimp only
  split
  · split
    case isTrue hlen => exact ⟨rfl, rfl, rfl, fun _ => by omega⟩
    case isFalse => exact bounded_reject
  · split
    · exact ⟨rfl, rfl, rfl, rfl⟩
    · exact bounded_reject
  · split
    · exact bounded_reject
    · split
      case h_1 h => exact bounded_error (terminates_parseHeaderIe _ _ _) h
      case h_2 => exact ⟨rfl, rfl, rfl, fun _ => by omega⟩
  · exact bounded_reject

/-- A payload IE stays within its length. -/
theorem payloadStep_bounded (ieDesc : ℕ) : Bounded sixtop p (payloadStep sixtop p ieDesc) := by
  unfold payloadStep
  split
  · exact bounded_reject
  dsimp only
  split
  · exact ⟨rfl, rfl, rfl, fun _ => Nat.zero_le _⟩
  case h_2 hsel =>
    -- The 6top element is a case of the switch only with 6top.
    have hsix : sixtop = false → False := by
      rintro rfl
      exact absurd (select_eq_some hsel).1 (by decide)
    split
    case h_1 h => exact bounded_error (terminates_readByte _ _) h
    case h_2 =>
      split
      · exact ⟨rfl, rfl, rfl, fun h => (hsix h).elim⟩
      · exact ⟨rfl, rfl, rfl, fun h => (hsix h).elim⟩
  · split
    · exact ⟨rfl, rfl, rfl, rfl⟩
    · exact bounded_reject
  · exact bounded_reject

/-- A sub-IE stays within its container. -/
theorem mlmeStep_bounded (nested ieDesc : ℕ) : Bounded sixtop p (mlmeStep p nested ieDesc) := by
  unfold mlmeStep
  split
  · exact bounded_reject
  split
  · exact bounded_reject
  case isFalse hlen =>
    split
    case h_1 h =>
      refine bounded_error ?_ h
      split
      · exact terminates_parseMlmeShortIe _ _ _
      · exact terminates_parseMlmeLongIe _ _ _
    case h_2 =>
      dsimp only
      split
      · exact ⟨rfl, rfl, rfl, nofun⟩
      · split
        · exact ⟨rfl, rfl, rfl, fun _ => by omega⟩
        · exact ⟨rfl, rfl, rfl, fun _ => by omega⟩

/-- A round takes the two bytes of a descriptor, or ends the loop. -/
theorem parseIe_bounded (hsize : 2 ≤ p.bufSize.toNat) :
    2 ≤ p.buf.length ∧ Bounded sixtop (p.advance 2) (parseIe sixtop p) ∨
      ∃ stop, stop ≠ .outOfFuel ∧ parseIe sixtop p = (p, .done (.error stop)) := by
  unfold parseIe
  rw [if_neg (by omega)]
  split
  case h_1 stop h =>
    refine .inr ⟨stop, ?_, rfl⟩
    rintro rfl
    exact terminates_read16 _ _ h
  case h_2 ieDesc h =>
    refine .inl ⟨?_, ?_⟩
    · by_contra hlen
      rw [read16_of_ge (by omega)] at h
      cases h
    · dsimp only
      split
      · exact headerStep_bounded ieDesc
      · exact payloadStep_bounded ieDesc
      · exact mlmeStep_bounded _ ieDesc

/-- Position and bytes left add up to the size at the start. -/
theorem parseLoop_le (h : (parseLoop false fuel p).result = .ok n) :
    n ≤ p.offset + p.bufSize.toNat := by
  -- On the fuel: every element is taken from the rest of the buffer.
  induction fuel generalizing p with
  | zero => cases h
  | succ fuel ih =>
      rw [parseLoop] at h
      by_cases hzero : p.bufSize = 0
      · rw [if_pos hzero, Parser.finish] at h
        split at h <;> · cases h; exact Nat.le_add_right _ _
      rw [if_neg hzero] at h
      by_cases hsize : p.bufSize.toNat < 2
      · rw [parseIe, if_pos hsize] at h
        cases h
      have hadv : (p.advance 2).offset + (p.advance 2).bufSize.toNat =
          p.offset + p.bufSize.toNat := by
        have h2 := toNat_sub_ofNat p.bufSize (not_lt.mp hsize)
        change p.offset + 2 + (p.bufSize - UInt8.ofNat 2).toNat = _
        omega
      obtain ⟨-, hoff, hbuf, -, hcontrol⟩ | ⟨stop, -, hstop⟩ :=
        @parseIe_bounded false p (not_lt.mp hsize)
      · cases hr : parseIe false p with
        | mk p' control =>
            rw [hr] at h hoff hbuf hcontrol
            dsimp only at hoff hbuf
            cases control with
            | next len =>
                have hle := ih h
                have hlen : len ≤ p'.bufSize.toNat := by
                  rw [hbuf]
                  exact hcontrol rfl
                have hsub := toNat_sub_ofNat p'.bufSize hlen
                change n ≤ p'.offset + len + (p'.bufSize - UInt8.ofNat len).toNat at hle
                rw [hsub, hoff, hbuf] at hle
                rw [hbuf] at hlen
                omega
            | done result =>
                change result = .ok n at h
                subst h
                have hn : n = (p.advance 2).offset := hcontrol
                omega
      · rw [hstop] at h
        cases h

/-- Every round takes a descriptor, so the rounds do not run out. -/
theorem parseLoop_terminates (hfuel : p.buf.length < fuel) :
    Terminates (parseLoop sixtop fuel p).result := by
  induction fuel generalizing p with
  | zero => exact absurd hfuel (Nat.not_lt_zero _)
  | succ fuel ih =>
      rw [parseLoop]
      by_cases hzero : p.bufSize = 0
      · rw [if_pos hzero, Parser.finish]
        split <;> intro h <;> cases h
      rw [if_neg hzero]
      by_cases hsize : p.bufSize.toNat < 2
      · rw [parseIe, if_pos hsize]
        intro h
        cases h
      obtain ⟨hlen, -, -, hbuf, hcontrol⟩ | ⟨stop, hne, hstop⟩ :=
        @parseIe_bounded sixtop p (not_lt.mp hsize)
      · cases hr : parseIe sixtop p with
        | mk p' control =>
            rw [hr] at hbuf hcontrol
            cases control with
            | next len =>
                apply ih
                change (p'.buf.drop len).length < fuel
                rw [show p'.buf = p.buf.drop 2 from hbuf, List.length_drop, List.length_drop]
                omega
            | done result =>
                cases result with
                | error stop => exact fun h => hcontrol (by cases h; rfl)
                | ok n =>
                    intro h
                    cases h
      · rw [hstop]
        exact fun h => hne (by cases h; rfl)

end Elements

/-! ## Frames -/

section Frames

variable {sixtop : Bool} {c : InputPacket} {s s' : State} {n : ℕ}

/-- The header is part of the frame. -/
theorem ret_le (c : InputPacket) : c.ret ≤ c.len := by
  have hparse : c.parse.2 ≤ c.len := by
    unfold InputPacket.parse
    by_cases hlen : c.len < 2
    · rw [Frame802154.parse, if_pos hlen]
      exact Nat.zero_le _
    · have hguard (k : ℕ) : (if c.len < k then 0 else k) ≤ c.len := by
        split <;> omega
      rw [parse_eq hlen]
      exact hguard _
  exact (Nat.mod_le _ _).trans hparse

/-- The parser ends for every frame. -/
theorem parseIes_terminates (c : InputPacket) : Terminates (c.parseIes sixtop) := by
  apply parseLoop_terminates
  change (c.payload.read c.ret (tschPacketMaxLen - c.ret)).length < tschPacketMaxLen + 1
  rw [length_read]
  omega

/-- The accepted elements are part of the frame. -/
theorem parseIes_le (h : c.parseIes false = .ok n) : c.ret + n ≤ c.len := by
  have hle := parseLoop_le h
  have hret := ret_le c
  change n ≤ 0 + (UInt8.ofNat (c.len - c.ret)).toNat at hle
  rw [UInt8.toNat_ofNat'] at hle
  omega

/-- Behind a header, elements that are in the frame are cut out of it. -/
theorem stripIes_ok (h : c.parseIes sixtop = .ok n) (hn : c.ret + n ≤ c.len) :
    (stripIes sixtop c).map (Option.map InputPacket.up) =
      .ok (some (.packetInput (c.bytes.take c.ret ++ c.bytes.drop (c.ret + n)) c.rssi c.channel
        (UInt16.ofNat c.rxAsn.ls4b.toNat))) := by
  have hlen := c.len_le
  have hieLen : (UInt8.ofInt (n : ℤ)).toNat = n := by
    rw [UInt8.ofInt, UInt8.toNat_ofNat']
    unfold tschPacketMaxLen at hlen
    omega
  have hno : ¬ ((n : ℤ) = -1) := by omega
  have hroom : ¬ ((c.len : ℤ) - n - c.ret < 0) := by omega
  have hbytes : (c.payload.move c.ret (c.ret + n) (c.len - n - c.ret)).read 0
      (min packetbufSize (c.len - n)) = c.bytes.take c.ret ++ c.bytes.drop (c.ret + n) := by
    have hmin : min packetbufSize (c.len - n) = c.ret + (c.len - n - c.ret) := by
      unfold tschPacketMaxLen at hlen
      omega
    have htail := read_write_self c.payload c.ret (c.payload.read (c.ret + n) (c.len - n - c.ret))
    rw [length_read] at htail
    rw [hmin, read_append, Memory.move, read_write_below (by omega), Nat.zero_add, htail]
    congr 1
    · have h := @read_slice c.payload 0 c.len 0 c.ret (by omega)
      exact h.symm
    · have h := @read_slice c.payload 0 c.len (c.ret + n) (c.len - n - c.ret) (by omega)
      rw [Nat.zero_add] at h
      rw [← h, InputPacket.bytes, List.take_of_length_le]
      rw [List.length_drop, length_read]
      omega
  unfold stripIes
  rw [h]
  change Except.map _ (if ((UInt8.ofInt (n : ℤ)).toNat : ℤ) = -1 then pure none else
    if (c.len : ℤ) - (UInt8.ofInt (n : ℤ)).toNat - c.ret < 0 then throw Stop.fault
    else pure (some (c.cut (UInt8.ofInt (n : ℤ)).toNat))) = _
  rw [hieLen, if_neg hno, if_neg hroom, ← hbytes]
  rfl

/-- A failure is taken for a length of 255, which no frame has. -/
theorem stripIes_reject (h : c.parseIes sixtop = .error .reject) :
    stripIes sixtop c = .error .fault := by
  have hlen := c.len_le
  have hroom : (c.len : ℤ) - 255 - c.ret < 0 := by
    unfold tschPacketMaxLen at hlen
    omega
  unfold stripIes
  rw [h]
  change (if (255 : ℤ) = -1 then pure none else
    if (c.len : ℤ) - 255 - c.ret < 0 then throw Stop.fault else _) = _
  rw [if_neg (by decide), if_pos hroom]
  rfl

/-- With elements, the frame is parsed and stripped. -/
theorem processInput_hasIes (h : c.HasIes) :
    processInput sixtop c = (stripIes sixtop c).map (Option.map InputPacket.up) := by
  obtain ⟨hret, htype, hies⟩ := h
  unfold processInput
  rw [if_pos ⟨hret, htype⟩, if_pos hies]

/-- The frames that the code handles as it should. -/
def Sound (sixtop : Bool) (c : InputPacket) : Prop :=
  c.HasIes → ∃ n, c.parseIes sixtop = .ok n ∧ (sixtop = true → c.ret + n ≤ c.len)

/-- Without elements, the frame goes up as it is. -/
theorem processInput_other (h : ¬ c.HasIes) : ∃ up, processInput sixtop c = .ok up := by
  unfold processInput
  dsimp only
  split
  case isTrue hdata =>
    split
    · exact absurd ⟨hdata.1, hdata.2, ‹_›⟩ h
    · exact ⟨_, rfl⟩
  · split <;> exact ⟨_, rfl⟩

/-- A sound frame is handled. -/
theorem handled_of_sound (h : Sound sixtop c) :
    ∃ up, processInput sixtop c = .ok up ∧ Handled sixtop c up := by
  by_cases hies : c.HasIes
  · obtain ⟨n, hn, hsix⟩ := h hies
    have hle : c.ret + n ≤ c.len := by
      cases sixtop with
      | false => exact parseIes_le hn
      | true => exact hsix rfl
    refine ⟨_, (processInput_hasIes hies).trans (stripIes_ok hn hle), fun _ => ?_, fun hno => ?_⟩
    · rw [hn]
      exact ⟨hle, rfl⟩
    · exact absurd hies hno
  · obtain ⟨up, hp⟩ := processInput_other hies
    exact ⟨up, hp, fun hno => absurd hno hies, fun _ => hp⟩

/-- A frame that is handled is sound. -/
theorem sound_of_handled {up up' : Option Upcall} (hp : processInput sixtop c = .ok up)
    (h : Handled sixtop c up') : Sound sixtop c := by
  intro hies
  have hhandled := h.1 hies
  rw [processInput_hasIes hies] at hp
  cases hparse : c.parseIes sixtop with
  | ok n =>
      rw [hparse] at hhandled
      exact ⟨n, rfl, fun _ => hhandled.1⟩
  | error stop =>
      rw [hparse] at hhandled
      cases stop with
      | reject =>
          rw [stripIes_reject hparse] at hp
          cases hp
      | fault | outOfFuel => exact hhandled.elim

/-! ## The loop -/

/-- Nothing is done without a frame. -/
theorem tschRxProcessPending_nil (h : s.inputRingbuf.toList = []) :
    tschRxProcessPending sixtop s = .ok s := by
  have hpeek : s.inputRingbuf.peekGet = none := by
    rw [RingBuffer.peekGet_eq, h]
    rfl
  rw [tschRxProcessPending]
  split
  · rfl
  case h_2 c hc =>
    rw [hpeek] at hc
    cases hc

/-- One round: the oldest frame is processed and taken out. -/
theorem tschRxProcessPending_cons {l : List InputPacket} (h : s.inputRingbuf.toList = c :: l) :
    s.inputRingbuf.get.toList = l ∧
      tschRxProcessPending sixtop s =
        match processInput sixtop c with
        | .error stop => .error stop
        | .ok up => tschRxProcessPending sixtop ⟨s.inputRingbuf.get, s.up ++ up.toList⟩ := by
  have hpeek : s.inputRingbuf.peekGet = some c := by
    rw [RingBuffer.peekGet_eq, h]
    rfl
  have hpop := RingBuffer.toList_pop hpeek
  rw [h] at hpop
  refine ⟨(List.cons.inj hpop).2.symm, ?_⟩
  rw [tschRxProcessPending]
  split
  case h_1 hc =>
    rw [hpeek] at hc
    cases hc
  case h_2 c' hc =>
    rw [hpeek] at hc
    cases hc
    rfl

/-- Frames that are all processed go up in order. -/
theorem pending_of_forall₂ {l : List InputPacket} {ups : List (Option Upcall)}
    (h : List.Forall₂ (fun c up => processInput sixtop c = .ok up) l ups) :
    ∀ {s : State}, s.inputRingbuf.toList = l →
      ∃ s', tschRxProcessPending sixtop s = .ok s' ∧ s'.inputRingbuf.toList = [] ∧
        s'.up = s.up ++ ups.flatMap Option.toList := by
  induction h with
  | nil =>
      intro s hs
      exact ⟨s, tschRxProcessPending_nil hs, hs, by simp⟩
  | @cons c up l ups hc _ ih =>
      intro s hs
      obtain ⟨hget, hround⟩ := tschRxProcessPending_cons hs
      obtain ⟨s', hrun, hempty, hup⟩ := @ih ⟨s.inputRingbuf.get, s.up ++ up.toList⟩ hget
      refine ⟨s', ?_, hempty, ?_⟩
      · rw [hround, hc]
        exact hrun
      · rw [hup, List.flatMap_cons, List.append_assoc]

/-- All frames were processed if the loop ends. -/
theorem forall_of_pending {l : List InputPacket} :
    ∀ {s : State}, s.inputRingbuf.toList = l → tschRxProcessPending sixtop s = .ok s' →
      ∀ c ∈ l, ∃ up, processInput sixtop c = .ok up := by
  induction l with
  | nil => nofun
  | cons c l ih =>
      intro s hs hrun
      obtain ⟨hget, hround⟩ := tschRxProcessPending_cons hs
      rw [hround] at hrun
      cases hp : processInput sixtop c with
      | error stop =>
          rw [hp] at hrun
          cases hrun
      | ok up =>
          rw [hp] at hrun
          intro c' hc'
          rcases List.mem_cons.mp hc' with rfl | hc'
          · exact ⟨up, hp⟩
          · exact ih (s := ⟨s.inputRingbuf.get, s.up ++ up.toList⟩) hget hrun c' hc'

/-- A choice for every element of a list is a list of choices. -/
theorem exists_forall₂ {α β : Type} {P : α → β → Prop} {l : List α} (h : ∀ a ∈ l, ∃ b, P a b) :
    ∃ bs, List.Forall₂ P l bs := by
  induction l with
  | nil => exact ⟨[], .nil⟩
  | cons a l ih =>
      obtain ⟨b, hb⟩ := h a (by simp)
      obtain ⟨bs, hbs⟩ := ih fun a ha => h a (by simp [ha])
      exact ⟨b :: bs, .cons hb hbs⟩

/-- Every frame is handled as it should be exactly where the elements of every data frame can
be parsed; with 6top, in the frame. -/
theorem handlesAll_iff (sixtop : Bool) (s : State) :
    HandlesAll sixtop s ↔ ∀ c ∈ s.inputRingbuf.toList, Sound sixtop c := by
  constructor
  · rintro ⟨s', ups, hrun, -, hhandled, -⟩ c hc
    obtain ⟨up, hp⟩ := forall_of_pending rfl hrun c hc
    obtain ⟨i, hi, rfl⟩ := List.getElem_of_mem hc
    have hup := hhandled.get hi (hhandled.length_eq ▸ hi)
    exact sound_of_handled hp hup
  · intro h
    obtain ⟨ups, hups⟩ := exists_forall₂ fun c hc => handled_of_sound (h c hc)
    obtain ⟨s', hrun, hempty, hup⟩ := pending_of_forall₂ (hups.imp fun _ _ h => h.1) rfl
    exact ⟨s', ups, hrun, hempty, hups.imp fun _ _ h => h.2, hup⟩

end Frames

/-- A data frame of the version of 2015 without addresses: control field, sequence number and
one byte, which is too short for an element. -/
def shortElement : InputPacket where
  payload := fun i => [0x01, 0x22, 7, 0xff].getD i 0
  rxAsn := ⟨0, 0⟩
  len := 4
  rssi := -60
  channel := 26
  len_le := by decide
  frame :=
    { fcf := parseFcf 0 0, destAddr := linkaddrNull, srcAddr := linkaddrNull, seq := 0,
      destPid := 0, srcPid := 0, payload := 0, payloadLen := 0 }

/-- The ring holds this frame only. -/
def shortElementPending : State where
  inputRingbuf := ⟨3, 1, 0, fun _ => shortElement, by decide, by decide⟩
  up := []

/-- The elements are not parsed, and the frame is not dropped. -/
theorem shortElement_not_handled :
    shortElement.HasIes ∧ shortElement.parseIes false = .error .reject ∧
      ¬ HandlesAll false shortElementPending := by
  have hret : shortElement.ret = 3 := by decide
  have hies : shortElement.HasIes := ⟨by rw [hret]; decide, by decide, by decide +kernel⟩
  have hparse : shortElement.parseIes false = .error .reject := by
    unfold InputPacket.parseIes InputPacket.parseElements
    rw [hret]
    rfl
  refine ⟨hies, hparse, ?_⟩
  rintro ⟨s', -, hrun, -⟩
  obtain ⟨up, hp⟩ := @forall_of_pending false s' [shortElement] shortElementPending rfl hrun
    shortElement (List.mem_singleton.mpr rfl)
  rw [processInput_hasIes hies, stripIes_reject hparse] at hp
  cases hp

end MasterScheduler.Mote.RxPending
