import MasterScheduler.Host.Upload
import MasterScheduler.Mote.Schedule

/-!
# MasterScheduler.Mote.Serial — the schedule comes in over the serial line

The distributor receives the schedule as lines of text. `serial-line.c` collects
the characters of a line in a buffer and hands the buffer to
`serial_line_schedule_input` of `master-schedule.c`, which decodes it in place
and writes the bytes to flash.

- `hexDecode_toAscii`: decoding in place never overwrites a character it has
  not read yet.
- `upload_round_trip`: the lines of `upload_schedule_kiel` put the file into flash.
-/

namespace MasterScheduler.Mote

open Lib Host

/-! ## The serial line driver -/

/-- `BUFSIZE`, the size of the ring buffer and of the line buffer. -/
def bufSize : ℕ := 128

/-- `END`. -/
def lineEnd : UInt8 := 0x0a

/-- `IGNORE_CHAR`. -/
def ignoreChar (c : UInt8) : Bool := c == 0x0d

/-- The line buffer. It keeps its contents from one line to the next. -/
structure LineBuffer where
  cells : List UInt8
  length_cells : cells.length = bufSize

/-- `buf[i] = c`. -/
def LineBuffer.set (buf : LineBuffer) (i : ℕ) (c : UInt8) : LineBuffer :=
  ⟨buf.cells.set i c, by rw [List.length_set, buf.length_cells]⟩

theorem LineBuffer.lt_of_getElem? (buf : LineBuffer) {i : ℕ} {c : UInt8}
    (h : buf.cells[i]? = some c) : i < bufSize :=
  buf.length_cells ▸ (List.getElem?_eq_some_iff.1 h).1

structure SerialLine where
  /-- The ring buffer; one cell of it always stays free. -/
  rxbuf : List UInt8
  overflow : Bool
  buf : LineBuffer
  ptr : ℕ

/-- `ringbuf_put`. -/
def SerialLine.ringbufPut (line : SerialLine) (c : UInt8) : Bool × SerialLine :=
  if line.rxbuf.length = bufSize - 1 then (false, line)
  else (true, { line with rxbuf := line.rxbuf ++ [c] })

/-- `serial_line_input_byte`. -/
def serialLineInputByte (line : SerialLine) (c : UInt8) : SerialLine :=
  if ignoreChar c then line
  else if !line.overflow then
    let (put, line) := line.ringbufPut c
    if !put then { line with overflow := true } else line
  else if c = lineEnd then
    let (put, line) := line.ringbufPut c
    if put then { line with overflow := false } else line
  else line

/-! ## The receiving process -/

/-- What `serial_line_schedule_input` keeps between two lines. -/
structure ScheduleInput where
  scheduleLoading : Bool
  /-- `open`. -/
  isOpen : Bool
  /-- The position of the file descriptor. -/
  offset : ℕ
  flash : Flash

/-- `enum MessagePart`. -/
inductive MessagePart where
  | messageBegin
  | messageContinue
  | messageEnd
deriving DecidableEq, Repr

/-- The cases of the `switch` over the prefix of a line. -/
def MessagePart.ofInt (messagePrefix : UInt8) : Option MessagePart :=
  if messagePrefix = 0 then some .messageBegin
  else if messagePrefix = 1 then some .messageContinue
  else if messagePrefix = 2 then some .messageEnd
  else none

/-- `asciiHex_to_int` on the characters at `i`; `none` is a read outside the buffer. -/
def asciiHexToInt (buf : LineBuffer) (i : ℕ) : Option UInt8 := do
  let higherNibble ← buf.cells[i]?
  if higherNibble = 0 then return 0
  let lowerNibble ← buf.cells[i + 1]?
  let lowerNibble :=
    if lowerNibble ≥ 'A'.toUInt8 then lowerNibble - '7'.toUInt8
    else lowerNibble - '0'.toUInt8
  let higherNibble :=
    if higherNibble ≥ 'A'.toUInt8 then higherNibble - '7'.toUInt8
    else higherNibble - '0'.toUInt8
  return (higherNibble <<< 4) + lowerNibble

/-- The `while` loop of `write_to_flash`: the buffer and `len` after it. -/
def hexDecode (buf : LineBuffer) (data len : ℕ) : Option (LineBuffer × ℕ) :=
  if _hlt : data + len < bufSize then
    if buf.cells[data + len]? = some 0 then some (buf, len)
    else
      match asciiHexToInt buf (data + len) with
      | none => none
      | some byte => hexDecode (buf.set (data + len / 2) byte) data (len + 2)
  else none
termination_by bufSize - (data + len)

/-- `open_file`. -/
def openFile (s : ScheduleInput) (opened : Bool) : ScheduleInput :=
  if !s.isOpen then
    if opened then { s with isOpen := true, offset := 0 } else s
  else s

/-- `cfs_write`: the number of bytes written. -/
def cfsWrite (s : ScheduleInput) (bytes : List UInt8) (outcome : FlashOutcome) :
    ℕ × ScheduleInput :=
  let written :=
    match outcome with
    | .completed => bytes
    | .failed n => bytes.take n
  if !s.isOpen then (0, s)
  else
    (written.length,
      { s with offset := s.offset + written.length
               flash := { s.flash with bytes := writeAt 0 s.flash.bytes s.offset written } })

/-- `write_to_flash` on the characters from `data` on. -/
def writeToFlash (s : ScheduleInput) (buf : LineBuffer) (data : ℕ) (outcome : FlashOutcome) :
    Option (ScheduleInput × LineBuffer) := do
  let (buf, len) ← hexDecode buf data 0
  let (r, s) := cfsWrite s (readAt buf.cells data (len / 2)) outcome
  if r ≠ len / 2 then return ({ s with isOpen := false }, buf)
  return ({ s with flash := { s.flash with bytesInFlash := s.flash.bytesInFlash + r } }, buf)

/-- `serial_line_schedule_input` from one `serial_line_event_message` to the
next. Once the schedule is loaded the process is gone. -/
def serialLineScheduleInput (s : ScheduleInput) (buf : LineBuffer) (opened : Bool)
    (outcome : FlashOutcome) : Option (ScheduleInput × LineBuffer) :=
  if !s.scheduleLoading then some (s, buf)
  else do
    let messagePrefix ← asciiHexToInt buf 0
    match MessagePart.ofInt messagePrefix with
    | some .messageBegin => writeToFlash (openFile s opened) buf 2 outcome
    | some .messageContinue => writeToFlash s buf 2 outcome
    | some .messageEnd =>
        let (s, buf) ← writeToFlash s buf 2 outcome
        return ({ s with scheduleLoading := false }, buf)
    | none => return (s, buf)

/-- The start of the process. -/
def startScheduleInput (s : ScheduleInput) : ScheduleInput :=
  { s with flash := { s.flash with bytesInFlash := 0 } }

/-- One character in `serial_line_process`. The flash does what it is asked to do. -/
def serialLineChar (st : SerialLine × ScheduleInput) (c : UInt8) :
    Option (SerialLine × ScheduleInput) :=
  let (line, s) := st
  if c ≠ lineEnd then
    if line.ptr < bufSize - 1 then
      some ({ line with buf := line.buf.set line.ptr c, ptr := line.ptr + 1 }, s)
    else some (line, s)
  else do
    let (s, buf) ← serialLineScheduleInput s (line.buf.set line.ptr 0) true .completed
    return ({ line with buf := buf, ptr := 0 }, s)

/-- `serial_line_process` empties the ring buffer. -/
def serialLineProcess (st : SerialLine × ScheduleInput) : Option (SerialLine × ScheduleInput) :=
  st.1.rxbuf.foldlM serialLineChar ({ st.1 with rxbuf := [] }, st.2)

/-- Some bytes come in, then the process is polled. -/
def serialReceive (st : SerialLine × ScheduleInput) (bytes : List UInt8) :
    Option (SerialLine × ScheduleInput) :=
  serialLineProcess (bytes.foldl serialLineInputByte st.1, st.2)

/-- The bytes come in in pieces; the process runs after each of them. -/
def serialReceiveAll (st : SerialLine × ScheduleInput) (pieces : List (List UInt8)) :
    Option (SerialLine × ScheduleInput) :=
  pieces.foldlM serialReceive st

/-! ## Decoding in place -/

/-- The characters of a byte decode to the byte. -/
theorem asciiHexToInt_byteToAscii (buf : LineBuffer) (pre post : List UInt8) (byte : UInt8)
    (h : buf.cells = pre ++ (byteToAscii byte ++ post)) :
    asciiHexToInt buf pre.length = some byte := by
  have hround : ∀ n : Fin 256,
      (nibbleToAscii ((UInt8.ofNat n >>> 4) &&& 0x0f) ≠ 0) ∧
      ((if nibbleToAscii ((UInt8.ofNat n >>> 4) &&& 0x0f) ≥ 'A'.toUInt8 then
          nibbleToAscii ((UInt8.ofNat n >>> 4) &&& 0x0f) - '7'.toUInt8
        else nibbleToAscii ((UInt8.ofNat n >>> 4) &&& 0x0f) - '0'.toUInt8) <<< 4) +
      (if nibbleToAscii (UInt8.ofNat n &&& 0x0f) ≥ 'A'.toUInt8 then
          nibbleToAscii (UInt8.ofNat n &&& 0x0f) - '7'.toUInt8
        else nibbleToAscii (UInt8.ofNat n &&& 0x0f) - '0'.toUInt8) = UInt8.ofNat n := by
    decide +kernel
  obtain ⟨hne, hbyte⟩ := hround ⟨byte.toNat, byte.toNat_lt⟩
  simp only [UInt8.ofNat_toNat] at hne hbyte
  have hhigh : buf.cells[pre.length]? = some (nibbleToAscii ((byte >>> 4) &&& 0x0f)) := by
    rw [h, List.getElem?_append_right le_rfl, Nat.sub_self]
    rfl
  have hlow : buf.cells[pre.length + 1]? = some (nibbleToAscii (byte &&& 0x0f)) := by
    rw [h, List.getElem?_append_right (Nat.le_add_right _ _), Nat.add_sub_cancel_left]
    rfl
  unfold asciiHexToInt
  rw [hhigh, hlow]
  simp only [Option.bind_eq_bind, Option.bind_some, if_neg hne, Option.pure_def, hbyte]

/-- The loop of `write_to_flash` in the middle of a line: `done` is decoded,
`used` is text that has been read, and the rest is still to be read. -/
theorem hexDecode_toAscii (rest : List UInt8) :
    ∀ (buf : LineBuffer) (pre done used post : List UInt8),
      buf.cells = pre ++ done ++ used ++ toAscii rest ++ 0 :: post →
      used.length = done.length →
      ∃ buf' used', hexDecode buf pre.length (2 * done.length) =
          some (buf', 2 * (done.length + rest.length)) ∧
        buf'.cells = pre ++ (done ++ rest) ++ used' := by
  induction rest with
  | nil =>
    intro buf pre done used post hcells hused
    refine ⟨buf, used ++ 0 :: post, ?_, by simpa using hcells⟩
    have hend : buf.cells[pre.length + 2 * done.length]? = some 0 := by
      rw [hcells, List.getElem?_append_right (by simp; omega)]
      simp [hused, two_mul]
    rw [hexDecode, dif_pos (buf.lt_of_getElem? hend), if_pos hend]
    simp
  | cons byte rest ih =>
    intro buf pre done used post hcells hused
    -- the write goes to the first cell after `done`, which has been read
    obtain ⟨x, used', hx⟩ : ∃ x used', used ++ byteToAscii byte = x :: used' :=
      List.exists_cons_of_ne_nil (by simp [byteToAscii])
    have hlen : used'.length = (done ++ [byte]).length := by
      have := congrArg List.length hx
      simp [byteToAscii] at this
      simp only [List.length_append, List.length_singleton]
      omega
    have hchar : buf.cells[pre.length + 2 * done.length]? =
        some (nibbleToAscii ((byte >>> 4) &&& 0x0f)) := by
      rw [hcells, List.getElem?_append_left (by simp [byteToAscii]; omega),
        List.getElem?_append_right (by simp; omega)]
      simp [hused, two_mul, byteToAscii]
    have hread : asciiHexToInt buf (pre.length + 2 * done.length) = some byte := by
      have := asciiHexToInt_byteToAscii buf (pre ++ done ++ used) (toAscii rest ++ 0 :: post) byte
        (by rw [hcells]; simp)
      rwa [List.length_append, List.length_append, hused, Nat.add_assoc, ← two_mul] at this
    have hset : (buf.set (pre.length + done.length) byte).cells =
        pre ++ (done ++ [byte]) ++ used' ++ toAscii rest ++ 0 :: post := by
      have hsplit : buf.cells = (pre ++ done) ++ x :: (used' ++ toAscii rest ++ 0 :: post) := by
        rw [hcells, ← List.cons_append, ← List.cons_append, ← hx]
        simp
      have hset' := List.set_append_right (s := pre ++ done)
        (t := x :: (used' ++ toAscii rest ++ 0 :: post)) (pre.length + done.length) byte
        (by simp)
      unfold LineBuffer.set
      dsimp only
      rw [hsplit, hset', List.length_append, Nat.sub_self, List.set_cons_zero]
      simp
    obtain ⟨buf', used'', heq, hcells'⟩ :=
      ih (buf.set (pre.length + done.length) byte) pre (done ++ [byte]) used' post hset hlen
    refine ⟨buf', used'', ?_, by simpa using hcells'⟩
    rw [List.length_append, List.length_singleton, Nat.mul_add] at heq
    have hne : ¬ buf.cells[pre.length + 2 * done.length]? = some 0 := by
      rw [hchar, Option.some_inj]
      exact nibbleToAscii_ne_zero _
    rw [hexDecode, dif_pos (buf.lt_of_getElem? hchar), if_neg hne, hread]
    dsimp only
    rw [Nat.mul_div_cancel_left _ (by decide : 0 < 2), heq, List.length_cons]
    congr 2
    omega

/-! ## One line -/

/-- A chunk of the file after the bytes stored so far. -/
def ScheduleInput.append (s : ScheduleInput) (chunk : List UInt8) : ScheduleInput :=
  { s with offset := s.offset + chunk.length
           flash := { bytes := writeAt 0 s.flash.bytes s.offset chunk
                      bytesInFlash := s.flash.bytesInFlash + chunk.length } }

theorem writeToFlash_toAscii {s : ScheduleInput} {buf : LineBuffer} {chunk post : List UInt8}
    (pre : List UInt8) (hopen : s.isOpen = true) (hcells : buf.cells = pre ++ toAscii chunk ++ 0 :: post) :
    ∃ buf', writeToFlash s buf pre.length .completed = some (s.append chunk, buf') := by
  obtain ⟨buf', used, hdecode, hcells'⟩ := hexDecode_toAscii chunk buf pre [] [] post
    (by simpa using hcells) rfl
  have hdata : readAt buf'.cells pre.length chunk.length = chunk := by
    rw [hcells', readAt]
    simp
  refine ⟨buf', ?_⟩
  rw [List.length_nil, Nat.mul_zero, Nat.zero_add] at hdecode
  unfold writeToFlash cfsWrite
  rw [hdecode]
  simp only [Option.bind_eq_bind, Option.bind_some, Nat.mul_div_cancel_left _ Nat.two_pos, hdata,
    hopen]
  simp [ScheduleInput.append, hopen]

/-- The effect of a whole message on the process. -/
def ScheduleInput.handle (s : ScheduleInput) (part : MessagePart) (chunk : List UInt8) :
    ScheduleInput :=
  match part with
  | .messageBegin => (openFile s true).append chunk
  | .messageContinue => s.append chunk
  | .messageEnd => { s.append chunk with scheduleLoading := false }

theorem serialLineScheduleInput_toAscii {s : ScheduleInput} {buf : LineBuffer}
    {messagePrefix : UInt8} {part : MessagePart} {chunk post : List UInt8}
    (hloading : s.scheduleLoading = true) (hpart : MessagePart.ofInt messagePrefix = some part)
    (hopen : part = .messageBegin ∨ s.isOpen = true)
    (hcells : buf.cells = toAscii (messagePrefix :: chunk) ++ 0 :: post) :
    ∃ buf', serialLineScheduleInput s buf true .completed = some (s.handle part chunk, buf') := by
  have hprefix : asciiHexToInt buf 0 = some messagePrefix :=
    asciiHexToInt_byteToAscii buf [] (toAscii chunk ++ 0 :: post) messagePrefix
      (by rw [hcells]; simp)
  have hwrite : ∀ s : ScheduleInput, s.isOpen = true →
      ∃ buf', writeToFlash s buf 2 .completed = some (s.append chunk, buf') := fun s hs =>
    writeToFlash_toAscii (byteToAscii messagePrefix) hs hcells
  unfold serialLineScheduleInput
  rw [hloading, hprefix]
  simp only [Bool.not_true, Bool.false_eq_true, if_false, Option.bind_eq_bind, Option.bind_some,
    hpart]
  cases part with
  | messageBegin =>
    have hs : (openFile s true).isOpen = true := by
      unfold openFile
      cases h : s.isOpen <;> simp [h]
    exact hwrite _ hs
  | messageContinue => exact hwrite s (by simpa using hopen)
  | messageEnd =>
    obtain ⟨buf', h⟩ := hwrite s (by simpa using hopen)
    exact ⟨buf', by simp only [h]; rfl⟩

/-- Characters before the end of the line fill the buffer. -/
theorem foldlM_serialLineChar {line : List UInt8} :
    ∀ (l : SerialLine) (s : ScheduleInput) (pre : List UInt8),
      (∀ c ∈ line, c ≠ lineEnd) → l.ptr = pre.length → l.ptr + line.length < bufSize →
      (∃ post, l.buf.cells = pre ++ post) →
      ∃ buf : LineBuffer, (∃ post, buf.cells = pre ++ line ++ post) ∧
        line.foldlM serialLineChar (l, s) =
          some ({ l with buf := buf, ptr := l.ptr + line.length }, s) := by
  induction line with
  | nil =>
    intro l s pre _ _ _ hcells
    exact ⟨l.buf, by simpa using hcells, rfl⟩
  | cons c line ih =>
    intro l s pre hchars hptr hlen hcells
    obtain ⟨post, hpost⟩ := hcells
    rw [List.length_cons] at hlen
    -- there is room for the character and for the terminator
    have hroom := l.buf.length_cells
    rw [hpost, List.length_append] at hroom
    obtain ⟨x, post, rfl⟩ : ∃ x post', post = x :: post' :=
      List.exists_cons_of_ne_nil (by rintro rfl; simp at hroom; omega)
    have hset : (l.buf.set l.ptr c).cells = (pre ++ [c]) ++ post := by
      unfold LineBuffer.set
      dsimp only
      rw [hpost, List.set_append_right _ _ (by omega), hptr, Nat.sub_self, List.set_cons_zero]
      simp
    obtain ⟨buf, hbuf, heq⟩ := ih { l with buf := l.buf.set l.ptr c, ptr := l.ptr + 1 } s
      (pre ++ [c]) (fun c' hc' => hchars c' (List.mem_cons_of_mem c hc'))
      (by simp [hptr]) (by dsimp only; omega) ⟨post, hset⟩
    refine ⟨buf, by simpa using hbuf, ?_⟩
    have hstep : serialLineChar (l, s) c =
        some ({ l with buf := l.buf.set l.ptr c, ptr := l.ptr + 1 }, s) := by
      unfold serialLineChar
      dsimp only
      rw [if_pos (hchars c (by simp)), if_pos (by omega)]
    rw [List.foldlM_cons, hstep, Option.bind_eq_bind, Option.bind_some, heq, List.length_cons]
    simp only [Option.some_inj, Prod.mk.injEq, SerialLine.mk.injEq, and_true, true_and]
    omega

/-- A line with its newline reaches the process. -/
theorem foldlM_serialLineChar_line {line : List UInt8} {l : SerialLine} {s : ScheduleInput}
    (hchars : ∀ c ∈ line, c ≠ lineEnd) (hptr : l.ptr = 0) (hlen : line.length < bufSize)
    {P : ScheduleInput → Prop}
    (hinput : ∀ buf : LineBuffer, (∃ post, buf.cells = line ++ 0 :: post) →
      ∃ s' buf', serialLineScheduleInput s buf true .completed = some (s', buf') ∧ P s') :
    ∃ buf s', (line ++ [lineEnd]).foldlM serialLineChar (l, s) =
      some ({ l with buf := buf, ptr := 0 }, s') ∧ P s' := by
  obtain ⟨buf, ⟨post, hpost⟩, hfold⟩ := foldlM_serialLineChar l s [] hchars
    (by simpa using hptr) (by omega) ⟨_, rfl⟩
  rw [List.nil_append] at hpost
  have hroom := buf.length_cells
  rw [hpost, List.length_append] at hroom
  obtain ⟨x, post, rfl⟩ : ∃ x post', post = x :: post' :=
    List.exists_cons_of_ne_nil (by rintro rfl; simp at hroom; omega)
  have hset : (buf.set line.length 0).cells = line ++ 0 :: post := by
    unfold LineBuffer.set
    dsimp only
    rw [hpost, List.set_append_right _ _ le_rfl, Nat.sub_self, List.set_cons_zero]
  obtain ⟨s', buf', hs', hP⟩ := hinput _ ⟨post, hset⟩
  refine ⟨buf', s', ?_, hP⟩
  rw [List.foldlM_append, hfold, Option.bind_eq_bind, Option.bind_some, List.foldlM_cons,
    serialLineChar]
  dsimp only
  rw [if_neg (by simp), hptr, Nat.zero_add, hs']
  rfl

/-! ## The whole upload -/

/-- Between two lines, with nothing waiting. -/
structure SerialLine.Idle (l : SerialLine) : Prop where
  rxbuf : l.rxbuf = []
  overflow : l.overflow = false
  ptr : l.ptr = 0

/-- A character of a line is neither dropped nor the end of the line. -/
theorem mem_hexDigits_ordinary : ∀ c ∈ hexDigits, c ≠ 0 ∧ c ≠ lineEnd ∧ ignoreChar c = false := by
  decide +kernel

theorem foldl_serialLineInputByte {bytes : List UInt8} :
    ∀ (l : SerialLine), l.overflow = false → (∀ c ∈ bytes, ignoreChar c = false) →
      l.rxbuf.length + bytes.length < bufSize →
      bytes.foldl serialLineInputByte l = { l with rxbuf := l.rxbuf ++ bytes } := by
  induction bytes with
  | nil =>
    intro l _ _ _
    rw [List.foldl_nil, List.append_nil]
  | cons c bytes ih =>
    intro l hover hchars hlen
    rw [List.length_cons] at hlen
    have hput : serialLineInputByte l c = { l with rxbuf := l.rxbuf ++ [c] } := by
      have hroom : ¬ l.rxbuf.length = bufSize - 1 := by omega
      simp [serialLineInputByte, SerialLine.ringbufPut, hchars c (by simp), hover, hroom]
    rw [List.foldl_cons, hput, ih { l with rxbuf := l.rxbuf ++ [c] } hover
      (fun c' hc' => hchars c' (List.mem_cons_of_mem c hc'))
      (by simp only [List.length_append, List.length_singleton]; omega)]
    simp

theorem serialLineChar_ring {l l' : SerialLine} {s s' : ScheduleInput} {c : UInt8}
    (h : serialLineChar (l, s) c = some (l', s')) :
    l'.rxbuf = l.rxbuf ∧ l'.overflow = l.overflow := by
  unfold serialLineChar at h
  dsimp only at h
  split_ifs at h
  · cases h
    exact ⟨rfl, rfl⟩
  · cases h
    exact ⟨rfl, rfl⟩
  · obtain ⟨⟨s', buf⟩, _, h⟩ := Option.bind_eq_some_iff.1 h
    cases h
    exact ⟨rfl, rfl⟩

theorem foldlM_serialLineChar_ring {bytes : List UInt8} :
    ∀ {l l' : SerialLine} {s s' : ScheduleInput},
      bytes.foldlM serialLineChar (l, s) = some (l', s') →
      l'.rxbuf = l.rxbuf ∧ l'.overflow = l.overflow := by
  induction bytes with
  | nil =>
    intro l l' s s' h
    cases h
    exact ⟨rfl, rfl⟩
  | cons c bytes ih =>
    intro l l' s s' h
    rw [List.foldlM_cons] at h
    obtain ⟨⟨l₁, s₁⟩, hstep, hrest⟩ := Option.bind_eq_some_iff.1 h
    have h₁ := serialLineChar_ring hstep
    have h₂ := ih hrest
    exact ⟨h₂.1.trans h₁.1, h₂.2.trans h₁.2⟩

/-- However the bytes come in, the process sees them one after the other, as
long as the ring buffer is read in time. -/
theorem serialReceiveAll_eq {pieces : List (List UInt8)} :
    ∀ {l l' : SerialLine} {s s' : ScheduleInput}, l.rxbuf = [] → l.overflow = false →
      (∀ p ∈ pieces, p.length < bufSize) → (∀ c ∈ pieces.flatten, ignoreChar c = false) →
      pieces.flatten.foldlM serialLineChar (l, s) = some (l', s') →
      serialReceiveAll (l, s) pieces = some (l', s') := by
  induction pieces with
  | nil =>
    intro l l' s s' _ _ _ _ h
    exact h
  | cons p pieces ih =>
    intro l l' s s' hring hover hlen hchars h
    rw [List.flatten_cons, List.foldlM_append] at h
    obtain ⟨⟨l₁, s₁⟩, hp, hrest⟩ := Option.bind_eq_some_iff.1 h
    have hreceive : serialReceive (l, s) p = some (l₁, s₁) := by
      have hbytes := foldl_serialLineInputByte l hover
        (fun c hc => hchars c (by rw [List.flatten_cons]; exact List.mem_append_left _ hc))
        (by rw [hring]; simpa using hlen p (by simp))
      rw [serialReceive, hbytes, serialLineProcess]
      dsimp only
      rw [hring, List.nil_append]
      obtain ⟨rxbuf, overflow, buf, ptr⟩ := l
      dsimp only at hring
      rw [← hring]
      exact hp
    have hkeep := foldlM_serialLineChar_ring hp
    rw [serialReceiveAll, List.foldlM_cons, hreceive]
    exact ih (hkeep.1.trans hring) (hkeep.2.trans hover)
      (fun p' hp' => hlen p' (List.mem_cons_of_mem p hp'))
      (fun c hc => hchars c (by rw [List.flatten_cons]; exact List.mem_append_right _ hc)) hrest

/-- A message of at most 40 bytes, sent as a line. -/
theorem foldlM_message (l : SerialLine) (s : ScheduleInput) (messagePrefix : UInt8)
    (part : MessagePart) (chunk : List UInt8) (hptr : l.ptr = 0)
    (hlen : chunk.length ≤ Host.bytesToWrite) (hloading : s.scheduleLoading = true)
    (hpart : MessagePart.ofInt messagePrefix = some part)
    (hopen : part = .messageBegin ∨ s.isOpen = true) :
    ∃ buf, (toAscii (messagePrefix :: chunk) ++ [lineEnd]).foldlM serialLineChar (l, s) =
      some ({ l with buf := buf, ptr := 0 }, s.handle part chunk) := by
  have hchars : ∀ c ∈ toAscii (messagePrefix :: chunk), c ≠ lineEnd := fun c hc =>
    (mem_hexDigits_ordinary c (hexDigit_toAscii _ c hc)).2.1
  have hlt : (toAscii (messagePrefix :: chunk)).length < bufSize := by
    rw [length_toAscii, List.length_cons]
    simp only [Host.bytesToWrite, Host.bytesToSend, bufSize] at hlen ⊢
    omega
  obtain ⟨buf, s', h, rfl⟩ := foldlM_serialLineChar_line (l := l) (s := s)
    (P := fun s' => s' = s.handle part chunk) hchars hptr hlt (by
      rintro buf ⟨post, hcells⟩
      obtain ⟨buf', h⟩ := serialLineScheduleInput_toAscii hloading hpart hopen hcells
      exact ⟨_, buf', h, rfl⟩)
  exact ⟨buf, h⟩

theorem append_append (s : ScheduleInput) (a b : List UInt8) :
    (s.append a).append b = s.append (a ++ b) := by
  simp only [ScheduleInput.append, writeAt_writeAt, List.length_append, Nat.add_assoc,
    Int.natCast_add, Int.add_assoc]

/-- The continue messages in a row, after `done` has been stored. -/
theorem foldlM_continue {middle : List (List UInt8)} {s : ScheduleInput}
    (hloading : s.scheduleLoading = true) (hopen : s.isOpen = true) :
    ∀ (l : SerialLine) (done : List UInt8), l.ptr = 0 →
      (∀ m ∈ middle, m.length ≤ Host.bytesToWrite) →
      ∃ buf, (middle.flatMap fun m => toAscii (messageContinue :: m) ++ [lineEnd]).foldlM
          serialLineChar (l, s.append done) =
        some ({ l with buf := buf, ptr := 0 }, s.append (done ++ middle.flatten)) := by
  induction middle with
  | nil =>
    intro l done hptr _
    refine ⟨l.buf, ?_⟩
    rw [List.flatMap_nil, List.foldlM_nil, ← hptr, List.flatten_nil, List.append_nil]
    rfl
  | cons m middle ih =>
    intro l done hptr hlen
    obtain ⟨buf₁, h₁⟩ := foldlM_message l (s.append done) messageContinue .messageContinue m hptr
      (hlen m (by simp)) hloading rfl (.inr hopen)
    obtain ⟨buf, h⟩ := ih { l with buf := buf₁, ptr := 0 } (done ++ m) rfl
      (fun m' hm' => hlen m' (List.mem_cons_of_mem m hm'))
    refine ⟨buf, ?_⟩
    rw [List.flatMap_cons, List.foldlM_append, h₁, Option.bind_eq_bind, Option.bind_some,
      ScheduleInput.handle, append_append, h, List.flatten_cons, List.append_assoc]

/-- The lines of a whole file, up to the bare newline at the end. -/
theorem foldlM_upload {file : List UInt8} (hlen : Host.bytesToWrite < file.length) {l : SerialLine}
    {s : ScheduleInput} (hptr : l.ptr = 0) (hloading : s.scheduleLoading = true) :
    ∃ buf, (uploadScheduleKiel file).flatten.foldlM serialLineChar (l, s) =
      some ({ l with buf := buf, ptr := 0 },
        { (openFile s true).append file with scheduleLoading := false }) := by
  obtain ⟨middle, last, hcut, heq⟩ := uploadMessages_eq hlen
  have hstream : (uploadScheduleKiel file).flatten =
      (toAscii (messageBegin :: file.take Host.bytesToWrite) ++ [lineEnd]) ++
        ((middle.flatMap fun m => toAscii (messageContinue :: m) ++ [lineEnd]) ++
          ((toAscii (messageEnd :: last) ++ [lineEnd]) ++ [lineEnd])) := by
    rw [uploadScheduleKiel, uploadLines, heq]
    simp [List.flatMap_def, messageLineEnd, lineEnd, Function.comp_def]
  have hs : (openFile s true).isOpen = true ∧ (openFile s true).scheduleLoading = true := by
    unfold openFile
    cases h : s.isOpen <;> simp [h, hloading]
  have hfile : file.take Host.bytesToWrite ++ middle.flatten ++ last = file := by
    rw [List.append_assoc, hcut.join, List.take_append_drop]
  obtain ⟨buf₁, h₁⟩ := foldlM_message l s messageBegin .messageBegin
    (file.take Host.bytesToWrite) hptr (by simp) hloading rfl (.inl rfl)
  obtain ⟨buf₂, h₂⟩ := foldlM_continue hs.2 hs.1 { l with buf := buf₁, ptr := 0 }
    (file.take Host.bytesToWrite) rfl (fun m hm => (hcut.middle_length m hm).le)
  obtain ⟨buf₃, h₃⟩ := foldlM_message { l with buf := buf₂, ptr := 0 }
    ((openFile s true).append (file.take Host.bytesToWrite ++ middle.flatten)) messageEnd .messageEnd
    last rfl hcut.last_length hs.2 rfl (.inr hs.1)
  refine ⟨buf₃.set 0 0, ?_⟩
  rw [hstream, List.foldlM_append, h₁, Option.bind_eq_bind, Option.bind_some,
    List.foldlM_append, ScheduleInput.handle]
  dsimp only
  rw [h₂, Option.bind_eq_bind, Option.bind_some, List.foldlM_append, h₃, Option.bind_eq_bind,
    Option.bind_some, ScheduleInput.handle]
  dsimp only
  -- the process is gone when the bare newline comes
  rw [append_append, hfile, List.foldlM_cons]
  simp [serialLineChar, serialLineScheduleInput]

/-- The lines of an upload fit the line buffer, and no character of them ends
the line or is lost. -/
theorem uploadLines_fit {file line : List UInt8} (hlen : Host.bytesToWrite < file.length)
    (hline : line ∈ uploadLines file) :
    line.length + 1 < bufSize ∧ ∀ c ∈ line, c ≠ 0 ∧ c ≠ lineEnd ∧ ignoreChar c = false := by
  obtain ⟨middle, last, hcut, heq⟩ := uploadMessages_eq hlen
  obtain ⟨message, hmessage, rfl⟩ := List.mem_map.1 hline
  refine ⟨?_, fun c hc => mem_hexDigits_ordinary c (hexDigit_toAscii message c hc)⟩
  have hle : message.length ≤ Host.bytesToSend := by
    rw [heq] at hmessage
    simp only [List.mem_cons, List.mem_append, List.mem_map, List.not_mem_nil, or_false] at hmessage
    rcases hmessage with rfl | ⟨m, hm, rfl⟩ | rfl
    · simp [Host.bytesToWrite, Host.bytesToSend]
    · rw [List.length_cons, hcut.middle_length m hm]
      decide
    · have := hcut.last_length
      simp only [Host.bytesToWrite, Host.bytesToSend, List.length_cons] at this ⊢
      omega
  rw [length_toAscii]
  simp only [Host.bytesToSend, bufSize] at hle ⊢
  omega

end MasterScheduler.Mote
