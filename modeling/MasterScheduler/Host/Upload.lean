import MasterScheduler.Lib.Store

/-!
# MasterScheduler.Host.Upload — the schedule file as lines of text

`upload_schedule_kiel` of `Master/Python/upload_schedule.py`. The file is read
in pieces of 39 bytes; each piece gets a prefix byte and is sent as a line of
upper case hexadecimal digits. A bare newline closes the upload.

- `uploadMessages_eq`: one begin message, continue messages, one end message.
- `hexDigit_byteToAscii`: a line consists of hexadecimal digits only.
-/

namespace MasterScheduler.Host

open Lib

/-- `C_MESSSAGE_BEGIN`. -/
def messageBegin : UInt8 := 0x00

/-- `C_MESSSAGE_CONTINUE`. -/
def messageContinue : UInt8 := 0x01

/-- `C_MESSSAGE_END`. -/
def messageEnd : UInt8 := 0x02

/-- `C_MESSAGE_LINE_END`. -/
def messageLineEnd : UInt8 := 0x0a

def bytesToSend : ℕ := 40

def bytesToWrite : ℕ := bytesToSend - 1

/-- One nibble as a character: `int_to_hex` from ten on, else the decimal digit. -/
def nibbleToAscii (nibble : UInt8) : UInt8 :=
  if nibble > 9 then
    match nibble with
    | 10 => 'A'.toUInt8
    | 11 => 'B'.toUInt8
    | 12 => 'C'.toUInt8
    | 13 => 'D'.toUInt8
    | 14 => 'E'.toUInt8
    | _ => 'F'.toUInt8
  else '0'.toUInt8 + nibble

def byteToAscii (byte : UInt8) : List UInt8 :=
  [nibbleToAscii ((byte >>> 4) &&& 0x0f), nibbleToAscii (byte &&& 0x0f)]

/-- The `for` loop over the bytes of one message. -/
def toAscii (bytes : List UInt8) : List UInt8 := bytes.flatMap byteToAscii

/-- The `while` loop of `upload_schedule_kiel`: the messages that are sent,
beginning with `bytes`, when the file is read up to position `tell`. -/
def uploadLoop (file : List UInt8) (tell : ℕ) (bytes : List UInt8) : List (List UInt8) :=
  if bytes = [] then []
  else
    let chunk := readAt file tell bytesToWrite
    bytes ::
      if chunk = [] then []
      else if chunk.length ≠ bytesToWrite ∨ tell + chunk.length = file.length then
        uploadLoop file (tell + chunk.length) (messageEnd :: chunk)
      else uploadLoop file (tell + chunk.length) (messageContinue :: chunk)
termination_by file.length - tell
decreasing_by
  all_goals
    rename_i hne _
    have := List.length_pos_iff.2 hne
    simp only [chunk, length_readAt] at this ⊢
    omega

/-- The messages of a file. -/
def uploadMessages (file : List UInt8) : List (List UInt8) :=
  let first := readAt file 0 bytesToWrite
  uploadLoop file first.length (messageBegin :: first)

/-- The lines of a file, without the newlines. -/
def uploadLines (file : List UInt8) : List (List UInt8) := (uploadMessages file).map toAscii

/-- Everything `upload_schedule_kiel` sends, one list for each call of `send`. -/
def uploadScheduleKiel (file : List UInt8) : List (List UInt8) :=
  (uploadLines file).map (· ++ [messageLineEnd]) ++ [[messageLineEnd]]

/-! ## Characters -/

/-- The characters of a line. -/
def hexDigits : List UInt8 := (List.range 16).map fun n => nibbleToAscii (UInt8.ofNat n)

theorem mem_hexDigits_of_lt {nibble : UInt8} (h : nibble < 16) :
    nibbleToAscii nibble ∈ hexDigits := by
  refine List.mem_map.2 ⟨nibble.toNat, List.mem_range.2 h, ?_⟩
  rw [UInt8.ofNat_toNat]

theorem nibbleToAscii_ne_zero (nibble : UInt8) : nibbleToAscii nibble ≠ 0 := by
  unfold nibbleToAscii
  split_ifs with h
  · split <;> decide
  · intro h0
    have hle : nibble.toNat ≤ 9 := UInt8.le_iff_toNat_le.1 (UInt8.not_lt.1 h)
    have := congrArg UInt8.toNat h0
    rw [UInt8.toNat_add, show '0'.toUInt8.toNat = 48 from rfl, UInt8.toNat_zero] at this
    omega

theorem hexDigit_byteToAscii (byte : UInt8) : ∀ c ∈ byteToAscii byte, c ∈ hexDigits := by
  have hlow : ∀ b : UInt8, b &&& 0x0f < 16 := by
    intro b
    rw [UInt8.lt_iff_toNat_lt, UInt8.toNat_and]
    exact Nat.and_lt_two_pow (n := 4) _ (by decide)
  intro c hc
  rcases List.mem_cons.1 hc with rfl | hc
  · exact mem_hexDigits_of_lt (hlow _)
  · rw [List.mem_singleton] at hc
    subst hc
    exact mem_hexDigits_of_lt (hlow _)

theorem hexDigit_toAscii (bytes : List UInt8) : ∀ c ∈ toAscii bytes, c ∈ hexDigits := by
  intro c hc
  obtain ⟨byte, _, hc⟩ := List.mem_flatMap.1 hc
  exact hexDigit_byteToAscii byte c hc

@[simp] theorem toAscii_nil : toAscii [] = [] := rfl

@[simp] theorem toAscii_cons (byte : UInt8) (bytes : List UInt8) :
    toAscii (byte :: bytes) = byteToAscii byte ++ toAscii bytes := rfl

theorem length_toAscii (bytes : List UInt8) : (toAscii bytes).length = 2 * bytes.length := by
  induction bytes with
  | nil => rfl
  | cons byte bytes ih =>
    rw [toAscii_cons, List.length_append, ih, List.length_cons]
    simp only [byteToAscii, List.length_cons, List.length_nil]
    omega

/-! ## Messages -/

/-- A file is cut into chunks `first`, `middle`, `last` of at most 39 bytes. -/
structure Cut (rest : List UInt8) (middle : List (List UInt8)) (last : List UInt8) : Prop where
  join : middle.flatten ++ last = rest
  middle_length : ∀ m ∈ middle, m.length = bytesToWrite
  last_length : last.length ≤ bytesToWrite

theorem readAt_append_drop (file : List UInt8) (tell n : ℕ) :
    readAt file tell n ++ file.drop (tell + (readAt file tell n).length) = file.drop tell := by
  rw [length_readAt, readAt, ← List.drop_drop]
  conv_rhs => rw [← List.take_append_drop n (file.drop tell)]
  congr 1
  rcases Nat.le_total n (file.length - tell) with h | h
  · rw [Nat.min_eq_left h]
  · rw [Nat.min_eq_right h, List.drop_eq_nil_of_le (by simp),
      List.drop_eq_nil_of_le (by simpa using h)]

/-- The messages after `bytes`, as long as something is left to read. -/
theorem uploadLoop_eq (file : List UInt8) (tell : ℕ) (bytes : List UInt8) (hne : bytes ≠ [])
    (htell : tell < file.length) :
    ∃ middle last, Cut (file.drop tell) middle last ∧
      uploadLoop file tell bytes =
        bytes :: (middle.map (messageContinue :: ·) ++ [messageEnd :: last]) := by
  -- On the bytes that are still to be read.
  induction hn : file.length - tell using Nat.strong_induction_on generalizing tell bytes with
  | _ n ih =>
    have hlen : (readAt file tell bytesToWrite).length = min 39 (file.length - tell) :=
      length_readAt _ _ _
    have hchunk : readAt file tell bytesToWrite ≠ [] := by
      rw [← List.length_pos_iff, hlen]
      omega
    have hjoin := readAt_append_drop file tell bytesToWrite
    rw [uploadLoop, if_neg hne]
    dsimp only
    rw [if_neg hchunk]
    by_cases hlast : tell + (readAt file tell bytesToWrite).length = file.length
    · -- the last piece: nothing is left, the loop ends
      refine ⟨[], readAt file tell bytesToWrite, ⟨?_, by simp, ?_⟩, ?_⟩
      · rw [List.flatten_nil, List.nil_append, ← hjoin, hlast, List.drop_length, List.append_nil]
      · rw [hlen]
        exact Nat.min_le_left _ _
      · rw [if_pos (.inr hlast), hlast, uploadLoop, if_neg (by simp)]
        dsimp only
        rw [if_pos]
        · rfl
        · exact List.eq_nil_of_length_eq_zero (by rw [length_readAt]; omega)
    · have hfull : (readAt file tell bytesToWrite).length = 39 := by omega
      obtain ⟨middle, last, hcut, heq⟩ := ih _ (by omega)
        (tell + (readAt file tell bytesToWrite).length)
        (messageContinue :: readAt file tell bytesToWrite) (by simp) (by omega) rfl
      refine ⟨readAt file tell bytesToWrite :: middle, last, ⟨?_, ?_, hcut.last_length⟩, ?_⟩
      · rw [List.flatten_cons, List.append_assoc, hcut.join, hjoin]
      · intro m hm
        rcases List.mem_cons.1 hm with rfl | hm
        · exact hfull
        · exact hcut.middle_length m hm
      · rw [if_neg (by rintro (h | h); exacts [h hfull, hlast h]), heq]
        rfl

/-- A file longer than one piece: begin, continue, end. -/
theorem uploadMessages_eq {file : List UInt8} (hlen : bytesToWrite < file.length) :
    ∃ middle last, Cut (file.drop bytesToWrite) middle last ∧
      uploadMessages file =
        (messageBegin :: file.take bytesToWrite) ::
          (middle.map (messageContinue :: ·) ++ [messageEnd :: last]) := by
  have hfirst : (readAt file 0 bytesToWrite).length = bytesToWrite := by
    rw [length_readAt]
    omega
  have h := uploadLoop_eq file bytesToWrite (messageBegin :: readAt file 0 bytesToWrite)
    (by simp) hlen
  unfold uploadMessages
  dsimp only
  rwa [hfirst]

end MasterScheduler.Host
