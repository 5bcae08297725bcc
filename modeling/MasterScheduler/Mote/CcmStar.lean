import Mathlib.Data.Fin.Basic
import Mathlib.Data.List.FinRange
import MasterScheduler.Lib.Bytes

/-!
# MasterScheduler.Mote.CcmStar — CCM*

`ccm-star.c` authenticates and encrypts a message in a memory of bytes. Its loops
advance a position of 8 bits by the size of a block.

1. **Model**: counter mode, the MIC and `aead`; a loop that does not end has no result.
2. **Loops**: where they end, and that they do not end on longer inputs.
3. **Counter mode**: a message is combined with a key stream.
4. **Result**: decryption restores the message, up to the length at which a
   position wraps.

The block cipher is a parameter.
-/

namespace MasterScheduler.Mote.CcmStar

open Lib

/-! ## Model -/

/-- The blocks of AES-128. -/
abbrev Block := Fin 16 → UInt8

-- `AES_128.encrypt` with the key that was set
variable (encrypt : Block → Block)

/-- `CCM_STAR_AUTH_FLAGS`. -/
def authFlags (aLen micLen : UInt8) : UInt8 :=
  UInt8.ofNat ((if aLen ≠ 0 then 1 <<< 6 else 0) ||| ((micLen.toNat - 2) >>> 1) <<< 3 ||| 1)

/-- `set_iv`. -/
def setIv (flags : UInt8) (nonce : ℕ → UInt8) (counter : UInt8) : Block := fun i =>
  if i.val = 0 then flags
  else if i.val < 14 then nonce (i.val - 1)
  else if i.val = 14 then 0
  else counter

/-- The block with which `ctr_step` combines the message. -/
def pad (nonce : ℕ → UInt8) (counter : UInt8) : Block := encrypt (setIv 1 nonce counter)

/-- `ctr_step` on a message at `m`. -/
def ctrStep (nonce : ℕ → UInt8) (pos : UInt8) (mem : Memory) (m : ℕ) (mLen counter : UInt8) :
    Memory := fun j =>
  if m + pos.toNat ≤ j ∧ j < m + pos.toNat + 16 ∧ j < m + mLen.toNat then
    mem j ^^^ pad encrypt nonce counter (Fin.ofNat 16 (j - (m + pos.toNat)))
  else mem j

/-- The loop of `ctr`. -/
def ctrLoop (nonce : ℕ → UInt8) (m : ℕ) (mLen : UInt8) :
    ℕ → UInt8 → UInt8 → Memory → Option Memory
  | 0, _, _, _ => none
  | fuel + 1, pos, counter, mem =>
    if pos < mLen then
      ctrLoop nonce m mLen fuel (pos + 16) (counter + 1)
        (ctrStep encrypt nonce pos mem m mLen counter)
    else some mem

/-- `ctr`. -/
def ctr (fuel : ℕ) (nonce : ℕ → UInt8) (mem : Memory) (m : ℕ) (mLen : UInt8) : Option Memory :=
  ctrLoop encrypt nonce m mLen fuel 0 1 mem

/-- The inner loop of `mic`: a part of a buffer is combined with a block. -/
def xorBlock (x : Block) (buf : ℕ → UInt8) (pos len : UInt8) : Block := fun i =>
  if pos.toNat + i.val < len.toNat then x i ^^^ buf (pos.toNat + i.val) else x i

/-- The first block of the associated data, behind its length. -/
def xorFirst (x : Block) (a : ℕ → UInt8) (aLen : UInt8) : Block := fun i =>
  if i.val = 1 then x i ^^^ aLen
  else if 2 ≤ i.val ∧ i.val - 2 < aLen.toNat then x i ^^^ a (i.val - 2)
  else x i

/-- The two outer loops of `mic`. -/
def absorbLoop (buf : ℕ → UInt8) (len : UInt8) : ℕ → UInt8 → Block → Option Block
  | 0, _, _ => none
  | fuel + 1, pos, x =>
    if pos < len then absorbLoop buf len fuel (pos + 16) (encrypt (xorBlock x buf pos len))
    else some x

/-- `mic`, before its result is cut. -/
def mic (fuel : ℕ) (nonce : ℕ → UInt8) (m : ℕ → UInt8) (mLen : UInt8) (a : ℕ → UInt8)
    (aLen micLen : UInt8) : Option Block :=
  let x := encrypt (setIv (authFlags aLen micLen) nonce mLen)
  let x := if aLen ≠ 0 then absorbLoop encrypt a aLen fuel 14 (encrypt (xorFirst x a aLen))
    else some x
  let x := if mLen ≠ 0 then x.bind (absorbLoop encrypt m mLen fuel 0) else x
  x.map fun x i => x i ^^^ pad encrypt nonce 0 i

/-- The first bytes of a block. -/
def cut (x : Block) (n : ℕ) : List UInt8 := ((List.finRange 16).map x).take n

/-- `aead`. -/
def aead (fuel : ℕ) (nonce : ℕ → UInt8) (mem : Memory) (m : ℕ) (mLen : UInt8) (a : ℕ)
    (aLen : UInt8) (result : ℕ) (micLen : UInt8) (forward : Bool) : Option Memory := do
  let mem ← if forward then some mem else ctr encrypt fuel nonce mem m mLen
  let x ← mic encrypt fuel nonce (fun i => mem (m + i)) mLen (fun i => mem (a + i)) aLen micLen
  let mem := mem.write result (cut x micLen.toNat)
  if forward then ctr encrypt fuel nonce mem m mLen else some mem

/-! ## Loops -/

section

variable {encrypt} {nonce buf buf' m m' a a' : ℕ → UInt8} {len mLen aLen micLen pos : UInt8}
  {fuel k r : ℕ} {x : Block}

/-- The positions of a loop that started at `r`. -/
theorem toNat_add_block (hpos : pos.toNat = 16 * k + r) (hr : r < 16) (hk : k ≤ 15) :
    (pos + 16).toNat = if k < 15 then 16 * (k + 1) + r else r := by
  have hsum : (pos + 16).toNat = (pos.toNat + 16) % 256 := UInt8.toNat_add pos 16
  rw [hsum, hpos]
  split <;> omega

/-- A loop ends if no position wraps. -/
theorem absorbLoop_ends (hlen : len.toNat ≤ 240 + r) (hr : r < 16) (hpos : pos.toNat = 16 * k + r)
    (hk : k ≤ 15) (hfuel : 16 < fuel + k) : ∃ y, absorbLoop encrypt buf len fuel pos x = some y := by
  induction fuel generalizing pos k x with
  | zero => omega
  | succ fuel ih =>
    by_cases hlt : pos < len
    · rw [absorbLoop, if_pos hlt]
      have hlt' := UInt8.lt_iff_toNat_lt.mp hlt
      have hnext := toNat_add_block hpos hr hk
      rw [if_pos (by omega)] at hnext
      exact ih hnext (by omega) (by omega)
    · rw [absorbLoop, if_neg hlt]
      exact ⟨x, rfl⟩

/-- A loop does not end if a position wraps. -/
theorem absorbLoop_diverges (hlen : 240 + r < len.toNat) (hr : r < 16)
    (hpos : pos.toNat = 16 * k + r) (hk : k ≤ 15) :
    absorbLoop encrypt buf len fuel pos x = none := by
  induction fuel generalizing pos k x with
  | zero => rfl
  | succ fuel ih =>
    have hlt : pos < len := UInt8.lt_iff_toNat_lt.mpr (by omega)
    have hnext := toNat_add_block hpos hr hk
    rw [absorbLoop, if_pos hlt]
    split at hnext
    · exact ih hnext (by omega)
    · exact ih (k := 0) (by omega) (by omega)

theorem xorBlock_congr (h : ∀ i < len.toNat, buf i = buf' i) :
    xorBlock x buf pos len = xorBlock x buf' pos len := by
  funext i
  unfold xorBlock
  split
  · rename_i hi
    rw [h _ hi]
  · rfl

theorem absorbLoop_congr (h : ∀ i < len.toNat, buf i = buf' i) :
    absorbLoop encrypt buf len fuel pos x = absorbLoop encrypt buf' len fuel pos x := by
  induction fuel generalizing pos x with
  | zero => rfl
  | succ fuel ih =>
    simp only [absorbLoop]
    rw [xorBlock_congr h, ih]

/-- A MIC is one of the bytes of the message and of the associated data. -/
theorem mic_congr (hm : ∀ i < mLen.toNat, m i = m' i) (ha : ∀ i < aLen.toNat, a i = a' i) :
    mic encrypt fuel nonce m mLen a aLen micLen = mic encrypt fuel nonce m' mLen a' aLen micLen := by
  have hfirst : ∀ x, xorFirst x a aLen = xorFirst x a' aLen := by
    intro x
    funext i
    unfold xorFirst
    split
    · rfl
    · split
      · rename_i hi
        rw [ha _ hi.2]
      · rfl
  have hloop : absorbLoop encrypt m mLen fuel 0 = absorbLoop encrypt m' mLen fuel 0 := by
    funext x
    exact absorbLoop_congr hm
  simp only [mic]
  rw [hfirst, absorbLoop_congr ha, hloop]

variable (encrypt nonce m a micLen) in
theorem mic_ends (hm : mLen.toNat ≤ 240) (ha : aLen.toNat ≤ 254) (hfuel : 16 < fuel) :
    ∃ y, mic encrypt fuel nonce m mLen a aLen micLen = some y := by
  have hfirst : ∀ x, ∃ y, (if aLen ≠ 0 then
      absorbLoop encrypt a aLen fuel 14 (encrypt (xorFirst x a aLen)) else some x) = some y := by
    intro x
    split
    · exact absorbLoop_ends (k := 0) (r := 14) ha (by decide) rfl (by decide) hfuel
    · exact ⟨x, rfl⟩
  have hsecond : ∀ x, ∃ y, absorbLoop encrypt m mLen fuel 0 x = some y := fun x =>
    absorbLoop_ends (k := 0) (r := 0) hm (by decide) rfl (by decide) hfuel
  simp only [mic]
  obtain ⟨y, hy⟩ := hfirst (encrypt (setIv (authFlags aLen micLen) nonce mLen))
  rw [hy, Option.bind_some]
  split
  · obtain ⟨z, hz⟩ := hsecond y
    rw [hz]
    exact ⟨_, rfl⟩
  · exact ⟨_, rfl⟩

/-- On a longer message or longer associated data there is no MIC. -/
theorem mic_diverges (h : 240 < mLen.toNat ∨ 254 < aLen.toNat) :
    mic encrypt fuel nonce m mLen a aLen micLen = none := by
  simp only [mic]
  rcases h with hm | ha
  · have hne : mLen ≠ 0 := by
      rintro rfl
      exact absurd hm (by decide)
    have hnone : absorbLoop encrypt m mLen fuel 0 = fun _ => none := by
      funext x
      exact absorbLoop_diverges (k := 0) (r := 0) hm (by decide) rfl (by decide)
    rw [if_pos hne, hnone, Option.bind_fun_none]
    rfl
  · have hne : aLen ≠ 0 := by
      rintro rfl
      exact absurd ha (by decide)
    have hnone : ∀ x, absorbLoop encrypt a aLen fuel 14 x = none := fun x =>
      absorbLoop_diverges (k := 0) (r := 14) ha (by decide) rfl (by decide)
    rw [if_pos hne, hnone]
    split <;> rfl

end

/-! ## Counter mode -/

section

variable {encrypt} {nonce : ℕ → UInt8} {mem mem' : Memory} {m i j k fuel : ℕ} {mLen pos : UInt8}

/-- A byte of the key stream. -/
def stream (encrypt : Block → Block) (nonce : ℕ → UInt8) (i : ℕ) : UInt8 :=
  pad encrypt nonce (UInt8.ofNat (i / 16 + 1)) (Fin.ofNat 16 i)

/-- A message from some position on, combined with the key stream. -/
def xorStream (encrypt : Block → Block) (nonce : ℕ → UInt8) (mem : Memory) (m start n : ℕ) :
    Memory := fun j =>
  if m + start ≤ j ∧ j < m + n then mem j ^^^ stream encrypt nonce (j - m) else mem j

theorem xorStream_of_outside {start n : ℕ} (h : j < m ∨ m + n ≤ j) :
    xorStream encrypt nonce mem m start n j = mem j := by
  rw [xorStream, if_neg (by omega)]

theorem xorStream_of_inside {n : ℕ} (h : i < n) :
    xorStream encrypt nonce mem m 0 n (m + i) = mem (m + i) ^^^ stream encrypt nonce i := by
  rw [xorStream, if_pos (by omega), Nat.add_sub_cancel_left]

/-- One step takes a block from what is left. -/
theorem xorStream_ctrStep (hpos : pos.toNat = 16 * k) :
    xorStream encrypt nonce (ctrStep encrypt nonce pos mem m mLen (UInt8.ofNat (k + 1))) m
      (16 * (k + 1)) mLen.toNat = xorStream encrypt nonce mem m (16 * k) mLen.toNat := by
  funext j
  simp only [xorStream, ctrStep, hpos]
  by_cases hin : m + 16 * k ≤ j ∧ j < m + mLen.toNat
  · by_cases hblock : j < m + 16 * k + 16
    · have hdiv : (j - m) / 16 = k := by omega
      have hidx : Fin.ofNat 16 (j - (m + 16 * k)) = Fin.ofNat 16 (j - m) := by
        apply Fin.ext
        simp only [Fin.ofNat]
        omega
      rw [if_neg (by omega), if_pos ⟨hin.1, hblock, hin.2⟩, if_pos hin, stream, hdiv, hidx]
    · rw [if_pos (by omega), if_neg (by omega), if_pos hin]
  · rw [if_neg (by omega), if_neg (by omega), if_neg hin]

theorem ctrLoop_eq (hlen : mLen.toNat ≤ 240) (hpos : pos.toNat = 16 * k) (hk : k ≤ 15)
    (hfuel : 16 < fuel + k) :
    ctrLoop encrypt nonce m mLen fuel pos (UInt8.ofNat (k + 1)) mem =
      some (xorStream encrypt nonce mem m (16 * k) mLen.toNat) := by
  induction fuel generalizing pos k mem with
  | zero => omega
  | succ fuel ih =>
    by_cases hlt : pos < mLen
    · have hlt' := UInt8.lt_iff_toNat_lt.mp hlt
      have hnext := toNat_add_block (k := k) (r := 0) hpos (by decide) hk
      rw [if_pos (by omega)] at hnext
      have hcounter : UInt8.ofNat (k + 1) + 1 = UInt8.ofNat (k + 1 + 1) := by
        apply UInt8.toNat_inj.mp
        rw [UInt8.toNat_add, UInt8.toNat_ofNat', UInt8.toNat_ofNat']
        have hone : (1 : UInt8).toNat = 1 := rfl
        omega
      rw [ctrLoop, if_pos hlt, hcounter, ih hnext (by omega) (by omega), xorStream_ctrStep hpos]
    · have hge : mLen.toNat ≤ 16 * k := by
        have hge' := UInt8.le_iff_toNat_le.mp (UInt8.not_lt.mp hlt)
        omega
      rw [ctrLoop, if_neg hlt]
      congr 1
      funext j
      rw [xorStream, if_neg (by omega)]

theorem ctr_eq (hlen : mLen.toNat ≤ 240) (hfuel : 16 < fuel) :
    ctr encrypt fuel nonce mem m mLen =
      some (xorStream encrypt nonce mem m 0 mLen.toNat) :=
  ctrLoop_eq (k := 0) hlen rfl (by decide) hfuel

theorem length_cut (x : Block) {n : ℕ} (h : n ≤ 16) : (cut x n).length = n := by
  simp [cut, h]

end

/-! ## Result -/

section

variable {encrypt} {nonce : ℕ → UInt8} {mem : Memory} {m a result result' : ℕ}
  {mLen aLen micLen : UInt8} {fuel : ℕ}

/-- Two ranges without a common address. -/
abbrev Apart (p n q k : ℕ) : Prop := n = 0 ∨ k = 0 ∨ p + n ≤ q ∨ q + k ≤ p

variable (encrypt nonce mem m a result mLen aLen micLen) in
/-- What encryption leaves. -/
theorem aead_forward (hm : mLen.toNat ≤ 240) (ha : aLen.toNat ≤ 254) (hfuel : 16 < fuel) :
    ∃ x, mic encrypt fuel nonce (fun i => mem (m + i)) mLen (fun i => mem (a + i)) aLen micLen =
        some x ∧
      aead encrypt fuel nonce mem m mLen a aLen result micLen true =
        some (xorStream encrypt nonce (mem.write result (cut x micLen.toNat)) m 0 mLen.toNat) := by
  obtain ⟨x, hx⟩ := mic_ends encrypt nonce (fun i => mem (m + i)) (fun i => mem (a + i)) micLen hm
    ha hfuel
  refine ⟨x, hx, ?_⟩
  simp only [aead, if_true, Option.bind_eq_bind, Option.bind_some, hx]
  exact ctr_eq hm hfuel

variable (encrypt nonce mem m a result mLen aLen micLen) in
/-- What decryption leaves. -/
theorem aead_backward (hm : mLen.toNat ≤ 240) (ha : aLen.toNat ≤ 254) (hfuel : 16 < fuel) :
    ∃ x, mic encrypt fuel nonce
          (fun i => xorStream encrypt nonce mem m 0 mLen.toNat (m + i)) mLen
          (fun i => xorStream encrypt nonce mem m 0 mLen.toNat (a + i)) aLen micLen = some x ∧
      aead encrypt fuel nonce mem m mLen a aLen result micLen false =
        some ((xorStream encrypt nonce mem m 0 mLen.toNat).write result
          (cut x micLen.toNat)) := by
  obtain ⟨x, hx⟩ := mic_ends encrypt nonce
    (fun i => xorStream encrypt nonce mem m 0 mLen.toNat (m + i))
    (fun i => xorStream encrypt nonce mem m 0 mLen.toNat (a + i)) micLen hm ha hfuel
  refine ⟨x, hx, ?_⟩
  simp [aead, ctr_eq hm hfuel, hx]

/-- Nothing is encrypted if a position wraps. -/
theorem aead_diverges (h : 240 < mLen.toNat ∨ 254 < aLen.toNat) :
    aead encrypt fuel nonce mem m mLen a aLen result micLen true = none := by
  simp only [aead, if_true, Option.bind_eq_bind, Option.bind_some,
    mic_diverges h, Option.bind_none]

/-- `aead` ends in both directions, decryption restores the message with the same MIC, and only
the message and the results are written. -/
def Inverts (encrypt : Block → Block) (nonce : ℕ → UInt8) (mem : Memory) (m : ℕ) (mLen : UInt8)
    (a : ℕ) (aLen : UInt8) (result result' : ℕ) (micLen : UInt8) : Prop :=
  ∃ fuel sealed opened,
    aead encrypt fuel nonce mem m mLen a aLen result micLen true = some sealed ∧
    aead encrypt fuel nonce sealed m mLen a aLen result' micLen false = some opened ∧
    (∀ i < mLen.toNat, opened (m + i) = mem (m + i)) ∧
    (∀ i < micLen.toNat, opened (result' + i) = sealed (result + i)) ∧
    (∀ j, (j < m ∨ m + mLen.toNat ≤ j) → (j < result ∨ result + micLen.toNat ≤ j) →
      sealed j = mem j) ∧
    ∀ j, (j < m ∨ m + mLen.toNat ≤ j) → (j < result' ∨ result' + micLen.toNat ≤ j) →
      opened j = sealed j

theorem write_apply {bs : List UInt8} {p i : ℕ} (h : i < bs.length) :
    mem.write p bs (p + i) = bs[i] := by
  rw [Memory.write, if_pos (by omega), Nat.add_sub_cancel_left, List.getElem?_eq_getElem h]
  rfl

theorem write_of_outside {bs : List UInt8} {p n j : ℕ} (hbs : bs.length = n)
    (hj : j < p ∨ p + n ≤ j) : mem.write p bs j = mem j := by
  rcases hj with hj | hj
  · exact Memory.write_below hj
  · exact Memory.write_above (by rw [hbs]; exact hj)

/-- A sealed message: its MIC, the cipher text, and everything else. -/
structure Sealed (encrypt : Block → Block) (fuel : ℕ) (nonce : ℕ → UInt8) (mem : Memory) (m : ℕ)
    (mLen : UInt8) (a : ℕ) (aLen : UInt8) (result : ℕ) (micLen : UInt8) (sealed : Memory)
    (x : Block) : Prop where
  tag : mic encrypt fuel nonce (fun i => mem (m + i)) mLen (fun i => mem (a + i)) aLen micLen =
    some x
  text : ∀ i < mLen.toNat, sealed (m + i) = mem (m + i) ^^^ stream encrypt nonce i
  written : ∀ i < micLen.toNat, some (sealed (result + i)) = (cut x micLen.toNat)[i]?
  other : ∀ j, (j < m ∨ m + mLen.toNat ≤ j) → (j < result ∨ result + micLen.toNat ≤ j) →
    sealed j = mem j

variable (encrypt nonce mem m a result mLen aLen) in
theorem aead_seals (hmic : micLen.toNat ≤ 16) (hm : mLen.toNat ≤ 240) (ha : aLen.toNat ≤ 254)
    (hfuel : 16 < fuel) (hmr : Apart m mLen.toNat result micLen.toNat) :
    ∃ sealed x, aead encrypt fuel nonce mem m mLen a aLen result micLen true = some sealed ∧
      Sealed encrypt fuel nonce mem m mLen a aLen result micLen sealed x := by
  obtain ⟨x, hx, hsealed⟩ := aead_forward encrypt nonce mem m a result mLen aLen micLen hm ha
    hfuel
  have hcut := length_cut x hmic
  refine ⟨_, x, hsealed, hx, ?_, ?_, ?_⟩
  · intro i hi
    rw [xorStream_of_inside hi, write_of_outside hcut (by omega)]
  · intro i hi
    rw [xorStream_of_outside (by omega), write_apply (by omega), List.getElem?_eq_getElem]
  · intro j hj hj'
    rw [xorStream_of_outside hj, write_of_outside hcut hj']

/-- A sealed message is opened where the cipher text and the associated data were received. -/
theorem aead_opens (received : Memory) (m' a' result' : ℕ) {sealed : Memory} {x : Block}
    (hmic : micLen.toNat ≤ 16) (hm : mLen.toNat ≤ 240) (ha : aLen.toNat ≤ 254)
    (hfuel : 16 < fuel)
    (hsealed : Sealed encrypt fuel nonce mem m mLen a aLen result micLen sealed x)
    (htext : ∀ i < mLen.toNat, received (m' + i) = sealed (m + i))
    (hdata : ∀ i < aLen.toNat, received (a' + i) = mem (a + i))
    (hma : Apart m' mLen.toNat a' aLen.toNat) (hmr : Apart m' mLen.toNat result' micLen.toNat) :
    ∃ opened, aead encrypt fuel nonce received m' mLen a' aLen result' micLen false =
        some opened ∧
      (∀ i < mLen.toNat, opened (m' + i) = mem (m + i)) ∧
      (∀ i < micLen.toNat, opened (result' + i) = sealed (result + i)) ∧
      ∀ j, (j < m' ∨ m' + mLen.toNat ≤ j) → (j < result' ∨ result' + micLen.toNat ≤ j) →
        opened j = received j := by
  -- Decryption starts from the same nonce, so it runs over the same key stream.
  obtain ⟨y, hy, hopened⟩ := aead_backward encrypt nonce received m' a' result' mLen aLen micLen
    hm ha hfuel
  -- The stream is added twice, which gives the plaintext back.
  have hplain : ∀ i < mLen.toNat,
      xorStream encrypt nonce received m' 0 mLen.toNat (m' + i) = mem (m + i) := by
    intro i hi
    rw [xorStream_of_inside hi, htext i hi, hsealed.text i hi, UInt8.xor_assoc, UInt8.xor_self,
      UInt8.xor_zero]
  have hsame : ∀ i < aLen.toNat,
      xorStream encrypt nonce received m' 0 mLen.toNat (a' + i) = mem (a + i) := by
    intro i hi
    rw [xorStream_of_outside (by omega), hdata i hi]
  -- So the code is computed over the same blocks.
  have hxy : x = y := by
    rw [mic_congr hplain hsame, hsealed.tag] at hy
    exact Option.some.inj hy
  subst hxy
  have hcut := length_cut x hmic
  refine ⟨_, hopened, ?_, ?_, ?_⟩
  · intro i hi
    rw [write_of_outside hcut (by omega), hplain i hi]
  · intro i hi
    apply Option.some.inj
    rw [hsealed.written i hi, write_apply (by omega), List.getElem?_eq_getElem]
  · intro j hj hj'
    rw [write_of_outside hcut hj', xorStream_of_outside hj]

/-- CCM* inverts itself exactly on the lengths for which no position wraps. -/
theorem inverts_iff (hmic : micLen.toNat ≤ 16) (hma : Apart m mLen.toNat a aLen.toNat)
    (hmr : Apart m mLen.toNat result micLen.toNat) (har : Apart a aLen.toNat result micLen.toNat)
    (hmr' : Apart m mLen.toNat result' micLen.toNat) :
    Inverts encrypt nonce mem m mLen a aLen result result' micLen ↔
      mLen.toNat ≤ 240 ∧ aLen.toNat ≤ 254 := by
  constructor
  · rintro ⟨fuel, sealed, opened, hsealed, -⟩
    by_contra hlong
    rw [aead_diverges (by omega)] at hsealed
    cases hsealed
  · rintro ⟨hm, ha⟩
    have hfuel : 16 < 17 := by decide
    obtain ⟨sealed, x, haead, hsealed⟩ := aead_seals encrypt nonce mem m a result mLen aLen hmic hm
      ha hfuel hmr
    have hdata : ∀ i < aLen.toNat, sealed (a + i) = mem (a + i) := by
      intro i hi
      exact hsealed.other _ (by omega) (by omega)
    obtain ⟨opened, haead', htext, hresult, hother⟩ := aead_opens sealed m a result' hmic hm ha
      hfuel hsealed (fun _ _ => rfl) hdata hma hmr'
    exact ⟨17, sealed, opened, haead, haead', htext, hresult, hsealed.other, hother⟩

/-- A message of two blocks, the second one partial. -/
theorem inverts_of_twenty : Inverts (fun x i => x i + 1) (fun _ => 7) (fun j => UInt8.ofNat j)
    100 20 50 10 120 200 8 :=
  (inverts_iff (by decide) (by decide) (by decide) (by decide) (by decide)).mpr
    ⟨by decide, by decide⟩

/-- A message of 241 bytes: the position wraps to 0, and encryption does not end. -/
theorem not_inverts_of_241 : ¬ Inverts (fun x i => x i + 1) (fun _ => 7) (fun j => UInt8.ofNat j)
    100 241 50 10 400 500 8 := by
  rintro ⟨fuel, sealed, opened, hsealed, -⟩
  rw [aead_diverges (.inl (by decide))] at hsealed
  cases hsealed

end

end MasterScheduler.Mote.CcmStar
