import Mathlib.Data.Nat.Bitwise
import MasterScheduler.Lib.Bytes

/-!
# MasterScheduler.Lib.Words — machine words in a memory

A word of `w` bytes at an address, least significant byte first, and what an
unsigned type of that width keeps of a number.

- `load_store`, `load_store_of_apart`: what is stored is loaded, and nothing else changes.
- `move_apply`: what is copied is found at the new address.
- `and_complement`: rounding down to a power of two by masking.
-/

namespace MasterScheduler.Lib

namespace Memory

/-- The number in `w` bytes at an address. -/
def load (m : Memory) : ℕ → ℕ → ℕ
  | _, 0 => 0
  | p, w + 1 => (m p).toNat + 256 * load m (p + 1) w

/-- The memory with a number in `w` bytes at an address; a larger number is truncated. -/
def store (m : Memory) (p w v : ℕ) : Memory := fun i =>
  if p ≤ i ∧ i < p + w then UInt8.ofNat (v / 256 ^ (i - p)) else m i

theorem load_congr {m m' : Memory} {w : ℕ} :
    ∀ {p : ℕ}, (∀ i, p ≤ i → i < p + w → m i = m' i) → m.load p w = m'.load p w := by
  induction w with
  | zero =>
    intro p _
    rfl
  | succ w ih =>
    intro p h
    have hrest : m.load (p + 1) w = m'.load (p + 1) w := by
      apply ih
      intro i hi hi'
      exact h i (by omega) (by omega)
    simp only [load, hrest, h p (by omega) (by omega)]

theorem load_lt (m : Memory) (p w : ℕ) : m.load p w < 256 ^ w := by
  induction w generalizing p with
  | zero => exact Nat.one_pos
  | succ w ih =>
    have hbyte := (m p).toNat_lt
    have hrest := ih (p + 1)
    simp only [load, pow_succ]
    omega

theorem store_of_apart {m : Memory} {p w v i : ℕ} (h : i < p ∨ p + w ≤ i) :
    m.store p w v i = m i := by
  unfold store
  rw [if_neg]
  omega

theorem load_store_mod (m : Memory) (p w v : ℕ) : (m.store p w v).load p w = v % 256 ^ w := by
  induction w generalizing m p v with
  | zero => simp [load, Nat.mod_one]
  | succ w ih =>
    have hfirst : m.store p (w + 1) v p = UInt8.ofNat v := by
      simp [store]
    -- The bytes behind the first are those of the quotient by 256.
    have hrest : (m.store p (w + 1) v).load (p + 1) w =
        (m.store (p + 1) w (v / 256)).load (p + 1) w := by
      apply load_congr
      intro i hi hi'
      have hexp : i - p = i - (p + 1) + 1 := by omega
      simp only [store]
      rw [if_pos (by omega), if_pos (by omega), hexp, pow_succ', Nat.div_div_eq_div_mul]
    have hmod : v % 256 ^ (w + 1) = v % 256 + 256 * (v / 256 % 256 ^ w) := by
      rw [pow_succ', Nat.mod_mul]
    simp only [load, hfirst, hrest, ih, UInt8.toNat_ofNat', hmod]

theorem load_store {m : Memory} {p w v : ℕ} (h : v < 256 ^ w) : (m.store p w v).load p w = v := by
  rw [load_store_mod, Nat.mod_eq_of_lt h]

theorem load_store_of_apart {m : Memory} {p q w w' v : ℕ} (h : p + w ≤ q ∨ q + w' ≤ p) :
    (m.store q w' v).load p w = m.load p w := by
  apply load_congr
  intro i hi hi'
  exact store_of_apart (by omega)

theorem move_apply {m : Memory} {dst src n i : ℕ} (h : i < n) :
    m.move dst src n (dst + i) = m (src + i) := by
  rw [move, write, if_pos (by omega), Nat.add_sub_cancel_left, getElem?_read h]
  rfl

theorem move_of_apart {m : Memory} {dst src n i : ℕ} (h : i < dst ∨ dst + n ≤ i) :
    m.move dst src n i = m i := by
  rcases h with h | h
  · exact write_below h
  · exact write_above (by simpa using h)

end Memory

/-- Masking with the complement of `2 ^ k - 1` rounds down to a multiple of `2 ^ k`. -/
theorem and_complement {x k w : ℕ} (hx : x < 2 ^ w) (hk : k ≤ w) :
    x &&& (2 ^ w - 1 - (2 ^ k - 1)) = x / 2 ^ k * 2 ^ k := by
  have hpos : 0 < 2 ^ k := Nat.two_pow_pos k
  have hle : 2 ^ k ≤ 2 ^ w := Nat.pow_le_pow_right (by decide) hk
  have hcomp : 2 ^ w - 1 - (2 ^ k - 1) = 2 ^ w - ((2 ^ k - 1) + 1) := by omega
  rw [hcomp, ← Nat.shiftRight_eq_div_pow, ← Nat.shiftLeft_eq]
  apply Nat.eq_of_testBit_eq
  intro i
  rw [Nat.testBit_and, Nat.testBit_two_pow_sub_succ (by omega), Nat.testBit_two_pow_sub_one,
    Nat.testBit_shiftLeft, Nat.testBit_shiftRight]
  -- The bits below `k` are cleared, the others stay.
  by_cases hik : k ≤ i
  · have hadd : k + (i - k) = i := by omega
    by_cases hiw : i < w
    · simp [hadd, hik, hiw]
    · have hbit : x.testBit i = false :=
        Nat.testBit_lt_two_pow (lt_of_lt_of_le hx (Nat.pow_le_pow_right (by decide) (by omega)))
      simp [hadd, hbit]
  · simp [hik, Nat.lt_of_not_le hik]

end MasterScheduler.Lib
