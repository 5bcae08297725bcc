import Mathlib.Data.List.Basic
import Mathlib.Data.List.Range

/-!
# MasterScheduler.Lib.Bytes — words in little-endian order and flat memory

A word is read from and written to bytes, least significant first. A memory is
a total function on addresses: a write past the end of an object changes
what lies behind it and nothing of the object.

- `word_le16`, `dword_le32`: what is written is read back.
- `read_write_self`, `read_write_below`, `read_write_above`: a write in its own
  range and outside of it.
-/

namespace MasterScheduler.Lib

/-- Two bytes as a word. -/
def word (lo hi : UInt8) : ℕ := lo.toNat + 256 * hi.toNat

/-- The two bytes of a word; a larger number is truncated. -/
def le16 (n : ℕ) : List UInt8 := [UInt8.ofNat n, UInt8.ofNat (n / 256)]

/-- Four bytes as a double word. -/
def dword (b₀ b₁ b₂ b₃ : UInt8) : ℕ := word b₀ b₁ + 65536 * word b₂ b₃

/-- The four bytes of a double word. -/
def le32 (n : ℕ) : List UInt8 := le16 n ++ le16 (n / 65536)

theorem word_lt (lo hi : UInt8) : word lo hi < 65536 := by
  have hlo := lo.toNat_lt
  have hhi := hi.toNat_lt
  unfold word
  omega

theorem word_le16 {n : ℕ} (h : n < 65536) :
    word (UInt8.ofNat n) (UInt8.ofNat (n / 256)) = n := by
  simp only [word, UInt8.toNat_ofNat']
  omega

theorem le16_word (lo hi : UInt8) : le16 (word lo hi) = [lo, hi] := by
  have hlo := lo.toNat_lt
  have hhi := hi.toNat_lt
  have h₀ : UInt8.ofNat (word lo hi) = lo := by
    apply UInt8.toNat_inj.mp
    simp only [word, UInt8.toNat_ofNat']
    omega
  have h₁ : UInt8.ofNat (word lo hi / 256) = hi := by
    apply UInt8.toNat_inj.mp
    simp only [word, UInt8.toNat_ofNat']
    omega
  rw [le16, h₀, h₁]

theorem dword_le32 {n : ℕ} (h : n < 4294967296) :
    dword (UInt8.ofNat n) (UInt8.ofNat (n / 256)) (UInt8.ofNat (n / 65536))
      (UInt8.ofNat (n / 65536 / 256)) = n := by
  have hlow : word (UInt8.ofNat n) (UInt8.ofNat (n / 256)) = n % 65536 := by
    simp only [word, UInt8.toNat_ofNat']
    omega
  rw [dword, hlow, word_le16 (by omega)]
  omega

@[simp] theorem length_le16 (n : ℕ) : (le16 n).length = 2 := rfl

/-- A memory of bytes. -/
abbrev Memory := ℕ → UInt8

namespace Memory

/-- The bytes of a range. -/
def read (m : Memory) (p n : ℕ) : List UInt8 := (List.range' p n).map m

/-- The memory after storing bytes at an address. -/
def write (m : Memory) (p : ℕ) (bs : List UInt8) : Memory := fun i =>
  if p ≤ i then (bs[i - p]?).getD (m i) else m i

/-- `memmove`: the source is read before the destination is written. -/
def move (m : Memory) (dst src n : ℕ) : Memory := m.write dst (m.read src n)

variable {m m' : Memory} {p q n : ℕ} {bs : List UInt8}

@[simp] theorem length_read : (m.read p n).length = n := by
  simp [read]

theorem getElem?_read {i : ℕ} (h : i < n) : (m.read p n)[i]? = some (m (p + i)) := by
  simp [read, List.getElem?_range' h]

theorem read_append (m : Memory) (p a b : ℕ) :
    m.read p (a + b) = m.read p a ++ m.read (p + a) b := by
  rw [read, ← List.range'_append_1, List.map_append]
  rfl

theorem read_append_inj {a b : List UInt8} (h : m.read p (a ++ b).length = a ++ b) :
    m.read p a.length = a ∧ m.read (p + a.length) b.length = b := by
  rw [List.length_append, read_append] at h
  exact List.append_inj h length_read

/-- A part of a range. -/
theorem read_slice {a b : ℕ} (h : a + b ≤ n) : ((m.read p n).drop a).take b = m.read (p + a) b := by
  have hn : n = a + (b + (n - (a + b))) := by omega
  rw [hn, read_append, read_append, List.drop_left' length_read, List.take_left' length_read]

theorem read_two (m : Memory) (p : ℕ) : m.read p 2 = [m p, m (p + 1)] := rfl

theorem read_congr (h : ∀ i, p ≤ i → i < p + n → m i = m' i) : m.read p n = m'.read p n := by
  apply List.map_congr_left
  intro i hi
  rw [List.mem_range'_1] at hi
  exact h i hi.1 hi.2

theorem write_below {i : ℕ} (h : i < p) : m.write p bs i = m i := by
  rw [write, if_neg (by omega)]

theorem write_above {i : ℕ} (h : p + bs.length ≤ i) : m.write p bs i = m i := by
  unfold write
  split
  · rw [List.getElem?_eq_none (by omega)]
    rfl
  · rfl

theorem read_write_self (m : Memory) (p : ℕ) (bs : List UInt8) :
    (m.write p bs).read p bs.length = bs := by
  apply List.ext_getElem?
  intro i
  by_cases hi : i < bs.length
  · rw [getElem?_read hi, write, if_pos (by omega), Nat.add_sub_cancel_left,
      List.getElem?_eq_getElem hi]
    rfl
  · rw [List.getElem?_eq_none (by simpa using hi), List.getElem?_eq_none (by omega)]

theorem read_write_below (h : q + n ≤ p) : (m.write p bs).read q n = m.read q n := by
  apply read_congr
  intro i _ hi
  exact write_below (by omega)

theorem read_write_above (h : p + bs.length ≤ q) : (m.write p bs).read q n = m.read q n := by
  apply read_congr
  intro i hi _
  exact write_above (by omega)

/-- Two writes, the second behind the first. -/
theorem write_append (m : Memory) (p : ℕ) (a b : List UInt8) :
    (m.write p a).write (p + a.length) b = m.write p (a ++ b) := by
  funext i
  unfold write
  by_cases hp : p ≤ i
  · by_cases ha : p + a.length ≤ i
    · have hnone : a[i - p]? = none := List.getElem?_eq_none (by omega)
      rw [if_pos ha, if_pos hp, if_pos hp, hnone, List.getElem?_append_right (by omega),
        Nat.sub_add_eq]
      rfl
    · rw [if_neg ha, if_pos hp, if_pos hp, List.getElem?_append_left (by omega)]
  · rw [if_neg (by omega), if_neg hp, if_neg hp]

/-- Bytes put in front of a range that was moved to make room for them. -/
theorem read_write_move (m : Memory) (p n : ℕ) (bs : List UInt8) :
    ((m.move (p + bs.length) p n).write p bs).read p (bs.length + n) = bs ++ m.read p n := by
  have hself := read_write_self m (p + bs.length) (m.read p n)
  rw [length_read] at hself
  rw [read_append, read_write_self, read_write_above (le_refl _)]
  exact congrArg (bs ++ ·) hself

/-- Bytes in the middle of a range replaced by as many others. -/
theorem read_write_patch {a b c b' : List UInt8} (hlen : b'.length = b.length)
    (h : m.read p (a ++ (b ++ c)).length = a ++ (b ++ c)) :
    (m.write (p + a.length) b').read p (a ++ (b' ++ c)).length = a ++ (b' ++ c) := by
  rcases read_append_inj h with ⟨ha, hbc⟩
  rcases read_append_inj hbc with ⟨_, hc⟩
  -- What is behind starts where it did, as the length is the same.
  rw [← hlen] at hc
  rw [List.length_append, read_append, read_write_below (le_refl _), ha, List.length_append,
    read_append, read_write_self, read_write_above (le_refl _), hc]

end Memory

end MasterScheduler.Lib
