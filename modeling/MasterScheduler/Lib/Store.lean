import Mathlib.Algebra.BigOperators.Group.Finset.Basic
import Mathlib.Algebra.BigOperators.Intervals
import Mathlib.Order.Interval.Finset.Nat
import Mathlib.Tactic.Linarith
import Mathlib.Tactic.Ring

/-!
# MasterScheduler.Lib.Store — files written in chunks

A store that is written at arbitrary offsets, and files cut into chunks of
`p` elements, numbered from one. Writing the chunks in any order, any number
of times, puts the file together.

- `holds_writeAt`, `Holds.writeAt_disjoint`: what a write stores and keeps.
- `writeAt_writeAt`: consecutive writes are one write.
- `holds_of_chunks`: a store that holds every chunk holds the file.
- `sum_length_chunk`: the chunk lengths add up to the file length.
-/

namespace MasterScheduler.Lib

section

variable {α : Type*}

/-- Overwrite from position `off` on; a gap behind the end is filled with `z`. -/
def writeAt (z : α) (s : List α) (off : ℕ) (d : List α) : List α :=
  (s ++ List.replicate (off - s.length) z).take off ++ (d ++ s.drop (off + d.length))

/-- The `n` elements from position `off` on, or as many as there are. -/
def readAt (s : List α) (off n : ℕ) : List α := (s.drop off).take n

/-- The store holds the data at the offset. -/
def Holds (s : List α) (off : ℕ) (d : List α) : Prop := ∀ i < d.length, s[off + i]? = d[i]?

theorem length_take_pad (z : α) (s : List α) (off : ℕ) :
    ((s ++ List.replicate (off - s.length) z).take off).length = off := by
  simp
  omega

theorem holds_writeAt (z : α) (s : List α) (off : ℕ) (d : List α) :
    Holds (writeAt z s off d) off d := by
  intro i hi
  have hlen := length_take_pad z s off
  unfold writeAt
  rw [List.getElem?_append_right (by omega), hlen, Nat.add_sub_cancel_left,
    List.getElem?_append_left hi]

theorem getElem?_writeAt_of_disjoint {z : α} {s : List α} {off i : ℕ} {d : List α}
    (hi : i < s.length) (h : i < off ∨ off + d.length ≤ i) :
    (writeAt z s off d)[i]? = s[i]? := by
  have hlen := length_take_pad z s off
  unfold writeAt
  rcases h with h | h
  · rw [List.getElem?_append_left (by omega), List.getElem?_take_of_lt h,
      List.getElem?_append_left hi]
  · rw [List.getElem?_append_right (by omega), hlen, List.getElem?_append_right (by omega),
      List.getElem?_drop]
    congr 1
    omega

theorem Holds.writeAt_disjoint {z : α} {s : List α} {off off' : ℕ} {d d' : List α}
    (hs : Holds s off' d') (h : off' + d'.length ≤ off ∨ off + d.length ≤ off') :
    Holds (writeAt z s off d) off' d' := by
  intro i hi
  have hlt : off' + i < s.length := by
    by_contra hge
    have := hs i hi
    rw [List.getElem?_eq_none (not_lt.1 hge), List.getElem?_eq_getElem hi] at this
    cases this
  rw [getElem?_writeAt_of_disjoint hlt (by omega)]
  exact hs i hi

/-- Two writes, the second where the first ended. -/
theorem writeAt_writeAt (z : α) (s : List α) (off : ℕ) (d d' : List α) :
    writeAt z (writeAt z s off d) (off + d.length) d' = writeAt z s off (d ++ d') := by
  have hlen := length_take_pad z s off
  have hfull : off + d.length - (writeAt z s off d).length = 0 := by
    unfold writeAt
    rw [List.length_append, List.length_append, hlen]
    omega
  have htake : (writeAt z s off d).take (off + d.length) =
      (s ++ List.replicate (off - s.length) z).take off ++ d := by
    unfold writeAt
    rw [← List.append_assoc, List.take_left']
    rw [List.length_append, hlen]
  have hdrop : (writeAt z s off d).drop (off + d.length + d'.length) =
      s.drop (off + (d ++ d').length) := by
    unfold writeAt
    rw [← List.drop_drop, ← List.append_assoc, List.drop_left', List.drop_drop,
      List.length_append, Nat.add_assoc]
    rw [List.length_append, hlen]
  rw [writeAt, hfull, List.replicate_zero, List.append_nil, htake, hdrop, writeAt]
  simp

theorem writeAt_zero (z : α) (s d : List α) : writeAt z s 0 d = d ++ s.drop d.length := by
  simp [writeAt]

theorem holds_self (d : List α) : Holds d 0 d := by
  intro i _
  rw [Nat.zero_add]

theorem take_eq_of_holds {s d : List α} (h : Holds s 0 d) : s.take d.length = d := by
  refine List.ext_getElem? fun i => ?_
  by_cases hi : i < d.length
  · rw [List.getElem?_take_of_lt hi]
    simpa using h i hi
  · rw [List.getElem?_eq_none (by simp; omega), List.getElem?_eq_none (by omega)]

/-- Reading inside the part of the store that holds the data. -/
theorem Holds.readAt_eq {s d : List α} {off n : ℕ} (h : Holds s 0 d) (hn : off + n ≤ d.length) :
    readAt s off n = readAt d off n := by
  refine List.ext_getElem? fun i => ?_
  unfold readAt
  by_cases hi : i < n
  · rw [List.getElem?_take_of_lt hi, List.getElem?_take_of_lt hi, List.getElem?_drop,
      List.getElem?_drop]
    simpa using h (off + i) (by omega)
  · rw [List.getElem?_eq_none (by simp; omega), List.getElem?_eq_none (by simp; omega)]

theorem length_readAt (s : List α) (off n : ℕ) :
    (readAt s off n).length = min n (s.length - off) := by
  simp [readAt]

/-! ## Chunks -/

/-- Chunk `k` of a file, `k` counted from one. -/
def chunk (p : ℕ) (f : List α) (k : ℕ) : List α := readAt f ((k - 1) * p) p

theorem length_chunk (p : ℕ) (f : List α) (k : ℕ) :
    (chunk p f k).length = min p (f.length - (k - 1) * p) := length_readAt _ _ _

/-- A chunk lies in its file. -/
theorem holds_chunk (p : ℕ) (f : List α) (k : ℕ) : Holds f ((k - 1) * p) (chunk p f k) := by
  intro i hi
  rw [length_chunk] at hi
  unfold chunk readAt
  rw [List.getElem?_take_of_lt (by omega), List.getElem?_drop]

/-- Different chunks occupy disjoint parts of the file. -/
theorem chunk_disjoint {p : ℕ} {f : List α} {k k' : ℕ} (hk : 1 ≤ k) (hk' : 1 ≤ k')
    (hne : k ≠ k') :
    (k' - 1) * p + (chunk p f k').length ≤ (k - 1) * p ∨
      (k - 1) * p + (chunk p f k).length ≤ (k' - 1) * p := by
  rw [length_chunk, length_chunk]
  have step : ∀ a b : ℕ, a < b → a * p + p ≤ b * p := by
    intro a b hab
    calc a * p + p = (a + 1) * p := by ring
      _ ≤ b * p := Nat.mul_le_mul_right p hab
  rcases Nat.lt_or_gt_of_ne hne with h | h
  · have := step (k - 1) (k' - 1) (by omega)
    omega
  · have := step (k' - 1) (k - 1) (by omega)
    omega

theorem holds_of_chunks {p : ℕ} (hp : 0 < p) {s f : List α} {n : ℕ} (hn : f.length ≤ n * p)
    (h : ∀ k, 1 ≤ k → k ≤ n → Holds s ((k - 1) * p) (chunk p f k)) : Holds s 0 f := by
  intro i hi
  -- position `i` is in chunk `i / p + 1`
  have hdiv : i / p * p + i % p = i := by rw [Nat.mul_comm]; exact Nat.div_add_mod i p
  have hmod : i % p < p := Nat.mod_lt i hp
  have hk : i / p + 1 ≤ n := by
    by_contra hgt
    have : n * p ≤ i / p * p := Nat.mul_le_mul_right p (by omega)
    omega
  have hlen : i % p < (chunk p f (i / p + 1)).length := by
    rw [length_chunk, Nat.add_sub_cancel]
    omega
  have := h (i / p + 1) (Nat.le_add_left 1 _) hk (i % p) hlen
  rw [Nat.add_sub_cancel, hdiv] at this
  rw [Nat.zero_add, this, chunk, readAt, List.getElem?_take_of_lt hmod, List.getElem?_drop,
    Nat.add_sub_cancel, hdiv]

theorem sum_length_chunk (p : ℕ) (f : List α) (n : ℕ) :
    ∑ k ∈ Finset.Icc 1 n, (chunk p f k).length = min f.length (n * p) := by
  induction n with
  | zero => simp
  | succ n ih =>
    rw [Finset.sum_Icc_succ_top (by omega), ih, length_chunk, Nat.add_sub_cancel]
    have : (n + 1) * p = n * p + p := by ring
    omega

end

end MasterScheduler.Lib
