import Mathlib.Data.BitVec
import Mathlib.Logic.Function.Basic
import Mathlib.Tactic.Common

/-!
# MasterScheduler.Lib.Blocks — a bitmap of blocks

One bit for every block, the most significant bit of a byte first. A range of
blocks is marked byte by byte: with a mask at either end, and with full bytes
between them.

- `isMarked_mark`: the blocks that are marked afterwards.
- `isMarked_of_full`: the test for a marked beginning.
-/

namespace MasterScheduler.Lib

/-- The mask of the bits from the `k`-th one on. -/
def bitsFrom (k : ℕ) : BitVec 8 :=
  ([0xff, 0x7f, 0x3f, 0x1f, 0x0f, 0x07, 0x03, 0x01] : List (BitVec 8)).getD k 0

/-- Whether a block is marked. -/
def isMarked (m : ℕ → BitVec 8) (b : ℕ) : Bool := (m (b / 8)).getMsbD (b % 8)

/-- Mark the blocks from bit `k` of byte `i` to the one in front of bit `l` of byte `j`. -/
def mark (m : ℕ → BitVec 8) (i k j l : ℕ) : ℕ → BitVec 8 :=
  if i = j then Function.update m i (m i ||| (bitsFrom k &&& ~~~ bitsFrom l))
  else
    let m := Function.update m i (m i ||| bitsFrom k)
    let m := fun x => if i < x ∧ x < j then 0xff#8 else m x
    Function.update m j (m j ||| ~~~ bitsFrom l)

/-- Whether just the blocks in front of bit `l` of byte `j` are marked in the bytes up to `j`. -/
def isFull (m : ℕ → BitVec 8) (j l : ℕ) : Bool :=
  (List.range j).all (fun i => m i == 0xff) && m j == ~~~ bitsFrom l

variable {m : ℕ → BitVec 8} {i k j l a e b : ℕ}

theorem getMsbD_bitsFrom (hk : k < 8) (hb : b < 8) :
    (bitsFrom k).getMsbD b = decide (k ≤ b) := by
  have hall : ∀ k < 8, ∀ b < 8, (bitsFrom k).getMsbD b = decide (k ≤ b) := by decide
  exact hall k hk b hb

theorem getMsbD_not_bitsFrom (hk : k < 8) (hb : b < 8) :
    (~~~ bitsFrom k).getMsbD b = decide (b < k) := by
  have hall : ∀ k < 8, ∀ b < 8, (~~~ bitsFrom k).getMsbD b = decide (b < k) := by decide
  exact hall k hk b hb

theorem getMsbD_full (hb : b < 8) : (0xff#8).getMsbD b = true := by
  have hall : ∀ b < 8, (0xff#8).getMsbD b = true := by decide
  exact hall b hb

/-- The range is marked, and what was marked before. -/
theorem isMarked_mark (h : a ≤ e) :
    isMarked (mark m (a / 8) (a % 8) (e / 8) (e % 8)) b =
      (isMarked m b || decide (a ≤ b ∧ b < e)) := by
  have ha : a % 8 < 8 := Nat.mod_lt _ (by decide)
  have he : e % 8 < 8 := Nat.mod_lt _ (by decide)
  have hb : b % 8 < 8 := Nat.mod_lt _ (by decide)
  unfold mark
  split
  -- First and last bit in one byte: one mask.
  · rename_i hsame
    by_cases hbyte : b / 8 = a / 8
    · rw [isMarked, isMarked, hbyte, Function.update_self, BitVec.getMsbD_or, BitVec.getMsbD_and,
        getMsbD_bitsFrom ha hb, getMsbD_not_bitsFrom he hb, ← Bool.decide_and]
      congr 1
      exact decide_eq_decide.mpr (by omega)
    · have hout : ¬ (a ≤ b ∧ b < e) := by omega
      rw [isMarked, Function.update_of_ne hbyte, decide_eq_false hout, Bool.or_false, isMarked]
  -- Else the first byte, the last byte, and those between are written one by one.
  · rename_i hdiff
    by_cases hlast : b / 8 = e / 8
    · have hnot : ¬ (a / 8 < e / 8 ∧ e / 8 < e / 8) := by omega
      dsimp only
      rw [isMarked, isMarked, hlast, Function.update_self, if_neg hnot,
        Function.update_of_ne (by omega), BitVec.getMsbD_or, getMsbD_not_bitsFrom he hb]
      congr 1
      exact decide_eq_decide.mpr (by omega)
    · dsimp only
      rw [isMarked, Function.update_of_ne hlast, isMarked]
      split
      · rename_i hmid
        have hin : a ≤ b ∧ b < e := by omega
        rw [getMsbD_full hb, decide_eq_true hin, Bool.or_true]
      · rename_i hmid
        by_cases hfirst : b / 8 = a / 8
        · rw [hfirst, Function.update_self, BitVec.getMsbD_or, getMsbD_bitsFrom ha hb]
          congr 1
          exact decide_eq_decide.mpr (by omega)
        · have hout : ¬ (a ≤ b ∧ b < e) := by omega
          rw [Function.update_of_ne hfirst, decide_eq_false hout, Bool.or_false]

/-- If the test succeeds, every block in front is marked. -/
theorem isMarked_of_full (h : isFull m (e / 8) (e % 8) = true) (hb : b < e) :
    isMarked m b = true := by
  have he : e % 8 < 8 := Nat.mod_lt _ (by decide)
  have hb8 : b % 8 < 8 := Nat.mod_lt _ (by decide)
  simp only [isFull, Bool.and_eq_true, List.all_eq_true, List.mem_range, beq_iff_eq] at h
  obtain ⟨hbytes, hlast⟩ := h
  rw [isMarked]
  by_cases hbyte : b / 8 = e / 8
  · rw [hbyte, hlast, getMsbD_not_bitsFrom he hb8]
    exact decide_eq_true (by omega)
  · rw [hbytes (b / 8) (by omega)]
    exact getMsbD_full hb8

end MasterScheduler.Lib
