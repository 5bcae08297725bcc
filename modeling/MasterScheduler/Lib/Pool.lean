import Mathlib.Data.Finset.Card
import Mathlib.Data.Fintype.Card
import Mathlib.Data.List.FinRange
import Mathlib.Data.List.Nodup

/-!
# MasterScheduler.Lib.Pool — pools of equal blocks

A pool says which of its blocks are in use. An allocation takes the first one
that is not.

- `free_eq_some`, `free_eq_none`, `exists_free`: what an allocation finds.
- `inUse_eq_length`, `inUse_eq_length_of_map`: a list of the blocks, or a list
  that the blocks name one by one.
-/

namespace MasterScheduler.Lib

/-- Which blocks of a pool are in use. -/
abbrev Pool (n : ℕ) := Fin n → Bool

namespace Pool

variable {n : ℕ} {α : Type*} {p : Pool n} {i j : Fin n}

/-- The first block that is not in use. -/
def free (p : Pool n) : Option (Fin n) := (List.finRange n).find? fun i => !p i

/-- A block comes into use. -/
def take (p : Pool n) (i : Fin n) : Pool n := Function.update p i true

/-- A block goes out of use. -/
def release (p : Pool n) (i : Fin n) : Pool n := Function.update p i false

/-- The number of blocks in use. -/
def inUse (p : Pool n) : ℕ := (Finset.univ.filter fun i => p i = true).card

/-- The pool without a block in use. -/
def empty (n : ℕ) : Pool n := fun _ => false

@[simp] theorem take_self : p.take i i = true := Function.update_self _ _ _

@[simp] theorem release_self : p.release i i = false := Function.update_self _ _ _

theorem take_of_ne (h : j ≠ i) : p.take i j = p j := Function.update_of_ne h _ _

theorem release_of_ne (h : j ≠ i) : p.release i j = p j := Function.update_of_ne h _ _

theorem take_eq_true : p.take i j = true ↔ j = i ∨ p j = true := by
  by_cases h : j = i
  · subst h
    simp
  · rw [take_of_ne h]
    simp [h]

theorem release_eq_true : p.release i j = true ↔ j ≠ i ∧ p j = true := by
  by_cases h : j = i
  · subst h
    simp
  · rw [release_of_ne h]
    simp [h]

/-- Taking a free block and releasing it again changes nothing. -/
theorem release_take (h : p i = false) : (p.take i).release i = p := by
  funext j
  by_cases hj : j = i
  · subst hj
    rw [release_self, h]
  · rw [release_of_ne hj, take_of_ne hj]

theorem free_eq_some (h : p.free = some i) : p i = false := by
  have := List.find?_some h
  simpa using this

theorem free_eq_none : p.free = none ↔ ∀ i, p i = true := by
  rw [free, List.find?_eq_none]
  simp

theorem inUse_le : p.inUse ≤ n := by
  have := Finset.card_filter_le (Finset.univ : Finset (Fin n)) fun i => p i = true
  simpa [inUse] using this

/-- A block is free unless all are in use. -/
theorem exists_free (h : p.inUse < n) : ∃ i, p.free = some i := by
  rw [← Option.isSome_iff_exists, Option.isSome_iff_ne_none]
  intro hnone
  -- With no free block the blocks in use are all `n`.
  have hall := free_eq_none.mp hnone
  simp [inUse, hall] at h

/-- The blocks in use are those of a list. -/
theorem inUse_eq_length {l : List (Fin n)} (hl : l.Nodup) (h : ∀ i, i ∈ l ↔ p i = true) :
    p.inUse = l.length := by
  rw [← List.toFinset_card_of_nodup hl, inUse]
  congr 1
  ext i
  simp [h]

/-- The blocks in use name the entries of a list, each entry once. -/
theorem inUse_eq_length_of_map [DecidableEq α] {l : List α} {f : Fin n → α} (hl : l.Nodup)
    (hinj : ∀ i j, p i = true → p j = true → f i = f j → i = j)
    (h : ∀ a, a ∈ l ↔ ∃ i, p i = true ∧ f i = a) : p.inUse = l.length := by
  rw [← List.toFinset_card_of_nodup hl, inUse]
  have himage : l.toFinset = (Finset.univ.filter fun i => p i = true).image f := by
    ext a
    simp [h]
  rw [himage, Finset.card_image_of_injOn]
  intro i hi j hj hij
  exact hinj i j (by simpa using hi) (by simpa using hj) hij

end Pool

end MasterScheduler.Lib
