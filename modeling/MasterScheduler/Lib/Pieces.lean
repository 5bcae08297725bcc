import Mathlib.Algebra.BigOperators.Group.Finset.Basic
import Mathlib.Algebra.Order.BigOperators.Group.Finset
import Mathlib.Algebra.Order.Ring.Nat

/-!
# MasterScheduler.Lib.Pieces — a range that is cut into pieces

A range of numbers is cut into pieces of a size, where the last one may be
shorter. A piece is its first number and its length.

- `pieces_cover`: every number is in a piece.
- `all_of_le_sum`: pieces that are as long as the range are all of them.
- `sum_of_all`: all of them are as long as the range.
-/

namespace MasterScheduler.Lib

/-- The pieces from a number on, in as many rounds. -/
def pieces (size total : ℕ) : ℕ → ℕ → List (ℕ × ℕ)
  | 0, _ => []
  | n + 1, a =>
    if a < total then
      let len := min size (total - a)
      (a, len) :: pieces size total n (a + len)
    else []

variable {size total n a x k : ℕ} {p : ℕ × ℕ}

theorem mem_pieces (hsize : 0 < size) (hp : p ∈ pieces size total n a) :
    a ≤ p.1 ∧ 0 < p.2 ∧ p.2 ≤ size ∧ p.1 + p.2 ≤ total := by
  induction n generalizing a with
  | zero => cases hp
  | succ n ih =>
    rw [pieces] at hp
    split at hp
    · rcases List.mem_cons.mp hp with rfl | hp
      · dsimp only
        omega
      · obtain ⟨hfirst, hrest⟩ := ih hp
        exact ⟨by omega, hrest⟩
    · cases hp

/-- A size and a first number in units give pieces in units. -/
theorem dvd_of_mem_pieces (hsize : k ∣ size) (ha : k ∣ a) (hp : p ∈ pieces size total n a) :
    k ∣ p.1 := by
  induction n generalizing a with
  | zero => cases hp
  | succ n ih =>
    rw [pieces] at hp
    split at hp
    · rcases List.mem_cons.mp hp with rfl | hp
      · exact ha
      · rcases le_total size (total - a) with hle | hle
        · rw [min_eq_left hle] at hp
          exact ih (Nat.dvd_add ha hsize) hp
        · -- it was the last piece
          rw [min_eq_right hle, Nat.add_sub_cancel' (by omega)] at hp
          cases n with
          | zero => cases hp
          | succ n =>
            rw [pieces, if_neg (lt_irrefl total)] at hp
            cases hp
    · cases hp

theorem pieces_cover (hsize : 0 < size) (hn : total - a ≤ n) (ha : a ≤ x) (hx : x < total) :
    ∃ p ∈ pieces size total n a, p.1 ≤ x ∧ x < p.1 + p.2 := by
  induction n generalizing a with
  | zero => omega
  | succ n ih =>
    rw [pieces, if_pos (by omega)]
    dsimp only
    by_cases hlast : x < a + min size (total - a)
    · exact ⟨_, List.mem_cons_self, ha, hlast⟩
    · obtain ⟨p, hp, hin⟩ := ih (a := a + min size (total - a)) (by omega) (by omega)
      exact ⟨p, List.mem_cons_of_mem _ hp, hin⟩

theorem nodup_pieces (hsize : 0 < size) : ((pieces size total n a).map Prod.fst).Nodup := by
  induction n generalizing a with
  | zero => exact List.nodup_nil
  | succ n ih =>
    rw [pieces]
    split
    · rw [List.map_cons, List.nodup_cons]
      refine ⟨fun hmem => ?_, ih⟩
      obtain ⟨p, hp, heq⟩ := List.mem_map.mp hmem
      have hle := (mem_pieces hsize hp).1
      omega
    · exact List.nodup_nil

theorem sum_pieces (hsize : 0 < size) (hn : total - a ≤ n) :
    ((pieces size total n a).map Prod.snd).sum = total - a := by
  induction n generalizing a with
  | zero =>
    rw [pieces, List.map_nil, List.sum_nil]
    omega
  | succ n ih =>
    rw [pieces]
    split
    · rw [List.map_cons, List.sum_cons, ih (by omega)]
      omega
    · rw [List.map_nil, List.sum_nil]
      omega

/-! ## Pieces that were collected -/

section Collected

variable {ι : Type*} {s : Finset ι} {f : ι → ℕ × ℕ} {l : List (ℕ × ℕ)}

theorem sum_collected (hmem : ∀ i ∈ s, f i ∈ l) (hinj : Set.InjOn f s) :
    s.image f ⊆ l.toFinset ∧ ∑ p ∈ s.image f, p.2 = ∑ i ∈ s, (f i).2 := by
  refine ⟨fun p hp => ?_, Finset.sum_image hinj⟩
  obtain ⟨i, hi, rfl⟩ := Finset.mem_image.mp hp
  exact List.mem_toFinset.mpr (hmem i hi)

/-- Pieces of which none is there twice are not longer than all. -/
theorem sum_collected_le (hl : l.Nodup) (hmem : ∀ i ∈ s, f i ∈ l) (hinj : Set.InjOn f s) :
    ∑ i ∈ s, (f i).2 ≤ (l.map Prod.snd).sum := by
  obtain ⟨hsub, himage⟩ := sum_collected hmem hinj
  rw [← himage, ← List.sum_toFinset _ hl]
  exact Finset.sum_le_sum_of_subset hsub

/-- They are all, if together they are long enough. -/
theorem all_of_le_sum (hl : l.Nodup) (hpos : ∀ p ∈ l, 0 < p.2) (hmem : ∀ i ∈ s, f i ∈ l)
    (hinj : Set.InjOn f s) (hsum : (l.map Prod.snd).sum ≤ ∑ i ∈ s, (f i).2) :
    ∀ p ∈ l, ∃ i ∈ s, f i = p := by
  intro p hp
  by_contra hnot
  obtain ⟨hsub, himage⟩ := sum_collected hmem hinj
  have hless : ∑ q ∈ s.image f, q.2 < ∑ q ∈ l.toFinset, q.2 := by
    refine Finset.sum_lt_sum_of_subset hsub (List.mem_toFinset.mpr hp) ?_ (hpos p hp)
      fun _ _ _ => Nat.zero_le _
    rintro hin
    obtain ⟨i, hi, heq⟩ := Finset.mem_image.mp hin
    exact hnot ⟨i, hi, heq⟩
  rw [himage, List.sum_toFinset _ hl] at hless
  exact absurd hsum (Nat.not_le_of_lt hless)

theorem sum_of_all (hl : l.Nodup) (hmem : ∀ i ∈ s, f i ∈ l) (hinj : Set.InjOn f s)
    (hall : ∀ p ∈ l, ∃ i ∈ s, f i = p) : ∑ i ∈ s, (f i).2 = (l.map Prod.snd).sum := by
  obtain ⟨hsub, himage⟩ := sum_collected hmem hinj
  have heq : s.image f = l.toFinset := by
    refine hsub.antisymm fun p hp => ?_
    obtain ⟨i, hi, rfl⟩ := hall p (List.mem_toFinset.mp hp)
    exact Finset.mem_image_of_mem f hi
  rw [← himage, heq, List.sum_toFinset _ hl]

end Collected

end MasterScheduler.Lib
