import Mathlib.Order.Basic
import Mathlib.Data.List.Basic
import Mathlib.Tactic.Order

/-!
# MasterScheduler.Lib.BinaryHeap — binary heaps in a list

The children of position `i` are at `2 * i + 1` and `2 * i + 2`. An element finds
its place by a hole that moves: along the parents upwards, or along the
smaller children downwards. What holds of a list with a hole is said of the
list with the element put there.

- `IsHeap.root_le`: the first element is the least one.
- `UpHole.move`, `UpHole.fill`: a hole on its way up.
- `DownHole.move`, `DownHole.fill`: a hole on its way down.
- `mem_move_iff`: a hole that moves loses no element.
-/

namespace MasterScheduler.Lib.BinaryHeap

variable {α : Type*}

/-- The position of the parent. -/
def parent (i : ℕ) : ℕ := (i - 1) / 2

theorem parent_lt {i : ℕ} (h : 0 < i) : parent i < i := by
  unfold parent
  omega

/-- Each position but the first has a parent, each parent two children. -/
theorem parent_eq_iff {i j : ℕ} (h : 0 < i) : parent i = j ↔ i = 2 * j + 1 ∨ i = 2 * j + 2 := by
  unfold parent
  omega

/-! ## Elements -/

theorem mem_set_iff {l : List α} {i : ℕ} (hi : i < l.length) {x z : α} :
    z ∈ l.set i x ↔ z = x ∨ ∃ j, j ≠ i ∧ l[j]? = some z := by
  rw [List.mem_iff_getElem?]
  constructor
  · rintro ⟨j, hj⟩
    by_cases hji : j = i
    · left
      rw [hji, List.getElem?_set_self hi, Option.some.injEq] at hj
      exact hj.symm
    · rw [List.getElem?_set_ne (Ne.symm hji)] at hj
      exact .inr ⟨j, hji, hj⟩
  · rintro (rfl | ⟨j, hji, hj⟩)
    · exact ⟨i, List.getElem?_set_self hi⟩
    · exact ⟨j, by rw [List.getElem?_set_ne (Ne.symm hji)]; exact hj⟩

theorem eq_of_getElem?_set_self {l : List α} {i : ℕ} {x y : α} (h : (l.set i x)[i]? = some y) :
    y = x := by
  have hlen : i < (l.set i x).length := (List.getElem?_eq_some_iff.mp h).1
  rw [List.getElem?_set_self (by rwa [List.length_set] at hlen), Option.some.injEq] at h
  exact h.symm

/-- The element at `k` goes into the hole at `i`, which is at `k` then. -/
theorem mem_move_iff {l : List α} {i k : ℕ} {x y z : α} (hi : i < l.length) (hk : l[k]? = some y)
    (hne : k ≠ i) : z ∈ (l.set i y).set k x ↔ z ∈ l.set i x := by
  have hklen : k < l.length := (List.getElem?_eq_some_iff.mp hk).1
  rw [mem_set_iff (by rw [List.length_set]; exact hklen), mem_set_iff hi]
  refine or_congr_right ⟨?_, ?_⟩
  · rintro ⟨j, hjk, hj⟩
    by_cases hji : j = i
    · rw [hji, List.getElem?_set_self hi] at hj
      exact ⟨k, hne, hk.trans hj⟩
    · rw [List.getElem?_set_ne (Ne.symm hji)] at hj
      exact ⟨j, hji, hj⟩
  · rintro ⟨j, hji, hj⟩
    by_cases hjk : j = k
    · refine ⟨i, hne.symm, ?_⟩
      rw [List.getElem?_set_self hi, ← hk, ← hjk]
      exact hj
    · refine ⟨j, hjk, ?_⟩
      rw [List.getElem?_set_ne (Ne.symm hji)]
      exact hj

/-- With the last element at the root, only the root is lost. -/
theorem mem_dropLast_set {l : List α} {x z : α} (hlast : l.getLast? = some x)
    (hne : l.dropLast ≠ []) (hz : z ∈ l) (hroot : l[0]? ≠ some z) : z ∈ l.dropLast.set 0 x := by
  rw [mem_set_iff (List.length_pos_iff.mpr hne)]
  obtain ⟨j, hj⟩ := List.mem_iff_getElem?.mp hz
  have hlen : j < l.length := (List.getElem?_eq_some_iff.mp hj).1
  by_cases hjlast : j = l.length - 1
  · left
    rw [List.getLast?_eq_getElem?, ← hjlast, hj, Option.some.injEq] at hlast
    exact hlast
  · right
    refine ⟨j, ?_, ?_⟩
    · rintro rfl
      exact hroot hj
    · rw [List.getElem?_dropLast, if_pos (by omega)]
      exact hj

/-! ## Order -/

variable [LinearOrder α]

/-- Every element is at or above its parent. -/
def IsHeap (l : List α) : Prop :=
  ∀ i x p, 0 < i → l[i]? = some x → l[parent i]? = some p → p ≤ x

theorem isHeap_nil : IsHeap ([] : List α) := by
  intro i x p _ hx
  cases hx

/-- A sorted list is a heap. -/
theorem isHeap_of_pairwise {l : List α} (h : l.Pairwise (· ≤ ·)) : IsHeap l := by
  intro i x p hi hx hp
  obtain ⟨hilen, rfl⟩ := List.getElem?_eq_some_iff.mp hx
  obtain ⟨hplen, rfl⟩ := List.getElem?_eq_some_iff.mp hp
  exact List.pairwise_iff_getElem.mp h _ _ hplen hilen (parent_lt hi)

theorem IsHeap.root_le {l : List α} (h : IsHeap l) {r x : α} (hr : l[0]? = some r) (hx : x ∈ l) :
    r ≤ x := by
  obtain ⟨i, hi⟩ := List.mem_iff_getElem?.mp hx
  induction i using Nat.strongRecOn generalizing x with
  | ind i ih =>
    by_cases h0 : i = 0
    · rw [h0, hr, Option.some.injEq] at hi
      exact hi.le
    · have hlt : parent i < i := parent_lt (Nat.pos_of_ne_zero h0)
      have hlen : parent i < l.length := hlt.trans (List.getElem?_eq_some_iff.mp hi).1
      have hp : l[parent i]? = some l[parent i] := List.getElem?_eq_getElem hlen
      exact (ih _ hlt (List.mem_of_getElem? hp) hp).trans
        (h i x _ (Nat.pos_of_ne_zero h0) hi hp)

/-- The list without its last element. -/
theorem IsHeap.dropLast {l : List α} (h : IsHeap l) : IsHeap l.dropLast := by
  intro i x p hi hx hp
  rw [List.getElem?_dropLast] at hx hp
  split at hx
  case isFalse => cases hx
  split at hp
  case isFalse => cases hp
  exact h i x p hi hx hp

/-- With the element in the hole only the hole may be below its parent. -/
structure UpHole (l : List α) (i : ℕ) (x : α) : Prop where
  except : ∀ j y p, 0 < j → j ≠ i → (l.set i x)[j]? = some y →
    (l.set i x)[parent j]? = some p → p ≤ y
  /-- The children of the hole are at or above its parent. -/
  grand : ∀ j y p, 0 < i → 0 < j → parent j = i → l[j]? = some y → l[parent i]? = some p → p ≤ y

/-- With the element in the hole only the children of the hole may be below it. -/
structure DownHole (l : List α) (i : ℕ) (x : α) : Prop where
  except : ∀ j y p, 0 < j → parent j ≠ i → (l.set i x)[j]? = some y →
    (l.set i x)[parent j]? = some p → p ≤ y
  grand : ∀ j y p, 0 < i → 0 < j → parent j = i → l[j]? = some y → l[parent i]? = some p → p ≤ y

variable {l : List α} {i : ℕ} {x : α}

theorem UpHole.fill (h : UpHole l i x) (hstop : ∀ p, 0 < i → l[parent i]? = some p → p ≤ x) :
    IsHeap (l.set i x) := by
  intro j y p hj hy hp
  by_cases hji : j = i
  · subst hji
    rw [eq_of_getElem?_set_self hy]
    rw [List.getElem?_set_ne (parent_lt hj).ne'] at hp
    exact hstop p hj hp
  · exact h.except j y p hj hji hy hp

/-- The parent moves into the hole. -/
theorem UpHole.move (h : UpHole l i x) {p : α} (hi : 0 < i) (hp : l[parent i]? = some p)
    (hlt : x < p) : UpHole (l.set i p) (parent i) x := by
  have hpi : parent i ≠ i := (parent_lt hi).ne
  have hpar : (l.set i x)[parent i]? = some p := by
    rw [List.getElem?_set_ne hpi.symm]
    exact hp
  constructor
  · intro j y q hj hne hy hq
    rw [List.getElem?_set_ne (Ne.symm hne)] at hy
    by_cases hji : j = i
    · subst hji
      rw [eq_of_getElem?_set_self hy, eq_of_getElem?_set_self hq]
      exact hlt.le
    rw [List.getElem?_set_ne (Ne.symm hji)] at hy
    have hy' : (l.set i x)[j]? = some y := by
      rw [List.getElem?_set_ne (Ne.symm hji)]
      exact hy
    -- A sibling of the hole, a child of it, or neither.
    by_cases hsib : parent j = parent i
    · rw [hsib] at hq
      rw [eq_of_getElem?_set_self hq]
      exact hlt.le.trans (h.except j y p hj hji hy' (by rw [hsib]; exact hpar))
    rw [List.getElem?_set_ne (Ne.symm hsib)] at hq
    by_cases hchild : parent j = i
    · rw [hchild] at hq
      rw [eq_of_getElem?_set_self hq]
      exact h.grand j y p hi hj hchild hy hp
    · rw [List.getElem?_set_ne (Ne.symm hchild)] at hq
      exact h.except j y q hj hji hy' (by rw [List.getElem?_set_ne (Ne.symm hchild)]; exact hq)
  · intro j y q hpos hj hsib hy hq
    have hppi : parent (parent i) < parent i := parent_lt hpos
    rw [List.getElem?_set_ne (hppi.trans (parent_lt hi)).ne'] at hq
    have hqp : q ≤ p := by
      refine h.except (parent i) p q hpos hpi hpar ?_
      rw [List.getElem?_set_ne (hppi.trans (parent_lt hi)).ne']
      exact hq
    by_cases hji : j = i
    · subst hji
      rw [eq_of_getElem?_set_self hy]
      exact hqp
    · rw [List.getElem?_set_ne (Ne.symm hji)] at hy
      refine hqp.trans (h.except j y p hj hji ?_ (by rw [hsib]; exact hpar))
      rw [List.getElem?_set_ne (Ne.symm hji)]
      exact hy

theorem DownHole.fill (h : DownHole l i x)
    (hstop : ∀ j y, 0 < j → parent j = i → l[j]? = some y → x ≤ y) : IsHeap (l.set i x) := by
  intro j y p hj hy hp
  by_cases hchild : parent j = i
  · rw [hchild] at hp
    rw [eq_of_getElem?_set_self hp]
    have hji : j ≠ i := by
      have := parent_lt hj
      omega
    rw [List.getElem?_set_ne hji.symm] at hy
    exact hstop j y hj hchild hy
  · exact h.except j y p hj hchild hy hp

/-- The smaller child moves into the hole. -/
theorem DownHole.move (h : DownHole l i x) {k : ℕ} {y : α} (hk : 0 < k) (hki : parent k = i)
    (hy : l[k]? = some y) (hlt : y < x)
    (hmin : ∀ j z, 0 < j → parent j = i → l[j]? = some z → y ≤ z) : DownHole (l.set i y) k x := by
  have hik : i < k := by
    have := parent_lt hk
    omega
  constructor
  · intro j z q hj hne hz hq
    by_cases hjk : j = k
    · subst hjk
      rw [eq_of_getElem?_set_self hz]
      rw [hki, List.getElem?_set_ne hik.ne'] at hq
      rw [eq_of_getElem?_set_self hq]
      exact hlt.le
    rw [List.getElem?_set_ne (Ne.symm hjk)] at hz
    rw [List.getElem?_set_ne (Ne.symm hne)] at hq
    -- The other child of the hole, the hole itself, or neither.
    by_cases hchild : parent j = i
    · rw [hchild] at hq
      rw [eq_of_getElem?_set_self hq]
      have hji : j ≠ i := by
        have := parent_lt hj
        omega
      rw [List.getElem?_set_ne hji.symm] at hz
      exact hmin j z hj hchild hz
    rw [List.getElem?_set_ne (Ne.symm hchild)] at hq
    by_cases hji : j = i
    · subst hji
      rw [eq_of_getElem?_set_self hz]
      exact h.grand k y q hj hk hki hy hq
    · rw [List.getElem?_set_ne (Ne.symm hji)] at hz
      refine h.except j z q hj hchild ?_ ?_
      · rw [List.getElem?_set_ne (Ne.symm hji)]
        exact hz
      · rw [List.getElem?_set_ne (Ne.symm hchild)]
        exact hq
  · intro j z q _ hj hjk hz hq
    rw [hki] at hq
    rw [eq_of_getElem?_set_self hq]
    have hkj : k < j := by
      have := parent_lt hj
      omega
    rw [List.getElem?_set_ne (hik.trans hkj).ne] at hz
    refine h.except j z y hj (by omega) ?_ ?_
    · rw [List.getElem?_set_ne (hik.trans hkj).ne]
      exact hz
    · rw [hjk, List.getElem?_set_ne hik.ne]
      exact hy

/-- A new element behind the others. -/
theorem upHole_append {l : List α} (h : IsHeap l) (x : α) : UpHole (l ++ [x]) l.length x := by
  constructor
  · intro j y p hj hne hy hp
    rw [List.getElem?_set_ne (Ne.symm hne)] at hy
    have hlen : j < l.length := by
      have hlt := (List.getElem?_eq_some_iff.mp hy).1
      rw [List.length_append, List.length_singleton] at hlt
      omega
    have hpar := parent_lt hj
    rw [List.getElem?_set_ne (hpar.trans hlen).ne', List.getElem?_append_left (hpar.trans hlen)]
      at hp
    rw [List.getElem?_append_left hlen] at hy
    exact h j y p hj hy hp
  · intro j y p _ hj hjl hy _
    have hlt := (List.getElem?_eq_some_iff.mp hy).1
    have hpar := parent_lt hj
    rw [List.length_append, List.length_singleton] at hlt
    omega

/-- The root is taken away. -/
theorem downHole_root {l : List α} (h : IsHeap l) (x : α) : DownHole l 0 x := by
  constructor
  · intro j y p hj hne hy hp
    rw [List.getElem?_set_ne hj.ne] at hy
    rw [List.getElem?_set_ne (Ne.symm hne)] at hp
    exact h j y p hj hy hp
  · intro j y p h0
    exact absurd h0 (lt_irrefl 0)

end MasterScheduler.Lib.BinaryHeap
