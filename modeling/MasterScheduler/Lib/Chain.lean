import Mathlib.Data.List.Nodup
import Mathlib.Logic.Function.Basic

/-!
# MasterScheduler.Lib.Chain — singly linked lists

A list is a pointer to its first node and a link in every node. Loops over it
take a bound on their rounds, for they do not end on a cycle.

- `Chain`: the nodes behind a pointer. They are distinct (`Chain.nodup`).
- `Chain.push`, `Chain.unlink`: a node is put in front or taken out.
- `contains`, `before`: the loops that look for a node, and what they find.
- `listAdd`: a list as a value, to which an element is added at the end.
-/

namespace MasterScheduler.Lib

variable {α : Type*}

/-- From a pointer on, the nodes of the list follow each other, and the last one ends it. -/
def Chain (next : α → Option α) : Option α → List α → Prop
  | a, [] => a = none
  | a, x :: xs => a = some x ∧ Chain next (next x) xs

namespace Chain

variable {next next' : α → Option α} {a : Option α} {x y : α} {l l' pre post : List α}

theorem congr (h : Chain next a l) (hnext : ∀ y ∈ l, next' y = next y) : Chain next' a l := by
  induction l generalizing a with
  | nil => exact h
  | cons x xs ih =>
    refine ⟨h.1, ?_⟩
    rw [hnext x List.mem_cons_self]
    exact ih h.2 fun y hy => hnext y (List.mem_cons_of_mem x hy)

theorem unique (h : Chain next a l) (h' : Chain next a l') : l = l' := by
  induction l generalizing a l' with
  | nil =>
    cases l' with
    | nil => rfl
    | cons x xs =>
      have hnone : a = none := h
      rw [hnone] at h'
      cases h'.1
  | cons x xs ih =>
    cases l' with
    | nil =>
      have hnone : a = none := h'
      rw [hnone] at h
      cases h.1
    | cons y ys =>
      have hxy : x = y := Option.some.inj (h.1.symm.trans h'.1)
      subst hxy
      rw [ih h.2 h'.2]

theorem head_eq (h : Chain next a l) : a = l.head? := by
  cases l with
  | nil => exact h
  | cons x xs => exact h.1

/-- The nodes from one of them on. -/
theorem suffix (h : Chain next a (pre ++ x :: post)) : Chain next (next x) post := by
  induction pre generalizing a with
  | nil => exact h.2
  | cons y ys ih => exact ih h.2

/-- A list that ends has no node twice. -/
theorem nodup (h : Chain next a l) : l.Nodup := by
  induction l generalizing a with
  | nil => exact List.nodup_nil
  | cons x xs ih =>
    refine List.nodup_cons.mpr ⟨?_, ih h.2⟩
    intro hmem
    -- behind the second occurrence is what is behind the first one
    obtain ⟨pre, post, rfl⟩ := List.append_of_mem hmem
    have hsame := unique h.2 (suffix h.2)
    have hlen := congrArg List.length hsame
    simp only [List.length_append, List.length_cons] at hlen
    omega

/-- A node is put in front. -/
theorem push [DecidableEq α] (h : Chain next a l) (hx : x ∉ l) :
    Chain (Function.update next x a) (some x) (x :: l) := by
  refine ⟨rfl, ?_⟩
  rw [Function.update_self]
  exact h.congr fun y hy => Function.update_of_ne (ne_of_mem_of_not_mem hy hx) _ _

/-- The node behind a node is taken out. -/
theorem unlink [DecidableEq α] (h : Chain next a (pre ++ x :: y :: post)) :
    Chain (Function.update next x (next y)) a (pre ++ x :: post) := by
  have hnodup := h.nodup
  induction pre generalizing a with
  | nil =>
    have hx := (List.nodup_cons.mp hnodup).1
    refine ⟨h.1, ?_⟩
    rw [Function.update_self]
    refine h.2.2.congr fun z hz => Function.update_of_ne ?_ _ _
    exact ne_of_mem_of_not_mem (List.mem_cons_of_mem y hz) hx
  | cons z zs ih =>
    obtain ⟨hz, hrest⟩ := List.nodup_cons.mp hnodup
    refine ⟨h.1, ?_⟩
    have hzx : z ≠ x := by
      rintro rfl
      exact hz (by simp)
    rw [Function.update_of_ne hzx]
    exact ih h.2 hrest

end Chain

/-! ## Loops -/

variable [DecidableEq α]

/-- The loop that looks for a node: `some false` at the end of the list. -/
def contains (next : α → Option α) (x : α) : ℕ → Option α → Option Bool
  | 0, _ => none
  | _ + 1, none => some false
  | n + 1, some y => if y = x then some true else contains next x n (next y)

/-- The loop that looks for the node in front of a node: null if there is none. -/
def before (next : α → Option α) (x : α) : ℕ → Option α → Option (Option α)
  | 0, _ => none
  | _ + 1, none => some none
  | n + 1, some y => if next y = some x then some (some y) else before next x n (next y)

variable {next : α → Option α} {a : Option α} {x : α} {l pre post : List α} {n : ℕ} {r : Option α}

/-- What the loop finds, if it ends. -/
theorem contains_eq_some {b : Bool} (h : Chain next a l) (hb : contains next x n a = some b) :
    b = decide (x ∈ l) := by
  induction n generalizing a l with
  | zero => cases hb
  | succ n ih =>
    cases l with
    | nil =>
      have ha : a = none := h
      rw [ha, contains] at hb
      rw [← Option.some.inj hb]
      simp
    | cons y ys =>
      rw [h.1, contains] at hb
      split at hb
      · rename_i hyx
        rw [← Option.some.inj hb]
        simp [hyx]
      · rename_i hyx
        rw [ih h.2 hb]
        simp [Ne.symm hyx]

/-- On a list it ends. -/
theorem contains_ends (h : Chain next a l) (hn : l.length < n) :
    contains next x n a = some (decide (x ∈ l)) := by
  have hends : ∃ b, contains next x n a = some b := by
    induction n generalizing a l with
    | zero => omega
    | succ n ih =>
      cases l with
      | nil =>
        have ha : a = none := h
        exact ⟨false, by rw [ha, contains]⟩
      | cons y ys =>
        rw [List.length_cons] at hn
        rw [h.1, contains]
        split
        · exact ⟨true, rfl⟩
        · exact ih h.2 (by omega)
  obtain ⟨b, hb⟩ := hends
  rw [hb, contains_eq_some h hb]

/-- The node in front of a node of the list, or null. -/
theorem before_eq_some (h : Chain next a l) (hr : before next x n a = some r) :
    (∃ pre y post, l = pre ++ y :: x :: post ∧ r = some y) ∨ r = none ∧ x ∉ l.tail := by
  induction n generalizing a l with
  | zero => cases hr
  | succ n ih =>
    cases l with
    | nil =>
      have ha : a = none := h
      rw [ha, before] at hr
      exact .inr ⟨(Option.some.inj hr).symm, List.not_mem_nil⟩
    | cons y ys =>
      rw [h.1, before] at hr
      split at hr
      · rename_i hy
        obtain rfl := Option.some.inj hr
        cases ys with
        | nil =>
          have hnone : next y = none := h.2
          rw [hy] at hnone
          cases hnone
        | cons z zs =>
          have hzx : z = x := Option.some.inj (h.2.1.symm.trans hy)
          exact .inl ⟨[], y, zs, by rw [hzx]; rfl, rfl⟩
      · rename_i hy
        rcases ih h.2 hr with ⟨pre, z, post, rfl, hz⟩ | ⟨hnone, hnot⟩
        · exact .inl ⟨y :: pre, z, post, rfl, hz⟩
        · refine .inr ⟨hnone, ?_⟩
          cases ys with
          | nil => exact List.not_mem_nil
          | cons z zs =>
            intro hmem
            rcases List.mem_cons.mp hmem with rfl | hmem
            · exact hy h.2.1
            · exact hnot hmem

theorem before_ends (h : Chain next a l) (hn : l.length < n) :
    ∃ r, before next x n a = some r := by
  induction n generalizing a l with
  | zero => omega
  | succ n ih =>
    cases l with
    | nil =>
      have ha : a = none := h
      exact ⟨none, by rw [ha, before]⟩
    | cons y ys =>
      rw [List.length_cons] at hn
      rw [h.1, before]
      split
      · exact ⟨_, rfl⟩
      · exact ih h.2 (by omega)

/-! ## Lists as values -/

/-- An element becomes the last one, and is in the list once. -/
def listAdd (l : List α) (x : α) : List α := l.erase x ++ [x]

theorem mem_listAdd {y : α} : y ∈ listAdd l x ↔ y = x ∨ y ∈ l := by
  rw [listAdd, List.mem_append, List.mem_singleton]
  by_cases hy : y = x
  · simp [hy]
  · rw [List.mem_erase_of_ne hy]
    tauto

theorem listAdd_nodup (hl : l.Nodup) : (listAdd l x).Nodup := by
  rw [listAdd, List.nodup_append]
  refine ⟨hl.erase x, List.nodup_singleton x, ?_⟩
  rintro y hy z hz rfl
  rw [List.mem_singleton.mp hz, hl.mem_erase_iff] at hy
  exact hy.1 rfl

end MasterScheduler.Lib
