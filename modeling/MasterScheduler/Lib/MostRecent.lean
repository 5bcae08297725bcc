import Mathlib.Data.List.Basic

/-!
# MasterScheduler.Lib.MostRecent — the last element for every key

A history lists what happened, the latest first. `mostRecent key l` keeps the
latest element for every key. A table of fixed size that moves an element to
its front holds the beginning of that list; `take_mostRecent_cons` is the rule
for a table that finds the place to close by a search.
-/

namespace MasterScheduler.Lib

section

variable {α κ : Type*} [DecidableEq κ] (key : α → κ)

/-- The latest element for every key. -/
def mostRecent : List α → List α
  | [] => []
  | a :: l => a :: (mostRecent l).filter fun b => decide (key b ≠ key a)

variable {key} {l pre post : List α} {a b : α}

@[simp] theorem mostRecent_nil : mostRecent key ([] : List α) = [] := rfl

theorem mostRecent_cons : mostRecent key (a :: l) =
    a :: (mostRecent key l).filter fun b => decide (key b ≠ key a) := rfl

/-- Every key is there once. -/
theorem pairwise_mostRecent (l : List α) :
    (mostRecent key l).Pairwise fun a b => key a ≠ key b := by
  induction l with
  | nil => exact List.Pairwise.nil
  | cons a l ih =>
    rw [mostRecent_cons, List.pairwise_cons]
    constructor
    · intro b hb
      exact (of_decide_eq_true (List.mem_filter.mp hb).2).symm
    · exact ih.filter _

/-- Elements that are replaced under their keys. -/
theorem map_mostRecent {β : Type*} {keyOf : β → κ} {f : α → β} (h : ∀ a, keyOf (f a) = key a)
    (l : List α) : (mostRecent key l).map f = mostRecent keyOf (l.map f) := by
  induction l with
  | nil => rfl
  | cons a l ih =>
    rw [List.map_cons, mostRecent_cons, mostRecent_cons, List.map_cons, ← ih, List.filter_map]
    congr 3
    funext b
    simp only [Function.comp_apply, h]

/-- The order is that of the history. -/
theorem mostRecent_sublist (l : List α) : (mostRecent key l).Sublist l := by
  induction l with
  | nil => exact List.Sublist.refl []
  | cons a l ih => exact (List.filter_sublist.trans ih).cons_cons a

/-- Closing the place of a key, or the last place of the table if the key is not in it, leaves
the elements with other keys. -/
theorem eraseIdx_take {k : κ} (h : l.Pairwise fun a b => key a = k → key b ≠ k) {n : ℕ} :
    (l.take (n + 1)).eraseIdx (min ((l.take (n + 1)).findIdx fun a => decide (key a = k)) n) =
      (l.filter fun a => decide (key a ≠ k)).take n := by
  induction l generalizing n with
  | nil => simp
  | cons a l ih =>
    obtain ⟨hhead, htail⟩ := List.pairwise_cons.mp h
    rw [List.take_succ_cons, List.findIdx_cons]
    by_cases ha : key a = k
    · -- the place is the first one, and nothing behind it has the key
      have hrest : l.filter (fun b => decide (key b ≠ k)) = l :=
        List.filter_eq_self.mpr fun b hb => decide_eq_true (hhead b hb ha)
      have hdrop : (a :: l).filter (fun b => decide (key b ≠ k)) = l := by
        rw [List.filter_cons_of_neg (by simpa using ha), hrest]
      rw [hdrop, decide_eq_true ha, cond_true, Nat.zero_min, List.eraseIdx_cons_zero]
    · have hkeep : (a :: l).filter (fun b => decide (key b ≠ k)) =
          a :: l.filter fun b => decide (key b ≠ k) := List.filter_cons_of_pos (by simpa using ha)
      rw [hkeep, decide_eq_false ha, cond_false]
      cases n with
      | zero => simp
      | succ m =>
        rw [Nat.add_min_add_right, List.eraseIdx_cons_succ, List.take_succ_cons, ih htail]

/-- The table when an element is put in front of it. -/
theorem take_mostRecent_cons {pad : List α} (hpad : ∀ b ∈ pad, key b ≠ key a) {n : ℕ} :
    let t := (mostRecent key l ++ pad).take (n + 1)
    (mostRecent key (a :: l) ++ pad).take (n + 1) =
      a :: t.eraseIdx (min (t.findIdx fun b => decide (key b = key a)) n) := by
  have honce : (mostRecent key l ++ pad).Pairwise fun b c => key b = key a → key c ≠ key a := by
    refine List.pairwise_append.mpr ⟨?_, ?_, ?_⟩
    · exact (pairwise_mostRecent l).imp fun h hb hc => h (hb.trans hc.symm)
    · refine List.pairwise_of_forall_mem_list ?_
      intro b hb c _ heq
      exact absurd heq (hpad b hb)
    · intro b _ c hc _
      exact hpad c hc
  have hkept : pad.filter (fun b => decide (key b ≠ key a)) = pad :=
    List.filter_eq_self.mpr fun b hb => decide_eq_true (hpad b hb)
  dsimp only
  rw [eraseIdx_take honce, List.filter_append, hkept, mostRecent_cons, List.cons_append,
    List.take_succ_cons]

end

end MasterScheduler.Lib
