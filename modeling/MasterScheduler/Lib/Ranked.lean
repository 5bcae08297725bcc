import Mathlib.Data.List.Chain
import Mathlib.Data.List.Nodup
import Mathlib.Logic.Function.Iterate
import Mathlib.Order.Lattice

/-!
# MasterScheduler.Lib.Ranked — pointers that lead to a root

Everything but the root points to something of a smaller rank. Following the
pointers then ends at the root, and meets nothing twice on the way.

- `exists_iterate_eq_root`: the root is reached.
- `iterate_ne_self`: nothing points to itself, in any number of steps.
- `exists_path_to_root`: the same with ranks in any order, over finitely many elements.
-/

namespace MasterScheduler.Lib

/-- Everything of a set but the root points into the set, to a smaller rank. -/
structure Ranked {α : Type*} (next : α → α) (root : α) (rank : α → ℕ) (S : α → Prop) : Prop where
  stays : ∀ v, S v → v ≠ root → S (next v)
  lt : ∀ v, S v → v ≠ root → rank (next v) < rank v
  fixed : next root = root

variable {α : Type*} {next : α → α} {root : α} {rank : α → ℕ} {S : α → Prop}

theorem exists_iterate_eq_root (h : Ranked next root rank S) {v : α} (hv : S v) :
    ∃ k, next^[k] v = root := by
  induction hr : rank v using Nat.strongRecOn generalizing v with
  | ind r ih =>
    by_cases hroot : v = root
    · exact ⟨0, hroot⟩
    · have hlt := h.lt v hv hroot
      rw [hr] at hlt
      rcases ih _ hlt (h.stays v hv hroot) rfl with ⟨k, hk⟩
      exact ⟨k + 1, hk⟩

theorem iterate_root (h : Ranked next root rank S) (k : ℕ) : next^[k] root = root :=
  Function.iterate_fixed h.fixed k

/-- Following the pointers ends at the root or at a smaller rank. -/
theorem iterate_eq_root_or_lt (h : Ranked next root rank S) (k : ℕ) {v : α} (hv : S v)
    (hroot : v ≠ root) : next^[k + 1] v = root ∨ rank (next^[k + 1] v) < rank v := by
  induction k generalizing v with
  | zero => exact .inr (h.lt v hv hroot)
  | succ k ih =>
    rw [Function.iterate_succ_apply]
    by_cases hnext : next v = root
    · left
      rw [hnext]
      exact iterate_root h (k + 1)
    · exact (ih (h.stays v hv hroot) hnext).imp_right fun hlt => Nat.lt_trans hlt (h.lt v hv hroot)

theorem iterate_ne_self (h : Ranked next root rank S) {k : ℕ} (hk : 0 < k) {v : α} (hv : S v)
    (hroot : v ≠ root) : next^[k] v ≠ v := by
  obtain ⟨k, rfl⟩ : ∃ j, k = j + 1 := ⟨k - 1, by omega⟩
  intro hcycle
  rcases iterate_eq_root_or_lt h k hv hroot with heq | hlt
  · exact hroot (hcycle.symm.trans heq)
  · rw [hcycle] at hlt
    exact Nat.lt_irrefl _ hlt

/-- Of two tests the weaker one counts more if one element tells them apart. -/
theorem countP_lt_countP {p q : α → Bool} {l : List α} {a : α} (hle : ∀ b ∈ l, p b → q b)
    (ha : a ∈ l) (hq : q a) (hp : ¬ p a) : l.countP p < l.countP q := by
  obtain ⟨l₁, l₂, rfl⟩ := List.mem_iff_append.mp ha
  have h₁ : l₁.countP p ≤ l₁.countP q :=
    List.countP_mono_left fun b hb => hle b (List.mem_append_left _ hb)
  have h₂ : l₂.countP p ≤ l₂.countP q :=
    List.countP_mono_left fun b hb => hle b (List.mem_append_right _ (List.mem_cons_of_mem _ hb))
  rw [List.countP_append, List.countP_append, List.countP_cons_of_neg hp,
    List.countP_cons_of_pos hq]
  omega

/-- Pointers that lead into a finite set, to the root or to something of a smaller rank. -/
theorem exists_path_to_root {β : Type*} [LinearOrder β] {next : α → Option α} {rank : α → β}
    {S : α → Prop} {l : List α} (hl : ∀ v, S v → v ≠ root → v ∈ l)
    (hstep : ∀ v, S v → v ≠ root →
      ∃ w, next v = some w ∧ S w ∧ (w ≠ root → rank w < rank v)) {v : α} (hv : S v) :
    ∃ p : List α, p.head? = some v ∧ p.getLast? = some root ∧
      p.IsChain (fun a b => next a = some b) ∧ p.Nodup ∧
      ∀ u ∈ p, u = root ∨ rank u ≤ rank v := by
  -- The rank as a number: how many elements have a smaller one.
  induction hn : l.countP (fun u => rank u < rank v) using Nat.strongRecOn generalizing v with
  | ind n ih =>
    by_cases hroot : v = root
    · subst hroot
      refine ⟨[v], rfl, rfl, .singleton v, List.nodup_singleton v, ?_⟩
      intro u hu
      exact .inl (List.mem_singleton.mp hu)
    obtain ⟨w, hnext, hw, hlt⟩ := hstep v hv hroot
    by_cases hwroot : w = root
    · refine ⟨[v, w], rfl, by rw [hwroot]; rfl, .cons_cons hnext (.singleton w), ?_, ?_⟩
      · rw [List.nodup_cons, List.mem_singleton]
        exact ⟨fun h => hroot (h.trans hwroot), List.nodup_singleton w⟩
      · intro u hu
        rcases List.mem_cons.mp hu with rfl | hu
        · exact .inr (le_refl _)
        · exact .inl ((List.mem_singleton.mp hu).trans hwroot)
    have hrank := hlt hwroot
    have hcount : l.countP (fun u => rank u < rank w) < n := by
      rw [← hn]
      refine countP_lt_countP (fun u _ hu => ?_) (hl w hw hwroot) (by simpa using hrank) (by simp)
      simp only [decide_eq_true_eq] at hu ⊢
      exact hu.trans hrank
    obtain ⟨p, hhead, hlast, hchain, hnodup, hle⟩ := ih _ hcount hw rfl
    obtain ⟨q, rfl⟩ : ∃ q, p = w :: q := by
      cases p with
      | nil => cases hhead
      | cons x q => exact ⟨q, by rw [List.head?_cons, Option.some.injEq] at hhead; rw [hhead]⟩
    refine ⟨v :: w :: q, rfl, ?_, .cons_cons hnext hchain, ?_, ?_⟩
    · rw [List.getLast?_cons_cons]
      exact hlast
    · rw [List.nodup_cons]
      refine ⟨fun hmem => ?_, hnodup⟩
      rcases hle v hmem with h | h
      · exact hroot h
      · exact absurd hrank h.not_gt
    · intro u hu
      rcases List.mem_cons.mp hu with rfl | hu
      · exact .inr (le_refl _)
      · exact (hle u hu).imp_right fun h => h.trans hrank.le

end MasterScheduler.Lib
