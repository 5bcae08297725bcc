import Mathlib.Data.List.Nodup

/-!
# MasterScheduler.Lib.Linked — doubly linked lists

A doubly linked list is given by what the links of a memory say: `prev` and
`next` map an address to an address, and `0` is the null address.

- `Linked.push`: a node is put in front.
- `Linked.unlink`: a node is taken out.
-/

namespace MasterScheduler.Lib

/-- From `a` on, the nodes of the list follow each other; before the first one stands `p`. -/
def Linked (prev next : ℕ → ℕ) : ℕ → ℕ → List ℕ → Prop
  | _, a, [] => a = 0
  | p, a, x :: xs => a = x ∧ x ≠ 0 ∧ prev x = p ∧ Linked prev next x (next x) xs

namespace Linked

variable {prev next prev' next' : ℕ → ℕ} {p a x : ℕ} {l : List ℕ}

theorem congr (h : Linked prev next p a l) (hprev : ∀ y ∈ l, prev' y = prev y)
    (hnext : ∀ y ∈ l, next' y = next y) : Linked prev' next' p a l := by
  induction l generalizing p a with
  | nil => exact h
  | cons y ys ih =>
    obtain ⟨ha, hy, hp, hrest⟩ := h
    refine ⟨ha, hy, ?_, ?_⟩
    · rw [hprev y (by simp), hp]
    · rw [hnext y (by simp)]
      apply ih hrest
      · intro z hz
        exact hprev z (by simp [hz])
      · intro z hz
        exact hnext z (by simp [hz])

theorem ne_zero (h : Linked prev next p a l) (hx : x ∈ l) : x ≠ 0 := by
  induction l generalizing p a with
  | nil => cases hx
  | cons y ys ih =>
    rcases List.mem_cons.mp hx with rfl | hx
    · exact h.2.1
    · exact ih h.2.2.2 hx

/-- The first node is null or in the list. -/
theorem head_mem (h : Linked prev next p a l) : a = 0 ∨ a ∈ l := by
  cases l with
  | nil => exact .inl h
  | cons y ys => exact .inr (by simp [h.1])

/-- Before the first node stands the start. -/
theorem prev_head (h : Linked prev next p a l) (ha : a ∈ l) : prev a = p := by
  cases l with
  | nil => cases ha
  | cons y ys =>
    obtain ⟨rfl, _, hp, _⟩ := h
    exact hp

theorem next_mem (h : Linked prev next p a l) (hx : x ∈ l) : next x = 0 ∨ next x ∈ l := by
  induction l generalizing p a with
  | nil => cases hx
  | cons y ys ih =>
    rcases List.mem_cons.mp hx with rfl | hx
    · exact h.2.2.2.head_mem.imp_right (List.mem_cons_of_mem _)
    · exact (ih h.2.2.2 hx).imp_right (List.mem_cons_of_mem _)

/-- Before a node stands the start or a node of the list. -/
theorem prev_mem (h : Linked prev next p a l) (hx : x ∈ l) :
    a = x ∧ prev x = p ∨ prev x ∈ l := by
  induction l generalizing p a with
  | nil => cases hx
  | cons y ys ih =>
    obtain ⟨ha, hy, hp, hrest⟩ := h
    rcases List.mem_cons.mp hx with rfl | hx
    · exact .inl ⟨ha, hp⟩
    · right
      rcases ih hrest hx with ⟨_, hprev⟩ | hprev
      · simp [hprev]
      · exact List.mem_cons_of_mem _ hprev

/-- What follows a node is not the first one. -/
theorem next_ne (h : Linked prev next p a l) (hnodup : l.Nodup) (hx : x ∈ l) : next x ≠ a := by
  cases l with
  | nil => cases hx
  | cons y ys =>
    obtain ⟨rfl, hy, _, hrest⟩ := h
    have hnot := (List.nodup_cons.mp hnodup).1
    have hnext : next x = 0 ∨ next x ∈ ys := by
      rcases List.mem_cons.mp hx with rfl | hx
      · exact hrest.head_mem
      · exact hrest.next_mem hx
    rintro heq
    rcases hnext with h₀ | hmem
    · exact hy (heq.symm.trans h₀)
    · exact hnot (heq ▸ hmem)

/-- The links of a list from which the node before the first one was changed. -/
theorem relink {q : ℕ} (h : Linked prev next p a l) (hnodup : l.Nodup)
    (hprev : ∀ y ∈ l, prev' y = if y = a then q else prev y)
    (hnext : ∀ y ∈ l, next' y = next y) : Linked prev' next' q a l := by
  cases l with
  | nil => exact h
  | cons y ys =>
    obtain ⟨rfl, hy, _, hrest⟩ := h
    have hnot := (List.nodup_cons.mp hnodup).1
    refine ⟨rfl, hy, ?_, ?_⟩
    · rw [hprev a (by simp), if_pos rfl]
    · rw [hnext a (by simp)]
      apply hrest.congr
      · intro z hz
        rw [hprev z (by simp [hz]), if_neg]
        rintro rfl
        exact hnot hz
      · intro z hz
        exact hnext z (by simp [hz])

theorem push (h : Linked prev next 0 a l) (hnodup : l.Nodup) (hx : x ≠ 0)
    (hprev : ∀ y ∈ l, prev' y = if y = a then x else prev y) (hprevx : prev' x = 0)
    (hnext : ∀ y ∈ l, next' y = next y) (hnextx : next' x = a) :
    Linked prev' next' 0 x (x :: l) := by
  refine ⟨rfl, hx, hprevx, ?_⟩
  rw [hnextx]
  exact h.relink hnodup hprev hnext

/-- A node leaves the list: the nodes beside it are linked to each other. -/
theorem unlink (h : Linked prev next p a l) (hnodup : l.Nodup) (hp : p ∉ l) (hx : x ∈ l)
    (hprev : ∀ y ∈ l, prev' y = if y = next x then prev x else prev y)
    (hnext : ∀ y ∈ l, next' y = if y = prev x then next x else next y) :
    Linked prev' next' p (if a = x then next x else a) (l.erase x) := by
  induction l generalizing p a with
  | nil => cases hx
  | cons y ys ih =>
    have hhead := h.next_ne hnodup hx
    obtain ⟨rfl, hy, hpy, hrest⟩ := h
    have hnot := (List.nodup_cons.mp hnodup).1
    have hnodup' := (List.nodup_cons.mp hnodup).2
    by_cases hax : a = x
    · subst hax
      rw [if_pos rfl, List.erase_cons_head]
      apply hrest.relink hnodup'
      · intro z hz
        rw [hprev z (by simp [hz]), hpy]
      · intro z hz
        rw [hnext z (by simp [hz]), hpy, if_neg]
        rintro rfl
        exact hp (by simp [hz])
    · have hx' : x ∈ ys := by
        rcases List.mem_cons.mp hx with rfl | hx'
        · exact absurd rfl hax
        · exact hx'
      rw [if_neg hax, List.erase_cons_tail (by simpa using hax)]
      refine ⟨rfl, hy, ?_, ?_⟩
      · rw [hprev a (by simp), if_neg (Ne.symm hhead), hpy]
      · have hinner := ih hrest hnodup' hnot hx' (fun z hz => hprev z (by simp [hz]))
          (fun z hz => hnext z (by simp [hz]))
        -- either `x` comes next and `a` is linked past it, or the links of `a` stay
        have hlink : next' a = if next a = x then next x else next a := by
          rw [hnext a (by simp)]
          rcases hrest.prev_mem hx' with ⟨heq, hprevx⟩ | hmem
          · rw [hprevx, if_pos rfl, if_pos heq]
          · have hne : a ≠ prev x := by
              rintro heq
              exact hnot (heq ▸ hmem)
            have hne' : next a ≠ x := by
              rintro heq
              cases ys with
              | nil => cases hx'
              | cons z zs =>
                obtain ⟨hz, _, hpz, _⟩ := hrest
                exact hne (by rw [← heq, hz, hpz])
            rw [if_neg hne, if_neg hne']
        rw [hlink]
        exact hinner

end Linked

end MasterScheduler.Lib
