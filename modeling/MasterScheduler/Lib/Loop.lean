import Mathlib.Data.List.Basic
import Mathlib.Data.List.Forall2

/-!
# MasterScheduler.Lib.Loop — invariants of loops over lists

A `for` loop is a fold. Its invariant speaks of the elements handled so far,
so the rules below carry the handled prefix.

- `foldlM_prefix`: a loop that may fail neither fails nor leaves its invariant.
- `foldl_prefix`: the same for a loop that cannot fail.
- `foldlM_invariant`: what a loop keeps as long as it does not fail.
- `mapM_forall₂`: a fallible map that succeeds everywhere.
- `zipIdx_eq_append_cons`: position and element of one round of an enumeration.
-/

namespace MasterScheduler.Lib

section

universe u

variable {α β ε : Type*}

theorem foldlM_suffix {I : List α → β → Prop} {f : β → α → Except ε β} {l post : List α} :
    ∀ (pre : List α) (b : β), l = pre ++ post → I pre b →
      (∀ pre a post b, l = pre ++ a :: post → I pre b →
        ∃ b', f b a = .ok b' ∧ I (pre ++ [a]) b') →
      ∃ b', post.foldlM f b = .ok b' ∧ I l b' := by
  -- The part that is done grows by what the part to do loses.
  induction post with
  | nil =>
    intro pre b hl hI _
    refine ⟨b, rfl, ?_⟩
    simpa [hl] using hI
  | cons a post ih =>
    intro pre b hl hI step
    obtain ⟨b₁, h₁, hI₁⟩ := step pre a post b hl hI
    obtain ⟨b', h', hI'⟩ := ih (pre ++ [a]) b₁ (by simpa using hl) hI₁ step
    refine ⟨b', ?_, hI'⟩
    rw [List.foldlM_cons, h₁]
    exact h'

/-- The invariant rule for a loop with early exit. -/
theorem foldlM_prefix {I : List α → β → Prop} {f : β → α → Except ε β} {l : List α} {b : β}
    (init : I [] b)
    (step : ∀ pre a post b, l = pre ++ a :: post → I pre b →
      ∃ b', f b a = .ok b' ∧ I (pre ++ [a]) b') :
    ∃ b', l.foldlM f b = .ok b' ∧ I l b' :=
  foldlM_suffix [] b rfl init step

/-- The invariant rule for a loop without early exit. -/
theorem foldl_prefix {I : List α → β → Prop} {f : β → α → β} {l : List α} {b : β}
    (init : I [] b)
    (step : ∀ pre a post b, l = pre ++ a :: post → I pre b → I (pre ++ [a]) (f b a)) :
    I l (l.foldl f b) := by
  -- A loop that cannot fail is one whose rounds all succeed.
  have h := foldlM_prefix (f := fun b a => (Except.ok (f b a) : Except Unit β)) init
    (fun pre a post b hl hI => ⟨f b a, rfl, step pre a post b hl hI⟩)
  obtain ⟨b', h', hI⟩ := h
  have hfold : ∀ (l : List α) (b : β),
      l.foldlM (fun b a => (Except.ok (f b a) : Except Unit β)) b = .ok (l.foldl f b) := by
    intro l
    induction l with
    | nil => intro b; rfl
    | cons a l ih => intro b; exact ih (f b a)
  rw [hfold] at h'
  cases h'
  exact hI

/-- A bind that succeeds, in its two halves. -/
theorem bind_eq_ok {γ δ : Type u} {x : Except ε γ} {f : γ → Except ε δ} {r : δ} :
    (x >>= f) = .ok r ↔ ∃ a, x = .ok a ∧ f a = .ok r := by
  cases x with
  | error e =>
    constructor
    · intro h
      cases h
    · rintro ⟨a, h, _⟩
      cases h
  | ok a =>
    constructor
    · exact fun h => ⟨a, rfl, h⟩
    · rintro ⟨b, h, hf⟩
      cases h
      exact hf

theorem foldlM_invariant {I : β → Prop} {f : β → α → Except ε β}
    (step : ∀ b a b', I b → f b a = .ok b' → I b') {l : List α} {b r : β} (hb : I b)
    (h : l.foldlM f b = .ok r) : I r := by
  induction l generalizing b with
  | nil =>
    cases h
    exact hb
  | cons a l ih =>
    rw [List.foldlM_cons] at h
    rcases bind_eq_ok.1 h with ⟨b', hb', hrest⟩
    exact ih (step b a b' hb hb') hrest

/-- A fallible map that succeeds on every element. -/
theorem mapM_forall₂ {R : α → β → Prop} {f : α → Except ε β} {l : List α}
    (h : ∀ a ∈ l, ∃ b, f a = .ok b ∧ R a b) :
    ∃ bs, l.mapM f = .ok bs ∧ List.Forall₂ R l bs := by
  induction l with
  | nil => exact ⟨[], rfl, .nil⟩
  | cons a l ih =>
    obtain ⟨b, hb, hR⟩ := h a (by simp)
    obtain ⟨bs, hbs, hRs⟩ := ih fun a ha => h a (by simp [ha])
    refine ⟨b :: bs, ?_, .cons hR hRs⟩
    rw [List.mapM_cons, hb]
    simp [hbs, bind, Except.bind, pure, Except.pure]

/-- A fallible map with known results. -/
theorem mapM_ok {f : α → Except ε β} {g : α → β} {l : List α} (h : ∀ a ∈ l, f a = .ok (g a)) :
    l.mapM f = .ok (l.map g) := by
  induction l with
  | nil => rfl
  | cons a l ih =>
    rw [List.mapM_cons, h a (by simp), ih fun a ha => h a (by simp [ha])]
    rfl

/-- A fallible map that succeeded. -/
theorem forall₂_of_mapM {f : α → Except ε β} {l : List α} :
    ∀ {bs : List β}, l.mapM f = .ok bs → List.Forall₂ (fun a b => f a = .ok b) l bs := by
  induction l with
  | nil =>
    intro bs h
    cases h
    exact .nil
  | cons a l ih =>
    intro bs h
    rw [List.mapM_cons] at h
    cases ha : f a with
    | error e => rw [ha] at h; cases h
    | ok b =>
      cases hl : l.mapM f with
      | error e => rw [ha, hl] at h; cases h
      | ok bs' =>
        rw [ha, hl] at h
        cases h
        exact .cons ha (ih hl)

/-- The element handled in a round of `for i, x in enumerate(l)`. -/
theorem zipIdx_eq_append_cons {l : List α} {pre post : List (α × ℕ)} {x : α} {i : ℕ}
    (h : l.zipIdx = pre ++ (x, i) :: post) : i = pre.length ∧ l[i]? = some x := by
  have hmem : (l.zipIdx)[pre.length]? = some (x, i) := by simp [h]
  simp only [List.getElem?_zipIdx, Option.map_eq_some_iff, Prod.mk.injEq, Nat.zero_add] at hmem
  obtain ⟨_, hx, rfl, rfl⟩ := hmem
  exact ⟨rfl, hx⟩

theorem forall₂_getElem?_left {R : α → β → Prop} {l : List α} {l' : List β}
    (h : List.Forall₂ R l l') {i : ℕ} {a : α} (ha : l[i]? = some a) :
    ∃ b, l'[i]? = some b ∧ R a b := by
  obtain ⟨hlen, hget⟩ := List.forall₂_iff_get.1 h
  obtain ⟨hi, rfl⟩ := List.getElem?_eq_some_iff.1 ha
  exact ⟨l'.get ⟨i, by omega⟩, List.getElem?_eq_getElem (by omega), hget i hi (by omega)⟩

theorem forall₂_getElem?_right {R : α → β → Prop} {l : List α} {l' : List β}
    (h : List.Forall₂ R l l') {i : ℕ} {b : β} (hb : l'[i]? = some b) :
    ∃ a, l[i]? = some a ∧ R a b :=
  forall₂_getElem?_left h.flip hb

theorem forall₂_mem_right {R : α → β → Prop} {l : List α} {l' : List β}
    (h : List.Forall₂ R l l') {b : β} (hb : b ∈ l') : ∃ a ∈ l, R a b := by
  obtain ⟨i, hi⟩ := List.mem_iff_getElem?.1 hb
  obtain ⟨a, ha, hR⟩ := forall₂_getElem?_right h hi
  exact ⟨a, List.mem_of_getElem? ha, hR⟩

theorem forall₂_mem_left {R : α → β → Prop} {l : List α} {l' : List β}
    (h : List.Forall₂ R l l') {a : α} (ha : a ∈ l) : ∃ b ∈ l', R a b :=
  forall₂_mem_right h.flip ha

end

end MasterScheduler.Lib
