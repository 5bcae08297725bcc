import Mathlib.Data.Option.Basic
import Mathlib.Tactic.Common

/-!
# MasterScheduler.Lib.Traced — programs and what they touch

A program either does not end within its bound, or returns a value and a record of
what it touched on the way. Programs are put together as in a monad.

- `Ends Q x a`: the program ends with a value and touches only what meets `Q`.
- `ends_bind`, `ends_pure`, `ends_touch`: what that means for each construct.
- `Fine Q x`: the same with any value.
- `value`: the value, whatever was touched.
-/

namespace MasterScheduler.Lib

/-- A program: a record and a value, if it ends. -/
def Traced (β α : Type) : Type := Option (List β × α)

namespace Traced

variable {β α γ : Type}

instance : Monad (Traced β) where
  pure a := some ([], a)
  bind x f := Option.bind x fun r => Option.map (fun q => (r.1 ++ q.1, q.2)) (f r.2)

/-- The program that does not end. -/
def diverge : Traced β α := none

/-- Touch something. -/
def touch (b : β) : Traced β Unit := some ([b], ())

/-- The program ends with a value and touches only what meets a condition. -/
def Ends (Q : β → Prop) (x : Traced β α) (a : α) : Prop := ∃ l, x = some (l, a) ∧ ∀ b ∈ l, Q b

variable {Q : β → Prop} {a a' : α} {b : β} {x : Traced β α}

@[simp]
theorem ends_pure : Ends Q (pure a) a' ↔ a' = a := by
  constructor
  · rintro ⟨l, hl, _⟩
    exact (Prod.mk.inj (Option.some.inj hl)).2.symm
  · rintro rfl
    exact ⟨[], rfl, by simp⟩

@[simp]
theorem ends_touch {u : Unit} : Ends Q (touch b) u ↔ Q b := by
  constructor
  · rintro ⟨l, hl, hall⟩
    obtain ⟨rfl, _⟩ := Prod.mk.inj (Option.some.inj hl)
    exact hall b List.mem_cons_self
  · intro hb
    refine ⟨[b], rfl, ?_⟩
    intro b' hb'
    rw [List.mem_singleton.mp hb']
    exact hb

@[simp]
theorem ends_diverge : ¬ Ends Q (diverge : Traced β α) a := by
  rintro ⟨l, hl, _⟩
  cases hl

theorem ends_bind {f : α → Traced β γ} {c : γ} :
    Ends Q (x >>= f) c ↔ ∃ a, Ends Q x a ∧ Ends Q (f a) c := by
  constructor
  · rintro ⟨l, hl, hall⟩
    obtain ⟨⟨l₁, a⟩, hx, hmap⟩ := Option.bind_eq_some_iff.mp hl
    obtain ⟨⟨l₂, c'⟩, hf, heq⟩ := Option.map_eq_some_iff.mp hmap
    obtain ⟨rfl, rfl⟩ := Prod.mk.inj heq
    refine ⟨a, ⟨l₁, hx, ?_⟩, ⟨l₂, hf, ?_⟩⟩
    · exact fun b hb => hall b (List.mem_append_left l₂ hb)
    · exact fun b hb => hall b (List.mem_append_right l₁ hb)
  · rintro ⟨a, ⟨l₁, rfl, h₁⟩, ⟨l₂, hf, h₂⟩⟩
    -- The records stand one behind the other.
    refine ⟨l₁ ++ l₂, ?_, ?_⟩
    · change Option.bind (some (l₁, a)) _ = _
      rw [Option.bind_some, hf]
      rfl
    · intro b hb
      rcases List.mem_append.mp hb with hb | hb
      · exact h₁ b hb
      · exact h₂ b hb

theorem Ends.mono {Q' : β → Prop} (h : Ends Q x a) (hQ : ∀ b, Q b → Q' b) : Ends Q' x a := by
  obtain ⟨l, hl, hall⟩ := h
  exact ⟨l, hl, fun b hb => hQ b (hall b hb)⟩

/-- A program does not end when what follows its first part does not. -/
theorem bind_diverge {l : List β} {f : α → Traced β γ} (hx : x = some (l, a)) (hf : f a = none) :
    x >>= f = none := by
  change Option.bind x _ = none
  rw [hx, Option.bind_some, hf]
  rfl

/-- The program ends and touches only what meets a condition. -/
def Fine (Q : β → Prop) (x : Traced β α) : Prop := ∃ a, Ends Q x a

@[simp]
theorem fine_pure : Fine Q (pure a : Traced β α) := ⟨a, ends_pure.mpr rfl⟩

@[simp]
theorem not_fine_diverge : ¬ Fine Q (diverge : Traced β α) := fun ⟨_, h⟩ => ends_diverge h

theorem fine_bind {f : α → Traced β γ} :
    Fine Q (x >>= f) ↔ ∃ a, Ends Q x a ∧ Fine Q (f a) := by
  constructor
  · rintro ⟨c, h⟩
    obtain ⟨a, ha, hf⟩ := ends_bind.mp h
    exact ⟨a, ha, c, hf⟩
  · rintro ⟨a, ha, c, hf⟩
    exact ⟨c, ends_bind.mpr ⟨a, ha, hf⟩⟩

@[simp]
theorem fine_touch_bind {f : Unit → Traced β γ} : Fine Q (touch b >>= f) ↔ Q b ∧ Fine Q (f ()) := by
  rw [fine_bind]
  constructor
  · rintro ⟨_, hb, hf⟩
    exact ⟨ends_touch.mp hb, hf⟩
  · rintro ⟨hb, hf⟩
    exact ⟨(), ends_touch.mpr hb, hf⟩

@[simp]
theorem fine_touch : Fine Q (touch b) ↔ Q b :=
  ⟨fun ⟨_, h⟩ => ends_touch.mp h, fun h => ⟨(), ends_touch.mpr h⟩⟩

/-- One program after another one that has no value. -/
theorem fine_bind_unit {x : Traced β Unit} {f : Unit → Traced β γ} :
    Fine Q (x >>= f) ↔ Fine Q x ∧ Fine Q (f ()) := by
  rw [fine_bind]
  constructor
  · rintro ⟨_, hx, hf⟩
    exact ⟨⟨_, hx⟩, hf⟩
  · rintro ⟨⟨_, hx⟩, hf⟩
    exact ⟨_, hx, hf⟩

/-- A program with a rest that touches nothing. -/
theorem fine_bind_of_fine {f : α → Traced β γ} (h : ∀ a, Fine Q (f a)) :
    Fine Q (x >>= f) ↔ Fine Q x := by
  rw [fine_bind]
  exact ⟨fun ⟨a, ha, _⟩ => ⟨a, ha⟩, fun ⟨a, ha⟩ => ⟨a, ha, h a⟩⟩

/-- A program ends with one value. -/
theorem Ends.unique (h : Ends Q x a) (h' : Ends Q x a') : a = a' := by
  obtain ⟨l, hl, _⟩ := h
  obtain ⟨l', hl', _⟩ := h'
  exact (Prod.mk.inj (Option.some.inj (hl.symm.trans hl'))).2

/-- A program with a rest, where the value of the program is known. -/
theorem fine_bind_of_ends {f : α → Traced β γ} (h : Ends Q x a) :
    Fine Q (x >>= f) ↔ Fine Q (f a) := by
  rw [fine_bind]
  constructor
  · rintro ⟨a', ha', hf⟩
    obtain rfl := h.unique ha'
    exact hf
  · exact fun hf => ⟨a, h, hf⟩

/-- The value a program returns. -/
def value (x : Traced β α) : Option α := Option.map Prod.snd x

theorem value_eq_some : x.value = some a ↔ Ends (fun _ => True) x a := by
  constructor
  · intro h
    obtain ⟨⟨l, a'⟩, hx, rfl⟩ := Option.map_eq_some_iff.mp h
    exact ⟨l, hx, fun _ _ => trivial⟩
  · rintro ⟨l, rfl, _⟩
    rfl

end Traced

end MasterScheduler.Lib
