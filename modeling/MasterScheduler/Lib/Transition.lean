import Mathlib.Data.Option.Basic

/-!
# MasterScheduler.Lib.Transition — runs of a state machine

A machine is a partial step function on states and events. A run may be
restricted to steps that meet a condition on the state and the event.

- `Run.invariant`: what every step preserves holds along a run.
- `run_of_runEvents`: a list of events that can be executed is a run.
- `Always`, `always_concat`: a record in which every entry is in order.
-/

namespace MasterScheduler.Lib

section

variable {σ ε : Type*}

/-- From one state to another by steps that meet a condition. -/
inductive Run (step : σ → ε → Option σ) (ok : σ → ε → Prop) : σ → σ → Prop
  | refl (s : σ) : Run step ok s s
  | tail {s t u : σ} {e : ε} : Run step ok s t → ok t e → step t e = some u → Run step ok s u

variable {step : σ → ε → Option σ} {ok : σ → ε → Prop} {s t u : σ}

/-- The invariant rule. -/
theorem Run.invariant {I : σ → Prop} (hstep : ∀ s e t, I s → ok s e → step s e = some t → I t)
    (h : Run step ok s t) (hs : I s) : I t := by
  induction h with
  | refl => exact hs
  | tail _ hok he ih => exact hstep _ _ _ ih hok he

theorem Run.trans (h : Run step ok s t) (h' : Run step ok t u) : Run step ok s u := by
  induction h' with
  | refl => exact h
  | tail _ hok he ih => exact .tail ih hok he

/-- Execute a list of events, each of which has to meet the condition. -/
def runEvents (step : σ → ε → Option σ) (ok : σ → ε → Prop) [∀ s e, Decidable (ok s e)] :
    σ → List ε → Option σ
  | s, [] => some s
  | s, e :: es => if ok s e then (step s e).bind fun t => runEvents step ok t es else none

theorem run_of_runEvents [∀ s e, Decidable (ok s e)] {es : List ε}
    (h : runEvents step ok s es = some t) : Run step ok s t := by
  induction es generalizing s with
  | nil =>
    cases h
    exact .refl _
  | cons e es ih =>
    unfold runEvents at h
    split at h
    · rename_i hok
      rcases Option.bind_eq_some_iff.1 h with ⟨u, hu, hrest⟩
      exact (Run.tail (.refl s) hok hu).trans (ih hrest)
    · cases h

/-- A property of where a list of events leads, by execution. -/
theorem exists_run_of_runEvents (step : σ → ε → Option σ) (ok : σ → ε → Prop)
    [∀ s e, Decidable (ok s e)] (s : σ) (es : List ε) (P : σ → Prop) [DecidablePred P]
    (h : (runEvents step ok s es).any (fun t => decide (P t)) = true) :
    ∃ t, Run step ok s t ∧ P t := by
  rcases (Option.any_eq_true_iff_get _ _).1 h with ⟨hs, hP⟩
  exact ⟨_, run_of_runEvents (Option.some_get hs).symm, of_decide_eq_true hP⟩

/-! ## Records of a run -/

/-- Every entry of a record is in order with what was recorded before it. -/
def Always {α : Type*} (Q : List α → α → Prop) (l : List α) : Prop :=
  ∀ pre a post, l = pre ++ a :: post → Q pre a

variable {α : Type*} {Q : List α → α → Prop} {l l' : List α} {a : α}

theorem always_nil : Always Q [] := by
  intro pre a post h
  simp at h

theorem always_concat (h : Always Q l) (ha : Q l a) : Always Q (l ++ [a]) := by
  intro pre b post hb
  -- The entry in question is the new one, or an old one.
  rcases List.eq_nil_or_concat post with rfl | ⟨post, c, rfl⟩
  · obtain ⟨rfl, hab⟩ := List.append_inj' hb rfl
    cases hab
    exact ha
  · refine h pre b post ?_
    have hb' : l ++ [a] = (pre ++ b :: post) ++ [c] := by simpa using hb
    exact (List.append_inj' hb' rfl).1

theorem Always.of_prefix (h : Always Q l') (hpre : l <+: l') : Always Q l := by
  intro pre b post hb
  obtain ⟨rest, rfl⟩ := hpre
  exact h pre b (post ++ rest) (by rw [hb]; simp)

theorem Always.last (h : Always Q (l ++ [a])) : Q l a := h l a [] rfl

end

end MasterScheduler.Lib
