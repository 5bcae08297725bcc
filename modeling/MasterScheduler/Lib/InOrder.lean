import Mathlib.Data.List.Nodup
import Mathlib.Logic.Function.Basic

/-!
# MasterScheduler.Lib.InOrder — things that are completed in the order of their acceptance

Things with destinations are accepted, wait at their destination and are
completed. What was accepted for a destination is what was completed and what
still waits, in this order.

- `InOrder.accept`, `InOrder.complete`: how the record goes on.
- `InOrder.completed_prefix`: to every destination, things complete in order.
- `InOrder.mem_accepted_iff`: what was accepted waits or was completed, not
  both (`InOrder.disjoint`).
-/

namespace MasterScheduler.Lib

variable {κ D : Type*} [DecidableEq D]

/-- The things of a list with a destination. -/
def toDest (dest : κ → Option D) (l : List κ) (d : D) : List κ :=
  l.filter fun k => decide (dest k = some d)

variable {dest dest' : κ → Option D} {l : List κ} {d : D} {k : κ}

theorem mem_toDest : k ∈ toDest dest l d ↔ k ∈ l ∧ dest k = some d := by
  rw [toDest, List.mem_filter, decide_eq_true_eq]

theorem toDest_append_self (h : dest k = some d) :
    toDest dest (l ++ [k]) d = toDest dest l d ++ [k] := by
  simp [toDest, h]

theorem toDest_append_of_ne (h : dest k ≠ some d) : toDest dest (l ++ [k]) d = toDest dest l d := by
  simp [toDest, h]

theorem toDest_congr (h : ∀ k ∈ l, dest' k = dest k) : toDest dest' l d = toDest dest l d :=
  List.filter_congr fun k hk => by rw [h k hk]

/-- What was accepted is what was completed and what waits, in this order. -/
structure InOrder (dest : κ → Option D) (accepted completed : List κ) (waiting : D → List κ) :
    Prop where
  split : ∀ d, toDest dest accepted d = toDest dest completed d ++ waiting d
  nodup : accepted.Nodup
  accepted_dest : ∀ k ∈ accepted, (dest k).isSome
  completed_dest : ∀ k ∈ completed, (dest k).isSome

namespace InOrder

variable {accepted completed : List κ} {waiting : D → List κ}

theorem nil : InOrder dest [] [] fun _ => [] where
  split := fun _ => rfl
  nodup := List.nodup_nil
  accepted_dest := by simp
  completed_dest := by simp

/-- The destinations of other things do not matter. -/
theorem congr (h : InOrder dest accepted completed waiting)
    (hdest : ∀ k, (dest k).isSome → dest' k = dest k) :
    InOrder dest' accepted completed waiting where
  split d := by
    rw [toDest_congr fun k hk => hdest k (h.accepted_dest k hk),
      toDest_congr fun k hk => hdest k (h.completed_dest k hk), h.split d]
  nodup := h.nodup
  accepted_dest k hk := by
    rw [hdest k (h.accepted_dest k hk)]
    exact h.accepted_dest k hk
  completed_dest k hk := by
    rw [hdest k (h.completed_dest k hk)]
    exact h.completed_dest k hk

theorem accept (h : InOrder dest accepted completed waiting) (hk : k ∉ accepted)
    (hd : dest k = some d) :
    InOrder dest (accepted ++ [k]) completed (Function.update waiting d (waiting d ++ [k])) where
  split d' := by
    by_cases heq : d' = d
    -- Only the queue of its destination grows.
    · subst heq
      rw [toDest_append_self hd, h.split, Function.update_self, List.append_assoc]
    · rw [toDest_append_of_ne (by rw [hd]; simpa using Ne.symm heq), h.split,
        Function.update_of_ne heq]
  nodup := by
    rw [List.nodup_append]
    refine ⟨h.nodup, List.nodup_singleton k, ?_⟩
    rintro a ha b hb rfl
    rw [List.mem_singleton.mp hb] at ha
    exact hk ha
  accepted_dest k' hk' := by
    rcases List.mem_append.mp hk' with hk' | hk'
    · exact h.accepted_dest k' hk'
    · rw [List.mem_singleton.mp hk', hd]
      rfl
  completed_dest := h.completed_dest

theorem mem_waiting (h : InOrder dest accepted completed waiting) (hk : k ∈ waiting d) :
    k ∈ accepted ∧ dest k = some d := by
  have : k ∈ toDest dest accepted d := by
    rw [h.split]
    exact List.mem_append_right _ hk
  exact mem_toDest.mp this

theorem complete (h : InOrder dest accepted completed waiting) {ks : List κ}
    (hd : waiting d = k :: ks) :
    InOrder dest accepted (completed ++ [k]) (Function.update waiting d ks) := by
  have hdest : dest k = some d := (h.mem_waiting (hd ▸ List.mem_cons_self)).2
  refine ⟨fun d' => ?_, h.nodup, h.accepted_dest, fun k' hk' => ?_⟩
  · by_cases heq : d' = d
    -- It was the first to wait for its destination, so it is next to complete.
    · subst heq
      rw [toDest_append_self hdest, h.split, Function.update_self, hd, List.append_assoc]
      rfl
    · rw [toDest_append_of_ne (by rw [hdest]; simpa using Ne.symm heq), h.split,
        Function.update_of_ne heq]
  · rcases List.mem_append.mp hk' with hk' | hk'
    · exact h.completed_dest k' hk'
    · rw [List.mem_singleton.mp hk', hdest]
      rfl

/-- To every destination, things complete in the order of their acceptance. -/
theorem completed_prefix (h : InOrder dest accepted completed waiting) (d : D) :
    toDest dest completed d <+: toDest dest accepted d := by
  rw [h.split]
  exact List.prefix_append _ _

theorem completed_accepted (h : InOrder dest accepted completed waiting) (hk : k ∈ completed) :
    k ∈ accepted := by
  obtain ⟨d, hd⟩ := Option.isSome_iff_exists.mp (h.completed_dest k hk)
  have hmem : k ∈ toDest dest accepted d :=
    (h.completed_prefix d).subset (mem_toDest.mpr ⟨hk, hd⟩)
  exact (mem_toDest.mp hmem).1

/-- What was accepted was completed or waits. -/
theorem mem_accepted_iff (h : InOrder dest accepted completed waiting) (hd : dest k = some d) :
    k ∈ accepted ↔ k ∈ completed ∨ k ∈ waiting d := by
  constructor
  · intro hk
    have hmem : k ∈ toDest dest accepted d := mem_toDest.mpr ⟨hk, hd⟩
    rw [h.split] at hmem
    exact (List.mem_append.mp hmem).imp_left fun hc => (mem_toDest.mp hc).1
  · rintro (hk | hk)
    · exact h.completed_accepted hk
    · exact (h.mem_waiting hk).1

theorem nodup_split (h : InOrder dest accepted completed waiting) (d : D) :
    (toDest dest completed d ++ waiting d).Nodup := by
  rw [← h.split]
  exact h.nodup.filter _

theorem nodup_waiting (h : InOrder dest accepted completed waiting) (d : D) :
    (waiting d).Nodup :=
  (List.nodup_append.mp (h.nodup_split d)).2.1

/-- What waits was not completed. -/
theorem disjoint (h : InOrder dest accepted completed waiting) (hk : k ∈ waiting d) :
    k ∉ completed := by
  intro hc
  -- Else it would be twice among what was accepted.
  have hd := (h.mem_waiting hk).2
  exact (List.nodup_append.mp (h.nodup_split d)).2.2 k (mem_toDest.mpr ⟨hc, hd⟩) k hk rfl

end InOrder

end MasterScheduler.Lib
