import Mathlib.Data.List.Nodup
import Mathlib.Logic.Function.Basic

/-!
# MasterScheduler.Lib.Custody — things that are in one place at a time

A number of places, each of which holds a list of things. Custody is exclusive
if no thing is in two places or twice in one.

- `Exclusive.insert`: a new thing may be put anywhere.
- `Exclusive.remove`: a thing that is taken out is nowhere.
- `Exclusive.move`: so it may be put somewhere else.
-/

namespace MasterScheduler.Lib

variable {ι α : Type*}

/-- No thing is in two places, or twice in one. -/
structure Exclusive (c : ι → List α) : Prop where
  nodup : ∀ i, (c i).Nodup
  place : ∀ {i j a}, a ∈ c i → a ∈ c j → i = j

variable [DecidableEq ι] {c : ι → List α} {i j : ι} {a : α} {l l' : List α}

theorem mem_update {k : ι} {b : α} (h : b ∈ Function.update c i l k) :
    k = i ∧ b ∈ l ∨ k ≠ i ∧ b ∈ c k := by
  by_cases hk : k = i
  · subst hk
    rw [Function.update_self] at h
    exact .inl ⟨rfl, h⟩
  · rw [Function.update_of_ne hk] at h
    exact .inr ⟨hk, h⟩

theorem Exclusive.insert (h : Exclusive c) (ha : ∀ k, a ∉ c k) (hl : l.Perm (a :: c i)) :
    Exclusive (Function.update c i l) where
  nodup k := by
    by_cases hk : k = i
    · subst hk
      rw [Function.update_self, hl.nodup_iff]
      exact List.nodup_cons.2 ⟨ha k, h.nodup k⟩
    · rw [Function.update_of_ne hk]
      exact h.nodup k
  place {k k' b} hb hb' := by
    rcases mem_update hb with ⟨rfl, hbl⟩ | ⟨_, hbk⟩ <;>
      rcases mem_update hb' with ⟨rfl, hbl'⟩ | ⟨_, hbk'⟩
    · rfl
    · rcases List.mem_cons.1 (hl.mem_iff.1 hbl) with rfl | hbk
      · exact absurd hbk' (ha k')
      · exact h.place hbk hbk'
    · rcases List.mem_cons.1 (hl.mem_iff.1 hbl') with rfl | hbk'
      · exact absurd hbk (ha k)
      · exact h.place hbk hbk'
    · exact h.place hbk hbk'

theorem Exclusive.remove (h : Exclusive c) (hl : (c i).Perm (a :: l)) :
    Exclusive (Function.update c i l) ∧ ∀ k, a ∉ Function.update c i l k := by
  have hnd := hl.nodup_iff.1 (h.nodup i)
  have hmem : ∀ {k b}, b ∈ Function.update c i l k → b ∈ c k := by
    intro k b hb
    rcases mem_update hb with ⟨rfl, hbl⟩ | ⟨_, hbk⟩
    · exact hl.mem_iff.2 (List.mem_cons_of_mem a hbl)
    · exact hbk
  refine ⟨⟨fun k => ?_, fun hb hb' => h.place (hmem hb) (hmem hb')⟩, fun k hk => ?_⟩
  · by_cases hk : k = i
    · subst hk
      rw [Function.update_self]
      exact (List.nodup_cons.1 hnd).2
    · rw [Function.update_of_ne hk]
      exact h.nodup k
  · rcases mem_update hk with ⟨rfl, hkl⟩ | ⟨hne, hkc⟩
    · exact (List.nodup_cons.1 hnd).1 hkl
    · exact hne (h.place hkc (hl.mem_iff.2 List.mem_cons_self))

theorem Exclusive.move (h : Exclusive c) (hij : i ≠ j) (hl : (c i).Perm (a :: l))
    (hl' : l'.Perm (a :: c j)) :
    Exclusive (Function.update (Function.update c i l) j l') := by
  rcases h.remove hl with ⟨hex, hnone⟩
  refine hex.insert hnone ?_
  rwa [Function.update_of_ne hij.symm]

/-! What there is altogether. -/

theorem exists_mem_insert (hl : l.Perm (a :: c i)) {b : α} :
    (∃ k, b ∈ Function.update c i l k) ↔ b = a ∨ ∃ k, b ∈ c k := by
  constructor
  · rintro ⟨k, hk⟩
    rcases mem_update hk with ⟨rfl, hkl⟩ | ⟨_, hkc⟩
    · exact (List.mem_cons.1 (hl.mem_iff.1 hkl)).imp_right fun h => ⟨k, h⟩
    · exact .inr ⟨k, hkc⟩
  · have hmem : b ∈ a :: c i → ∃ k, b ∈ Function.update c i l k := fun h => by
      refine ⟨i, ?_⟩
      rw [Function.update_self]
      exact hl.mem_iff.2 h
    rintro (rfl | ⟨k, hk⟩)
    · exact hmem List.mem_cons_self
    · by_cases hki : k = i
      · exact hmem (List.mem_cons_of_mem a (hki ▸ hk))
      · refine ⟨k, ?_⟩
        rwa [Function.update_of_ne hki]

theorem exists_mem_remove (h : Exclusive c) (hl : (c i).Perm (a :: l)) {b : α} :
    (∃ k, b ∈ Function.update c i l k) ↔ b ≠ a ∧ ∃ k, b ∈ c k := by
  -- putting it back gives the places as they were
  have hback : (∃ k, b ∈ c k) ↔ b = a ∨ ∃ k, b ∈ Function.update c i l k := by
    have hins : (c i).Perm (a :: Function.update c i l i) := by rwa [Function.update_self]
    rw [← exists_mem_insert hins, Function.update_idem, Function.update_eq_self]
  have hnone := (h.remove hl).2
  constructor
  · rintro ⟨k, hk⟩
    refine ⟨?_, hback.2 (.inr ⟨k, hk⟩)⟩
    rintro rfl
    exact hnone k hk
  · rintro ⟨hne, hex⟩
    exact (hback.1 hex).resolve_left hne

theorem exists_mem_move (h : Exclusive c) (hij : i ≠ j) (hl : (c i).Perm (a :: l))
    (hl' : l'.Perm (a :: c j)) {b : α} :
    (∃ k, b ∈ Function.update (Function.update c i l) j l' k) ↔ ∃ k, b ∈ c k := by
  rw [exists_mem_insert (a := a) (by rwa [Function.update_of_ne hij.symm]),
    exists_mem_remove h hl]
  constructor
  · rintro (rfl | ⟨_, hb⟩)
    · exact ⟨i, hl.mem_iff.2 List.mem_cons_self⟩
    · exact hb
  · intro hb
    by_cases hba : b = a
    · exact .inl hba
    · exact .inr ⟨hba, hb⟩

end MasterScheduler.Lib
