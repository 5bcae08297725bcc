import Mathlib.Algebra.BigOperators.Group.List.Basic
import Mathlib.Algebra.Order.Ring.Nat
import Mathlib.Data.List.Nodup

/-!
# MasterScheduler.Lib.Keyed — lists with one element per key

A list whose elements have distinct keys, in the order in which they were
added. The operations are described by what they do to `get?`.

- `get?_erase`, `get?_put`, `get?_modify`: lookup after an operation.
- `sum_modify_le`: a measure of the elements after one of them is changed.
- `countP_erase`, `countP_put`: how many elements have a property.
-/

namespace MasterScheduler.Lib

/-- A list whose elements have distinct keys. -/
structure Keyed {α κ : Type*} (key : α → κ) where
  entries : List α
  nodup : (entries.map key).Nodup

namespace Keyed

variable {α κ : Type*} {key : α → κ} [DecidableEq κ]

def empty : Keyed key := ⟨[], List.nodup_nil⟩

def get? (t : Keyed key) (k : κ) : Option α := t.entries.find? (key · = k)

def erase (t : Keyed key) (k : κ) : Keyed key where
  entries := t.entries.filter (key · ≠ k)
  nodup := t.nodup.sublist (List.filter_sublist.map key)

/-- Add an element at the end; one with the same key is removed before. -/
def put (t : Keyed key) (a : α) : Keyed key where
  entries := (t.erase (key a)).entries ++ [a]
  nodup := by
    rw [List.map_append, List.nodup_append]
    refine ⟨(t.erase (key a)).nodup, by simp, ?_⟩
    intro k hk k' hk'
    rcases List.mem_map.1 hk with ⟨b, hb, rfl⟩
    rw [List.map_singleton, List.mem_singleton] at hk'
    rw [hk']
    simpa using (List.mem_filter.1 hb).2

/-- Change the element with the given key. -/
def modify (t : Keyed key) (k : κ) (f : α → α) (hf : ∀ a, key (f a) = key a) : Keyed key where
  entries := t.entries.map fun a => if key a = k then f a else a
  nodup := by
    have hkey : ∀ a, key (if key a = k then f a else a) = key a := by
      intro a
      split_ifs
      · exact hf a
      · rfl
    simpa only [List.map_map, Function.comp_def, hkey] using t.nodup

theorem get?_eq_some_iff {t : Keyed key} {k : κ} {a : α} :
    t.get? k = some a ↔ a ∈ t.entries ∧ key a = k := by
  constructor
  · intro h
    exact ⟨List.mem_of_find?_eq_some h, by simpa using List.find?_some h⟩
  · rintro ⟨ha, rfl⟩
    cases hb : t.get? (key a) with
    | none => simpa using List.find?_eq_none.1 hb a ha
    | some b =>
      have hkb : key b = key a := by simpa using List.find?_some hb
      rw [List.inj_on_of_nodup_map t.nodup (List.mem_of_find?_eq_some hb) ha hkb]

@[simp] theorem get?_empty (k : κ) : (empty : Keyed key).get? k = none := rfl

theorem get?_erase (t : Keyed key) (k k' : κ) :
    (t.erase k).get? k' = if k' = k then none else t.get? k' := by
  unfold get? erase
  rw [List.find?_filter]
  split_ifs with h
  · subst h
    simp
  · congr 1
    funext a
    by_cases ha : key a = k' <;> simp [ha, h]

theorem get?_put (t : Keyed key) (a : α) (k : κ) :
    (t.put a).get? k = if k = key a then some a else t.get? k := by
  have herase := get?_erase t (key a) k
  unfold get? at herase ⊢
  unfold put
  rw [List.find?_append, herase]
  split_ifs with h
  · simp [h]
  · have h' : key a ≠ k := fun hk => h hk.symm
    simp [h']

theorem get?_modify (t : Keyed key) (k : κ) (f : α → α) (hf : ∀ a, key (f a) = key a) (k' : κ) :
    (t.modify k f hf).get? k' = if k' = k then (t.get? k').map f else t.get? k' := by
  have hkey : ∀ a, key (if key a = k then f a else a) = key a := by
    intro a
    split_ifs
    · exact hf a
    · rfl
  unfold get? modify
  simp only [List.find?_map, Function.comp_def, hkey]
  cases hfind : t.entries.find? (key · = k') with
  | none => simp
  | some a =>
    have ha : key a = k' := by simpa using List.find?_some hfind
    by_cases hk : k' = k
    · simp [hk, ha]
    · have hak : key a ≠ k := fun h => hk (ha.symm.trans h)
      simp [hk, hak]

/-- Change of the element that was added last. -/
theorem entries_modify_last {t : Keyed key} {rest : List α} {a : α}
    (h : t.entries = rest ++ [a]) (f : α → α) (hf : ∀ a, key (f a) = key a) :
    (t.modify (key a) f hf).entries = rest ++ [f a] := by
  have hne : ∀ b ∈ rest, key b ≠ key a := by
    intro b hb
    have hnd := t.nodup
    rw [h, List.map_append, List.nodup_append] at hnd
    exact hnd.2.2 _ (List.mem_map_of_mem hb) _ (by simp)
  have hrest : (rest.map fun b => if key b = key a then f b else b) = rest := by
    conv_rhs => rw [← List.map_id rest]
    refine List.map_congr_left fun b hb => ?_
    rw [if_neg (hne b hb)]
    rfl
  unfold modify
  dsimp only
  rw [h, List.map_append, hrest]
  simp

theorem length_erase_le (t : Keyed key) (k : κ) : (t.erase k).entries.length ≤ t.entries.length :=
  List.length_filter_le _ _

theorem length_put_le (t : Keyed key) (a : α) :
    (t.put a).entries.length ≤ t.entries.length + 1 := by
  unfold put
  rw [List.length_append]
  exact Nat.add_le_add_right (length_erase_le t (key a)) 1

/-- If the change adds `c` to a measure at most, so it does to the sum. -/
theorem sum_modify_le (t : Keyed key) (k : κ) (f : α → α) (hf : ∀ a, key (f a) = key a)
    (m : α → ℕ) (c : ℕ) (hm : ∀ a, m (f a) ≤ m a + c) :
    ((t.modify k f hf).entries.map m).sum ≤ (t.entries.map m).sum + c := by
  rcases t with ⟨l, hnd⟩
  unfold modify
  dsimp only
  induction l with
  | nil => simp
  | cons a l ih =>
    rw [List.map_cons, List.nodup_cons] at hnd
    rcases hnd with ⟨ha, hnd⟩
    simp only [List.map_cons, List.sum_cons]
    by_cases hk : key a = k
    · -- no other element has this key
      have hrest : (l.map fun b => if key b = k then f b else b) = l := by
        conv_rhs => rw [← List.map_id l]
        refine List.map_congr_left ?_
        intro b hb
        rw [if_neg fun hbk => ha (by rw [hk, ← hbk]; exact List.mem_map_of_mem hb)]
        rfl
      rw [if_pos hk, hrest]
      have := hm a
      omega
    · rw [if_neg hk]
      have := ih hnd
      omega

/-- The element with a key is the only one. -/
theorem filter_key (t : Keyed key) (k : κ) : t.entries.filter (key · = k) = (t.get? k).toList := by
  rcases t with ⟨l, hnd⟩
  unfold get?
  dsimp only
  induction l with
  | nil => rfl
  | cons a l ih =>
    rw [List.map_cons, List.nodup_cons] at hnd
    rcases hnd with ⟨ha, hnd⟩
    by_cases hk : key a = k
    · -- no other element has this key
      have hrest : l.filter (key · = k) = [] := by
        rw [List.filter_eq_nil_iff]
        intro b hb hbk
        rw [decide_eq_true_eq] at hbk
        exact ha (by rw [hk, ← hbk]; exact List.mem_map_of_mem hb)
      rw [List.filter_cons_of_pos (by simpa using hk), List.find?_cons_of_pos (by simpa using hk),
        hrest]
      rfl
    · rw [List.filter_cons_of_neg (by simpa using hk), List.find?_cons_of_neg (by simpa using hk)]
      exact ih hnd

theorem countP_erase {t : Keyed key} {k : κ} {a : α} (h : t.get? k = some a) (P : α → Bool) :
    t.entries.countP P = (t.erase k).entries.countP P + if P a then 1 else 0 := by
  rw [List.countP_eq_countP_filter_add t.entries P (key · = k), filter_key, h]
  have hrest : t.entries.filter (fun b => !decide (key b = k)) = (t.erase k).entries := by
    unfold erase
    simp
  rw [hrest, Nat.add_comm]
  simp

theorem erase_of_get?_none {t : Keyed key} {k : κ} (h : t.get? k = none) :
    (t.erase k).entries = t.entries := by
  unfold erase
  rw [List.filter_eq_self]
  intro a ha
  simpa using List.find?_eq_none.1 h a ha

theorem countP_put {t : Keyed key} {a : α} (h : t.get? (key a) = none) (P : α → Bool) :
    (t.put a).entries.countP P = t.entries.countP P + if P a then 1 else 0 := by
  unfold put
  rw [List.countP_append, erase_of_get?_none h, List.countP_singleton]

end Keyed

end MasterScheduler.Lib
