import MasterScheduler.Lib.Chain

/-!
# MasterScheduler.Lib.Traversal — loops over a list that changes on the way

A loop over a singly linked list is at some node, and follows the links from
there on. Meanwhile nodes are put in front of the list and taken out of it; a
node that is taken out keeps its link, so that a loop which is at it goes on.

- `Traversal`: the nodes that are still to come. Those of them that are in the
  list are the last ones of the list.
- `Traversal.push`, `Traversal.unlink`, `Traversal.unlink_head`: nothing that
  stays in the list is left out.
- `Edit`: one such change. A loop goes on over it (`Traversal.edit`), unless the
  new node is one that the loop still has before it.
-/

namespace MasterScheduler.Lib

variable {α : Type*} [DecidableEq α] {next next' : α → Option α} {a a' pos : Option α} {x y : α}
  {l l' path pre post s : List α}

omit [DecidableEq α] in
/-- A node of the list is followed by nodes of the list. -/
theorem Chain.subset_of_mem (h : Chain next a l) (hx : x ∈ l) (hpath : Chain next (next x) path)
    (hy : y ∈ path) : y ∈ l := by
  obtain ⟨pre, post, rfl⟩ := List.append_of_mem hx
  obtain rfl := hpath.unique h.suffix
  exact List.mem_append_right _ (List.mem_cons_of_mem _ hy)

/-- The nodes that a loop meets. -/
def nodes (next : α → Option α) : ℕ → Option α → List α
  | n + 1, some x => x :: nodes next n (next x)
  | _, _ => []

omit [DecidableEq α] in
theorem nodes_eq {n : ℕ} (h : Chain next a l) (hn : l.length < n) : nodes next n a = l := by
  induction l generalizing a n with
  | nil =>
    obtain rfl : a = none := h
    cases n <;> rfl
  | cons x xs ih =>
    cases n with
    | zero => cases hn
    | succ n => rw [h.1, nodes, ih h.2 (Nat.lt_of_succ_lt_succ hn)]

/-- The nodes that a loop has before it. -/
structure Traversal (next : α → Option α) (l : List α) (pos : Option α) (path : List α) : Prop where
  chain : Chain next pos path
  suffix : path.filter (· ∈ l) <:+ l

/-- What is left of the list, when a node is taken out of it. -/
theorem suffix_erase (hl : l.Nodup) (h : s <:+ l) (x : α) : s.erase x <:+ l.erase x := by
  obtain ⟨t, rfl⟩ := h
  by_cases hx : x ∈ t
  · have hs : x ∉ s := fun hmem => (List.nodup_append.mp hl).2.2 x hx x hmem rfl
    rw [List.erase_append_left _ hx, List.erase_of_not_mem hs]
    exact List.suffix_append _ _
  · rw [List.erase_append_right _ hx]
    exact List.suffix_append _ _

theorem filter_erase (hl : l.Nodup) (hpath : path.Nodup) :
    path.filter (· ∈ l.erase x) = (path.filter (· ∈ l)).erase x := by
  rw [(hpath.filter _).erase_eq_filter, List.filter_filter]
  refine List.filter_congr fun z _ => ?_
  rw [Bool.eq_iff_iff]
  simp only [decide_eq_true_eq, Bool.and_eq_true, bne_iff_ne, ne_eq, hl.mem_erase_iff]

namespace Traversal

theorem start (h : Chain next a l) : Traversal next l a l :=
  ⟨h, [], List.filter_eq_self.mpr fun _ hx => decide_eq_true hx⟩

theorem nodup (h : Traversal next l pos path) : path.Nodup := h.chain.nodup

/-- The loop goes on. -/
theorem tail (h : Traversal next l pos (x :: path)) :
    pos = some x ∧ Traversal next l (next x) path := by
  refine ⟨h.chain.1, h.chain.2, ?_⟩
  refine List.IsSuffix.trans ?_ h.suffix
  rw [List.filter_cons]
  split
  · exact List.suffix_cons _ _
  · exact List.suffix_rfl

/-- A node is put in front of the list. -/
theorem push (h : Traversal next l pos path) (hpath : x ∉ path) (a : Option α) :
    Traversal (Function.update next x a) (x :: l) pos path := by
  refine ⟨h.chain.congr fun z hz => Function.update_of_ne (ne_of_mem_of_not_mem hz hpath) _ _, ?_⟩
  have hfilter : path.filter (· ∈ x :: l) = path.filter (· ∈ l) := by
    refine List.filter_congr fun z hz => ?_
    have hne := ne_of_mem_of_not_mem hz hpath
    simp only [List.mem_cons, hne, false_or]
  rw [hfilter]
  exact h.suffix.trans (List.suffix_cons x l)

/-- The first node is taken out. -/
theorem unlink_head (h : Traversal next (x :: l) pos path) (hl : (x :: l).Nodup) :
    Traversal next l pos path := by
  refine ⟨h.chain, ?_⟩
  have herase := suffix_erase hl h.suffix x
  rw [← filter_erase hl h.nodup, List.erase_cons_head] at herase
  exact herase

/-- Another node is taken out. -/
theorem unlink (h : Traversal next (pre ++ y :: x :: post) pos path)
    (hl : Chain next a (pre ++ y :: x :: post)) :
    ∃ path', Traversal (Function.update next y (next x)) (pre ++ y :: post) pos path' ∧
      path'.Sublist path ∧ (∀ z ∈ path, z ≠ x → z ∈ path') ∧ path'.head? = path.head? := by
  have hnodup := hl.nodup
  have hpre : x ∉ pre ++ [y] := by
    intro hmem
    rw [List.append_cons] at hnodup
    exact (List.nodup_append.mp hnodup).2.2 x hmem x List.mem_cons_self rfl
  have herase : (pre ++ y :: x :: post).erase x = pre ++ y :: post := by
    rw [List.append_cons, List.erase_append_right _ hpre, List.erase_cons_head, ← List.append_cons]
  have hsuffix := suffix_erase hnodup h.suffix x
  rw [← filter_erase hnodup h.nodup, herase] at hsuffix
  by_cases hy : y ∈ path
  · -- the loop is before both nodes, and does not meet the second one any more
    obtain ⟨before, behind, rfl⟩ := List.append_of_mem hy
    have hnext : next y = some x := hl.suffix.1
    have hbehind := h.chain.suffix
    rw [hnext] at hbehind
    cases behind with
    | nil => cases hbehind
    | cons z behind =>
      obtain rfl : x = z := Option.some.inj hbehind.1
      have hmem : x ∉ pre ++ y :: post := by
        rw [← herase]
        exact fun hx => (hnodup.mem_erase_iff.mp hx).1 rfl
      refine ⟨before ++ y :: behind, ⟨h.chain.unlink, ?_⟩, ?_, fun z hz hne => ?_, ?_⟩
      · simp only [List.mem_append, List.mem_cons, not_or] at hmem
        simpa [List.filter_append, List.filter_cons, hmem.1, hmem.2.1, hmem.2.2] using hsuffix
      · exact (List.sublist_cons_self x behind).cons_cons y |>.append_left before
      · simp only [List.mem_append, List.mem_cons] at hz ⊢
        tauto
      · cases before <;> rfl
  · exact ⟨path, ⟨h.chain.congr fun z hz =>
      Function.update_of_ne (ne_of_mem_of_not_mem hz hy) _ _, hsuffix⟩, .refl _,
      fun _ hz _ => hz, rfl⟩

end Traversal

/-- A list changes: the links, the first node, and the nodes, before and after. -/
inductive Edit (next : α → Option α) (a : Option α) :
    List α → (α → Option α) → Option α → List α → Prop
  | same (l : List α) : Edit next a l next a l
  | push {x : α} {l : List α} (hx : x ∉ l) :
    Edit next a l (Function.update next x a) (some x) (x :: l)
  | first (x : α) (l : List α) : Edit next a (x :: l) next (next x) l
  | unlink (pre post : List α) (y x : α) :
    Edit next a (pre ++ y :: x :: post) (Function.update next y (next x)) a (pre ++ y :: post)

theorem Edit.chain (h : Edit next a l next' a' l') (hl : Chain next a l) : Chain next' a' l' := by
  cases h with
  | same => exact hl
  | push hx => exact hl.push hx
  | first => exact hl.2
  | unlink => exact hl.unlink

/-- The loop goes on in the list that has changed. -/
theorem Traversal.edit (h : Traversal next l pos path) (hl : Chain next a l)
    (hedit : Edit next a l next' a' l') (hnew : ∀ x ∈ path, x ∈ l' → x ∈ l) :
    ∃ path', Traversal next' l' pos path' ∧ path'.Sublist path ∧
      (∀ z ∈ path, z ∈ l' → z ∈ path') ∧ path'.head? = path.head? := by
  cases hedit with
  | same => exact ⟨path, h, .refl _, fun _ hz _ => hz, rfl⟩
  | @push x _ hx =>
    have hpath : x ∉ path := fun hmem => hx (hnew x hmem List.mem_cons_self)
    exact ⟨path, h.push hpath a, .refl _, fun _ hz _ => hz, rfl⟩
  | first x => exact ⟨path, h.unlink_head hl.nodup, .refl _, fun _ hz _ => hz, rfl⟩
  | unlink pre post y x =>
    obtain ⟨path', hwalk, hsub, hkeep, hhead⟩ := h.unlink hl
    refine ⟨path', hwalk, hsub, fun z hz hmem => hkeep z hz ?_, hhead⟩
    rintro rfl
    have hnodup := hl.nodup
    rw [List.append_cons, List.nodup_middle, List.nodup_cons, ← List.append_cons] at hnodup
    exact hnodup.1 hmem

end MasterScheduler.Lib
