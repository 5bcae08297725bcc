import MasterScheduler.Lib.Chain

/-!
# MasterScheduler.Lib.Links — operations on singly linked lists

A list variable points to the first node, and every node has a link. The loops
of the operations take a bound on their rounds.

- `Links.Is`: the nodes of a list, as a list.
- `remove_mem`, `remove_notMem`: a node is taken out, and its link is cleared.
- `add_spec`: a node is put at the end.
-/

namespace MasterScheduler.Lib

variable {α : Type*}

/-- A list variable and the links of the nodes. -/
structure Links (α : Type*) where
  head : Option α
  next : α → Option α

namespace Links

/-- The list has these nodes. -/
def Is (s : Links α) (l : List α) : Prop := Chain s.next s.head l

variable [DecidableEq α]

/-- The loop that looks for a node, with the node that it was at before. -/
def locate (next : α → Option α) (x : α) : ℕ → Option α → Option α → Option (Option (Option α))
  | 0, _, _ => none
  | _ + 1, _, none => some none
  | n + 1, r, some l => if l = x then some (some r) else locate next x n (some l) (next l)

/-- Take a node out of the list, if it is there. -/
def remove (n : ℕ) (s : Links α) (x : α) : Option (Links α) :=
  (locate s.next x n none s.head).map fun
    | none => s
    | some none => { head := s.next x, next := Function.update s.next x none }
    | some (some r) =>
        { s with next := Function.update (Function.update s.next r (s.next x)) x none }

/-- The loop to the last node. -/
def lastFrom (next : α → Option α) : ℕ → α → Option α
  | 0, _ => none
  | n + 1, l => match next l with
    | none => some l
    | some l' => lastFrom next n l'

/-- Put a node at the end of the list, where it is then once. -/
def add (n : ℕ) (s : Links α) (x : α) : Option (Links α) :=
  (remove n s x).bind fun s =>
    let s := { s with next := Function.update s.next x none }
    match s.head with
    | none => some { s with head := some x }
    | some h => (lastFrom s.next n h).map fun l =>
        { s with next := Function.update s.next l (some x) }

/-! ## Taking out -/

variable {s : Links α} {next : α → Option α} {a r : Option α} {x : α} {l pre post : List α} {n : ℕ}

theorem locate_mem (h : Chain next a (pre ++ x :: post)) (hx : x ∉ pre)
    (hn : (pre ++ x :: post).length < n) :
    locate next x n r a = some (some (pre.getLast?.or r)) := by
  induction pre generalizing a r n with
  | nil =>
    cases n with
    | zero => cases hn
    | succ n =>
      rw [h.1, locate, if_pos rfl]
      rfl
  | cons y ys ih =>
    cases n with
    | zero => cases hn
    | succ n =>
      have hyx : y ≠ x := fun heq => hx (heq ▸ List.mem_cons_self)
      rw [List.cons_append, List.length_cons] at hn
      rw [h.1, locate, if_neg hyx,
        ih h.2 (fun hmem => hx (List.mem_cons_of_mem y hmem)) (by omega)]
      -- The node before `x` is the last of `pre`, or the one the loop came from.
      cases ys with
      | nil => rfl
      | cons z zs =>
        rw [List.getLast?_cons_cons]
        cases hlast : (z :: zs).getLast? with
        | none => simp at hlast
        | some w => rfl

theorem locate_notMem (h : Chain next a l) (hx : x ∉ l) (hn : l.length < n) :
    locate next x n r a = some none := by
  induction l generalizing a r n with
  | nil =>
    have ha : a = none := h
    cases n with
    | zero => cases hn
    | succ n => rw [ha, locate]
  | cons y ys ih =>
    cases n with
    | zero => cases hn
    | succ n =>
      have hyx : y ≠ x := fun heq => hx (heq ▸ List.mem_cons_self)
      rw [List.length_cons] at hn
      rw [h.1, locate, if_neg hyx]
      exact ih h.2 (fun hmem => hx (List.mem_cons_of_mem y hmem)) (by omega)

theorem remove_notMem (h : s.Is l) (hx : x ∉ l) (hn : l.length < n) : remove n s x = some s := by
  rw [remove, locate_notMem h hx hn]
  rfl

/-- The node is out of the list, and nothing follows it. -/
theorem remove_mem (h : s.Is (pre ++ x :: post)) (hn : (pre ++ x :: post).length < n) :
    ∃ s', remove n s x = some s' ∧ s'.Is (pre ++ post) ∧ s'.next x = none := by
  have hnodup := Chain.nodup h
  have hx : x ∉ pre ∧ x ∉ post := by
    rw [List.nodup_append, List.nodup_cons] at hnodup
    exact ⟨fun hmem => hnodup.2.2 x hmem x List.mem_cons_self rfl, hnodup.2.1.1⟩
  -- The first node is taken out by way of `head`, another by way of the node before it.
  rcases List.eq_nil_or_concat pre with rfl | ⟨ys, y, rfl⟩
  · refine ⟨{ head := s.next x, next := Function.update s.next x none },
      by rw [remove, locate_mem h hx.1 hn]; rfl, ?_, Function.update_self x none s.next⟩
    have hrest : Chain s.next (s.next x) post := h.2
    exact hrest.congr fun z hz => Function.update_of_ne (ne_of_mem_of_not_mem hz hx.2) _ _
  · have hlocate : locate s.next x n none s.head = some (some (some y)) := by
      rw [locate_mem h hx.1 hn]
      simp
    refine ⟨{ s with next := Function.update (Function.update s.next y (s.next x)) x none },
      by rw [remove, hlocate]; rfl, ?_,
      Function.update_self x none (Function.update s.next y (s.next x))⟩
    have hchain : Chain s.next s.head (ys ++ y :: x :: post) := by
      have hc : Chain s.next s.head _ := h
      rwa [List.concat_eq_append, List.append_assoc] at hc
    have hunlinked := hchain.unlink
    rw [List.concat_eq_append, List.append_assoc]
    refine hunlinked.congr fun z hz => Function.update_of_ne ?_ _ _
    rintro rfl
    rcases List.mem_append.mp hz with hz | hz
    · exact hx.1 (by simp [hz])
    · rcases List.mem_cons.mp hz with rfl | hz
      · exact hx.1 (by simp)
      · exact hx.2 hz

/-! ## Putting at the end -/

omit [DecidableEq α] in
theorem lastFrom_eq {y : α} (h : Chain next (some y) l) (hn : l.length ≤ n) :
    lastFrom next n y = l.getLast? := by
  induction l generalizing y n with
  | nil => cases h
  | cons z zs ih =>
    obtain rfl := Option.some.inj h.1
    cases n with
    | zero => simp at hn
    | succ n =>
      rw [List.length_cons] at hn
      rw [lastFrom]
      cases zs with
      | nil =>
        have hnone : next y = none := h.2
        rw [hnone]
        rfl
      | cons w ws =>
        have hw : next y = some w := h.2.1
        have hrest : Chain next (some w) (w :: ws) := by
          rw [← hw]
          exact h.2
        rw [hw, List.getLast?_cons_cons]
        exact ih hrest (by omega)

/-- A node with no link is put behind the last one. -/
theorem chain_append {y : α} (h : Chain next a (pre ++ [y])) (hx : x ∉ pre ++ [y])
    (hnone : next x = none) :
    Chain (Function.update next y (some x)) a (pre ++ [y] ++ [x]) := by
  have hnodup := h.nodup
  induction pre generalizing a with
  | nil =>
    have hxy : x ≠ y := by
      rintro rfl
      exact hx (by simp)
    refine ⟨h.1, ?_, ?_⟩
    · rw [Function.update_self]
    · rw [Function.update_of_ne hxy]
      exact hnone
  | cons z zs ih =>
    obtain ⟨hz, hrest⟩ := List.nodup_cons.mp hnodup
    -- Only the last node gets a new successor.
    have hzy : z ≠ y := by
      rintro rfl
      exact hz (by simp)
    refine ⟨h.1, ?_⟩
    rw [Function.update_of_ne hzy]
    exact ih h.2 (fun hmem => hx (List.mem_cons_of_mem z hmem)) hrest

theorem add_spec (h : s.Is l) (hx : x ∉ l) (hn : l.length < n) :
    ∃ s', add n s x = some s' ∧ s'.Is (l ++ [x]) := by
  have hclear : Chain (Function.update s.next x none) s.head l := by
    have hc : Chain s.next s.head l := h
    exact hc.congr fun y hy => Function.update_of_ne (ne_of_mem_of_not_mem hy hx) _ _
  rw [add, remove_notMem h hx hn, Option.bind_some]
  dsimp only
  -- In an empty list the node becomes the head.
  rcases List.eq_nil_or_concat l with rfl | ⟨ys, y, rfl⟩
  · have hhead : s.head = none := h
    rw [hhead]
    refine ⟨_, rfl, rfl, ?_⟩
    exact Function.update_self x none s.next
  · obtain ⟨z, hz⟩ : ∃ z, s.head = some z := by
      have hhead := Chain.head_eq h
      rw [hhead]
      cases ys with
      | nil => exact ⟨y, rfl⟩
      | cons w ws => exact ⟨w, rfl⟩
    rw [hz] at hclear ⊢
    dsimp only
    rw [lastFrom_eq hclear (Nat.le_of_lt hn), List.concat_eq_append, List.getLast?_concat]
    refine ⟨_, rfl, ?_⟩
    rw [List.concat_eq_append] at hclear hx
    exact chain_append hclear hx (Function.update_self x none s.next)

end Links

end MasterScheduler.Lib
