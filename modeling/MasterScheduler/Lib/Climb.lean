import MasterScheduler.Lib.Chain
import Mathlib.Data.List.Perm.Subperm
import Mathlib.Logic.Relation

/-!
# MasterScheduler.Lib.Climb — walks along parent links

Every node has at most one parent. A walk from a node to a root takes a bound on
its steps, for parent links may form a cycle.

- `Leads`: the parent links lead from a node to the root.
- `climb`: the walk with a bound. It is right if the bound is at least the number
  of nodes (`climb_iff`).
- `Leads.congr`, `Leads.update`: links that change, and nodes that stay connected.
- `Ascent`: the nodes on the way up. There is one way, and it passes no node twice.
-/

namespace MasterScheduler.Lib

variable {α : Type*}

/-- The parent links lead from a node to the root. -/
def Leads (parent : α → Option α) (root : α) (x : α) : Prop :=
  Relation.ReflTransGen (fun x y => parent x = some y) x root

variable [DecidableEq α]

/-- The walk from a node, up to the root, to a node without a parent, or as far as the bound
allows. -/
def climb (parent : α → Option α) (root : Option α) : ℕ → Option α → Option α
  | 0, node => node
  | _ + 1, none => none
  | d + 1, some x => if some x = root then some x else climb parent root d (parent x)

variable {parent parent' : α → Option α} {root x c : α} {q : Option α} {d : ℕ} {nodes : List α}

theorem leads_of_climb (h : climb parent (some root) d (some x) = some root) :
    Leads parent root x := by
  induction d generalizing x with
  | zero =>
    rw [← Option.some.inj h]
    exact .refl
  | succ d ih =>
    rw [climb] at h
    split at h
    · rw [← Option.some.inj h]
      exact .refl
    · cases hx : parent x with
      | none =>
        rw [hx] at h
        cases d <;> cases h
      | some y =>
        rw [hx] at h
        exact .head hx (ih h)

/-- The nodes of the walk up to the root, which has no parent here. -/
theorem Leads.path (h : Leads parent root x) :
    ∃ l, Chain (Function.update parent root none) (some x) l ∧ root ∈ l ∧
      ∀ y ∈ l, ∀ {P : α → Prop}, (∀ a b, P a → parent a = some b → P b) → P x → P y := by
  induction h using Relation.ReflTransGen.head_induction_on with
  | refl =>
    refine ⟨[root], ⟨rfl, Function.update_self ..⟩, List.mem_cons_self, ?_⟩
    intro y hy P _ hx
    rw [List.mem_singleton.mp hy]
    exact hx
  | @head a b hab _ ih =>
    obtain ⟨l, hchain, hroot, hall⟩ := ih
    by_cases ha : a = root
    · refine ⟨[a], ⟨rfl, ?_⟩, by simp [ha], ?_⟩
      · rw [ha]
        exact Function.update_self ..
      · intro y hy P _ hx
        rw [List.mem_singleton.mp hy]
        exact hx
    · refine ⟨a :: l, ⟨rfl, ?_⟩, List.mem_cons_of_mem a hroot, ?_⟩
      · rw [Function.update_of_ne ha, hab]
        exact hchain
      · intro y hy P hP hx
        rcases List.mem_cons.mp hy with rfl | hy
        · exact hx
        · exact hall y hy hP (hP a b hx hab)

theorem climb_of_chain {l : List α} (h : Chain (Function.update parent root none) (some x) l)
    (hroot : root ∈ l) (hd : l.length ≤ d + 1) : climb parent (some root) d (some x) = some root := by
  -- On the depth: the chain is no longer than it.
  induction d generalizing x l with
  | zero =>
    cases l with
    | nil => cases hroot
    | cons y ys =>
      have hnil : ys = [] := by
        cases ys with
        | nil => rfl
        | cons z zs =>
          simp only [List.length_cons] at hd
          omega
      rw [hnil, List.mem_singleton] at hroot
      rw [climb, h.1, hroot]
  | succ d ih =>
    rw [climb]
    split
    · rename_i hx
      exact hx
    · rename_i hx
      have hne : x ≠ root := fun h => hx (congrArg some h)
      cases l with
      | nil => cases hroot
      | cons y ys =>
        obtain rfl : x = y := Option.some.inj h.1
        have hrest := h.2
        rw [Function.update_of_ne hne] at hrest
        have hroot' := (List.mem_cons.mp hroot).resolve_left hne.symm
        cases hp : parent x with
        | none =>
          rw [hp] at hrest
          cases ys with
          | nil => cases hroot'
          | cons z zs => exact nomatch hrest.1
        | some z =>
          rw [hp] at hrest
          rw [List.length_cons] at hd
          exact ih hrest hroot' (by omega)

variable (root) in
/-- The walk finds the root if its bound is at least the number of nodes. -/
theorem climb_iff (hclosed : ∀ a ∈ nodes, ∀ b, parent a = some b → b ∈ nodes)
    (hx : x ∈ nodes) (hd : nodes.length ≤ d) :
    climb parent (some root) d (some x) = some root ↔ Leads parent root x := by
  constructor
  · exact leads_of_climb
  · intro h
    obtain ⟨l, hchain, hroot, hall⟩ := h.path
    have hsub : l ⊆ nodes :=
      fun y hy => hall y hy (P := (· ∈ nodes)) (fun a b ha hab => hclosed a ha b hab) hx
    have hlen := (List.subperm_of_subset hchain.nodup hsub).length_le
    exact climb_of_chain hchain hroot (by omega)

omit [DecidableEq α] in
/-- Only the links of nodes that can be on the walk matter. -/
theorem Leads.congr (h : Leads parent root x)
    (hclosed : ∀ a ∈ nodes, ∀ b, parent a = some b → b ∈ nodes) (hx : x ∈ nodes)
    (heq : ∀ a ∈ nodes, parent' a = parent a) : Leads parent' root x := by
  induction h using Relation.ReflTransGen.head_induction_on with
  | refl => exact .refl
  | @head a b hab _ ih =>
    refine .head ?_ (ih (hclosed a hx b hab))
    rw [heq a hx]
    exact hab

/-- A new parent for one node keeps every other node connected, if that node was not connected or
still is. -/
theorem Leads.update (h : Leads parent root x)
    (hc : ¬ Leads parent root c ∨ Leads (Function.update parent c q) root c) :
    Leads (Function.update parent c q) root x := by
  induction h using Relation.ReflTransGen.head_induction_on with
  | refl => exact .refl
  | @head a b hab hb ih =>
    by_cases ha : a = c
    · rw [ha] at hab ⊢
      exact hc.resolve_left fun hnot => hnot (.head hab hb)
    · refine .head ?_ ih
      rw [Function.update_of_ne ha]
      exact hab

/-! ## The way up -/

/-- The nodes between a node and the root, from below. -/
def Ascent (parent : α → Option α) (root : α) : α → List α → Prop
  | x, [] => parent x = some root
  | x, y :: ys => parent x = some y ∧ y ≠ root ∧ Ascent parent root y ys

variable {y : α} {ys zs : List α}

theorem Leads.ascent (h : Leads parent root x) (hx : x ≠ root) : ∃ ys, Ascent parent root x ys := by
  induction h using Relation.ReflTransGen.head_induction_on with
  | refl => exact absurd rfl hx
  | @head a b hab _ ih =>
    by_cases hb : b = root
    · exact ⟨[], hb ▸ hab⟩
    · obtain ⟨ys, hys⟩ := ih hb
      exact ⟨b :: ys, hab, hb, hys⟩

omit [DecidableEq α]

theorem Ascent.leads (h : Ascent parent root x ys) : Leads parent root x := by
  induction ys generalizing x with
  | nil => exact .single h
  | cons y ys ih => exact .head h.1 (ih h.2.2)

theorem Ascent.unique (h : Ascent parent root x ys) (h' : Ascent parent root x zs) : ys = zs := by
  induction ys generalizing x zs with
  | nil =>
    cases zs with
    | nil => rfl
    | cons z zs => exact absurd (Option.some.inj (h'.1.symm.trans h)) h'.2.1
  | cons y ys ih =>
    cases zs with
    | nil => exact absurd (Option.some.inj (h.1.symm.trans h')) h.2.1
    | cons z zs =>
      obtain rfl : y = z := Option.some.inj (h.1.symm.trans h'.1)
      rw [ih h.2.2 h'.2.2]

/-- What every link on the way keeps holds of all nodes on it. -/
theorem Ascent.forall_mem {P : α → Prop} (h : Ascent parent root x ys)
    (hP : ∀ a b, P a → parent a = some b → P b) (hx : P x) : ∀ y ∈ x :: ys, P y := by
  induction ys generalizing x with
  | nil => exact fun y hy => List.mem_singleton.mp hy ▸ hx
  | cons z zs ih =>
    intro y hy
    rcases List.mem_cons.mp hy with rfl | hy
    · exact hx
    · exact ih h.2.2 (hP x z hx h.1) y hy

/-- A node on the way has less of the way above it. -/
theorem Ascent.suffix (h : Ascent parent root x ys) (hy : y ∈ ys) :
    ∃ zs, Ascent parent root y zs ∧ zs.length < ys.length := by
  induction ys generalizing x with
  | nil => cases hy
  | cons z zs ih =>
    rcases List.mem_cons.mp hy with rfl | hy
    · exact ⟨zs, h.2.2, Nat.lt_succ_self _⟩
    · obtain ⟨ws, hws, hlt⟩ := ih h.2.2 hy
      exact ⟨ws, hws, Nat.lt_succ_of_lt hlt⟩

theorem Ascent.nodup (h : Ascent parent root x ys) : (x :: ys).Nodup := by
  induction ys generalizing x with
  | nil => exact List.nodup_singleton x
  | cons z zs ih =>
    refine List.nodup_cons.mpr ⟨fun hx => ?_, ih h.2.2⟩
    obtain ⟨ws, hws, hlt⟩ := h.suffix hx
    exact Nat.ne_of_lt hlt (congrArg List.length (hws.unique h))

end MasterScheduler.Lib
