import MasterScheduler.Lib.BinaryHeap
import MasterScheduler.Lib.Keyed
import MasterScheduler.Host.Flow
import Mathlib.Data.Prod.Lex
import Mathlib.Data.List.Sort

/-!
# MasterScheduler.Host.Priodict — the priority dictionary

`priorityDictionary` of `Master/Python/priodict.py`: a dictionary with a binary
heap of pairs (value, key). A pair whose value is not the one of the dictionary
any more stays in the heap until it comes to the root, or until the heap is
rebuilt.

1. **Model**: dictionaries, `smallest`, `__setitem__` and the two loops that
   move an element through the heap.
2. **Operations**: `smallest_spec` and `setItem_spec` keep `Valid`: a heap that
   holds a pair for each entry.
3. **Iteration**: `yielded_least`, `yielded_again`, for any updates between the
   steps of the iterator.

Pairs are compared like tuples: by their values, and by their keys if these
are equal.
-/

namespace MasterScheduler.Host

open Lib

/-! ## Dictionaries -/

/-- A dictionary, in insertion order. -/
abbrev PyDict (K V : Type*) := Keyed (Prod.fst : K × V → K)

namespace PyDict

variable {K V : Type*} [DecidableEq K]

/-- `d[k]`, or `none` if the key is missing. -/
def getItem? (d : PyDict K V) (k : K) : Option V := (d.get? k).map Prod.snd

/-- `d[k] = v`: an entry keeps its place. -/
def setItem (d : PyDict K V) (k : K) (v : V) : PyDict K V :=
  if (d.get? k).isSome then d.modify k (fun a => (a.1, v)) fun _ => rfl else d.put (k, v)

/-- `d[k]`. -/
def getItem (d : PyDict K V) (k : K) : Except PyError V :=
  match d.getItem? k with
  | some v => .ok v
  | none => .error .keyError

variable {d : PyDict K V} {k k' : K} {v : V}

/-- An item is an entry. -/
theorem getItem?_eq_some_iff : d.getItem? k = some v ↔ (k, v) ∈ d.entries := by
  unfold getItem?
  rw [Option.map_eq_some_iff]
  constructor
  · rintro ⟨⟨k', v'⟩, hget, rfl⟩
    obtain ⟨hmem, rfl⟩ := Keyed.get?_eq_some_iff.mp hget
    exact hmem
  · intro hmem
    exact ⟨(k, v), Keyed.get?_eq_some_iff.mpr ⟨hmem, rfl⟩, rfl⟩

/-- The item that was set. -/
theorem getItem?_setItem : (d.setItem k v).getItem? k' = if k' = k then some v else d.getItem? k' := by
  unfold setItem getItem?
  split
  case isTrue hsome =>
    rw [Keyed.get?_modify]
    obtain ⟨⟨k₀, v₀⟩, hget⟩ := Option.isSome_iff_exists.mp hsome
    by_cases hk : k' = k
    · rw [if_pos hk, if_pos hk, hk, hget]
      rfl
    · rw [if_neg hk, if_neg hk]
  case isFalse =>
    rw [Keyed.get?_put]
    dsimp only
    split_ifs <;> rfl

/-- The item that was deleted. -/
theorem getItem?_erase : PyDict.getItem? (d.erase k) k' = if k' = k then none else d.getItem? k' := by
  unfold getItem?
  rw [Keyed.get?_erase]
  split_ifs <;> rfl

/-- The same two facts about the dictionary as a function. -/
theorem getItem?_setItem_eq (d : PyDict K V) (k : K) (v : V) :
    (d.setItem k v).getItem? = Function.update d.getItem? k (some v) := by
  funext k'
  rw [getItem?_setItem, Function.update_apply]

/-- Deletion of one item. -/
theorem getItem?_erase_eq (d : PyDict K V) (k : K) :
    PyDict.getItem? (d.erase k) = Function.update d.getItem? k none := by
  funext k'
  rw [getItem?_erase, Function.update_apply]

/-- An item that is there. -/
theorem getItem_eq_ok (h : d.getItem? k = some v) : d.getItem k = .ok v := by
  rw [getItem, h]

/-- No entry. -/
theorem entries_eq_nil_iff : d.entries = [] ↔ ∀ k, d.getItem? k = none := by
  constructor
  · intro h k
    rw [Option.eq_none_iff_forall_ne_some]
    intro v hv
    rw [getItem?_eq_some_iff, h] at hv
    cases hv
  · intro h
    rw [List.eq_nil_iff_forall_not_mem]
    rintro ⟨k, v⟩ hmem
    rw [← getItem?_eq_some_iff, h k] at hmem
    cases hmem

end PyDict

/-! ## Model -/

/-- `priorityDictionary`. -/
structure PriorityDictionary (K V : Type*) where
  items : PyDict K V
  heap : List (V ×ₗ K)

namespace PriorityDictionary

variable {K V : Type*} [LinearOrder K] [LinearOrder V]

def empty : PriorityDictionary K V := ⟨Keyed.empty, []⟩

/-- `smallChild` in a round of the inner loop of `smallest`. -/
def smallChild (heap : List (V ×ₗ K)) (insertionPoint : ℕ) : ℕ :=
  match heap[2 * insertionPoint + 1]?, heap[2 * insertionPoint + 2]? with
  | some a, some b => if b < a then 2 * insertionPoint + 2 else 2 * insertionPoint + 1
  | _, _ => 2 * insertionPoint + 1

/-- The inner loop of `smallest`: smaller children move into the hole at `insertionPoint`. -/
def siftDown (lastItem : V ×ₗ K) : ℕ → List (V ×ₗ K) → ℕ → List (V ×ₗ K)
  | 0, heap, _ => heap
  | fuel + 1, heap, insertionPoint =>
      match heap[smallChild heap insertionPoint]? with
      | none => heap.set insertionPoint lastItem
      | some child =>
          if lastItem ≤ child then heap.set insertionPoint lastItem
          else siftDown lastItem fuel (heap.set insertionPoint child) (smallChild heap insertionPoint)

/-- The outer loop of `smallest`: pairs that are not in the dictionary are taken off the root. -/
def removeDeleted (items : PyDict K V) : ℕ → List (V ×ₗ K) → Except PyError (K × List (V ×ₗ K))
  | 0, _ => .error .diverges
  | fuel + 1, heap =>
      match heap[0]?, heap.getLast? with
      | some root, some lastItem =>
          let (value, key) := ofLex root
          if items.getItem? key = some value then .ok (key, heap)
          else if heap.dropLast = [] then .error .indexError
          else removeDeleted items fuel (siftDown lastItem heap.length heap.dropLast 0)
      | _, _ => .error .indexError

/-- `smallest`. -/
def smallest (self : PriorityDictionary K V) : Except PyError (K × PriorityDictionary K V) :=
  if self.items.entries.length = 0 then .error .indexError
  else
    match removeDeleted self.items (self.heap.length + 1) self.heap with
    | .error e => .error e
    | .ok (key, heap) => .ok (key, { self with heap := heap })

/-- The loop of `__setitem__`: parents move into the hole at `insertionPoint`. -/
def siftUp (newPair : V ×ₗ K) : ℕ → List (V ×ₗ K) → ℕ → List (V ×ₗ K)
  | 0, heap, _ => heap
  | fuel + 1, heap, insertionPoint =>
      if 0 < insertionPoint then
        match heap[BinaryHeap.parent insertionPoint]? with
        | some p =>
            if newPair < p then
              siftUp newPair fuel (heap.set insertionPoint p) (BinaryHeap.parent insertionPoint)
            else heap.set insertionPoint newPair
        | none => heap.set insertionPoint newPair
      else heap.set insertionPoint newPair

/-- `__setitem__`. -/
def setItem (self : PriorityDictionary K V) (key : K) (val : V) : PriorityDictionary K V :=
  let items := self.items.setItem key val
  if 2 * items.entries.length < self.heap.length then
    ⟨items, (items.entries.map fun a => toLex (a.2, a.1)).mergeSort (· ≤ ·)⟩
  else
    let newPair := toLex (val, key)
    ⟨items, siftUp newPair (self.heap.length + 1) (self.heap ++ [newPair]) self.heap.length⟩

/-- `del self[key]`: the pairs of the key stay in the heap. -/
def delItem (self : PriorityDictionary K V) (key : K) : Except PyError (PriorityDictionary K V) :=
  match self.items.getItem? key with
  | none => .error .keyError
  | some _ => .ok { self with items := self.items.erase key }

/-! ## Operations -/

/-- The heap is one, and holds the pair of every entry. -/
structure Valid (q : PriorityDictionary K V) : Prop where
  isHeap : BinaryHeap.IsHeap q.heap
  mem_heap : ∀ k v, q.items.getItem? k = some v → toLex (v, k) ∈ q.heap

/-- The key of the least pair. -/
def Least (content : K → Option V) (k : K) : Prop :=
  ∃ v, content k = some v ∧ ∀ k' v', content k' = some v' → toLex (v, k) ≤ toLex (v', k')

section Loops

variable {heap : List (V ×ₗ K)} {i fuel : ℕ} {x : V ×ₗ K} {items : PyDict K V}

/-- The item of a hole that moves up finds its place. -/
theorem siftUp_spec (h : BinaryHeap.UpHole heap i x) (hi : i < heap.length) (hfuel : i < fuel) :
    BinaryHeap.IsHeap (siftUp x fuel heap i) ∧ ∀ z, z ∈ siftUp x fuel heap i ↔ z ∈ heap.set i x := by
  induction fuel generalizing heap i with
  | zero => exact absurd hfuel (Nat.not_lt_zero i)
  | succ fuel ih =>
    rw [siftUp]
    by_cases hpos : 0 < i
    case neg =>
      rw [if_neg hpos]
      exact ⟨h.fill fun p hi' => absurd hi' hpos, fun z => Iff.rfl⟩
    have hpar := BinaryHeap.parent_lt hpos
    have hlen := hpar.trans hi
    have hp : heap[BinaryHeap.parent i]? = some heap[BinaryHeap.parent i] :=
      List.getElem?_eq_getElem hlen
    rw [if_pos hpos, hp]
    dsimp only
    by_cases hlt : x < heap[BinaryHeap.parent i]
    · rw [if_pos hlt]
      obtain ⟨hheap, hmem⟩ := ih (h.move hpos hp hlt) (by rw [List.length_set]; omega) (by omega)
      refine ⟨hheap, fun z => (hmem z).trans (BinaryHeap.mem_move_iff hi hp hpar.ne)⟩
    · rw [if_neg hlt]
      refine ⟨h.fill fun p _ hp' => ?_, fun z => Iff.rfl⟩
      rw [hp, Option.some.injEq] at hp'
      rw [← hp']
      exact not_lt.mp hlt

/-- The child chosen is one, exists if there is any, and is the least of both. -/
theorem smallChild_spec : BinaryHeap.parent (smallChild heap i) = i ∧ i < smallChild heap i ∧
    ∀ j z, 0 < j → BinaryHeap.parent j = i → heap[j]? = some z →
      ∃ y, heap[smallChild heap i]? = some y ∧ y ≤ z := by
  have hchild : ∀ j z, 0 < j → BinaryHeap.parent j = i → heap[j]? = some z →
      heap[2 * i + 1]? = some z ∨
        heap[2 * i + 2]? = some z ∧ ∃ y, heap[2 * i + 1]? = some y := by
    intro j z hj hji hz
    rcases (BinaryHeap.parent_eq_iff hj).mp hji with rfl | rfl
    · exact .inl hz
    · have hlen := (List.getElem?_eq_some_iff.mp hz).1
      exact .inr ⟨hz, _, List.getElem?_eq_getElem (by omega)⟩
  unfold smallChild
  split
  case h_1 a b ha hb =>
    split
    case isTrue hlt =>
      refine ⟨(BinaryHeap.parent_eq_iff (by omega)).mpr (.inr rfl), by omega, ?_⟩
      intro j z hj hji hz
      rcases hchild j z hj hji hz with hz' | ⟨hz', _⟩
      · rw [ha, Option.some.injEq] at hz'
        exact ⟨b, hb, hz' ▸ hlt.le⟩
      · exact ⟨z, hz', le_refl z⟩
    case isFalse hge =>
      refine ⟨(BinaryHeap.parent_eq_iff (by omega)).mpr (.inl rfl), by omega, ?_⟩
      intro j z hj hji hz
      rcases hchild j z hj hji hz with hz' | ⟨hz', _⟩
      · exact ⟨z, hz', le_refl z⟩
      · rw [hb, Option.some.injEq] at hz'
        exact ⟨a, ha, hz' ▸ not_lt.mp hge⟩
  case h_2 hnot =>
    -- Without a second child the first one is the least.
    refine ⟨(BinaryHeap.parent_eq_iff (by omega)).mpr (.inl rfl), by omega, ?_⟩
    intro j z hj hji hz
    rcases hchild j z hj hji hz with hz' | ⟨hz', y, hy⟩
    · exact ⟨z, hz', le_refl z⟩
    · exact absurd hz' (hnot y z hy)

/-- An item that moves down keeps the length. -/
theorem length_siftDown : (siftDown x fuel heap i).length = heap.length := by
  induction fuel generalizing heap i with
  | zero => rfl
  | succ fuel ih =>
    rw [siftDown]
    cases heap[smallChild heap i]? with
    | none => exact List.length_set
    | some child =>
      dsimp only
      split
      · exact List.length_set
      · rw [ih, List.length_set]

/-- The item of a hole that moves down finds its place. -/
theorem siftDown_spec (h : BinaryHeap.DownHole heap i x) (hi : i < heap.length)
    (hfuel : heap.length ≤ i + fuel) : BinaryHeap.IsHeap (siftDown x fuel heap i) ∧
      ∀ z, z ∈ siftDown x fuel heap i ↔ z ∈ heap.set i x := by
  induction fuel generalizing heap i with
  | zero => omega
  | succ fuel ih =>
    obtain ⟨hpar, hlt, hmin⟩ := @smallChild_spec K V _ _ heap i
    rw [siftDown]
    cases hc : heap[smallChild heap i]? with
    | none =>
      dsimp only
      refine ⟨h.fill fun j y hj hji hy => ?_, fun z => Iff.rfl⟩
      obtain ⟨y', hy', _⟩ := hmin j y hj hji hy
      rw [hc] at hy'
      cases hy'
    | some child =>
      have hleast : ∀ j z, 0 < j → BinaryHeap.parent j = i → heap[j]? = some z → child ≤ z := by
        intro j z hj hji hz
        obtain ⟨y, hy, hle⟩ := hmin j z hj hji hz
        rw [hc, Option.some.injEq] at hy
        exact hy ▸ hle
      dsimp only
      by_cases hle : x ≤ child
      · rw [if_pos hle]
        exact ⟨h.fill fun j y hj hji hy => hle.trans (hleast j y hj hji hy), fun z => Iff.rfl⟩
      · rw [if_neg hle]
        have hlen := (List.getElem?_eq_some_iff.mp hc).1
        obtain ⟨hheap, hmem⟩ := ih (h.move (by omega) hpar hc (not_le.mp hle) hleast)
          (by rw [List.length_set]; exact hlen) (by rw [List.length_set]; omega)
        exact ⟨hheap, fun z => (hmem z).trans (BinaryHeap.mem_move_iff hi hc hlt.ne')⟩

/-- Deleted items leave the heap until the least one is on top. -/
theorem removeDeleted_spec (hheap : BinaryHeap.IsHeap heap)
    (hmem : ∀ k v, items.getItem? k = some v → toLex (v, k) ∈ heap) (hne : items.entries ≠ [])
    (hfuel : heap.length < fuel) :
    ∃ k heap', removeDeleted items fuel heap = .ok (k, heap') ∧ Valid ⟨items, heap'⟩ ∧
      Least items.getItem? k := by
  induction fuel generalizing heap with
  | zero => exact absurd hfuel (Nat.not_lt_zero _)
  | succ fuel ih =>
    obtain ⟨⟨k₀, v₀⟩, hentry⟩ := List.exists_mem_of_ne_nil _ hne
    have hpair := hmem k₀ v₀ (PyDict.getItem?_eq_some_iff.mpr hentry)
    have hpos : 0 < heap.length := List.length_pos_of_mem hpair
    have hroot : heap[0]? = some heap[0] := List.getElem?_eq_getElem hpos
    have hlast : heap.getLast? = some (heap.getLast (List.ne_nil_of_mem hpair)) :=
      List.getLast?_eq_some_getLast _
    generalize heap[0] = root at hroot
    generalize heap.getLast _ = lastItem at hlast
    rw [removeDeleted, hroot, hlast]
    dsimp only
    obtain ⟨⟨value, key⟩, rfl⟩ := toLex.surjective root
    rw [ofLex_toLex]
    dsimp only
    by_cases hcur : items.getItem? key = some value
    · rw [if_pos hcur]
      refine ⟨key, heap, rfl, ⟨hheap, hmem⟩, value, hcur, fun k' v' hk' => ?_⟩
      exact hheap.root_le hroot (hmem k' v' hk')
    rw [if_neg hcur]
    -- The pair at the root is of no entry, so no entry loses its pair.
    have hstale : ∀ k v, items.getItem? k = some v → heap[0]? ≠ some (toLex (v, k)) := by
      intro k v hk heq
      rw [hroot, Option.some.injEq] at heq
      have hkv := toLex.injective heq
      rw [Prod.mk.injEq] at hkv
      rw [hkv.1, hkv.2] at hcur
      exact hcur hk
    have hdrop : heap.dropLast ≠ [] := by
      intro hnil
      have hlen : heap.length = 1 := by
        have := congrArg List.length hnil
        rw [List.length_dropLast, List.length_nil] at this
        omega
      obtain ⟨j, hj⟩ := List.mem_iff_getElem?.mp hpair
      have hj0 : j = 0 := by
        have := (List.getElem?_eq_some_iff.mp hj).1
        omega
      exact hstale k₀ v₀ (PyDict.getItem?_eq_some_iff.mpr hentry) (by rw [← hj0]; exact hj)
    rw [if_neg hdrop]
    obtain ⟨hsift, hsiftMem⟩ := siftDown_spec (BinaryHeap.downHole_root hheap.dropLast lastItem)
      (List.length_pos_iff.mpr hdrop)
      (show heap.dropLast.length ≤ 0 + heap.length by rw [List.length_dropLast]; omega)
    refine ih hsift (fun k v hk => ?_) (by rw [length_siftDown, List.length_dropLast]; omega)
    rw [hsiftMem]
    exact BinaryHeap.mem_dropLast_set hlast hdrop (hmem k v hk) (hstale k v hk)

end Loops

variable {self : PriorityDictionary K V}

/-- Nothing is queued. -/
theorem valid_empty : (empty : PriorityDictionary K V).Valid :=
  ⟨BinaryHeap.isHeap_nil, fun _ _ h => by cases h⟩

/-- `smallest` finds the least pair, and changes the heap only. -/
theorem smallest_spec (h : self.Valid) (hne : self.items.entries ≠ []) :
    ∃ k heap, self.smallest = .ok (k, { self with heap := heap }) ∧
      Valid { self with heap := heap } ∧ Least self.items.getItem? k := by
  obtain ⟨k, heap, hrun, hvalid, hleast⟩ := removeDeleted_spec h.isHeap h.mem_heap hne
    (Nat.lt_succ_self _)
  have hlen : self.items.entries.length ≠ 0 := fun h0 => hne (List.length_eq_zero_iff.mp h0)
  refine ⟨k, heap, ?_, hvalid, hleast⟩
  rw [smallest, if_neg hlen, hrun]

/-- An assignment sets the item. -/
theorem setItem_items (key : K) (val : V) :
    (self.setItem key val).items = self.items.setItem key val := by
  unfold setItem
  dsimp only
  split <;> rfl

/-- An assignment keeps the heap valid. -/
theorem setItem_valid (h : self.Valid) (key : K) (val : V) : (self.setItem key val).Valid := by
  have hnew : ∀ k v, (self.items.setItem key val).getItem? k = some v →
      toLex (v, k) = toLex (val, key) ∨ toLex (v, k) ∈ self.heap := by
    intro k v hk
    rw [PyDict.getItem?_setItem] at hk
    split at hk
    case isTrue heq =>
      rw [Option.some.injEq] at hk
      exact .inl (by rw [heq, hk])
    case isFalse => exact .inr (h.mem_heap k v hk)
  unfold setItem
  dsimp only
  split
  case isTrue =>
    -- The new heap is the sorted list of all pairs.
    constructor
    · exact BinaryHeap.isHeap_of_pairwise (List.pairwise_mergeSort' (· ≤ ·) _)
    · intro k v hk
      rw [List.mem_mergeSort, List.mem_map]
      exact ⟨(k, v), PyDict.getItem?_eq_some_iff.mp hk, rfl⟩
  case isFalse =>
    obtain ⟨hheap, hmem⟩ := siftUp_spec (BinaryHeap.upHole_append h.isHeap (toLex (val, key)))
      (by rw [List.length_append, List.length_singleton]; omega) (Nat.lt_succ_self _)
    refine ⟨hheap, fun k v hk => ?_⟩
    rw [hmem, BinaryHeap.mem_set_iff (by rw [List.length_append, List.length_singleton]; omega)]
    refine (hnew k v hk).imp_right fun hold => ?_
    obtain ⟨j, hj⟩ := List.mem_iff_getElem?.mp hold
    have hlen := (List.getElem?_eq_some_iff.mp hj).1
    exact ⟨j, hlen.ne, by rw [List.getElem?_append_left hlen]; exact hj⟩

/-- A deletion keeps the heap valid. The item stays in it. -/
theorem delItem_valid (h : self.Valid) (key : K) :
    Valid { self with items := self.items.erase key } := by
  refine ⟨h.isHeap, fun k v hk => ?_⟩
  rw [PyDict.getItem?_erase] at hk
  split at hk
  case isTrue => cases hk
  case isFalse => exact h.mem_heap k v hk

/-! ## Iteration -/

/-- The generator of `__iter__`: it deletes the key it yielded last when it goes on. -/
structure Iteration (K V : Type*) where
  self : PriorityDictionary K V
  current : Option K

/-- What is done in a loop over the dictionary; `next` goes on to the next round. -/
inductive Op (K V : Type*) where
  | setItem (key : K) (val : V)
  | delItem (key : K)
  | next
deriving DecidableEq

/-- What has been done, with what the iterator answered. -/
inductive Event (K V : Type*) where
  | setItem (key : K) (val : V)
  | delItem (key : K)
  | yielded (key : K)
  | stopped
deriving DecidableEq

/-- `del self[x]` behind the `yield`. -/
def Iteration.resume (it : Iteration K V) : Except PyError (PriorityDictionary K V) :=
  match it.current with
  | none => .ok it.self
  | some x => it.self.delItem x

def step (it : Iteration K V) : Op K V → Except PyError (Iteration K V × Event K V)
  | .setItem key val => .ok (⟨it.self.setItem key val, it.current⟩, .setItem key val)
  | .delItem key =>
      match it.self.delItem key with
      | .error e => .error e
      | .ok self => .ok (⟨self, it.current⟩, .delItem key)
  | .next =>
      match it.resume with
      | .error e => .error e
      | .ok self =>
          if self.items.entries.length = 0 then .ok (⟨self, none⟩, .stopped)
          else
            match self.smallest with
            | .error e => .error e
            | .ok (x, self) => .ok (⟨self, some x⟩, .yielded x)

/-- A loop over the dictionary; it is over when the iterator stops. -/
def run : Iteration K V → List (Op K V) → Except PyError (List (Event K V))
  | _, [] => .ok []
  | it, op :: ops =>
      match step it op with
      | .error e => .error e
      | .ok (_, .stopped) => .ok [.stopped]
      | .ok (it, event) =>
          match run it ops with
          | .error e => .error e
          | .ok events => .ok (event :: events)

/-- The dictionary as its user sees it: the latest values, and the key being handled. -/
structure View (K V : Type*) where
  content : K → Option V
  current : Option K

namespace View

/-- What is left to yield: the key being handled is not, whatever its value. -/
def remaining (s : View K V) : K → Option V :=
  match s.current with
  | none => s.content
  | some x => Function.update s.content x none

def apply (s : View K V) : Event K V → View K V
  | .setItem key val => { s with content := Function.update s.content key (some val) }
  | .delItem key => { s with content := Function.update s.content key none }
  | .yielded key => ⟨s.remaining, some key⟩
  | .stopped => ⟨s.remaining, none⟩

/-- What the iterator may answer. -/
def Allows (s : View K V) : Event K V → Prop
  | .yielded key => Least s.remaining key
  | .stopped => ∀ k, s.remaining k = none
  | _ => True

/-- The next step deletes an entry that is not there: the loop asks for it, or the iterator goes
on after the loop has deleted the key of the round. -/
def DeletesMissing (s : View K V) : Op K V → Prop
  | .setItem _ _ => False
  | .delItem key => s.content key = none
  | .next => ∃ x, s.current = some x ∧ s.content x = none

/-- The view after a history that starts with an empty dictionary. -/
def after (events : List (Event K V)) : View K V := events.foldl apply ⟨fun _ => none, none⟩

omit [LinearOrder V] in
/-- The current key is not to come again. -/
theorem remaining_current {s : View K V} {x : K} (h : s.current = some x) : s.remaining x = none := by
  rw [remaining, h]
  exact Function.update_self x none s.content

end View

/-- An iteration is what its view says. -/
structure Shows (it : Iteration K V) (s : View K V) : Prop where
  valid : it.self.Valid
  content : it.self.items.getItem? = s.content
  current : it.current = s.current

section Simulation

variable {it it' : Iteration K V} {s : View K V} {op : Op K V} {event : Event K V}

/-- What `resume` leaves is what remains. -/
theorem resume_spec (h : Shows it s) {q : PriorityDictionary K V} (hq : it.resume = .ok q) :
    q.Valid ∧ q.items.getItem? = s.remaining := by
  rw [Iteration.resume, h.current] at hq
  rw [View.remaining]
  cases hc : s.current with
  | none =>
    rw [hc] at hq
    cases hq
    exact ⟨h.valid, h.content⟩
  | some x =>
    rw [hc] at hq
    dsimp only [delItem] at hq
    cases hx : it.self.items.getItem? x with
    | none =>
      rw [hx] at hq
      cases hq
    | some v =>
      rw [hx] at hq
      cases hq
      refine ⟨delItem_valid h.valid x, ?_⟩
      dsimp only
      rw [PyDict.getItem?_erase_eq, h.content]

/-- One operation does what the view allows, and shows the next view. -/
theorem step_spec (h : Shows it s) (hstep : step it op = .ok (it', event)) :
    Shows it' (s.apply event) ∧ s.Allows event := by
  -- Only `next` moves the iterator; the others change the content it shows.
  cases op with
  | setItem key val =>
    cases hstep
    refine ⟨⟨setItem_valid h.valid key val, ?_, h.current⟩, trivial⟩
    dsimp only [View.apply]
    rw [setItem_items, PyDict.getItem?_setItem_eq, h.content]
  | delItem key =>
    dsimp only [step, delItem] at hstep
    cases hkey : it.self.items.getItem? key with
    | none =>
      rw [hkey] at hstep
      cases hstep
    | some v =>
      rw [hkey] at hstep
      cases hstep
      refine ⟨⟨delItem_valid h.valid key, ?_, h.current⟩, trivial⟩
      dsimp only [View.apply]
      rw [PyDict.getItem?_erase_eq, h.content]
  | next =>
    dsimp only [step] at hstep
    cases hq : it.resume with
    | error e =>
      rw [hq] at hstep
      cases hstep
    | ok q =>
      obtain ⟨hvalid, hitems⟩ := resume_spec h hq
      rw [hq] at hstep
      dsimp only at hstep
      split at hstep
      case isTrue hempty =>
        cases hstep
        refine ⟨⟨hvalid, hitems, rfl⟩, fun k => ?_⟩
        rw [← hitems]
        exact PyDict.entries_eq_nil_iff.mp (List.length_eq_zero_iff.mp hempty) k
      case isFalse hne =>
        obtain ⟨k, heap, hsmall, hvalid', hleast⟩ := smallest_spec hvalid
          fun hnil => hne (List.length_eq_zero_iff.mpr hnil)
        rw [hsmall] at hstep
        cases hstep
        refine ⟨⟨hvalid', hitems, rfl⟩, ?_⟩
        change Least s.remaining k
        rw [← hitems]
        exact hleast

omit [LinearOrder V] in
/-- A deletion fails only for a missing key. -/
theorem delItem_error_iff {q : PriorityDictionary K V} {key : K} :
    (∃ e, q.delItem key = .error e) ↔ q.items.getItem? key = none := by
  rw [delItem]
  cases q.items.getItem? key with
  | none => exact ⟨fun _ => rfl, fun _ => ⟨_, rfl⟩⟩
  | some v => exact ⟨fun ⟨_, h⟩ => (nomatch h), fun h => (nomatch h)⟩

/-- The iterator fails only when its current key was deleted. -/
theorem resume_error_iff (h : Shows it s) :
    (∃ e, it.resume = .error e) ↔ ∃ x, s.current = some x ∧ s.content x = none := by
  rw [Iteration.resume, h.current]
  cases s.current with
  | none => exact ⟨fun ⟨_, h⟩ => (nomatch h), fun ⟨_, h, _⟩ => (nomatch h)⟩
  | some x =>
    dsimp only
    rw [delItem_error_iff, h.content]
    exact ⟨fun hx => ⟨x, rfl, hx⟩, fun ⟨_, hy, hx⟩ => Option.some.inj hy ▸ hx⟩

/-- A step fails exactly where an entry is deleted that is not there. -/
theorem step_error_iff (h : Shows it s) :
    (∃ e, step it op = .error e) ↔ s.DeletesMissing op := by
  cases op with
  | setItem key val => exact ⟨fun ⟨_, h⟩ => (nomatch h), False.elim⟩
  | delItem key =>
    rw [View.DeletesMissing, ← h.content, ← delItem_error_iff, step]
    cases it.self.delItem key with
    | error e => exact ⟨fun _ => ⟨e, rfl⟩, fun _ => ⟨e, rfl⟩⟩
    | ok q => exact ⟨fun ⟨_, h⟩ => (nomatch h), fun ⟨_, h⟩ => (nomatch h)⟩
  | next =>
    rw [View.DeletesMissing, ← resume_error_iff h, step]
    cases hq : it.resume with
    | error e => exact ⟨fun _ => ⟨e, rfl⟩, fun _ => ⟨e, rfl⟩⟩
    | ok q =>
      -- behind the deletion nothing fails: a valid dictionary with entries has a smallest one
      refine ⟨fun hfail => ?_, fun ⟨_, h⟩ => (nomatch h)⟩
      obtain ⟨e, hfail⟩ := hfail
      dsimp only at hfail
      split at hfail
      case isTrue => cases hfail
      case isFalse hne =>
        obtain ⟨k, heap, hsmall, _⟩ := smallest_spec (resume_spec h hq).1
          fun hnil => hne (List.length_eq_zero_iff.mpr hnil)
        rw [hsmall] at hfail
        cases hfail

/-- One round of `run`. -/
theorem run_cons {ops : List (Op K V)} {events : List (Event K V)}
    (h : run it (op :: ops) = .ok events) :
    ∃ it' event rest, step it op = .ok (it', event) ∧ events = event :: rest ∧
      (event = .stopped ∧ rest = [] ∨ event ≠ .stopped ∧ run it' ops = .ok rest) := by
  rw [run] at h
  cases hstep : step it op with
  | error e =>
    rw [hstep] at h
    cases h
  | ok r =>
    rcases r with ⟨it', event⟩
    rw [hstep] at h
    cases event with
    | stopped =>
      cases h
      exact ⟨it', _, _, rfl, rfl, .inl ⟨rfl, rfl⟩⟩
    | setItem | delItem | yielded =>
      dsimp only at h
      cases hrun : run it' ops with
      | error e =>
        rw [hrun] at h
        cases h
      | ok rest =>
        rw [hrun] at h
        cases h
        exact ⟨it', _, rest, rfl, rfl, .inr ⟨nofun, hrun⟩⟩

/-- Every event of a run is allowed after the events before it. -/
theorem run_spec {ops : List (Op K V)} {events : List (Event K V)} (h : Shows it s)
    (hrun : run it ops = .ok events) {pre post : List (Event K V)}
    (hevents : events = pre ++ event :: post) : (pre.foldl View.apply s).Allows event := by
  induction ops generalizing it s events pre with
  | nil =>
    cases hrun
    rw [List.nil_eq, List.append_eq_nil_iff] at hevents
    exact absurd hevents.2 (List.cons_ne_nil _ _)
  | cons op ops ih =>
    obtain ⟨it', first, rest, hstep, rfl, hrest⟩ := run_cons hrun
    obtain ⟨hshows, hallows⟩ := step_spec h hstep
    cases pre with
    | nil =>
      rw [List.nil_append, List.cons.injEq] at hevents
      exact hevents.1 ▸ hallows
    | cons e pre =>
      rw [List.cons_append, List.cons.injEq] at hevents
      rw [List.foldl_cons, ← hevents.1]
      rcases hrest with ⟨_, hnil⟩ | ⟨_, hrest⟩
      · rw [hnil, List.nil_eq, List.append_eq_nil_iff] at hevents
        exact absurd hevents.2.2 (List.cons_ne_nil _ _)
      · exact ih hshows hrest hevents.2

/-- What `run` does after a step that does not stop the iterator. -/
theorem run_of_step {ops : List (Op K V)} (hstep : step it op = .ok (it', event))
    (hne : event ≠ .stopped) : run it (op :: ops) =
      match run it' ops with
      | .error e => .error e
      | .ok events => .ok (event :: events) := by
  rw [run, hstep]
  cases event with
  | stopped => exact absurd rfl hne
  | setItem | delItem | yielded => rfl

/-- A loop fails exactly if one of its steps, before the iterator stops, deletes an entry that is
not there. -/
theorem run_error_iff {ops : List (Op K V)} (h : Shows it s) :
    (∃ e, run it ops = .error e) ↔ ∃ pre op post events, ops = pre ++ op :: post ∧
      run it pre = .ok events ∧ .stopped ∉ events ∧
        (events.foldl View.apply s).DeletesMissing op := by
  -- On the operations: the first either fails or is followed by the rest.
  induction ops generalizing it s with
  | nil =>
    constructor
    · rintro ⟨e, he⟩
      cases he
    · rintro ⟨pre, op, post, _, hops, _⟩
      exact absurd (List.append_eq_nil_iff.mp hops.symm).2 (List.cons_ne_nil _ _)
  | cons op ops ih =>
    cases hstep : step it op with
    | error e =>
      constructor
      · intro _
        exact ⟨[], op, ops, [], rfl, rfl, List.not_mem_nil, (step_error_iff h).mp ⟨e, hstep⟩⟩
      · intro _
        rw [run, hstep]
        exact ⟨e, rfl⟩
    | ok r =>
      obtain ⟨it', event⟩ := r
      obtain ⟨hshows, _⟩ := step_spec h hstep
      have hfirst : ¬ s.DeletesMissing op := by
        rw [← step_error_iff h, hstep]
        rintro ⟨_, he⟩
        cases he
      by_cases hstop : event = .stopped
      · subst hstop
        constructor
        · rintro ⟨e, he⟩
          rw [run, hstep] at he
          cases he
        · rintro ⟨pre, op', post, events, hops, hrun, hnot, hmissing⟩
          cases pre with
          | nil =>
            cases hrun
            rw [List.nil_append, List.cons.injEq] at hops
            exact absurd (hops.1 ▸ hmissing) hfirst
          | cons op₁ pre =>
            rw [List.cons_append, List.cons.injEq] at hops
            rw [← hops.1, run, hstep] at hrun
            cases hrun
            exact absurd List.mem_cons_self hnot
      · have hrest : (∃ e, run it (op :: ops) = .error e) ↔ ∃ e, run it' ops = .error e := by
          rw [run_of_step hstep hstop]
          cases run it' ops with
          | error e => exact ⟨fun _ => ⟨e, rfl⟩, fun _ => ⟨e, rfl⟩⟩
          | ok events => exact ⟨fun ⟨_, h⟩ => (nomatch h), fun ⟨_, h⟩ => (nomatch h)⟩
        rw [hrest, ih hshows]
        constructor
        · rintro ⟨pre, op', post, events, rfl, hrun, hnot, hmissing⟩
          refine ⟨op :: pre, op', post, event :: events, rfl, ?_, ?_, hmissing⟩
          · rw [run_of_step hstep hstop, hrun]
          · rw [List.mem_cons, not_or]
            exact ⟨fun heq => hstop heq.symm, hnot⟩
        · rintro ⟨pre, op', post, events, hops, hrun, hnot, hmissing⟩
          cases pre with
          | nil =>
            cases hrun
            rw [List.nil_append, List.cons.injEq] at hops
            exact absurd (hops.1 ▸ hmissing) hfirst
          | cons op₁ pre =>
            rw [List.cons_append, List.cons.injEq] at hops
            rw [← hops.1, run_of_step hstep hstop] at hrun
            cases hpre : run it' pre with
            | error e =>
              rw [hpre] at hrun
              cases hrun
            | ok rest =>
              rw [hpre] at hrun
              cases hrun
              exact ⟨pre, op', post, rest, hops.2, hpre, fun hmem => hnot (.tail _ hmem), hmissing⟩

end Simulation

/-! ## A key is yielded once -/

section Once

variable {events pre mid post : List (Event K V)} {k : K} {s : View K V}

omit [LinearOrder V] in
/-- A missing key does not remain. -/
theorem remaining_of_content (h : s.content k = none) : s.remaining k = none := by
  unfold View.remaining
  cases s.current with
  | none => exact h
  | some x =>
    dsimp only
    rw [Function.update_apply, h, ite_self]

omit [LinearOrder V] in
/-- A missing key comes back only by being set. -/
theorem exists_setItem (hnone : s.content k = none)
    (hback : (events.foldl View.apply s).remaining k ≠ none) : ∃ v, .setItem k v ∈ events := by
  induction events generalizing s with
  | nil => exact absurd (remaining_of_content hnone) hback
  | cons e events ih =>
    by_cases hset : ∃ v, e = .setItem k v
    · obtain ⟨v, rfl⟩ := hset
      exact ⟨v, List.mem_cons_self⟩
    have hkeep : (s.apply e).content k = none := by
      cases e with
      | setItem key val =>
        have hkey : k ≠ key := by
          rintro rfl
          exact hset ⟨val, rfl⟩
        dsimp only [View.apply]
        rw [Function.update_of_ne hkey]
        exact hnone
      | delItem key =>
        dsimp only [View.apply]
        rw [Function.update_apply, hnone, ite_self]
      | yielded | stopped => exact remaining_of_content hnone
    obtain ⟨v, hv⟩ := ih hkeep hback
    exact ⟨v, List.mem_cons_of_mem _ hv⟩

omit [LinearOrder V] in
/-- The key being handled comes back only by being set in a later round. -/
theorem exists_next_setItem (hcurrent : s.current = some k) (hstop : .stopped ∉ mid)
    (hback : (mid.foldl View.apply s).remaining k ≠ none) :
    ∃ a j b v, mid = a ++ .yielded j :: b ∧ .setItem k v ∈ b := by
  induction mid generalizing s with
  | nil => exact absurd (View.remaining_current hcurrent) hback
  | cons e mid ih =>
    have hstop' : .stopped ∉ mid := fun hmem => hstop (List.mem_cons_of_mem _ hmem)
    cases e with
    | setItem key val =>
      obtain ⟨a, j, b, v, rfl, hv⟩ := ih (s := s.apply (.setItem key val)) hcurrent hstop' hback
      exact ⟨_ :: a, j, b, v, rfl, hv⟩
    | delItem key =>
      obtain ⟨a, j, b, v, rfl, hv⟩ := ih (s := s.apply (.delItem key)) hcurrent hstop' hback
      exact ⟨_ :: a, j, b, v, rfl, hv⟩
    | yielded j =>
      -- The next round starts with the deletion of the key.
      obtain ⟨v, hv⟩ := exists_setItem (s := s.apply (.yielded j))
        (View.remaining_current hcurrent) hback
      exact ⟨[], j, mid, v, rfl, hv⟩
    | stopped => exact absurd List.mem_cons_self hstop

/-- Nothing follows the end of the iterator. -/
theorem eq_nil_of_stopped {ops : List (Op K V)} {it : Iteration K V}
    (hrun : run it ops = .ok events) (hevents : events = pre ++ .stopped :: post) : post = [] := by
  induction ops generalizing it events pre with
  | nil =>
    cases hrun
    rw [List.nil_eq, List.append_eq_nil_iff] at hevents
    exact absurd hevents.2 (List.cons_ne_nil _ _)
  | cons op ops ih =>
    obtain ⟨it', first, rest, _, rfl, hrest⟩ := run_cons hrun
    cases pre with
    | nil =>
      rw [List.nil_append, List.cons.injEq] at hevents
      rcases hrest with ⟨_, hnil⟩ | ⟨hne, _⟩
      · rw [← hevents.2, hnil]
      · exact absurd hevents.1 hne
    | cons e pre =>
      rw [List.cons_append, List.cons.injEq] at hevents
      rcases hrest with ⟨_, hnil⟩ | ⟨_, hrest⟩
      · rw [hnil, List.nil_eq, List.append_eq_nil_iff] at hevents
        exact absurd hevents.2.2 (List.cons_ne_nil _ _)
      · exact ih hrest hevents.2

/-- The loop over a dictionary that is empty at first. -/
def runEmpty (ops : List (Op K V)) : Except PyError (List (Event K V)) := run ⟨empty, none⟩ ops

/-- Nothing is iterated at first. -/
theorem shows_empty : Shows (⟨empty, none⟩ : Iteration K V) (View.after []) :=
  ⟨valid_empty, rfl, rfl⟩

/-- The key yielded has the least pair of latest value and key. -/
theorem yielded_least {ops : List (Op K V)} (hrun : runEmpty ops = .ok events)
    (hevents : events = pre ++ .yielded k :: post) : Least (View.after pre).remaining k :=
  run_spec shows_empty hrun hevents

/-- The iterator stops when nothing remains. -/
theorem stopped_none {ops : List (Op K V)} (hrun : runEmpty ops = .ok events)
    (hevents : events = pre ++ .stopped :: post) (k : K) : (View.after pre).remaining k = none :=
  run_spec shows_empty hrun hevents k

/-- A key is yielded again only if it is set in a later round than its own. -/
theorem yielded_again {ops : List (Op K V)} (hrun : runEmpty ops = .ok events)
    (hevents : events = pre ++ .yielded k :: (mid ++ .yielded k :: post)) :
    ∃ a j b v, mid = a ++ .yielded j :: b ∧ .setItem k v ∈ b := by
  have hagain : Least (View.after (pre ++ .yielded k :: mid)).remaining k :=
    yielded_least hrun (show events = (pre ++ .yielded k :: mid) ++ .yielded k :: post by
      rw [hevents, List.append_assoc, List.cons_append])
  obtain ⟨v, hv, _⟩ := hagain
  refine exists_next_setItem (s := (View.after pre).apply (.yielded k)) rfl ?_ ?_
  · intro hmem
    obtain ⟨a, b, rfl⟩ := List.mem_iff_append.mp hmem
    have hnil := eq_nil_of_stopped hrun
      (show events = (pre ++ .yielded k :: a) ++ .stopped :: (b ++ .yielded k :: post) by
        rw [hevents]
        simp only [List.append_assoc, List.cons_append])
    exact absurd (List.append_eq_nil_iff.mp hnil).2 (List.cons_ne_nil _ _)
  · rw [View.after, List.foldl_append, List.foldl_cons] at hv
    rw [View.after, hv]
    exact Option.some_ne_none v

end Once

end PriorityDictionary

end MasterScheduler.Host
