import MasterScheduler.Mote.RouteTable

/-!
# MasterScheduler.Mote.RouteInvariant — what every call keeps of the routes

1. **Bits**: the bits that `nbr_routes` has in the two bitmaps.
2. **Invariant**: the pools, the lists and the bits agree (`InvExcept`). While
   an operation is under way, one item may be used without having a route, or
   have lost its lock.
3. **Operations**: removal, removal by next hop, eviction, addition.
4. **Result**: `routes_sound`, for every reachable state.
-/

namespace MasterScheduler.Mote.RouteTable

open Lib Frame802154 NbrTable

variable {Table : Type} [DecidableEq Table] {C : Config Table}

/-! ## Bits -/

/-- The place of a table in the bitmaps. -/
def Config.place (C : Config Table) (table : Table) : ℕ := C.tables.idxOf table

/-- A map of the neighbour tables has eight bits. -/
theorem Config.place_lt {t : Table} (ht : t ∈ C.tables) : C.place t < 8 :=
  (List.idxOf_lt_length_of_mem ht).trans_le C.length_le

/-- The three tables have different bits. -/
theorem Config.place_ne {t u : Table} (ht : t ∈ C.tables) (h : t ≠ u) : C.place t ≠ C.place u :=
  fun heq => h ((List.idxOf_inj ht).mp heq)

/-- The table has its bit in the map. -/
def Marked (C : Config Table) (table : Table) (map : ℕ → BitVec 8) (item : ℕ) : Prop :=
  (map item).getLsbD (C.place table) = true

/-- What holds of the neighbors. -/
structure Neighbors (C : Config Table) (n : NbrTable.State Table) : Prop where
  index : n.index = C.place
  nodup : n.keys.Nodup
  counted : ∀ i ∈ n.keys, n.count i = true
  distinct : ∀ i ∈ n.keys, ∀ j ∈ n.keys, n.lladdr i = n.lladdr j → i = j

section Bits

variable {n : NbrTable.State Table} {t u : Table} {map : ℕ → BitVec 8} {i item : ℕ}

/-- A bit is set exactly for the neighbours marked in the table. -/
theorem Neighbors.getBit (h : Neighbors C n) (ht : t ∈ C.tables) :
    nbrGetBit n map t (some i) = true ↔ Marked C t map i := by
  rw [nbrGetBit, and_shift_ne_zero _ (by rw [h.index]; exact C.place_lt ht), h.index, Marked]

/-- Setting a bit marks the neighbour in this table only. -/
theorem Neighbors.set (h : Neighbors C n) (ht : t ∈ C.tables) :
    Marked C u (nbrSetBit n map t (some item) true) i ↔
      (i = item ∧ C.place u = C.place t) ∨ Marked C u map i := by
  have hlt := C.place_lt ht
  rw [Marked, Marked, nbrSetBit, h.index]
  by_cases hi : i = item
  · subst hi
    rw [Function.update_self, BitVec.getLsbD_or, getLsbD_shift hlt, Bool.or_eq_true,
      decide_eq_true_eq, or_comm]
    simp
  · rw [Function.update_of_ne hi]
    simp [hi]

/-- Clearing a bit removes the neighbour from this table only. -/
theorem Neighbors.clear (h : Neighbors C n) (ht : t ∈ C.tables) :
    Marked C u (nbrSetBit n map t (some item) false) i ↔
      ¬ (i = item ∧ C.place u = C.place t) ∧ Marked C u map i := by
  have hlt := C.place_lt ht
  rw [Marked, Marked, nbrSetBit, h.index]
  by_cases hi : i = item
  · subst hi
    rw [Function.update_self, BitVec.getLsbD_and, BitVec.getLsbD_not, getLsbD_shift hlt]
    by_cases hu : C.place u = C.place t
    · simp [hu]
    · by_cases hu8 : C.place u < 8
      · simp [hu, hu8]
      · have hfalse : (map i).getLsbD (C.place u) = false := BitVec.getLsbD_of_ge _ _ (by omega)
        simp [hfalse]
  · rw [Function.update_of_ne hi]
    simp [hi]

/-- A table leaves the bits of another one as they are. -/
theorem Neighbors.other (h : Neighbors C n) (ht : t ∈ C.tables) (hne : t ≠ u)
    (item : Option ℕ) (value : Bool) :
    Marked C u (nbrSetBit n map t item value) i ↔ Marked C u map i := by
  have hplace := (C.place_ne ht hne).symm
  cases item with
  | none => cases value <;> rfl
  | some item =>
    cases value
    · rw [h.clear ht]
      simp [hplace]
    · rw [h.set ht]
      simp [hplace]

/-- An address is found at the key that has it. -/
theorem Neighbors.indexFromLladdr_eq (h : Neighbors C n) (hi : i ∈ n.keys) :
    indexFromLladdr n (some (n.lladdr i)) = some i := by
  cases hfind : indexFromLladdr n (some (n.lladdr i)) with
  | none => exact absurd rfl (indexFromLladdr_eq_none.mp hfind i hi)
  | some x =>
    obtain ⟨hx, hxa⟩ := indexFromLladdr_eq_some hfind
    rw [h.distinct x hx i hi hxa]

/-- A neighbour that is found is a marked one with this address. -/
theorem Neighbors.getFromLladdr_eq_some (h : Neighbors C n) (ht : t ∈ C.tables)
    {lladdr : Option Linkaddr} (hget : getFromLladdr n t lladdr = some i) :
    i ∈ n.keys ∧ n.lladdr i = lladdr.getD linkaddrNull ∧ Marked C t n.usedMap i := by
  rw [getFromLladdr] at hget
  split at hget
  case isFalse => cases hget
  case isTrue hbit =>
    obtain ⟨hi, hia⟩ := indexFromLladdr_eq_some hget
    rw [hget] at hbit
    exact ⟨hi, hia, (h.getBit ht).mp hbit⟩

/-- A neighbour that is not found is not marked. -/
theorem Neighbors.getFromLladdr_eq_none (h : Neighbors C n) (ht : t ∈ C.tables) (hi : i ∈ n.keys)
    (hget : getFromLladdr n t (some (n.lladdr i)) = none) : ¬ Marked C t n.usedMap i := by
  intro hmarked
  rw [getFromLladdr, h.indexFromLladdr_eq hi, if_pos ((h.getBit ht).mpr hmarked)] at hget
  cases hget

end Bits

/-! ## Invariant -/

/-- The pools, the lists and the bits of `nbr_routes` agree, except that the item `pending` may
be used without having a route, and the item `unlocked` is not locked. `P` is what is known of
the lengths. -/
structure InvExcept (P : ℕ → Prop) (pending unlocked : Option ℕ) (s : State C) : Prop where
  neighbors : Neighbors C s.nbr
  keys : ∀ i, Marked C C.nbrRoutes s.nbr.usedMap i → i ∈ s.nbr.keys
  used : ∀ i, Marked C C.nbrRoutes s.nbr.usedMap i ↔ s.routeList i ≠ [] ∨ pending = some i
  locked : ∀ i, Marked C C.nbrRoutes s.nbr.lockedMap i ↔ s.routeList i ≠ [] ∧ unlocked ≠ some i
  routes : s.routelist.Nodup
  member : ∀ r, r ∈ s.routelist ↔ s.routememb r = true
  num : s.numRoutes = s.routelist.length
  lists : ∀ i, (s.routeList i).Nodup
  entry : ∀ i, ∀ n ∈ s.routeList i, s.neighborroutememb n = true ∧
    ∃ r ∈ s.routelist, s.neighborRoute n = some r ∧ (s.route r).neighborRoutes = some i
  entries : ∀ n, s.neighborroutememb n = true → ∃ i, n ∈ s.routeList i
  via : ∀ r ∈ s.routelist, ∃ i, (s.route r).neighborRoutes = some i ∧
    ∃ n ∈ s.routeList i, s.neighborRoute n = some r
  single : ∀ n m, s.neighborroutememb n = true → s.neighborroutememb m = true →
    s.neighborRoute n = s.neighborRoute m → n = m
  lengths : ∀ r ∈ s.routelist, P (s.route r).length

/-- Everything agrees. -/
abbrev Inv (P : ℕ → Prop) (s : State C) : Prop := InvExcept P none none s

/-- The empty table keeps the invariant. -/
theorem Inv.initial (P : ℕ → Prop) : Inv P (State.initial C) where
  neighbors := by
    refine ⟨rfl, List.nodup_nil, ?_, ?_⟩
    · intro i hi
      cases hi
    · intro i hi
      cases hi
  keys := by
    intro i h
    simp [Marked, State.initial, NbrTable.State.initial] at h
  used := by simp [Marked, State.initial, NbrTable.State.initial]
  locked := by simp [Marked, State.initial, NbrTable.State.initial]
  routes := List.nodup_nil
  member := by simp [State.initial, Pool.empty]
  num := rfl
  lists := fun _ => List.nodup_nil
  entry := by
    intro i n hn
    cases hn
  entries := by
    intro n hn
    cases hn
  via := by
    intro r hr
    cases hr
  single := by
    intro n m hn
    cases hn
  lengths := by
    intro r hr
    cases hr

section Inv

variable {P : ℕ → Prop} {s : State C} {pending unlocked : Option ℕ} {i : ℕ} {r n : Fin C.routeNb}

/-- The routes do not see what happens to the neighbors of other tables. -/
theorem InvExcept.frame (h : InvExcept P pending unlocked s) {nbr : NbrTable.State Table}
    (ipaddr : ℕ → Ipaddr) (hnbr : Neighbors C nbr)
    (hkeys : ∀ i, Marked C C.nbrRoutes nbr.usedMap i → i ∈ nbr.keys)
    (hused : ∀ i, Marked C C.nbrRoutes nbr.usedMap i ↔ Marked C C.nbrRoutes s.nbr.usedMap i)
    (hlocked : ∀ i,
      Marked C C.nbrRoutes nbr.lockedMap i ↔ Marked C C.nbrRoutes s.nbr.lockedMap i) :
    InvExcept P pending unlocked { s with nbr := nbr, ipaddr := ipaddr } :=
  { h with
    neighbors := hnbr
    keys := hkeys
    used := fun i => (hused i).trans (h.used i)
    locked := fun i => (hlocked i).trans (h.locked i) }

/-- The order of the routes does not matter. -/
theorem InvExcept.reorder (h : InvExcept P pending unlocked s) {l : List (Fin C.routeNb)}
    (hl : l.Perm s.routelist) : InvExcept P pending unlocked { s with routelist := l } :=
  { h with
    routes := hl.nodup_iff.mpr h.routes
    member := fun r => hl.mem_iff.trans (h.member r)
    num := by rw [hl.length_eq]; exact h.num
    entry := by
      intro i n hn
      obtain ⟨hused, r, hr, hroute⟩ := h.entry i n hn
      exact ⟨hused, r, hl.mem_iff.mpr hr, hroute⟩
    via := fun r hr => h.via r (hl.mem_iff.mp hr)
    lengths := fun r hr => h.lengths r (hl.mem_iff.mp hr) }

/-- An entry that is on a list is on no other one. -/
theorem InvExcept.list_unique (h : InvExcept P pending unlocked s) {j : ℕ} (hi : n ∈ s.routeList i)
    (hj : n ∈ s.routeList j) : i = j := by
  obtain ⟨-, r, -, hr, hri⟩ := h.entry i n hi
  obtain ⟨-, r', -, hr', hrj⟩ := h.entry j n hj
  obtain rfl := Option.some.inj (hr.symm.trans hr')
  exact Option.some.inj (hri.symm.trans hrj)

/-! ## Operations -/

/-! ### Removal -/

/-- The state after the removal of a route, whose entry is on the list of an item. -/
def removed (s : State C) (r n : Fin C.routeNb) (i : ℕ) : State C :=
  { s with
    routelist := s.routelist.erase r
    routeList := Function.update s.routeList i ((s.routeList i).erase n)
    nbr := if (s.routeList i).erase n = [] then NbrTable.remove s.nbr C.nbrRoutes (some i)
      else s.nbr
    routememb := s.routememb.release r
    neighborroutememb := s.neighborroutememb.release n
    numRoutes := s.numRoutes - 1 }

/-- The deletion of a listed route, without its branches. -/
theorem InvExcept.rm_eq (h : InvExcept P pending unlocked s) (hn : n ∈ s.routeList i)
    (hr : s.neighborRoute n = some r) : uipDs6RouteRm s (some r) = removed s r n i := by
  obtain ⟨hused, q, -, hq, hi⟩ := h.entry i n hn
  obtain rfl := Option.some.inj (hr.symm.trans hq)
  have hfind : (s.routeList i).find? (fun m => s.neighborRoute m = some r) = some n := by
    cases hfind : (s.routeList i).find? fun m => s.neighborRoute m = some r with
    | none =>
      have := List.find?_eq_none.mp hfind n hn
      simp [hr] at this
    | some m =>
      have hm : s.neighborRoute m = some r := by simpa using List.find?_some hfind
      obtain ⟨hmused, -⟩ := h.entry i m (List.mem_of_find?_eq_some hfind)
      rw [h.single m n hmused hused (hm.trans hr.symm)]
  simp only [uipDs6RouteRm, hi, hfind, Option.elim, removed]

/-- Removing a neighbour from the route table leaves the other tables. -/
theorem remove_neighbors {nbr : NbrTable.State Table} (h : Neighbors C nbr) (item : Option ℕ) :
    Neighbors C (NbrTable.remove nbr C.nbrRoutes item) :=
  ⟨h.index, h.nodup, h.counted, h.distinct⟩

/-- After the removal an item has lost its bits if its list became empty. -/
theorem removed_marked (h : Neighbors C s.nbr) (j : ℕ) :
    (Marked C C.nbrRoutes (removed s r n i).nbr.usedMap j ↔
      ¬ (j = i ∧ (s.routeList i).erase n = []) ∧ Marked C C.nbrRoutes s.nbr.usedMap j) ∧
    (Marked C C.nbrRoutes (removed s r n i).nbr.lockedMap j ↔
      ¬ (j = i ∧ (s.routeList i).erase n = []) ∧ Marked C C.nbrRoutes s.nbr.lockedMap j) := by
  by_cases hnil : (s.routeList i).erase n = []
  · have hnbr : (removed s r n i).nbr = NbrTable.remove s.nbr C.nbrRoutes (some i) := if_pos hnil
    rw [hnbr, NbrTable.remove, h.clear C.nbrRoutes_mem, h.clear C.nbrRoutes_mem]
    simp [hnil]
  · have hnbr : (removed s r n i).nbr = s.nbr := if_neg hnil
    rw [hnbr]
    simp [hnil]

/-- The deletion of a route keeps the neighbour tables. -/
theorem removed_neighbors (h : Neighbors C s.nbr) : Neighbors C (removed s r n i).nbr := by
  by_cases hnil : (s.routeList i).erase n = []
  · have hnbr : (removed s r n i).nbr = NbrTable.remove s.nbr C.nbrRoutes (some i) := if_pos hnil
    rw [hnbr]
    exact remove_neighbors h _
  · have hnbr : (removed s r n i).nbr = s.nbr := if_neg hnil
    rw [hnbr]
    exact h

omit [DecidableEq Table] in
/-- The deletion of a route removes no neighbour. -/
theorem removed_keys : (removed s r n i).nbr.keys = s.nbr.keys := by
  by_cases hnil : (s.routeList i).erase n = []
  · have hnbr : (removed s r n i).nbr = NbrTable.remove s.nbr C.nbrRoutes (some i) := if_pos hnil
    rw [hnbr, NbrTable.remove]
  · have hnbr : (removed s r n i).nbr = s.nbr := if_neg hnil
    rw [hnbr]

/-- The deletion of a route keeps the invariant. A neighbour without routes leaves the route table.
-/
theorem InvExcept.removed (h : InvExcept P none unlocked s) (hn : n ∈ s.routeList i)
    (hr : s.neighborRoute n = some r) : InvExcept P none unlocked (removed s r n i) := by
  obtain ⟨hnused, q, hq, hrq, hri⟩ := h.entry i n hn
  obtain rfl := Option.some.inj (hr.symm.trans hrq)
  -- The lists of the other neighbors are as before.
  have hlist : ∀ j, (RouteTable.removed s r n i).routeList j =
      if j = i then (s.routeList i).erase n else s.routeList j := fun j =>
    Function.update_apply _ _ _ _
  have hmem : ∀ j m, m ∈ (RouteTable.removed s r n i).routeList j ↔ m ≠ n ∧ m ∈ s.routeList j := by
    intro j m
    rw [hlist]
    by_cases hj : j = i
    · subst hj
      rw [if_pos rfl, (h.lists j).mem_erase_iff]
    · rw [if_neg hj]
      refine ⟨fun hm => ⟨?_, hm⟩, And.right⟩
      rintro rfl
      exact hj (h.list_unique hm hn)
  -- Case by case, what the deletion changes is the one entry of this neighbor.
  constructor
  case neighbors => exact removed_neighbors h.neighbors
  case keys =>
    intro j hj
    rw [removed_keys]
    exact h.keys j (((removed_marked h.neighbors j).1.mp hj).2)
  case used =>
    intro j
    rw [(removed_marked h.neighbors j).1, h.used j, hlist]
    by_cases hj : j = i
    · subst hj
      have hne := List.ne_nil_of_mem hn
      simp [hne]
    · simp [hj]
  case locked =>
    intro j
    rw [(removed_marked h.neighbors j).2, h.locked j, hlist]
    by_cases hj : j = i
    · subst hj
      have hne := List.ne_nil_of_mem hn
      simp [hne]
    · simp [hj]
  case routes => exact h.routes.erase r
  case member =>
    intro q
    show q ∈ s.routelist.erase r ↔ s.routememb.release r q = true
    rw [h.routes.mem_erase_iff, Pool.release_eq_true, h.member q]
  case num =>
    show s.numRoutes - 1 = ((s.routelist.erase r).length : ℤ)
    have := List.length_pos_of_mem hq
    rw [List.length_erase_of_mem hq, h.num]
    omega
  case lists =>
    intro j
    rw [hlist]
    split
    case isTrue => exact (h.lists i).erase n
    case isFalse => exact h.lists j
  case entry =>
    intro j m hm
    obtain ⟨hmn, hm⟩ := (hmem j m).mp hm
    obtain ⟨hmused, q, hq, hmq, hqj⟩ := h.entry j m hm
    refine ⟨Pool.release_eq_true.mpr ⟨hmn, hmused⟩, q, ?_, hmq, hqj⟩
    refine h.routes.mem_erase_iff.mpr ⟨?_, hq⟩
    rintro rfl
    exact hmn (h.single m n hmused hnused (hmq.trans hr.symm))
  case entries =>
    intro m hm
    obtain ⟨hmn, hmused⟩ := Pool.release_eq_true.mp hm
    obtain ⟨j, hj⟩ := h.entries m hmused
    exact ⟨j, (hmem j m).mpr ⟨hmn, hj⟩⟩
  case via =>
    intro q hq
    obtain ⟨hqr, hq⟩ := h.routes.mem_erase_iff.mp hq
    obtain ⟨j, hj, m, hm, hmq⟩ := h.via q hq
    refine ⟨j, hj, m, (hmem j m).mpr ⟨?_, hm⟩, hmq⟩
    rintro rfl
    exact hqr (Option.some.inj (hmq.symm.trans hr))
  case single =>
    intro m m' hm hm'
    exact h.single m m' (Pool.release_eq_true.mp hm).2 (Pool.release_eq_true.mp hm').2
  case lengths => exact fun q hq => h.lengths q (List.mem_of_mem_erase hq)

/-- The removal of a route of the table. -/
theorem InvExcept.rm (h : InvExcept P none unlocked s) (hr : r ∈ s.routelist) :
    InvExcept P none unlocked (uipDs6RouteRm s (some r)) := by
  obtain ⟨i, -, n, hn, hnr⟩ := h.via r hr
  rw [h.rm_eq hn hnr]
  exact h.removed hn hnr

/-! ### Removal by next hop -/

/-- The loop of `rm_routelist` ends with an empty list. -/
theorem InvExcept.rmRoutelistLoop (h : InvExcept P none unlocked s) :
    InvExcept P none unlocked (rmRoutelistLoop i (s.routeList i).length s) ∧
      (RouteTable.rmRoutelistLoop i (s.routeList i).length s).routeList i = [] := by
  generalize hlen : (s.routeList i).length = k
  induction k generalizing s with
  | zero => exact ⟨h, List.length_eq_zero_iff.mp hlen⟩
  | succ k ih =>
    cases hlist : s.routeList i with
    | nil =>
      rw [hlist] at hlen
      cases hlen
    | cons n ns =>
      have hn : n ∈ s.routeList i := by
        rw [hlist]
        exact List.mem_cons_self
      obtain ⟨-, r, -, hr, -⟩ := h.entry i n hn
      have hrest : (RouteTable.removed s r n i).routeList i = ns := by
        show Function.update s.routeList i ((s.routeList i).erase n) i = ns
        rw [Function.update_self, hlist, List.erase_cons_head]
      have hstep : RouteTable.rmRoutelistLoop i (k + 1) s =
          RouteTable.rmRoutelistLoop i k (RouteTable.removed s r n i) := by
        rw [RouteTable.rmRoutelistLoop, hlist]
        show RouteTable.rmRoutelistLoop i k (uipDs6RouteRm s (s.neighborRoute n)) = _
        rw [hr, h.rm_eq hn hr]
      rw [hstep]
      refine ih (h.removed hn hr) ?_
      rw [hrest]
      rw [hlist, List.length_cons] at hlen
      omega

/-- An item without a route can leave the table. -/
theorem InvExcept.remove (h : InvExcept P none unlocked s) (hi : s.routeList i = []) :
    InvExcept P none unlocked { s with nbr := NbrTable.remove s.nbr C.nbrRoutes (some i) } := by
  have hused : ∀ j, Marked C C.nbrRoutes (NbrTable.remove s.nbr C.nbrRoutes (some i)).usedMap j ↔
      Marked C C.nbrRoutes s.nbr.usedMap j := by
    intro j
    rw [NbrTable.remove, h.neighbors.clear C.nbrRoutes_mem]
    refine and_iff_right_of_imp fun hj heq => ?_
    rw [h.used j, heq.1, hi] at hj
    simp at hj
  refine h.frame s.ipaddr (remove_neighbors h.neighbors _) ?_ hused ?_
  · intro j hj
    exact h.keys j ((hused j).mp hj)
  · intro j
    rw [NbrTable.remove, h.neighbors.clear C.nbrRoutes_mem]
    refine and_iff_right_of_imp fun hj heq => ?_
    rw [h.locked j, heq.1, hi] at hj
    exact hj.1 rfl

/-- The deletion of all routes of a neighbour keeps the invariant. -/
theorem InvExcept.rmRoutelist (h : InvExcept P none unlocked s) (routes : Option ℕ) :
    InvExcept P none unlocked (rmRoutelist s routes) := by
  cases routes with
  | none => exact h
  | some i =>
    obtain ⟨hinv, hnil⟩ := h.rmRoutelistLoop (i := i)
    exact hinv.remove hnil

/-- After `rm_routelist` the list of the item is empty. -/
theorem InvExcept.rmRoutelist_nil (h : InvExcept P none unlocked s) :
    (RouteTable.rmRoutelist s (some i)).routeList i = [] :=
  h.rmRoutelistLoop.2

/-! ### Eviction -/

/-- The routes of a key that is removed are removed before. -/
theorem InvExcept.removeKey (h : InvExcept P none unlocked s)
    (hunlocked : unlocked = none ∨ unlocked = some i) : Inv P (removeKey s i) := by
  -- the state after the callback
  obtain ⟨t, ht, htinv, htnil⟩ : ∃ t : State C, RouteTable.removeKey s i =
      { t with nbr := NbrTable.removeKey t.nbr i } ∧ InvExcept P none unlocked t ∧
        t.routeList i = [] := by
    rw [RouteTable.removeKey]
    by_cases hbit : nbrGetBit s.nbr s.nbr.usedMap C.nbrRoutes (some i) = true
    · rw [if_pos hbit]
      exact ⟨_, rfl, h.rmRoutelist (some i), h.rmRoutelist_nil⟩
    · rw [if_neg hbit]
      refine ⟨s, rfl, h, ?_⟩
      rw [h.neighbors.getBit C.nbrRoutes_mem, h.used i] at hbit
      simpa using hbit
  have hused : ∀ j, Marked C C.nbrRoutes (NbrTable.removeKey t.nbr i).usedMap j ↔
      Marked C C.nbrRoutes t.nbr.usedMap j := by
    intro j
    by_cases hj : j = i
    · subst hj
      have : ¬ Marked C C.nbrRoutes t.nbr.usedMap j := by
        rw [htinv.used j, htnil]
        simp
      refine iff_of_false ?_ this
      simp [NbrTable.removeKey, Marked]
    · simp [NbrTable.removeKey, Marked, hj]
  have hmarked : ∀ j, Marked C C.nbrRoutes t.nbr.usedMap j → j ≠ i := by
    rintro j hj rfl
    rw [htinv.used j, htnil] at hj
    simp at hj
  have hinv : InvExcept P none unlocked { t with nbr := NbrTable.removeKey t.nbr i } := by
    refine htinv.frame t.ipaddr ?_ ?_ hused fun j => Iff.rfl
    · have hn := htinv.neighbors
      exact ⟨hn.index, hn.nodup.erase i, fun j hj => hn.counted j (List.mem_of_mem_erase hj),
        fun j hj k hk => hn.distinct j (List.mem_of_mem_erase hj) k (List.mem_of_mem_erase hk)⟩
    · intro j hj
      have hj := (hused j).mp hj
      exact (List.mem_erase_of_ne (hmarked j hj)).mpr (htinv.keys j hj)
  rw [ht]
  refine { hinv with locked := fun j => (hinv.locked j).trans ?_ }
  rcases hunlocked with rfl | rfl
  · rfl
  · by_cases hj : j = i
    · subst hj
      simp [htnil]
    · simp [Ne.symm hj]

/-- What the removal of routes leaves as it is. -/
structure SameKeys (n n' : NbrTable.State Table) : Prop where
  keys : n'.keys = n.keys
  count : n'.count = n.count
  lladdr : n'.lladdr = n.lladdr

omit [DecidableEq Table] in
/-- The deletion of a route changes marks only. -/
theorem uipDs6RouteRm_nbr (s : State C) (route : Option (Fin C.routeNb)) :
    SameKeys s.nbr (uipDs6RouteRm s route).nbr := by
  cases route with
  | none => exact ⟨rfl, rfl, rfl⟩
  | some r =>
    cases hroutes : (s.route r).neighborRoutes with
    | none =>
      simp only [uipDs6RouteRm, hroutes]
      exact ⟨rfl, rfl, rfl⟩
    | some routes =>
      simp only [uipDs6RouteRm, hroutes]
      split
      case isTrue => exact ⟨rfl, rfl, rfl⟩
      case isFalse => exact ⟨rfl, rfl, rfl⟩

omit [DecidableEq Table] in
/-- So does the deletion of all routes of a neighbour. -/
theorem rmRoutelistLoop_nbr (k : ℕ) (s : State C) :
    SameKeys s.nbr (rmRoutelistLoop i k s).nbr := by
  induction k generalizing s with
  | zero => exact ⟨rfl, rfl, rfl⟩
  | succ k ih =>
    rw [rmRoutelistLoop]
    split
    case h_1 => exact ⟨rfl, rfl, rfl⟩
    case h_2 n _ =>
      obtain ⟨hkeys, hcount, hlladdr⟩ := ih (uipDs6RouteRm s (s.neighborRoute n))
      obtain ⟨hkeys', hcount', hlladdr'⟩ := uipDs6RouteRm_nbr s (s.neighborRoute n)
      exact ⟨hkeys.trans hkeys', hcount.trans hcount', hlladdr.trans hlladdr'⟩

omit [DecidableEq Table] in
/-- A key that is removed leaves the list, and stays allocated. -/
theorem removeKey_nbr : (removeKey s i).nbr.keys = s.nbr.keys.erase i ∧
    (removeKey s i).nbr.count = s.nbr.count ∧ (removeKey s i).nbr.lladdr = s.nbr.lladdr := by
  rw [removeKey]
  split
  case isTrue =>
    obtain ⟨hkeys, hcount, hlladdr⟩ := rmRoutelistLoop_nbr (i := i) (s.routeList i).length s
    exact ⟨congrArg (fun l => l.erase i) hkeys, hcount, hlladdr⟩
  case isFalse => exact ⟨rfl, rfl, rfl⟩

/-- The lock of a key is opened before the key is removed. -/
def openLock (s : State C) (key : ℕ) : State C :=
  { s with nbr := { s.nbr with lockedMap := Function.update s.nbr.lockedMap key 0 } }

omit [DecidableEq Table] in
/-- A key is a new one, or that of a neighbour that may be removed. -/
theorem nbrTableAllocate_cases (s : State C) (removable : Option ℕ) :
    (∃ key, s.nbr.count key = false ∧ nbrTableAllocate s removable =
      (some key, { s with nbr :=
        { s.nbr with count := Function.update s.nbr.count key true } })) ∨
    (∃ key ∈ s.nbr.keys,
      nbrTableAllocate s removable = (some key, removeKey (openLock s key) key)) ∨
    nbrTableAllocate s removable = (none, s) := by
  cases hfree : membAlloc C.maxNeighbors s.nbr with
  | some key =>
    left
    exact ⟨key, (membAlloc_eq_some hfree).2, by simp only [nbrTableAllocate, hfree]⟩
  | none =>
    right
    cases removable with
    | none =>
      right
      simp only [nbrTableAllocate, hfree]
    | some key =>
      by_cases hkey : key ∈ s.nbr.keys
      · left
        exact ⟨key, hkey, by simp only [nbrTableAllocate, hfree, if_pos hkey, openLock]⟩
      · right
        simp only [nbrTableAllocate, hfree, if_neg hkey]

/-- A neighbour may be unlocked for a while. -/
theorem InvExcept.openLock (h : Inv P s) : InvExcept P none (some i) (openLock s i) :=
  { h with
    neighbors := ⟨h.neighbors.index, h.neighbors.nodup, h.neighbors.counted, h.neighbors.distinct⟩
    locked := by
      intro j
      by_cases hj : j = i
      · subst hj
        simp [Marked, RouteTable.openLock]
      · have := h.locked j
        simp only [Marked] at this
        simp only [Marked, RouteTable.openLock, Function.update_of_ne hj, this]
        simp [Ne.symm hj] }

/-- An allocation gives a key that is not listed. -/
theorem InvExcept.allocate (h : Inv P s) {removable : Option ℕ} {t : State C} {key : ℕ}
    (ht : nbrTableAllocate s removable = (some key, t)) :
    Inv P t ∧ key ∉ t.nbr.keys ∧ t.nbr.count key = true ∧ t.nbr.lladdr = s.nbr.lladdr ∧
      ∀ i ∈ t.nbr.keys, i ∈ s.nbr.keys := by
  have hn := h.neighbors
  rcases nbrTableAllocate_cases s removable with ⟨k, hfree, heq⟩ | ⟨k, hk, heq⟩ | heq
  · obtain ⟨rfl, rfl⟩ := Prod.mk.inj (ht.symm.trans heq) |>.imp Option.some.inj id
    have hcount : ∀ i ∈ s.nbr.keys, Function.update s.nbr.count key true i = true := by
      intro i hi
      by_cases hik : i = key
      · rw [hik, Function.update_self]
      · rw [Function.update_of_ne hik]
        exact hn.counted i hi
    refine ⟨h.frame s.ipaddr ⟨hn.index, hn.nodup, hcount, hn.distinct⟩ h.keys (fun _ => .rfl)
      fun _ => .rfl, fun hmem => ?_, Function.update_self _ _ _, rfl, fun i hi => hi⟩
    have := hn.counted key hmem
    rw [hfree] at this
    cases this
  · obtain ⟨rfl, rfl⟩ := Prod.mk.inj (ht.symm.trans heq) |>.imp Option.some.inj id
    obtain ⟨hkeys, hcount, hlladdr⟩ := removeKey_nbr (i := key) (s := RouteTable.openLock s key)
    refine ⟨h.openLock.removeKey (.inr rfl), ?_, ?_, hlladdr, ?_⟩
    · rw [hkeys]
      exact hn.nodup.not_mem_erase
    · rw [hcount]
      exact hn.counted key hk
    · intro i hi
      rw [hkeys] at hi
      exact List.mem_of_mem_erase hi
  · rw [ht] at heq
    cases heq

/-- An item that is used by another table. -/
theorem InvExcept.useItem (h : Inv P s) {t : Table} (ht : t ∈ C.tables) (hne : t ≠ C.nbrRoutes)
    (item : ℕ) : Inv P { s with nbr := useItem s.nbr t item } := by
  have hn := h.neighbors
  have hused : ∀ j, Marked C C.nbrRoutes (NbrTable.useItem s.nbr t item).usedMap j ↔
      Marked C C.nbrRoutes s.nbr.usedMap j := fun j => hn.other ht hne _ _
  refine h.frame s.ipaddr ⟨hn.index, hn.nodup, hn.counted, hn.distinct⟩ ?_ hused fun _ => .rfl
  intro j hj
  exact h.keys j ((hused j).mp hj)

/-- A key that joins the list. -/
theorem InvExcept.listKey (h : Inv P s) {key : ℕ} {lladdr : Linkaddr} (hkey : key ∉ s.nbr.keys)
    (hcount : s.nbr.count key = true) (hnew : ∀ i ∈ s.nbr.keys, s.nbr.lladdr i ≠ lladdr) :
    Inv P { s with nbr := listKey s.nbr key lladdr } := by
  have hn := h.neighbors
  have hmem : ∀ i, i ∈ (NbrTable.listKey s.nbr key lladdr).keys ↔ i = key ∨ i ∈ s.nbr.keys :=
    fun i => mem_listAdd
  have hold : ∀ i ∈ s.nbr.keys,
      (NbrTable.listKey s.nbr key lladdr).lladdr i = s.nbr.lladdr i := fun i hi =>
    Function.update_of_ne (ne_of_mem_of_not_mem hi hkey) _ _
  have hself : (NbrTable.listKey s.nbr key lladdr).lladdr key = lladdr :=
    Function.update_self _ _ _
  refine h.frame s.ipaddr ⟨hn.index, listAdd_nodup hn.nodup, ?_, ?_⟩ ?_ (fun _ => .rfl)
    fun _ => .rfl
  · intro i hi
    rcases (hmem i).mp hi with rfl | hi
    · exact hcount
    · exact hn.counted i hi
  · intro i hi j hj heq
    rcases (hmem i).mp hi with hik | hik <;> rcases (hmem j).mp hj with hjk | hjk
    · rw [hik, hjk]
    · rw [hik, hself, hold j hjk] at heq
      exact absurd heq.symm (hnew j hjk)
    · rw [hjk, hself, hold i hik] at heq
      exact absurd heq (hnew i hik)
    · rw [hold i hik, hold j hjk] at heq
      exact hn.distinct i hik j hjk heq
  · intro i hi
    exact (hmem i).mpr (.inr (h.keys i hi))

/-! ### Other tables -/

/-- An addition to another table. -/
theorem InvExcept.addLladdr (h : Inv P s) {t : Table} (ht : t ∈ C.tables) (hne : t ≠ C.nbrRoutes)
    (lladdr : Option Linkaddr) (removable : Option ℕ) :
    Inv P (nbrTableAddLladdr s t lladdr removable).2 := by
  cases hindex : indexFromLladdr s.nbr lladdr with
  | some item =>
    simp only [nbrTableAddLladdr, hindex]
    exact h.useItem ht hne item
  | none =>
    have hnew := indexFromLladdr_eq_none.mp hindex
    rcases halloc : nbrTableAllocate s removable with ⟨_ | key, u⟩
    · simp only [nbrTableAddLladdr, hindex, halloc]
      rcases nbrTableAllocate_cases s removable with ⟨k, _, heq⟩ | ⟨k, _, heq⟩ | heq
      · rw [halloc] at heq
        cases heq
      · rw [halloc] at heq
        cases heq
      · rw [halloc] at heq
        obtain rfl := congrArg Prod.snd heq
        exact h
    · simp only [nbrTableAddLladdr, hindex, halloc]
      obtain ⟨hu, hkey, hcount, hlladdr, hsub⟩ := h.allocate halloc
      have hlist : Inv P { u with nbr := NbrTable.listKey u.nbr key (lladdr.getD linkaddrNull) } := by
        refine hu.listKey hkey hcount fun i hi => ?_
        rw [hlladdr]
        exact hnew i (hsub i hi)
      exact hlist.useItem ht hne key

/-- A bit of another table, set or cleared. -/
theorem InvExcept.setBit (h : Inv P s) {t : Table} (ht : t ∈ C.tables) (hne : t ≠ C.nbrRoutes)
    (item : Option ℕ) (value : Bool) :
    Inv P { s with nbr :=
      { s.nbr with lockedMap := nbrSetBit s.nbr s.nbr.lockedMap t item value } } ∧
    Inv P { s with nbr := NbrTable.remove s.nbr t item } := by
  have hn := h.neighbors
  have hused : ∀ j, Marked C C.nbrRoutes (NbrTable.remove s.nbr t item).usedMap j ↔
      Marked C C.nbrRoutes s.nbr.usedMap j := fun j => hn.other ht hne _ _
  constructor
  · exact h.frame s.ipaddr ⟨hn.index, hn.nodup, hn.counted, hn.distinct⟩ h.keys (fun _ => .rfl)
      fun j => hn.other ht hne _ _
  · refine h.frame s.ipaddr ⟨hn.index, hn.nodup, hn.counted, hn.distinct⟩ ?_ hused
      fun j => hn.other ht hne _ _
    intro j hj
    exact h.keys j ((hused j).mp hj)

/-- A new link address keeps the invariant, also when the neighbour that has it is removed. -/
theorem InvExcept.updateLladdr (h : Inv P s) (oldAddr : Option Linkaddr) (newAddr : Linkaddr)
    (removeIfDuplicate : Bool) :
    Inv P (nbrTableUpdateLladdr s oldAddr newAddr removeIfDuplicate) := by
  cases hindex : indexFromLladdr s.nbr oldAddr with
  | none =>
    simp only [nbrTableUpdateLladdr, hindex]
    exact h
  | some index =>
    cases hnew : indexFromLladdr s.nbr (some newAddr) with
    | some newIndex =>
      simp only [nbrTableUpdateLladdr, hindex, hnew]
      split
      case isTrue => exact h
      case isFalse =>
        split
        case isTrue => exact h.removeKey (.inl rfl)
        case isFalse => exact h
    | none =>
      simp only [nbrTableUpdateLladdr, hindex, hnew]
      have hn := h.neighbors
      have hother := indexFromLladdr_eq_none.mp hnew
      refine h.frame s.ipaddr ⟨hn.index, hn.nodup, hn.counted, ?_⟩ h.keys (fun _ => .rfl)
        fun _ => .rfl
      intro i hi j hj heq
      dsimp only at heq
      by_cases hii : i = index <;> by_cases hjj : j = index
      · rw [hii, hjj]
      · rw [hii, Function.update_self, Function.update_of_ne hjj] at heq
        exact absurd heq.symm (hother j hj)
      · rw [hjj, Function.update_self, Function.update_of_ne hii] at heq
        exact absurd heq (hother i hi)
      · rw [Function.update_of_ne hii, Function.update_of_ne hjj] at heq
        exact hn.distinct i hi j hj heq

/-- A new neighbour keeps the invariant. -/
theorem InvExcept.nbrAdd (h : Inv P s) (ipaddr : Ipaddr) (lladdr : Option Linkaddr)
    (removable : Option ℕ) : Inv P (uipDs6NbrAdd s ipaddr lladdr removable) := by
  have hadd := h.addLladdr C.ds6Neighbors_mem C.ds6Neighbors_ne lladdr removable
  rcases heq : nbrTableAddLladdr s C.ds6Neighbors lladdr removable with ⟨_ | item, t⟩
  · rw [heq] at hadd
    simp only [uipDs6NbrAdd, heq]
    exact hadd
  · rw [heq] at hadd
    simp only [uipDs6NbrAdd, heq]
    exact hadd.frame _ hadd.neighbors hadd.keys (fun _ => .rfl) fun _ => .rfl

/-! ### Lookup and addition -/

/-- A lookup keeps the invariant. It may move the found route to the front. -/
theorem InvExcept.lookup (h : Inv P s) (hP : ∀ length, P length → length ≤ 128)
    (addr : Option Ipaddr) : Inv P (uipDs6RouteLookup s addr).2 := by
  cases addr with
  | none => exact h
  | some addr =>
    rcases uipDs6RouteLookup_cases (fun r hr => hP _ (h.lengths r hr)) addr with
      ⟨heq, -⟩ | ⟨r, -, l, heq, -, hl, -⟩
    · rw [heq]
      exact h
    · rw [heq]
      exact h.reorder hl

/-- As many blocks are in use as there are routes. -/
theorem InvExcept.inUse (h : InvExcept P pending unlocked s) :
    s.routememb.inUse = s.routelist.length ∧ s.neighborroutememb.inUse = s.routelist.length := by
  refine ⟨Pool.inUse_eq_length h.routes h.member, ?_⟩
  rw [← List.length_map (f := some)]
  refine Pool.inUse_eq_length_of_map (h.routes.map (Option.some_injective _)) h.single fun a => ?_
  constructor
  · intro ha
    obtain ⟨r, hr, rfl⟩ := List.mem_map.mp ha
    obtain ⟨i, -, n, hn, hnr⟩ := h.via r hr
    exact ⟨n, (h.entry i n hn).1, hnr⟩
  · rintro ⟨n, hn, rfl⟩
    obtain ⟨i, hi⟩ := h.entries n hn
    obtain ⟨-, r, hr, hnr, -⟩ := h.entry i n hi
    exact List.mem_map.mpr ⟨r, hr, hnr.symm⟩

/-- The state with another route, whose entry is on the list of an item. -/
def appended (s : State C) (r n : Fin C.routeNb) (route : Route) (i : ℕ) : State C :=
  { s with
    routememb := s.routememb.take r
    routelist := r :: s.routelist.erase r
    neighborroutememb := s.neighborroutememb.take n
    neighborRoute := Function.update s.neighborRoute n (some r)
    routeList := Function.update s.routeList i (listAdd (s.routeList i) n)
    numRoutes := s.numRoutes + 1
    nbr := NbrTable.lock s.nbr C.nbrRoutes (some i)
    route := Function.update s.route r route }

/-- A route that is appended to the list and to that of its neighbour keeps the invariant, and the
neighbour is not pending any more. -/
theorem InvExcept.appended (h : InvExcept P (some i) none s) {route : Route}
    (hr : s.routememb r = false) (hn : s.neighborroutememb n = false)
    (hroute : route.neighborRoutes = some i) (hP : P route.length) :
    Inv P (appended s r n route i) := by
  have hrlist : r ∉ s.routelist := by
    rw [h.member, hr]
    exact Bool.false_ne_true
  have hnlist : ∀ j, n ∉ s.routeList j := by
    intro j hj
    have := (h.entry j n hj).1
    rw [hn] at this
    cases this
  have hlist : ∀ j, (RouteTable.appended s r n route i).routeList j =
      if j = i then listAdd (s.routeList i) n else s.routeList j := fun j =>
    Function.update_apply _ _ _ _
  have hmem : ∀ j m, m ∈ (RouteTable.appended s r n route i).routeList j ↔
      j = i ∧ m = n ∨ m ∈ s.routeList j := by
    intro j m
    rw [hlist]
    by_cases hj : j = i
    · subst hj
      rw [if_pos rfl, mem_listAdd]
      simp
    · rw [if_neg hj]
      simp [hj]
  have hrl : (RouteTable.appended s r n route i).routelist = r :: s.routelist := by
    show r :: s.routelist.erase r = r :: s.routelist
    rw [List.erase_of_not_mem hrlist]
  have hnew : (RouteTable.appended s r n route i).route r = route := Function.update_self _ _ _
  have hold : ∀ q ∈ s.routelist, (RouteTable.appended s r n route i).route q = s.route q :=
    fun q hq => Function.update_of_ne (ne_of_mem_of_not_mem hq hrlist) _ _
  have hnewN : (RouteTable.appended s r n route i).neighborRoute n = some r :=
    Function.update_self _ _ _
  have holdN : ∀ m, s.neighborroutememb m = true →
      (RouteTable.appended s r n route i).neighborRoute m = s.neighborRoute m := by
    intro m hm
    refine Function.update_of_ne ?_ _ _
    rintro rfl
    rw [hn] at hm
    cases hm
  -- an old entry names an old route
  have hne : ∀ m, s.neighborroutememb m = true → s.neighborRoute m ≠ some r := by
    intro m hm heq
    obtain ⟨j, hj⟩ := h.entries m hm
    obtain ⟨-, q, hq, hmq, -⟩ := h.entry j m hj
    obtain rfl := Option.some.inj (hmq.symm.trans heq)
    exact hrlist hq
  constructor
  case neighbors =>
    have hnb := h.neighbors
    exact ⟨hnb.index, hnb.nodup, hnb.counted, hnb.distinct⟩
  case keys => exact h.keys
  case used =>
    intro j
    refine (h.used j).trans ?_
    rw [hlist]
    by_cases hj : j = i
    · subst hj
      simp [listAdd]
    · simp [hj, Ne.symm hj]
  case locked =>
    intro j
    refine (h.neighbors.set C.nbrRoutes_mem).trans ?_
    rw [h.locked j, hlist]
    by_cases hj : j = i
    · subst hj
      simp [listAdd]
    · simp [hj]
  case routes =>
    rw [hrl]
    exact List.nodup_cons.mpr ⟨hrlist, h.routes⟩
  case member =>
    intro q
    rw [hrl, List.mem_cons, h.member q]
    exact Pool.take_eq_true.symm
  case num =>
    rw [hrl, List.length_cons]
    show s.numRoutes + 1 = _
    rw [h.num]
    norm_cast
  case lists =>
    intro j
    rw [hlist]
    split
    case isTrue => exact listAdd_nodup (h.lists i)
    case isFalse => exact h.lists j
  case entry =>
    intro j m hm
    rcases (hmem j m).mp hm with ⟨rfl, rfl⟩ | hm
    · refine ⟨Pool.take_self, r, ?_, hnewN, ?_⟩
      · rw [hrl]
        exact List.mem_cons_self
      · rw [hnew, hroute]
    · obtain ⟨hused, q, hq, hmq, hqj⟩ := h.entry j m hm
      refine ⟨Pool.take_eq_true.mpr (.inr hused), q, ?_, (holdN m hused).trans hmq, ?_⟩
      · rw [hrl]
        exact List.mem_cons_of_mem _ hq
      · rw [hold q hq, hqj]
  case entries =>
    intro m hm
    rcases Pool.take_eq_true.mp hm with rfl | hm
    · exact ⟨i, (hmem i m).mpr (.inl ⟨rfl, rfl⟩)⟩
    · obtain ⟨j, hj⟩ := h.entries m hm
      exact ⟨j, (hmem j m).mpr (.inr hj)⟩
  case via =>
    intro q hq
    rw [hrl] at hq
    rcases List.mem_cons.mp hq with rfl | hq
    · exact ⟨i, by rw [hnew, hroute], n, (hmem i n).mpr (.inl ⟨rfl, rfl⟩), hnewN⟩
    · obtain ⟨j, hqj, m, hm, hmq⟩ := h.via q hq
      exact ⟨j, by rw [hold q hq, hqj], m, (hmem j m).mpr (.inr hm),
        (holdN m (h.entry j m hm).1).trans hmq⟩
  case single =>
    intro m m' hm hm' heq
    rcases Pool.take_eq_true.mp hm with hmn | hmo <;>
      rcases Pool.take_eq_true.mp hm' with hmn' | hmo'
    · rw [hmn, hmn']
    · rw [hmn, hnewN, holdN m' hmo'] at heq
      exact absurd heq.symm (hne m' hmo')
    · rw [hmn', hnewN, holdN m hmo] at heq
      exact absurd heq (hne m hmo)
    · rw [holdN m hmo, holdN m' hmo'] at heq
      exact h.single m m' hmo hmo' heq
  case lengths =>
    intro q hq
    rw [hrl] at hq
    rcases List.mem_cons.mp hq with rfl | hq
    · rw [hnew]
      exact hP
    · rw [hold q hq]
      exact h.lengths q hq

/-- With room in the list, the two allocations succeed. -/
theorem InvExcept.addRoute (h : InvExcept P (some i) none s) (hroom : s.routelist.length < C.routeNb)
    (ipaddr : Ipaddr) {length : ℕ} (hP : P length) :
    ∃ r n, addRoute s ipaddr length i =
        ⟨some r, none, RouteTable.appended s r n ⟨ipaddr, length, some i⟩ i⟩ ∧
      s.routememb r = false ∧ Inv P (RouteTable.appended s r n ⟨ipaddr, length, some i⟩ i) := by
  obtain ⟨hroutes, hentries⟩ := h.inUse
  obtain ⟨r, hr⟩ := Pool.exists_free (hroutes ▸ hroom)
  obtain ⟨n, hn⟩ := Pool.exists_free (hentries ▸ hroom)
  refine ⟨r, n, ?_, Pool.free_eq_some hr, ?_⟩
  · simp only [RouteTable.addRoute, hr, hn, RouteTable.appended]
  · exact h.appended (Pool.free_eq_some hr) (Pool.free_eq_some hn) rfl hP

/-- An item that is used, and may have no route yet. -/
theorem InvExcept.use (h : Inv P s) (hi : i ∈ s.nbr.keys) :
    InvExcept P (some i) none { s with nbr := NbrTable.useItem s.nbr C.nbrRoutes i } := by
  have hn := h.neighbors
  have hused : ∀ j, Marked C C.nbrRoutes (NbrTable.useItem s.nbr C.nbrRoutes i).usedMap j ↔
      s.routeList j ≠ [] ∨ some i = some j := by
    intro j
    refine (hn.set C.nbrRoutes_mem).trans ?_
    rw [h.used j, or_comm]
    simp only [and_true, reduceCtorEq, or_false, Option.some.injEq, eq_comm (a := i)]
  refine { h with
    neighbors := ⟨hn.index, hn.nodup, hn.counted, hn.distinct⟩
    keys := ?_
    used := hused }
  intro j hj
  rcases (hused j).mp hj with hj | hj
  · exact h.keys j ((h.used j).mpr (.inl hj))
  · obtain rfl := Option.some.inj hj
    exact hi

/-- The addition of a route by way of a neighbor that is listed. -/
theorem InvExcept.addVia (h : Inv P s) (hi : i ∈ s.nbr.keys)
    (hroom : s.routelist.length < C.routeNb) (ipaddr : Ipaddr) {length : ℕ} (hP : P length)
    (removable : Option ℕ) :
    ∃ nbr r n, (nbr = s.nbr ∨ nbr = NbrTable.useItem s.nbr C.nbrRoutes i) ∧
      addVia s ipaddr length (s.nbr.lladdr i) removable = ⟨some r, none,
        RouteTable.appended { s with nbr := nbr } r n ⟨ipaddr, length, some i⟩ i⟩ ∧
      s.routememb r = false ∧
      Inv P (RouteTable.appended { s with nbr := nbr } r n ⟨ipaddr, length, some i⟩ i) := by
  have hn := h.neighbors
  -- The neighbor has routes already, or it enters the route table first.
  cases hget : getFromLladdr s.nbr C.nbrRoutes (some (s.nbr.lladdr i)) with
  | some j =>
    obtain ⟨hj, hji, hmarked⟩ := hn.getFromLladdr_eq_some C.nbrRoutes_mem hget
    obtain rfl := hn.distinct j hj i hi hji
    have hpending : InvExcept P (some j) none s :=
      { h with
        used := by
          intro k
          rw [h.used k]
          refine ⟨fun hk => hk.imp_right (fun hk => by cases hk), ?_⟩
          rintro (hk | hk)
          · exact .inl hk
          · obtain rfl := Option.some.inj hk
            exact (h.used j).mp hmarked }
    obtain ⟨r, n, heq, hr, hinv⟩ := hpending.addRoute hroom ipaddr hP
    refine ⟨s.nbr, r, n, .inl rfl, ?_, hr, hinv⟩
    simp only [RouteTable.addVia, hget]
    exact heq
  | none =>
    have hnot := hn.getFromLladdr_eq_none C.nbrRoutes_mem hi hget
    have hnil : s.routeList i = [] := by
      rw [h.used i] at hnot
      simpa using hnot
    obtain ⟨r, n, heq, hr, hinv⟩ := (h.use hi).addRoute hroom ipaddr hP
    refine ⟨_, r, n, .inr rfl, ?_, hr, hinv⟩
    have hlist : Function.update s.routeList i [] = s.routeList := by
      rw [← hnil]
      exact Function.update_eq_self _ _
    simp only [RouteTable.addVia, hget, nbrTableAddLladdr, hn.indexFromLladdr_eq hi, hlist]
    exact heq

/-- There are at most as many routes as the table has. -/
theorem InvExcept.le (h : Inv P s) : s.routelist.length ≤ C.routeNb :=
  h.inUse.1 ▸ Pool.inUse_le

/-- A route is added when there is room. -/
theorem InvExcept.addInRoom (h : Inv P s) (hi : i ∈ s.nbr.keys) (ipaddr : Ipaddr) {length : ℕ}
    (hP : P length) (removable : Option ℕ) :
    (addInRoom s ipaddr length (s.nbr.lladdr i) removable).failure = none ∧
      Inv P (addInRoom s ipaddr length (s.nbr.lladdr i) removable).state := by
  have hle := h.le
  have hnum := h.num
  by_cases hfull : s.numRoutes = C.routeNb
  · rw [RouteTable.addInRoom, if_pos hfull]
    cases holdest : if C.removeLeastRecentlyUsed then s.routelist.getLast? else none with
    | none => exact ⟨rfl, h⟩
    | some oldest =>
      have hmem : oldest ∈ s.routelist := by
        split at holdest
        case isTrue => exact List.mem_of_getLast? holdest
        case isFalse => cases holdest
      obtain ⟨hkeys, -, hlladdr⟩ := uipDs6RouteRm_nbr s (some oldest)
      obtain ⟨j, -, n, hn, hnr⟩ := h.via oldest hmem
      have hroom : (uipDs6RouteRm s (some oldest)).routelist.length < C.routeNb := by
        rw [h.rm_eq hn hnr]
        show (s.routelist.erase oldest).length < C.routeNb
        have := List.length_pos_of_mem hmem
        rw [List.length_erase_of_mem hmem]
        omega
      obtain ⟨nbr, r, m, -, heq, -, hinv⟩ :=
        (h.rm hmem).addVia (hkeys ▸ hi) hroom ipaddr hP removable
      rw [hlladdr] at heq
      dsimp only
      rw [heq]
      exact ⟨rfl, hinv⟩
  · rw [RouteTable.addInRoom, if_neg hfull]
    obtain ⟨nbr, r, m, -, heq, -, hinv⟩ := h.addVia hi (by omega) ipaddr hP removable
    rw [heq]
    exact ⟨rfl, hinv⟩

omit [DecidableEq Table] in
/-- An address that is found is that of a neighbour. -/
theorem uipDs6NbrLladdrFromIpaddr_eq_some {nexthop : Ipaddr} {lladdr : Linkaddr}
    (h : uipDs6NbrLladdrFromIpaddr s (some nexthop) = some lladdr) :
    ∃ i ∈ s.nbr.keys, nbrGetBit s.nbr s.nbr.usedMap C.ds6Neighbors (some i) = true ∧
      s.ipaddr i = nexthop ∧ s.nbr.lladdr i = lladdr := by
  obtain ⟨i, hi, hlladdr⟩ := Option.map_eq_some_iff.mp h
  have hprop := List.find?_some hi
  rw [Bool.and_eq_true, beq_iff_eq] at hprop
  exact ⟨i, List.mem_of_find?_eq_some hi, hprop.1, hprop.2, hlladdr⟩

/-- The failures that are taken for impossible are impossible. -/
theorem InvExcept.add (h : Inv P s) (hP : ∀ length, P length → length ≤ 128)
    (ipaddr : Option Ipaddr) {length : ℕ} (hlength : P length) (nexthop : Option Ipaddr)
    (removable : Option ℕ) :
    (uipDs6RouteAdd s ipaddr length nexthop removable).failure = none ∧
      Inv P (uipDs6RouteAdd s ipaddr length nexthop removable).state := by
  cases ipaddr with
  | none => exact ⟨rfl, h⟩
  | some ipaddr =>
    cases nexthop with
    | none => exact ⟨rfl, h⟩
    | some nexthop =>
      cases hlladdr : uipDs6NbrLladdrFromIpaddr s (some nexthop) with
      | none =>
        simp only [uipDs6RouteAdd, hlladdr]
        exact ⟨trivial, h⟩
      | some lladdr =>
        obtain ⟨i, hi, -, -, rfl⟩ := uipDs6NbrLladdrFromIpaddr_eq_some hlladdr
        rcases uipDs6RouteLookup_cases (fun r hr => hP _ (h.lengths r hr)) ipaddr with
          ⟨heq, -⟩ | ⟨r, hr, l, heq, -, hl, -⟩
        · simp only [uipDs6RouteAdd, hlladdr, heq]
          exact h.addInRoom hi ipaddr hlength removable
        · simp only [uipDs6RouteAdd, hlladdr, heq]
          have hre := h.reorder hl
          split
          case isTrue => exact ⟨rfl, hre⟩
          case isFalse =>
            obtain ⟨hkeys, -, hll⟩ := uipDs6RouteRm_nbr { s with routelist := l } (some r)
            have hrm := hre.rm (hl.mem_iff.mpr hr)
            have := hrm.addInRoom (hkeys ▸ hi) ipaddr hlength removable
            rw [hll] at this
            exact this

/-- The step lemma. -/
theorem InvExcept.step (h : Inv P s) (hP : ∀ length, P length → length ≤ 128) {e : Event C}
    (he : Proper P s e) : Inv P (step s e) := by
  cases e with
  | add ipaddr length nexthop removable => exact (h.add hP ipaddr he nexthop removable).2
  | rm route =>
    cases route with
    | none => exact h
    | some r => exact h.rm he
  | rmByNexthop nexthop => exact h.rmRoutelist _
  | lookup addr => exact h.lookup hP addr
  | nbrAdd ipaddr lladdr removable => exact h.nbrAdd ipaddr lladdr removable
  | addLladdr table lladdr removable => exact h.addLladdr he.1 he.2.1 lladdr removable
  | remove table item => exact (h.setBit he.1 he.2 item false).2
  | lock table item => exact (h.setBit he.1 he.2 item true).1
  | unlock table item => exact (h.setBit he.1 he.2 item false).1
  | updateLladdr oldAddr newAddr removeIfDuplicate =>
    exact h.updateLladdr oldAddr newAddr removeIfDuplicate

/-- The invariant of every reachable state. -/
theorem Inv.of_run (hP : ∀ length, P length → length ≤ 128)
    (hrun : Run (fun s e => some (RouteTable.step s e)) (Proper P) (State.initial C) s) :
    Inv P s := by
  refine hrun.invariant ?_ (Inv.initial P)
  intro s e t hinv hok hstep
  obtain rfl := Option.some.inj hstep
  exact hinv.step hP hok

end Inv

/-! ## Result -/

/-- The length of a prefix that consists of whole bytes. -/
def ByteLength (length : ℕ) : Prop := 8 ∣ length ∧ length ≤ 128

instance : DecidablePred ByteLength := fun length =>
  inferInstanceAs (Decidable (8 ∣ length ∧ length ≤ 128))

/-- The routing table is in order. -/
structure Sound (s : State C) : Prop where
  numRoutes : s.numRoutes = s.routelist.length
  routememb : s.routememb.inUse = s.routelist.length
  neighborroutememb : s.neighborroutememb.inUse = s.routelist.length
  le : s.routelist.length ≤ C.routeNb
  nodup : s.routelist.Nodup
  /-- One entry of all lists has the route, and it is on the list of the next hop. -/
  referenced : ∀ r ∈ s.routelist, ∃ i, (s.route r).neighborRoutes = some i ∧
    (∃ n ∈ s.routeList i, s.neighborRoute n = some r) ∧
    ∃! p : ℕ × Fin C.routeNb, p.2 ∈ s.routeList p.1 ∧ s.neighborRoute p.2 = some r
  refers : ∀ i, ∀ n ∈ s.routeList i, ∃ r ∈ s.routelist,
    s.neighborRoute n = some r ∧ (s.route r).neighborRoutes = some i
  used : ∀ i, nbrGetBit s.nbr s.nbr.usedMap C.nbrRoutes (some i) = true ↔
    ∃ r ∈ s.routelist, (s.route r).neighborRoutes = some i
  locked : ∀ i, nbrGetBit s.nbr s.nbr.lockedMap C.nbrRoutes (some i) = true ↔
    ∃ r ∈ s.routelist, (s.route r).neighborRoutes = some i
  listed : ∀ i, nbrGetBit s.nbr s.nbr.usedMap C.nbrRoutes (some i) = true → i ∈ s.nbr.keys
  possible : ∀ ipaddr length nexthop removable, ByteLength length →
    (uipDs6RouteAdd s ipaddr length nexthop removable).failure = none
  found : ∀ addr r, (uipDs6RouteLookup s (some addr)).1 = some r → r ∈ s.routelist ∧
    SamePrefix addr (s.route r).ipaddr (s.route r).length ∧
    ∀ r' ∈ s.routelist, SamePrefix addr (s.route r').ipaddr (s.route r').length →
      (s.route r').length ≤ (s.route r).length
  notFound : ∀ addr, (uipDs6RouteLookup s (some addr)).1 = none ↔
    ∀ r ∈ s.routelist, ¬ SamePrefix addr (s.route r).ipaddr (s.route r).length

section Result

variable {s : State C} {i : ℕ}

/-- An item has a route if its list has an entry. -/
theorem InvExcept.routeList_ne_nil {P : ℕ → Prop} (h : Inv P s) :
    s.routeList i ≠ [] ↔ ∃ r ∈ s.routelist, (s.route r).neighborRoutes = some i := by
  constructor
  · intro hne
    obtain ⟨n, hn⟩ := List.exists_mem_of_ne_nil _ hne
    obtain ⟨-, r, hr, -, hri⟩ := h.entry i n hn
    exact ⟨r, hr, hri⟩
  · rintro ⟨r, hr, hri⟩
    obtain ⟨j, hj, n, hn, -⟩ := h.via r hr
    obtain rfl := Option.some.inj (hri.symm.trans hj)
    exact List.ne_nil_of_mem hn

/-- What the invariant says of a state. -/
theorem InvExcept.sound (h : Inv ByteLength s) : Sound s := by
  have hn := h.neighbors
  have hle : ∀ r ∈ s.routelist, (s.route r).length ≤ 128 := fun r hr => (h.lengths r hr).2
  have hcmp : ∀ addr, ∀ r ∈ s.routelist,
      prefixcmp addr (s.route r).ipaddr (s.route r).length = true ↔
        SamePrefix addr (s.route r).ipaddr (s.route r).length := fun addr r hr =>
    prefixcmp_iff (h.lengths r hr).1
  have hused : ∀ i, nbrGetBit s.nbr s.nbr.usedMap C.nbrRoutes (some i) = true ↔
      s.routeList i ≠ [] := by
    intro i
    rw [hn.getBit C.nbrRoutes_mem, h.used i]
    simp
  -- Each part of the statement is a part of the invariant.
  constructor
  case numRoutes => exact h.num
  case routememb => exact h.inUse.1
  case neighborroutememb => exact h.inUse.2
  case le => exact h.le
  case nodup => exact h.routes
  case referenced =>
    intro r hr
    obtain ⟨i, hri, n, hni, hnr⟩ := h.via r hr
    refine ⟨i, hri, ⟨n, hni, hnr⟩, (i, n), ⟨hni, hnr⟩, ?_⟩
    rintro ⟨j, m⟩ ⟨hmj, hmr⟩
    obtain rfl := h.single m n (h.entry j m hmj).1 (h.entry i n hni).1 (hmr.trans hnr.symm)
    have hji : j = i := h.list_unique hmj hni
    rw [hji]
  case refers =>
    intro i n hni
    exact (h.entry i n hni).2
  case used => exact fun i => (hused i).trans h.routeList_ne_nil
  case locked =>
    intro i
    rw [hn.getBit C.nbrRoutes_mem, h.locked i, ← h.routeList_ne_nil]
    simp
  case listed =>
    intro i hi
    exact h.keys i ((hn.getBit C.nbrRoutes_mem).mp hi)
  case possible =>
    intro ipaddr length nexthop removable hlength
    exact (h.add (fun _ hl => hl.2) ipaddr hlength nexthop removable).1
  case found =>
    intro addr r hfound
    rcases uipDs6RouteLookup_cases hle addr with ⟨heq, -⟩ | ⟨q, hq, l, heq, -, -, hqcmp, hmax⟩
    · rw [heq] at hfound
      cases hfound
    · rw [heq] at hfound
      obtain rfl := Option.some.inj hfound
      refine ⟨hq, (hcmp addr q hq).mp hqcmp, fun r' hr' hsame => ?_⟩
      exact hmax r' hr' ((hcmp addr r' hr').mpr hsame)
  case notFound =>
    intro addr
    rcases uipDs6RouteLookup_cases hle addr with ⟨heq, hnone⟩ | ⟨q, hq, l, heq, -, -, hqcmp, -⟩
    · rw [heq]
      refine iff_of_true rfl fun r hr hsame => ?_
      have := (hcmp addr r hr).mpr hsame
      rw [hnone r hr] at this
      cases this
    · rw [heq]
      refine iff_of_false (by simp) fun hall => ?_
      exact hall q hq ((hcmp addr q hq).mp hqcmp)

/-- In every reachable state the routing table is in order. -/
theorem routes_sound
    (hrun : Run (fun s e => some (step s e)) (Proper ByteLength) (State.initial C) s) : Sound s :=
  (Inv.of_run (fun _ hl => hl.2) hrun).sound

end Result

/-! ### Two neighbors -/

instance (P : ℕ → Prop) [DecidablePred P] (s : State C) : DecidablePred (Proper P s)
  | .add _ length _ _ => inferInstanceAs (Decidable (P length))
  | .rm (some r) => inferInstanceAs (Decidable (r ∈ s.routelist))
  | .addLladdr table _ _ => inferInstanceAs
      (Decidable (table ∈ C.tables ∧ table ≠ C.nbrRoutes ∧ table ≠ C.ds6Neighbors))
  | .remove table _ | .lock table _ | .unlock table _ =>
    inferInstanceAs (Decidable (table ∈ C.tables ∧ table ≠ C.nbrRoutes))
  | .rm none | .rmByNexthop _ | .lookup _ | .nbrAdd _ _ _ | .updateLladdr _ _ _ => isTrue trivial

local instance neZero_two : NeZero 2 := ⟨two_ne_zero⟩

/-- Tables 0 and 1 are `ds6_neighbors` and `nbr_routes`, with room for two neighbors and
three routes. -/
def smallConfig : Config (Fin 2) where
  routeNb := 3
  removeLeastRecentlyUsed := true
  maxNeighbors := 2
  tables := [0, 1]
  nbrRoutes := 1
  ds6Neighbors := 0
  length_le := by decide
  nbrRoutes_mem := by decide
  ds6Neighbors_mem := by decide
  ds6Neighbors_ne := by decide

/-- An address of fd00::/64 with its last byte. -/
def ula (n : UInt8) : Ipaddr :=
  ⟨[0xfd, 0, 0, 0, 0, 0, 0, 0, 0, 0, 0, 0, 0, 0, 0, n], rfl⟩

/-- An address of fe80::/64 with its last byte. -/
def linkLocal (n : UInt8) : Ipaddr :=
  ⟨[0xfe, 0x80, 0, 0, 0, 0, 0, 0, 0, 0, 0, 0, 0, 0, 0, n], rfl⟩

/-- Neighbors 1 and 2 are next hops, then neighbor 1 is evicted. -/
def addAndEvict : List (Event smallConfig) :=
  [.nbrAdd (linkLocal 1) (some (address 1)) none, .nbrAdd (linkLocal 2) (some (address 2)) none,
    .add (some (ula 1)) 128 (some (linkLocal 1)) none,
    .add (some (ula 2)) 128 (some (linkLocal 2)) none,
    .nbrAdd (linkLocal 3) (some (address 3)) (some 0)]

/-- The third neighbor takes the place of the first, whose route is deleted. -/
theorem routes_sound_addAndEvict : ∃ s : State smallConfig,
    (s.routelist.map Fin.val = [1] ∧ s.nbr.keys = [1, 0]) ∧ Sound s := by
  obtain ⟨s, hrun, hs⟩ := exists_run_of_runEvents (fun s e => some (step s e))
    (Proper ByteLength) (State.initial smallConfig) addAndEvict
    (fun s => s.routelist.map Fin.val = [1] ∧ s.nbr.keys = [1, 0]) (by decide +kernel)
  exact ⟨s, hs, routes_sound hrun⟩

end MasterScheduler.Mote.RouteTable
