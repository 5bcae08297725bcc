import Mathlib.Data.List.Nodup
import Mathlib.Logic.Function.Basic
import MasterScheduler.Lib.BitArray
import MasterScheduler.Lib.Transition
import MasterScheduler.Mote.Frame802154

/-!
# MasterScheduler.Mote.NbrTable — tables that share their neighbors

`nbr-table.c` keeps one pool of neighbors for all tables. A neighbor is a slot
of the pool, listed with its address; two bitmaps say which tables use it and
which lock it.

1. **Model**: the pool, allocation with the default policy, the operations.
2. **History**: the state with what was added and locked, by address.
3. **Bitmaps**: a bitmap mirrors a record of tables and addresses.
4. **Invariant**: what every operation preserves.
5. **Result**: the properties of every reachable state. They need that
   `nbr_table_update_lladdr` never removes a duplicate: that removal leaves a
   slot which is allocated and not listed.

An item of a table is named by its slot. What an item contains is left out.
-/

namespace MasterScheduler.Mote.NbrTable

open Lib Frame802154

/-! ## Model -/

variable {Table : Type} [DecidableEq Table]

/-- The variables of `nbr-table.c`. -/
structure State (Table : Type) where
  /-- `all_tables` up to `num_tables`. -/
  allTables : List Table
  index : Table → ℕ
  /-- The tables whose `callback` is not null. -/
  hasCallback : Table → Bool
  /-- The allocated blocks of `neighbor_addr_mem`. -/
  count : ℕ → Bool
  /-- `nbr_table_keys`, by slot. -/
  keys : List ℕ
  lladdr : ℕ → Linkaddr
  usedMap : ℕ → BitVec 8
  lockedMap : ℕ → BitVec 8

/-- The state at the start. -/
def State.initial : State Table where
  allTables := []
  index := fun _ => 0
  hasCallback := fun _ => false
  count := fun _ => false
  keys := []
  lladdr := fun _ => linkaddrNull
  usedMap := fun _ => 0
  lockedMap := fun _ => 0

/-- `MAX_NUM_TABLES`. -/
def maxNumTables : ℕ := 8

/-- `index_from_lladdr`. -/
def indexFromLladdr (s : State Table) (lladdr : Option Linkaddr) : Option ℕ :=
  s.keys.find? fun key => decide (lladdr.getD linkaddrNull = s.lladdr key)

/-- `nbr_get_bit`. -/
def nbrGetBit (s : State Table) (bitmap : ℕ → BitVec 8) (table : Table) : Option ℕ → Bool
  | some item => (bitmap item &&& (1#8 <<< s.index table)) != 0#8
  | none => false

/-- `nbr_set_bit`. -/
def nbrSetBit (s : State Table) (bitmap : ℕ → BitVec 8) (table : Table) :
    Option ℕ → Bool → ℕ → BitVec 8
  | some item, true => Function.update bitmap item (bitmap item ||| (1#8 <<< s.index table))
  | some item, false => Function.update bitmap item (bitmap item &&& ~~~(1#8 <<< s.index table))
  | none, _ => bitmap

/-- The callbacks that `remove_key` makes, with the item. -/
def removeCalls (s : State Table) (key : ℕ) : List (Table × ℕ) :=
  (s.allTables.filter fun t => s.hasCallback t && nbrGetBit s s.usedMap t (some key)).map
    fun t => (t, key)

/-- What `remove_key` does to the state. -/
def removeKey (s : State Table) (key : ℕ) : State Table :=
  { s with usedMap := Function.update s.usedMap key 0, keys := s.keys.erase key }

/-- The loop that counts the tables in a bitmap. A byte is zero after eight rounds. -/
def usedCount : ℕ → BitVec 8 → ℕ
  | 0, _ => 0
  | n + 1, used => (if used &&& 1#8 = 1#8 then 1 else 0) + usedCount n (used >>> 1)

/-- The loop of the default policy, with the least used key so far and its count. -/
def leastUsed (s : State Table) : List ℕ → Option (ℕ × ℕ) → Option ℕ
  | [], best => best.map Prod.fst
  | key :: keys, best =>
    if s.lockedMap key = 0 then
      let count := usedCount 8 (s.usedMap key)
      if best.all fun b => decide (count < b.2) then
        if count = 0 then some key else leastUsed s keys (some (key, count))
      else leastUsed s keys best
    else leastUsed s keys best

variable (maxNeighbors : ℕ)

/-- `memb_alloc`: the first free block. -/
def membAlloc (s : State Table) : Option ℕ :=
  (List.range maxNeighbors).find? fun i => !s.count i

/-- What an addition did. -/
structure Added (Table : Type) where
  item : Option ℕ
  /-- The key for which `remove_key` was called. -/
  removed : Option ℕ
  calls : List (Table × ℕ)
  state : State Table

/-- `nbr_table_allocate`. -/
def nbrTableAllocate (s : State Table) : Added Table :=
  match membAlloc maxNeighbors s with
  | some key => ⟨some key, none, [], { s with count := Function.update s.count key true }⟩
  | none =>
    match leastUsed s s.keys none with
    | some key => ⟨some key, some key, removeCalls s key, removeKey s key⟩
    | none => ⟨none, none, [], s⟩

/-- A key is put at the end of the list, with its address. -/
def listKey (s : State Table) (key : ℕ) (lladdr : Linkaddr) : State Table :=
  { s with keys := s.keys.erase key ++ [key], lladdr := Function.update s.lladdr key lladdr }

/-- The bit that an addition sets at its end. -/
def useItem (s : State Table) (table : Table) (item : ℕ) : State Table :=
  { s with usedMap := nbrSetBit s s.usedMap table (some item) true }

/-- `nbr_table_add_lladdr`. -/
def addLladdr (s : State Table) (table : Table) (lladdr : Option Linkaddr) : Added Table :=
  match indexFromLladdr s lladdr with
  | some item => ⟨some item, none, [], useItem s table item⟩
  | none =>
    let allocated := nbrTableAllocate maxNeighbors s
    match allocated.item with
    | none => allocated
    | some key =>
      { allocated with
        state := useItem (listKey allocated.state key (lladdr.getD linkaddrNull)) table key }

/-- `nbr_table_register`. -/
def register (s : State Table) (table : Table) (callback : Bool) : State Table :=
  if s.allTables.length < maxNumTables then
    { s with
      index := Function.update s.index table s.allTables.length
      hasCallback := Function.update s.hasCallback table callback
      allTables := s.allTables ++ [table] }
  else s

/-- `nbr_table_get_from_lladdr`. -/
def getFromLladdr (s : State Table) (table : Table) (lladdr : Option Linkaddr) : Option ℕ :=
  let item := indexFromLladdr s lladdr
  if nbrGetBit s s.usedMap table item then item else none

/-- `nbr_table_remove`. -/
def remove (s : State Table) (table : Table) (item : Option ℕ) : State Table :=
  { s with
    usedMap := nbrSetBit s s.usedMap table item false
    lockedMap := nbrSetBit s s.lockedMap table item false }

/-- `nbr_table_lock`. -/
def lock (s : State Table) (table : Table) (item : Option ℕ) : State Table :=
  { s with lockedMap := nbrSetBit s s.lockedMap table item true }

/-- `nbr_table_unlock`. -/
def unlock (s : State Table) (table : Table) (item : Option ℕ) : State Table :=
  { s with lockedMap := nbrSetBit s s.lockedMap table item false }

/-- `nbr_table_update_lladdr`. -/
def updateLladdr (s : State Table) (oldAddr : Option Linkaddr) (newAddr : Linkaddr)
    (removeIfDuplicate : Bool) : State Table :=
  match indexFromLladdr s oldAddr with
  | none => s
  | some index =>
    match indexFromLladdr s (some newAddr) with
    | some newIndex =>
      if newIndex = index then s
      else if removeIfDuplicate then removeKey s index
      else s
    | none => { s with lladdr := Function.update s.lladdr index newAddr }

/-! ## History -/

/-- The calls of the modules that use the tables. -/
inductive Event (Table : Type)
  | register (table : Table) (callback : Bool)
  | add (table : Table) (lladdr : Option Linkaddr)
  | remove (table : Table) (item : Option ℕ)
  | lock (table : Table) (item : Option ℕ)
  | unlock (table : Table) (item : Option ℕ)
  | update (oldAddr : Option Linkaddr) (newAddr : Linkaddr) (removeIfDuplicate : Bool)

/-- Tables and the addresses they have or lock. -/
abbrev Record (Table : Type) := List (Table × Linkaddr)

/-- The state, with the addresses that were added to a table and neither removed nor evicted
since, and those that it locks. -/
structure History (Table : Type) where
  state : State Table
  members : Record Table
  locks : Record Table

/-- An address leaves all tables. -/
def Record.drop (r : Record Table) (lladdr : Linkaddr) : Record Table :=
  r.filter fun p => decide (p.2 ≠ lladdr)

/-- An address leaves a table. -/
def Record.remove (r : Record Table) (p : Table × Linkaddr) : Record Table :=
  r.filter fun q => decide (q ≠ p)

/-- An address is replaced. -/
def Record.rename (r : Record Table) (oldAddr newAddr : Linkaddr) : Record Table :=
  r.map fun p => (p.1, if p.2 = oldAddr then newAddr else p.2)

/-- The address of an item leaves a table. -/
def Record.removeItem (r : Record Table) (s : State Table) (table : Table) :
    Option ℕ → Record Table
  | some item => r.remove (table, s.lladdr item)
  | none => r

/-- The address of an item joins a table. -/
def Record.addItem (r : Record Table) (s : State Table) (table : Table) : Option ℕ → Record Table
  | some item => (table, s.lladdr item) :: r
  | none => r

/-- The address of an evicted key leaves all tables. -/
def Record.evict (r : Record Table) (s : State Table) : Option ℕ → Record Table
  | some key => r.drop (s.lladdr key)
  | none => r

/-- What an update of an address does to a record. -/
def Record.update (r : Record Table) (s : State Table) (oldAddr : Option Linkaddr)
    (newAddr : Linkaddr) (removeIfDuplicate : Bool) : Record Table :=
  match indexFromLladdr s oldAddr, indexFromLladdr s (some newAddr) with
  | some index, some newIndex =>
    if newIndex ≠ index ∧ removeIfDuplicate = true then r.drop (s.lladdr index) else r
  | some index, none => r.rename (s.lladdr index) newAddr
  | none, _ => r

/-- A call, and what it says about the records. -/
def step (h : History Table) : Event Table → History Table
  | .register table callback => { h with state := register h.state table callback }
  | .add table lladdr =>
    let added := addLladdr maxNeighbors h.state table lladdr
    { state := added.state
      members :=
        if added.item.isSome then
          (table, lladdr.getD linkaddrNull) :: h.members.evict h.state added.removed
        else h.members
      locks := h.locks.evict h.state added.removed }
  | .remove table item =>
    { state := remove h.state table item
      members := h.members.removeItem h.state table item
      locks := h.locks.removeItem h.state table item }
  | .lock table item =>
    { h with state := lock h.state table item
             locks := h.locks.addItem h.state table item }
  | .unlock table item =>
    { h with state := unlock h.state table item
             locks := h.locks.removeItem h.state table item }
  | .update oldAddr newAddr removeIfDuplicate =>
    { state := updateLladdr h.state oldAddr newAddr removeIfDuplicate
      members := h.members.update h.state oldAddr newAddr removeIfDuplicate
      locks := h.locks.update h.state oldAddr newAddr removeIfDuplicate }

/-- The history at the start. -/
def History.initial : History Table := ⟨.initial, [], []⟩

/-! ## Bitmaps -/

/-- A bitmap says of every listed key which tables have its address in a record. -/
structure Mirrors (tables : List Table) (keys : List ℕ) (lladdr : ℕ → Linkaddr)
    (map : ℕ → BitVec 8) (r : Record Table) : Prop where
  bits : ∀ i ∈ keys, ∀ j < 8,
    (map i).getLsbD j = true ↔ ∃ t, tables[j]? = some t ∧ (t, lladdr i) ∈ r
  fresh : ∀ i ∉ keys, map i = 0
  listed : ∀ t a, (t, a) ∈ r → t ∈ tables ∧ ∃ i ∈ keys, lladdr i = a

section Mirrors

variable {tables : List Table} {keys : List ℕ} {lladdr : ℕ → Linkaddr} {map : ℕ → BitVec 8}
  {r : Record Table} {t : Table} {a : Linkaddr} {i j k : ℕ}

theorem getLsbD_shift (hj : j < 8) :
    (1#8 <<< j).getLsbD i = decide (i = j) := by
  rw [BitVec.getLsbD_shiftLeft, BitVec.getLsbD_one]
  by_cases h : i = j
  · simp [h, hj]
  · by_cases hlt : i < j
    · simp [h, hlt]
    · have : i - j ≠ 0 := by omega
      simp [h, this]

omit [DecidableEq Table] in
/-- A place in a list without repetitions. -/
theorem eq_of_getElem? (htables : tables.Nodup) (hi : tables[i]? = some t)
    (hj : tables[j]? = some t) : i = j := by
  have hne := List.nodup_iff_getElem?_ne_getElem?.mp htables
  rcases Nat.lt_trichotomy i j with h | h | h
  · exact absurd (hi.trans hj.symm) (hne i j h (List.getElem?_eq_some_iff.mp hj).1)
  · exact h
  · exact absurd (hj.trans hi.symm) (hne j i h (List.getElem?_eq_some_iff.mp hi).1)

omit [DecidableEq Table] in
/-- A bit that is set is a table that joins. -/
theorem Mirrors.set (h : Mirrors tables keys lladdr map r) (htables : tables.Nodup)
    (hinj : ∀ x ∈ keys, ∀ y ∈ keys, lladdr x = lladdr y → x = y) (ht : tables[j]? = some t)
    (hj : j < 8) (hi : i ∈ keys) :
    Mirrors tables keys lladdr (Function.update map i (map i ||| (1#8 <<< j)))
      ((t, lladdr i) :: r) := by
  -- A bit was set before, or it is the new one of this neighbor.
  constructor
  · intro x hx y hy
    by_cases hxi : x = i
    · subst hxi
      rw [Function.update_self, BitVec.getLsbD_or, getLsbD_shift hj, Bool.or_eq_true,
        h.bits x hx y hy, decide_eq_true_eq]
      constructor
      · rintro (⟨u, hu, hmem⟩ | rfl)
        · exact ⟨u, hu, List.mem_cons_of_mem _ hmem⟩
        · exact ⟨t, ht, List.mem_cons_self⟩
      · rintro ⟨u, hu, hmem⟩
        rcases List.mem_cons.mp hmem with heq | hmem
        · cases heq
          exact .inr (eq_of_getElem? htables hu ht)
        · exact .inl ⟨u, hu, hmem⟩
    · rw [Function.update_of_ne hxi, h.bits x hx y hy]
      constructor
      · rintro ⟨u, hu, hmem⟩
        exact ⟨u, hu, List.mem_cons_of_mem _ hmem⟩
      · rintro ⟨u, hu, hmem⟩
        rcases List.mem_cons.mp hmem with heq | hmem
        · exact absurd (hinj x hx i hi (congrArg Prod.snd heq)) hxi
        · exact ⟨u, hu, hmem⟩
  · intro x hx
    rw [Function.update_of_ne (ne_of_mem_of_not_mem hi hx).symm, h.fresh x hx]
  · intro u b hmem
    rcases List.mem_cons.mp hmem with heq | hmem
    · cases heq
      exact ⟨List.mem_of_getElem? ht, i, hi, rfl⟩
    · exact h.listed u b hmem

/-- A bit that is cleared is a table that leaves. -/
theorem Mirrors.clear (h : Mirrors tables keys lladdr map r) (htables : tables.Nodup)
    (hinj : ∀ x ∈ keys, ∀ y ∈ keys, lladdr x = lladdr y → x = y) (ht : tables[j]? = some t)
    (hj : j < 8) (hi : i ∈ keys) :
    Mirrors tables keys lladdr (Function.update map i (map i &&& ~~~(1#8 <<< j)))
      (r.remove (t, lladdr i)) := by
  -- No other pair has this table and this address.
  have hmem : ∀ u b, (u, b) ∈ r.remove (t, lladdr i) ↔ (u, b) ∈ r ∧ (u, b) ≠ (t, lladdr i) := by
    intro u b
    rw [Record.remove, List.mem_filter, decide_eq_true_eq]
  constructor
  · intro x hx y hy
    by_cases hxi : x = i
    · subst hxi
      rw [Function.update_self, BitVec.getLsbD_and, BitVec.getLsbD_not, getLsbD_shift hj,
        Bool.and_eq_true, h.bits x hx y hy]
      constructor
      · rintro ⟨⟨u, hu, hur⟩, hne⟩
        refine ⟨u, hu, (hmem _ _).mpr ⟨hur, ?_⟩⟩
        intro heq
        have hut : u = t := congrArg Prod.fst heq
        rw [hut] at hu
        simp [eq_of_getElem? htables hu ht] at hne
      · rintro ⟨u, hu, hur⟩
        obtain ⟨hur, hne⟩ := (hmem _ _).mp hur
        refine ⟨⟨u, hu, hur⟩, ?_⟩
        have hyj : y ≠ j := by
          rintro rfl
          rw [hu, Option.some.injEq] at ht
          exact hne (by rw [ht])
        simp [hy, hyj]
    · rw [Function.update_of_ne hxi, h.bits x hx y hy]
      constructor
      · rintro ⟨u, hu, hur⟩
        refine ⟨u, hu, (hmem _ _).mpr ⟨hur, ?_⟩⟩
        intro heq
        exact hxi (hinj x hx i hi (congrArg Prod.snd heq))
      · rintro ⟨u, hu, hur⟩
        exact ⟨u, hu, ((hmem _ _).mp hur).1⟩
  · intro x hx
    rw [Function.update_of_ne (ne_of_mem_of_not_mem hi hx).symm, h.fresh x hx]
  · intro u b hub
    exact h.listed u b ((hmem u b).mp hub).1

omit [DecidableEq Table] in
/-- A key that joins the list belongs to no table. -/
theorem Mirrors.append (h : Mirrors tables keys lladdr map r) (hk : k ∉ keys)
    (ha : ∀ i ∈ keys, lladdr i ≠ a) :
    Mirrors tables (keys ++ [k]) (Function.update lladdr k a) map r := by
  have hold : ∀ x ∈ keys, Function.update lladdr k a x = lladdr x := fun x hx =>
    Function.update_of_ne (ne_of_mem_of_not_mem hx hk) _ _
  constructor
  · intro x hx y hy
    rcases List.mem_append.mp hx with hx | hx
    · rw [hold x hx]
      exact h.bits x hx y hy
    · obtain rfl := List.mem_singleton.mp hx
      rw [Function.update_self, h.fresh x hk]
      constructor
      · intro hbit
        simp at hbit
      · rintro ⟨u, _, hmem⟩
        obtain ⟨_, i, hi, hia⟩ := h.listed u a hmem
        exact absurd hia (ha i hi)
  · intro x hx
    exact h.fresh x fun hmem => hx (List.mem_append_left _ hmem)
  · intro u b hmem
    obtain ⟨hu, i, hi, hib⟩ := h.listed u b hmem
    exact ⟨hu, i, List.mem_append_left _ hi, (hold i hi).trans hib⟩

omit [DecidableEq Table] in
/-- A key that leaves the list takes its address out of the record. -/
theorem Mirrors.drop (h : Mirrors tables keys lladdr map r) (hkeys : keys.Nodup)
    (hinj : ∀ x ∈ keys, ∀ y ∈ keys, lladdr x = lladdr y → x = y) (hk : k ∈ keys) :
    Mirrors tables (keys.erase k) lladdr (Function.update map k 0) (r.drop (lladdr k)) := by
  have hmem : ∀ u b, (u, b) ∈ r.drop (lladdr k) ↔ (u, b) ∈ r ∧ b ≠ lladdr k := by
    intro u b
    rw [Record.drop, List.mem_filter, decide_eq_true_eq]
  have herase : ∀ x, x ∈ keys.erase k ↔ x ≠ k ∧ x ∈ keys := fun x => hkeys.mem_erase_iff
  constructor
  · intro x hx y hy
    obtain ⟨hxk, hx⟩ := (herase x).mp hx
    rw [Function.update_of_ne hxk, h.bits x hx y hy]
    constructor
    · rintro ⟨u, hu, hur⟩
      exact ⟨u, hu, (hmem _ _).mpr ⟨hur, fun heq => hxk (hinj x hx k hk heq)⟩⟩
    · rintro ⟨u, hu, hur⟩
      exact ⟨u, hu, ((hmem _ _).mp hur).1⟩
  · intro x hx
    by_cases hxk : x = k
    · rw [hxk, Function.update_self]
    · rw [Function.update_of_ne hxk]
      exact h.fresh x fun hin => hx ((herase x).mpr ⟨hxk, hin⟩)
  · intro u b hub
    obtain ⟨hub, hne⟩ := (hmem u b).mp hub
    obtain ⟨hu, i, hi, hib⟩ := h.listed u b hub
    refine ⟨hu, i, (herase i).mpr ⟨?_, hi⟩, hib⟩
    rintro rfl
    exact hne hib.symm

omit [DecidableEq Table] in
/-- A key gets a new address. -/
theorem Mirrors.rename (h : Mirrors tables keys lladdr map r)
    (hinj : ∀ x ∈ keys, ∀ y ∈ keys, lladdr x = lladdr y → x = y) (hk : k ∈ keys)
    (ha : ∀ i ∈ keys, lladdr i ≠ a) :
    Mirrors tables keys (Function.update lladdr k a) map (r.rename (lladdr k) a) := by
  have hold : ∀ x, x ≠ k → Function.update lladdr k a x = lladdr x := fun x hx =>
    Function.update_of_ne hx _ _
  -- A neighbor keeps its tables, under the new address.
  have hmem : ∀ x ∈ keys, ∀ u,
      (u, Function.update lladdr k a x) ∈ r.rename (lladdr k) a ↔ (u, lladdr x) ∈ r := by
    intro x hx u
    rw [Record.rename, List.mem_map]
    constructor
    · rintro ⟨⟨v, b⟩, hvb, heq⟩
      obtain ⟨rfl, hb⟩ := Prod.mk.inj heq
      obtain ⟨_, y, hy, hyb⟩ := h.listed v b hvb
      by_cases hbk : b = lladdr k
      · rw [if_pos hbk] at hb
        have hxk : x = k := by
          by_contra hne
          rw [hold x hne] at hb
          exact ha x hx hb.symm
        rw [hxk, ← hbk]
        exact hvb
      · rw [if_neg hbk] at hb
        have hxk : x ≠ k := by
          rintro rfl
          rw [Function.update_self] at hb
          exact ha y hy (hyb.trans hb)
        rw [hold x hxk] at hb
        rw [← hb]
        exact hvb
    · intro hux
      refine ⟨(u, lladdr x), hux, ?_⟩
      by_cases hxk : x = k
      · rw [hxk, if_pos rfl, Function.update_self]
      · rw [if_neg fun heq => hxk (hinj x hx k hk heq), hold x hxk]
  constructor
  · intro x hx y hy
    rw [h.bits x hx y hy]
    constructor
    · rintro ⟨u, hu, hur⟩
      exact ⟨u, hu, (hmem x hx u).mpr hur⟩
    · rintro ⟨u, hu, hur⟩
      exact ⟨u, hu, (hmem x hx u).mp hur⟩
  · exact h.fresh
  · intro u b hub
    obtain ⟨⟨v, c⟩, hvc, heq⟩ := List.mem_map.mp hub
    obtain ⟨rfl, hc⟩ := Prod.mk.inj heq
    obtain ⟨hv, y, hy, hyc⟩ := h.listed v c hvc
    refine ⟨hv, ?_⟩
    by_cases hck : c = lladdr k
    · rw [if_pos hck] at hc
      exact ⟨k, hk, by rw [Function.update_self]; exact hc⟩
    · rw [if_neg hck] at hc
      refine ⟨y, hy, ?_⟩
      have hyk : y ≠ k := by
        rintro rfl
        exact hck hyc.symm
      rw [hold y hyk, hyc]
      exact hc

omit [DecidableEq Table] in
/-- A table that is registered has no neighbors. -/
theorem Mirrors.register (h : Mirrors tables keys lladdr map r) (ht : t ∉ tables) :
    Mirrors (tables ++ [t]) keys lladdr map r := by
  constructor
  · intro x hx y hy
    rw [h.bits x hx y hy]
    constructor
    · rintro ⟨u, hu, hur⟩
      refine ⟨u, ?_, hur⟩
      rw [List.getElem?_append_left (List.getElem?_eq_some_iff.mp hu).1]
      exact hu
    · rintro ⟨u, hu, hur⟩
      refine ⟨u, ?_, hur⟩
      have hne : u ≠ t := fun he => ht (he ▸ (h.listed u _ hur).1)
      rw [List.getElem?_append] at hu
      split at hu
      · exact hu
      · have hmem := List.mem_singleton.mp (List.mem_of_getElem? hu)
        exact absurd hmem hne
  · exact h.fresh
  · intro u b hub
    obtain ⟨hu, hi⟩ := h.listed u b hub
    exact ⟨List.mem_append_left _ hu, hi⟩

end Mirrors

/-! ## Invariant -/

/-- The pool, the list, the bitmaps and the records agree. -/
structure Inv (maxNeighbors : ℕ) (h : History Table) : Prop where
  tables : h.state.allTables.Nodup
  length_le : h.state.allTables.length ≤ maxNumTables
  index : ∀ j t, h.state.allTables[j]? = some t → h.state.index t = j
  keys : h.state.keys.Nodup
  counted : ∀ i, (i < maxNeighbors ∧ h.state.count i = true) ↔ i ∈ h.state.keys
  distinct : ∀ x ∈ h.state.keys, ∀ y ∈ h.state.keys, h.state.lladdr x = h.state.lladdr y → x = y
  used : Mirrors h.state.allTables h.state.keys h.state.lladdr h.state.usedMap h.members
  locked : Mirrors h.state.allTables h.state.keys h.state.lladdr h.state.lockedMap h.locks

section Invariant

variable {maxNeighbors : ℕ} {h : History Table} {s : State Table} {m l : Record Table}
  {t : Table} {a : Linkaddr} {i k : ℕ} {lladdr : Option Linkaddr}

omit [DecidableEq Table] in
theorem inv_initial : Inv maxNeighbors (History.initial : History Table) where
  tables := List.nodup_nil
  length_le := Nat.zero_le _
  index := fun j t ht => by simp [History.initial, State.initial] at ht
  keys := List.nodup_nil
  counted := fun i => by simp [History.initial, State.initial]
  distinct := fun x hx => absurd hx List.not_mem_nil
  used := ⟨fun i hi => absurd hi List.not_mem_nil, fun _ _ => rfl,
    fun _ _ hp => absurd hp List.not_mem_nil⟩
  locked := ⟨fun i hi => absurd hi List.not_mem_nil, fun _ _ => rfl,
    fun _ _ hp => absurd hp List.not_mem_nil⟩

omit [DecidableEq Table] in
/-- The bit of a registered table. -/
theorem Inv.place (hinv : Inv maxNeighbors h) (ht : t ∈ h.state.allTables) :
    h.state.allTables[h.state.index t]? = some t ∧ h.state.index t < 8 := by
  obtain ⟨j, hj⟩ := List.mem_iff_getElem?.mp ht
  have hindex := hinv.index j t hj
  rw [hindex]
  exact ⟨hj, (List.getElem?_eq_some_iff.mp hj).1.trans_le hinv.length_le⟩

omit [DecidableEq Table] in
theorem indexFromLladdr_eq_some (hi : indexFromLladdr s lladdr = some i) :
    i ∈ s.keys ∧ s.lladdr i = lladdr.getD linkaddrNull := by
  have hprop := List.find?_some hi
  exact ⟨List.mem_of_find?_eq_some hi, (of_decide_eq_true hprop).symm⟩

omit [DecidableEq Table] in
theorem indexFromLladdr_eq_none :
    indexFromLladdr s lladdr = none ↔ ∀ i ∈ s.keys, s.lladdr i ≠ lladdr.getD linkaddrNull := by
  rw [indexFromLladdr, List.find?_eq_none]
  constructor
  · intro hnone i hi heq
    exact hnone i hi (decide_eq_true heq.symm)
  · intro hall i hi hdec
    exact hall i hi (of_decide_eq_true hdec).symm

omit [DecidableEq Table] in
theorem Inv.indexFromLladdr_eq (hinv : Inv maxNeighbors h) (hi : i ∈ h.state.keys)
    (ha : h.state.lladdr i = lladdr.getD linkaddrNull) :
    indexFromLladdr h.state lladdr = some i := by
  cases hfind : indexFromLladdr h.state lladdr with
  | none => exact absurd ha (indexFromLladdr_eq_none.mp hfind i hi)
  | some x =>
    obtain ⟨hx, hxa⟩ := indexFromLladdr_eq_some hfind
    rw [hinv.distinct x hx i hi (hxa.trans ha.symm)]

omit [DecidableEq Table] in
theorem membAlloc_eq_some (hk : membAlloc maxNeighbors s = some k) :
    k < maxNeighbors ∧ s.count k = false := by
  have hprop := List.find?_some hk
  exact ⟨List.mem_range.mp (List.mem_of_find?_eq_some hk), by simpa using hprop⟩

omit [DecidableEq Table] in
theorem membAlloc_eq_none (hnone : membAlloc maxNeighbors s = none) :
    ∀ i < maxNeighbors, s.count i = true := by
  intro i hi
  have := List.find?_eq_none.mp hnone i (List.mem_range.mpr hi)
  simpa using this

omit [DecidableEq Table] in
/-- The policy takes an unlocked key, or the one it had. -/
theorem leastUsed_eq_some {keys : List ℕ} {best : Option (ℕ × ℕ)}
    (hk : leastUsed s keys best = some k) :
    (k ∈ keys ∧ s.lockedMap k = 0) ∨ ∃ c, best = some (k, c) := by
  induction keys generalizing best with
  | nil =>
    obtain ⟨⟨x, c⟩, hbest, rfl⟩ := Option.map_eq_some_iff.mp hk
    exact .inr ⟨c, hbest⟩
  | cons x keys ih =>
    -- the key is found behind `x`, or it is `x`
    have hlater : ∀ b, leastUsed s keys b = some k → s.lockedMap x = 0 ∨ b = best →
        (∀ y c, b = some (y, c) → b = best ∨ y = x) →
        (k ∈ x :: keys ∧ s.lockedMap k = 0) ∨ ∃ c, best = some (k, c) := by
      intro b hb hx hfrom
      rcases ih hb with ⟨hmem, hunlocked⟩ | ⟨c, hc⟩
      · exact .inl ⟨List.mem_cons_of_mem x hmem, hunlocked⟩
      · rcases hfrom k c hc with rfl | rfl
        · exact .inr ⟨c, hc⟩
        · rcases hx with hx | rfl
          · exact .inl ⟨List.mem_cons_self, hx⟩
          · exact .inr ⟨c, hc⟩
    rw [leastUsed] at hk
    split at hk
    case isTrue hx =>
      dsimp only at hk
      split at hk
      · split at hk
        · obtain rfl := Option.some.inj hk
          exact .inl ⟨List.mem_cons_self, hx⟩
        · refine hlater _ hk (.inl hx) ?_
          intro y c hy
          exact .inr (congrArg Prod.fst (Option.some.inj hy)).symm
      · exact hlater best hk (.inl hx) fun _ _ _ => .inl rfl
    case isFalse hx => exact hlater best hk (.inr rfl) fun _ _ _ => .inl rfl

omit [DecidableEq Table] in
/-- The policy fails if every key is locked. -/
theorem leastUsed_eq_none {keys : List ℕ} {best : Option (ℕ × ℕ)}
    (hk : leastUsed s keys best = none) : best = none ∧ ∀ x ∈ keys, s.lockedMap x ≠ 0 := by
  induction keys generalizing best with
  | nil => exact ⟨Option.map_eq_none_iff.mp hk, fun x hx => absurd hx List.not_mem_nil⟩
  | cons x keys ih =>
    rw [leastUsed] at hk
    split at hk
    case isTrue hx =>
      dsimp only at hk
      split at hk
      case isTrue hbetter =>
        split at hk
        · cases hk
        · cases (ih hk).1
      case isFalse hbetter =>
        rw [(ih hk).1] at hbetter
        exact absurd rfl hbetter
    case isFalse hx =>
      obtain ⟨hbest, hall⟩ := ih hk
      refine ⟨hbest, fun y hy => ?_⟩
      rcases List.mem_cons.mp hy with rfl | hy
      · exact hx
      · exact hall y hy

omit [DecidableEq Table] in
/-- What an addition can do. -/
theorem addLladdr_cases (maxNeighbors : ℕ) (s : State Table) (t : Table)
    (lladdr : Option Linkaddr) :
    let r := addLladdr maxNeighbors s t lladdr
    (∃ i ∈ s.keys, s.lladdr i = lladdr.getD linkaddrNull ∧
      r = ⟨some i, none, [], useItem s t i⟩) ∨
    (∀ i ∈ s.keys, s.lladdr i ≠ lladdr.getD linkaddrNull) ∧
      ((∃ k < maxNeighbors, s.count k = false ∧
        r = ⟨some k, none, [], useItem (listKey { s with count := Function.update s.count k true }
          k (lladdr.getD linkaddrNull)) t k⟩) ∨
      (∀ i < maxNeighbors, s.count i = true) ∧
        ((∃ k ∈ s.keys, s.lockedMap k = 0 ∧
          r = ⟨some k, some k, removeCalls s k,
            useItem (listKey (removeKey s k) k (lladdr.getD linkaddrNull)) t k⟩) ∨
        (∀ k ∈ s.keys, s.lockedMap k ≠ 0) ∧ r = ⟨none, none, [], s⟩)) := by
  dsimp only
  rw [addLladdr]
  -- A known address has its key; an unknown one needs a block, or a neighbor that may go.
  cases hindex : indexFromLladdr s lladdr with
  | some i =>
    obtain ⟨hi, ha⟩ := indexFromLladdr_eq_some hindex
    exact .inl ⟨i, hi, ha, rfl⟩
  | none =>
    refine .inr ⟨indexFromLladdr_eq_none.mp hindex, ?_⟩
    dsimp only
    rw [nbrTableAllocate]
    cases halloc : membAlloc maxNeighbors s with
    | some k =>
      obtain ⟨hk, hfree⟩ := membAlloc_eq_some halloc
      exact .inl ⟨k, hk, hfree, rfl⟩
    | none =>
      refine .inr ⟨membAlloc_eq_none halloc, ?_⟩
      dsimp only
      cases hleast : leastUsed s s.keys none with
      | some k =>
        rcases leastUsed_eq_some hleast with ⟨hk, hunlocked⟩ | ⟨c, hc⟩
        · exact .inl ⟨k, hk, hunlocked, rfl⟩
        · cases hc
      | none => exact .inr ⟨(leastUsed_eq_none hleast).2, rfl⟩

omit [DecidableEq Table] in
/-- A registered table begins to use a listed key. -/
theorem Inv.useItem (hinv : Inv maxNeighbors ⟨s, m, l⟩) (ht : t ∈ s.allTables) (hi : i ∈ s.keys) :
    Inv maxNeighbors ⟨useItem s t i, (t, s.lladdr i) :: m, l⟩ := by
  obtain ⟨hplace, hlt⟩ := hinv.place ht
  exact { hinv with used := hinv.used.set hinv.tables hinv.distinct hplace hlt hi }

omit [DecidableEq Table] in
/-- A new key with a new address keeps addresses apart. -/
theorem distinct_append {ks : List ℕ} {f : ℕ → Linkaddr}
    (h : ∀ x ∈ ks, ∀ y ∈ ks, f x = f y → x = y) (hnew : k ∉ ks) (ha : ∀ x ∈ ks, f x ≠ a) :
    ∀ x ∈ ks ++ [k], ∀ y ∈ ks ++ [k],
      Function.update f k a x = Function.update f k a y → x = y := by
  have hother : ∀ x ∈ ks, Function.update f k a x = f x := fun x hx =>
    Function.update_of_ne (ne_of_mem_of_not_mem hx hnew) _ _
  intro x hx y hy heq
  rcases List.mem_append.mp hx with hx | hx <;> rcases List.mem_append.mp hy with hy | hy
  · rw [hother x hx, hother y hy] at heq
    exact h x hx y hy heq
  · rw [hother x hx, List.mem_singleton.mp hy, Function.update_self] at heq
    exact absurd heq (ha x hx)
  · rw [hother y hy, List.mem_singleton.mp hx, Function.update_self] at heq
    exact absurd heq.symm (ha y hy)
  · rw [List.mem_singleton.mp hx, List.mem_singleton.mp hy]

omit [DecidableEq Table] in
/-- A free block is listed. -/
theorem Inv.listKey (hinv : Inv maxNeighbors ⟨s, m, l⟩) (hk : k < maxNeighbors)
    (hfree : s.count k = false) (ha : ∀ i ∈ s.keys, s.lladdr i ≠ a) :
    Inv maxNeighbors
      ⟨listKey { s with count := Function.update s.count k true } k a, m, l⟩ := by
  -- The block was free, so it is no key.
  have hnew : k ∉ s.keys := by
    intro hmem
    have := ((hinv.counted k).mpr hmem).2
    rw [hfree] at this
    cases this
  have hkeys : s.keys.erase k ++ [k] = s.keys ++ [k] := by rw [List.erase_of_not_mem hnew]
  refine
    { tables := hinv.tables
      length_le := hinv.length_le
      index := hinv.index
      keys := ?_
      counted := ?_
      distinct := ?_
      used := ?_
      locked := ?_ }
  all_goals simp only [NbrTable.listKey, hkeys]
  · refine List.nodup_append.mpr ⟨hinv.keys, List.nodup_singleton k, ?_⟩
    intro x hx y hy heq
    exact hnew (List.mem_singleton.mp hy ▸ heq ▸ hx)
  · intro i
    rw [List.mem_append, List.mem_singleton, ← hinv.counted]
    by_cases hik : i = k
    · simp [hik, hk]
    · simp [hik]
  · exact distinct_append hinv.distinct hnew ha
  · exact hinv.used.append hnew ha
  · exact hinv.locked.append hnew ha

omit [DecidableEq Table] in
/-- An unlocked key gives way to a new address. -/
theorem Inv.evict (hinv : Inv maxNeighbors ⟨s, m, l⟩) (hk : k ∈ s.keys)
    (hunlocked : s.lockedMap k = 0) (ha : ∀ i ∈ s.keys, s.lladdr i ≠ a) :
    Inv maxNeighbors ⟨NbrTable.listKey (removeKey s k) k a, m.drop (s.lladdr k),
      l.drop (s.lladdr k)⟩ := by
  have herase : ∀ x, x ∈ s.keys.erase k ↔ x ≠ k ∧ x ∈ s.keys := fun x => hinv.keys.mem_erase_iff
  have hgone : k ∉ s.keys.erase k := fun hmem => ((herase k).mp hmem).1 rfl
  have hkeys : (s.keys.erase k).erase k ++ [k] = s.keys.erase k ++ [k] := by
    rw [List.erase_of_not_mem hgone]
  have hnew : ∀ i ∈ s.keys.erase k, s.lladdr i ≠ a := fun i hi => ha i ((herase i).mp hi).2
  -- the key is not locked, so nothing changes in the other bitmap
  have hsame : Function.update s.lockedMap k 0 = s.lockedMap := by
    rw [← hunlocked, Function.update_eq_self]
  have hlocked := hinv.locked.drop hinv.keys hinv.distinct hk
  dsimp only at hlocked
  rw [hsame] at hlocked
  refine
    { tables := hinv.tables
      length_le := hinv.length_le
      index := hinv.index
      keys := ?_
      counted := ?_
      distinct := ?_
      used := ?_
      locked := ?_ }
  all_goals simp only [NbrTable.listKey, removeKey, hkeys]
  · refine List.nodup_append.mpr ⟨hinv.keys.erase k, List.nodup_singleton k, ?_⟩
    intro x hx y hy heq
    rw [heq, List.mem_singleton.mp hy] at hx
    exact hgone hx
  · intro i
    rw [List.mem_append, List.mem_singleton, herase, hinv.counted i]
    by_cases hik : i = k
    · simp [hik, hk]
    · simp [hik]
  · refine distinct_append (fun x hx y hy => ?_) hgone hnew
    exact hinv.distinct x ((herase x).mp hx).2 y ((herase y).mp hy).2
  · exact (hinv.used.drop hinv.keys hinv.distinct hk).append hgone hnew
  · exact hlocked.append hgone hnew

theorem Inv.add (hinv : Inv maxNeighbors h) (ht : t ∈ h.state.allTables) :
    Inv maxNeighbors (step maxNeighbors h (.add t lladdr)) := by
  obtain ⟨s, m, l⟩ := h
  simp only [step]
  rcases addLladdr_cases maxNeighbors s t lladdr with
    ⟨i, hi, ha, hr⟩ | ⟨hnew, ⟨k, hk, hfree, hr⟩ | ⟨_, ⟨k, hk, hunlocked, hr⟩ | ⟨_, hr⟩⟩⟩
  · rw [hr, ← ha]
    exact hinv.useItem ht hi
  · rw [hr]
    have huse := (hinv.listKey hk hfree hnew).useItem (t := t) (i := k) ht
      (List.mem_append_right _ List.mem_cons_self)
    rwa [show (NbrTable.listKey { s with count := Function.update s.count k true } k
      (lladdr.getD linkaddrNull)).lladdr k = lladdr.getD linkaddrNull from
        Function.update_self _ _ _] at huse
  · rw [hr]
    have huse := (hinv.evict hk hunlocked hnew).useItem (t := t) (i := k) ht
      (List.mem_append_right _ List.mem_cons_self)
    rwa [show (NbrTable.listKey (removeKey s k) k (lladdr.getD linkaddrNull)).lladdr k =
      lladdr.getD linkaddrNull from Function.update_self _ _ _] at huse
  · rw [hr]
    exact hinv

theorem Inv.register (hinv : Inv maxNeighbors h) (ht : t ∉ h.state.allTables) (callback : Bool) :
    Inv maxNeighbors (step maxNeighbors h (.register t callback)) := by
  simp only [step, NbrTable.register]
  split
  case isFalse => exact hinv
  case isTrue hlt =>
    refine
      { tables := ?_
        length_le := ?_
        index := ?_
        keys := hinv.keys
        counted := hinv.counted
        distinct := hinv.distinct
        used := hinv.used.register ht
        locked := hinv.locked.register ht }
    · refine List.nodup_append.mpr ⟨hinv.tables, List.nodup_singleton t, ?_⟩
      intro u hu v hv heq
      exact ht (List.mem_singleton.mp hv ▸ heq ▸ hu)
    · rw [List.length_append]
      exact hlt
    · intro j u hu
      change Function.update h.state.index t h.state.allTables.length u = j
      rw [List.getElem?_append] at hu
      split at hu
      · have hne : u ≠ t := ne_of_mem_of_not_mem (List.mem_of_getElem? hu) ht
        rw [Function.update_of_ne hne]
        exact hinv.index j u hu
      · obtain rfl := List.mem_singleton.mp (List.mem_of_getElem? hu)
        have hj := (List.getElem?_eq_some_iff.mp hu).1
        rw [List.length_singleton] at hj
        rw [Function.update_self]
        omega

/-- A registered table stops to use and to lock a listed key. -/
theorem Inv.remove (hinv : Inv maxNeighbors h) (ht : t ∈ h.state.allTables) {item : Option ℕ}
    (hitem : ∀ i ∈ item, i ∈ h.state.keys) :
    Inv maxNeighbors (step maxNeighbors h (.remove t item)) := by
  obtain ⟨hplace, hlt⟩ := hinv.place ht
  cases item with
  | none => exact hinv
  | some i =>
    have hi := hitem i rfl
    exact { hinv with
      used := hinv.used.clear hinv.tables hinv.distinct hplace hlt hi
      locked := hinv.locked.clear hinv.tables hinv.distinct hplace hlt hi }

theorem Inv.lock (hinv : Inv maxNeighbors h) (ht : t ∈ h.state.allTables) {item : Option ℕ}
    (hitem : ∀ i ∈ item, i ∈ h.state.keys) :
    Inv maxNeighbors (step maxNeighbors h (.lock t item)) := by
  obtain ⟨hplace, hlt⟩ := hinv.place ht
  cases item with
  | none => exact hinv
  | some i =>
    exact { hinv with
      locked := hinv.locked.set hinv.tables hinv.distinct hplace hlt (hitem i rfl) }

theorem Inv.unlock (hinv : Inv maxNeighbors h) (ht : t ∈ h.state.allTables) {item : Option ℕ}
    (hitem : ∀ i ∈ item, i ∈ h.state.keys) :
    Inv maxNeighbors (step maxNeighbors h (.unlock t item)) := by
  obtain ⟨hplace, hlt⟩ := hinv.place ht
  cases item with
  | none => exact hinv
  | some i =>
    exact { hinv with
      locked := hinv.locked.clear hinv.tables hinv.distinct hplace hlt (hitem i rfl) }

/-- An address is replaced by one that no neighbor has. -/
theorem Inv.update (hinv : Inv maxNeighbors h) {oldAddr : Option Linkaddr} {newAddr : Linkaddr}
    {removeIfDuplicate : Bool}
    (hdup : removeIfDuplicate = true → ∀ i ∈ indexFromLladdr h.state oldAddr,
      ∀ j ∈ indexFromLladdr h.state (some newAddr), j = i) :
    Inv maxNeighbors (step maxNeighbors h (.update oldAddr newAddr removeIfDuplicate)) := by
  simp only [step, updateLladdr, Record.update]
  cases hold : indexFromLladdr h.state oldAddr with
  | none => exact hinv
  | some index =>
    obtain ⟨hindex, _⟩ := indexFromLladdr_eq_some hold
    -- The new address may belong to another neighbor, which is then removed.
    cases hnew : indexFromLladdr h.state (some newAddr) with
    | some newIndex =>
      dsimp only
      by_cases hsame : newIndex = index
      · simp only [hsame, ne_eq, not_true_eq_false, false_and, if_false, if_true]
        exact hinv
      · have hkeep : removeIfDuplicate = false := by
          rw [← Bool.not_eq_true]
          intro htrue
          exact hsame (hdup htrue index hold newIndex hnew)
        simp only [hsame, hkeep, if_false, and_false, Bool.false_eq_true]
        exact hinv
    | none =>
      have ha := indexFromLladdr_eq_none.mp hnew
      rw [Option.getD_some] at ha
      refine
        { tables := hinv.tables
          length_le := hinv.length_le
          index := hinv.index
          keys := hinv.keys
          counted := hinv.counted
          distinct := ?_
          used := hinv.used.rename hinv.distinct hindex ha
          locked := hinv.locked.rename hinv.distinct hindex ha }
      intro x hx y hy heq
      dsimp only at heq
      by_cases hxi : x = index <;> by_cases hyi : y = index
      · rw [hxi, hyi]
      · rw [hxi, Function.update_self, Function.update_of_ne hyi] at heq
        exact absurd heq.symm (ha y hy)
      · rw [hyi, Function.update_self, Function.update_of_ne hxi] at heq
        exact absurd heq (ha x hx)
      · rw [Function.update_of_ne hxi, Function.update_of_ne hyi] at heq
        exact hinv.distinct x hx y hy heq

end Invariant

/-! ## Result -/

/-- What the modules keep to: a table is registered once and before it is used, and items are
those of neighbors. -/
def Proper (h : History Table) : Event Table → Prop
  | .register table _ => table ∉ h.state.allTables
  | .add table _ => table ∈ h.state.allTables
  | .remove table item | .lock table item | .unlock table item =>
    table ∈ h.state.allTables ∧ ∀ i ∈ item, i ∈ h.state.keys
  | .update _ _ _ => True

/-- No neighbor is removed because another one has its new address. -/
def KeepsDuplicates (h : History Table) : Event Table → Prop
  | .update oldAddr newAddr removeIfDuplicate =>
    removeIfDuplicate = true → ∀ i ∈ indexFromLladdr h.state oldAddr,
      ∀ j ∈ indexFromLladdr h.state (some newAddr), j = i
  | _ => True

instance (h : History Table) (e : Event Table) : Decidable (Proper h e) := by
  cases e <;> unfold Proper <;> infer_instance

instance (h : History Table) (e : Event Table) : Decidable (KeepsDuplicates h e) := by
  cases e <;> unfold KeepsDuplicates <;> infer_instance

/-- The table is in order. -/
structure Sound (maxNeighbors : ℕ) (h : History Table) : Prop where
  /-- The addresses are pairwise distinct. -/
  distinct : (h.state.keys.map h.state.lladdr).Nodup
  /-- Every allocated slot is listed. -/
  listed : ∀ i < maxNeighbors, h.state.count i = true → i ∈ h.state.keys
  /-- An addition fails only when there are as many neighbors as slots, all of them locked. -/
  fails : ∀ t ∈ h.state.allTables, ∀ a, (addLladdr maxNeighbors h.state t a).item = none →
    h.state.keys.length = maxNeighbors ∧
      ∀ i ∈ h.state.keys, ∃ u, (u, h.state.lladdr i) ∈ h.locks
  /-- A locked neighbor survives every addition. -/
  lockedKept : ∀ t ∈ h.state.allTables, ∀ a, ∀ i ∈ h.state.keys, ∀ u,
    (u, h.state.lladdr i) ∈ h.locks →
      i ∈ (addLladdr maxNeighbors h.state t a).state.keys ∧
        (addLladdr maxNeighbors h.state t a).state.lladdr i = h.state.lladdr i
  /-- A table finds the addresses it has, at their slots. -/
  found : ∀ t ∈ h.state.allTables, ∀ a i, getFromLladdr h.state t a = some i ↔
    i ∈ h.state.keys ∧ h.state.lladdr i = a.getD linkaddrNull ∧
      (t, a.getD linkaddrNull) ∈ h.members
  /-- What a table has is an address of a neighbor. -/
  members : ∀ t a, (t, a) ∈ h.members → ∃ i ∈ h.state.keys, h.state.lladdr i = a
  /-- An eviction calls back the tables that use the neighbor, each once. -/
  calls : ∀ t ∈ h.state.allTables, ∀ a i, (addLladdr maxNeighbors h.state t a).removed = some i →
    (addLladdr maxNeighbors h.state t a).calls.Nodup ∧
      ∀ u k, (u, k) ∈ (addLladdr maxNeighbors h.state t a).calls ↔
        k = i ∧ u ∈ h.state.allTables ∧ h.state.hasCallback u = true ∧
          (u, h.state.lladdr i) ∈ h.members
  /-- Without an eviction no table is called back. -/
  silent : ∀ t ∈ h.state.allTables, ∀ a,
    (addLladdr maxNeighbors h.state t a).removed = none →
      (addLladdr maxNeighbors h.state t a).calls = []

section Result

variable {maxNeighbors : ℕ} {h : History Table} {t : Table} {i : ℕ}

theorem Inv.step {e : Event Table} (hinv : Inv maxNeighbors h) (hproper : Proper h e)
    (hkeeps : KeepsDuplicates h e) : Inv maxNeighbors (step maxNeighbors h e) := by
  cases e with
  | register t callback => exact hinv.register hproper callback
  | add t lladdr => exact hinv.add hproper
  | remove t item => exact hinv.remove hproper.1 hproper.2
  | lock t item => exact hinv.lock hproper.1 hproper.2
  | unlock t item => exact hinv.unlock hproper.1 hproper.2
  | update oldAddr newAddr removeIfDuplicate => exact hinv.update hkeeps

omit [DecidableEq Table] in
/-- The bit of a registered table, for a listed key. -/
theorem Inv.nbrGetBit_eq (hinv : Inv maxNeighbors h) (ht : t ∈ h.state.allTables)
    (hi : i ∈ h.state.keys) : nbrGetBit h.state h.state.usedMap t (some i) = true ↔
      (t, h.state.lladdr i) ∈ h.members := by
  obtain ⟨hplace, hlt⟩ := hinv.place ht
  rw [nbrGetBit, and_shift_ne_zero _ hlt, hinv.used.bits i hi _ hlt]
  constructor
  · rintro ⟨u, hu, hmem⟩
    rw [hplace, Option.some.injEq] at hu
    exact hu ▸ hmem
  · intro hmem
    exact ⟨t, hplace, hmem⟩

omit [DecidableEq Table] in
/-- A key is locked if a table locks its address. -/
theorem Inv.lockedMap_ne_zero (hinv : Inv maxNeighbors h) (hi : i ∈ h.state.keys) :
    h.state.lockedMap i ≠ 0 ↔ ∃ u, (u, h.state.lladdr i) ∈ h.locks := by
  constructor
  · intro hne
    by_contra hnone
    apply hne
    refine BitVec.eq_of_getLsbD_eq fun j hj => ?_
    have hzero : (0 : BitVec 8).getLsbD j = false := BitVec.getLsbD_zero
    rw [hzero, ← Bool.not_eq_true, hinv.locked.bits i hi j hj]
    rintro ⟨u, _, hu⟩
    exact hnone ⟨u, hu⟩
  · rintro ⟨u, hu⟩ hzero
    obtain ⟨hplace, hlt⟩ := hinv.place (hinv.locked.listed u _ hu).1
    have hbit := (hinv.locked.bits i hi _ hlt).mpr ⟨u, hplace, hu⟩
    rw [hzero] at hbit
    exact absurd hbit (by simp)

omit [DecidableEq Table] in
theorem Inv.found (hinv : Inv maxNeighbors h) (ht : t ∈ h.state.allTables)
    (a : Option Linkaddr) : getFromLladdr h.state t a = some i ↔
      i ∈ h.state.keys ∧ h.state.lladdr i = a.getD linkaddrNull ∧
        (t, a.getD linkaddrNull) ∈ h.members := by
  rw [getFromLladdr]
  constructor
  · intro hget
    split at hget
    case isFalse => cases hget
    case isTrue hbit =>
      obtain ⟨hi, hia⟩ := indexFromLladdr_eq_some hget
      rw [hget, hinv.nbrGetBit_eq ht hi, hia] at hbit
      exact ⟨hi, hia, hbit⟩
  · rintro ⟨hi, hia, hmem⟩
    rw [hinv.indexFromLladdr_eq hi hia, if_pos ((hinv.nbrGetBit_eq ht hi).mpr (hia ▸ hmem))]

omit [DecidableEq Table] in
/-- With all slots allocated, there are as many keys. -/
theorem Inv.length_keys (hinv : Inv maxNeighbors h)
    (hfull : ∀ i < maxNeighbors, h.state.count i = true) :
    h.state.keys.length = maxNeighbors := by
  have hperm : h.state.keys.Perm (List.range maxNeighbors) := by
    refine (List.perm_ext_iff_of_nodup hinv.keys List.nodup_range).mpr fun i => ?_
    rw [List.mem_range, ← hinv.counted]
    exact ⟨fun hi => hi.1, fun hi => ⟨hi, hfull i hi⟩⟩
  rw [hperm.length_eq, List.length_range]

omit [DecidableEq Table] in
theorem Inv.removeCalls (hinv : Inv maxNeighbors h) (hi : i ∈ h.state.keys) :
    (removeCalls h.state i).Nodup ∧ ∀ u k, (u, k) ∈ removeCalls h.state i ↔
      k = i ∧ u ∈ h.state.allTables ∧ h.state.hasCallback u = true ∧
        (u, h.state.lladdr i) ∈ h.members := by
  constructor
  · refine List.Nodup.map ?_ (hinv.tables.filter _)
    intro u v heq
    exact congrArg Prod.fst heq
  · intro u k
    rw [NbrTable.removeCalls, List.mem_map]
    constructor
    · rintro ⟨v, hv, heq⟩
      obtain ⟨rfl, rfl⟩ := Prod.mk.inj heq
      obtain ⟨hvt, hcond⟩ := List.mem_filter.mp hv
      rw [Bool.and_eq_true, hinv.nbrGetBit_eq hvt hi] at hcond
      exact ⟨rfl, hvt, hcond.1, hcond.2⟩
    · rintro ⟨rfl, hut, hcb, hmem⟩
      refine ⟨u, List.mem_filter.mpr ⟨hut, ?_⟩, rfl⟩
      rw [Bool.and_eq_true, hinv.nbrGetBit_eq hut hi]
      exact ⟨hcb, hmem⟩

omit [DecidableEq Table] in
theorem Inv.sound (hinv : Inv maxNeighbors h) : Sound maxNeighbors h := by
  constructor
  -- Each part of the statement is a part of the invariant, seen through the addresses.
  · exact List.Nodup.map_on hinv.distinct hinv.keys
  · intro i hi hcount
    exact (hinv.counted i).mp ⟨hi, hcount⟩
  · intro t _ a hnone
    rcases addLladdr_cases maxNeighbors h.state t a with
      ⟨i, _, _, hr⟩ | ⟨_, ⟨k, _, _, hr⟩ | ⟨hfull, ⟨k, _, _, hr⟩ | ⟨hlocked, _⟩⟩⟩
    · rw [hr] at hnone
      cases hnone
    · rw [hr] at hnone
      cases hnone
    · rw [hr] at hnone
      cases hnone
    · refine ⟨hinv.length_keys hfull, fun i hi => ?_⟩
      exact (hinv.lockedMap_ne_zero hi).mp (hlocked i hi)
  · intro t _ a i hi u hu
    have hlock := (hinv.lockedMap_ne_zero hi).mpr ⟨u, hu⟩
    rcases addLladdr_cases maxNeighbors h.state t a with
      ⟨j, _, _, hr⟩ | ⟨_, ⟨k, hk, hfree, hr⟩ | ⟨_, ⟨k, _, hunlocked, hr⟩ | ⟨_, hr⟩⟩⟩
    · rw [hr]
      exact ⟨hi, rfl⟩
    · -- the block of the key is not free
      have hne : i ≠ k := by
        rintro rfl
        have := ((hinv.counted i).mpr hi).2
        rw [hfree] at this
        cases this
      rw [hr]
      exact ⟨List.mem_append_left _ ((List.mem_erase_of_ne hne).mpr hi),
        Function.update_of_ne hne _ _⟩
    · -- the key that gives way is not locked
      have hne : i ≠ k := by
        rintro rfl
        exact hlock hunlocked
      rw [hr]
      refine ⟨List.mem_append_left _ ?_, Function.update_of_ne hne _ _⟩
      exact (List.mem_erase_of_ne hne).mpr ((List.mem_erase_of_ne hne).mpr hi)
    · rw [hr]
      exact ⟨hi, rfl⟩
  · intro t ht a i
    exact hinv.found ht a
  · intro t a hmem
    exact (hinv.used.listed t a hmem).2
  · intro t _ a i hremoved
    rcases addLladdr_cases maxNeighbors h.state t a with
      ⟨j, _, _, hr⟩ | ⟨_, ⟨k, _, _, hr⟩ | ⟨_, ⟨k, hk, _, hr⟩ | ⟨_, hr⟩⟩⟩
    · rw [hr] at hremoved
      cases hremoved
    · rw [hr] at hremoved
      cases hremoved
    · rw [hr] at hremoved ⊢
      obtain rfl := Option.some.inj hremoved
      exact hinv.removeCalls hk
    · rw [hr] at hremoved
      cases hremoved
  · intro t _ a hremoved
    rcases addLladdr_cases maxNeighbors h.state t a with
      ⟨j, _, _, hr⟩ | ⟨_, ⟨k, _, _, hr⟩ | ⟨_, ⟨k, _, _, hr⟩ | ⟨_, hr⟩⟩⟩
    · rw [hr]
    · rw [hr]
    · rw [hr] at hremoved
      cases hremoved
    · rw [hr]

/-- In every state reached without the removal of a duplicate, the table is in order. -/
theorem sound_of_run (h : History Table)
    (hrun : Run (fun h e => some (NbrTable.step maxNeighbors h e))
      (fun h e => Proper h e ∧ KeepsDuplicates h e) .initial h) : Sound maxNeighbors h := by
  refine Inv.sound (hrun.invariant ?_ inv_initial)
  intro h e h' hinv hok hstep
  obtain rfl := Option.some.inj hstep
  exact hinv.step hok.1 hok.2

end Result

/-! ### Two neighbors -/

theorem length_address (n : UInt8) : [0, 0, 0, 0, 0, 0, 0, n].length = 8 := rfl

/-- An address that ends with a number. -/
def address (n : UInt8) : Linkaddr := ⟨[0, 0, 0, 0, 0, 0, 0, n], length_address n⟩

/-- Neighbor 1 is locked, so neighbor 2 gives way to neighbor 3. -/
def lockAndAdd : List (Event ℕ) :=
  [.register 0 true, .add 0 (some (address 1)), .lock 0 (some 0), .add 0 (some (address 2)),
    .add 0 (some (address 3))]

theorem sound_of_run_lockAndAdd : ∃ h : History ℕ,
    (h.members = [(0, address 3), (0, address 1)] ∧ h.state.keys = [0, 1]) ∧ Sound 2 h := by
  obtain ⟨h, hrun, hmembers⟩ := exists_run_of_runEvents (fun h e => some (step 2 h e))
    (fun h e => Proper h e ∧ KeepsDuplicates h e) (.initial : History ℕ) lockAndAdd
    (fun h => h.members = [(0, address 3), (0, address 1)] ∧ h.state.keys = [0, 1]) (by decide)
  exact ⟨h, hmembers, sound_of_run h hrun⟩

/-- Neighbor 1 turns out to be neighbor 2 and is removed; neighbor 2 is locked. -/
def mergeAndLock : List (Event ℕ) :=
  [.register 0 true, .add 0 (some (address 1)), .add 0 (some (address 2)),
    .update (some (address 1)) (address 2) true, .lock 0 (some 1)]

/-- One neighbor of two is left, and no other can be added: slot 0 is allocated and not listed. -/
theorem duplicate_lost : ∃ h : History ℕ,
    Run (fun h e => some (step 2 h e)) Proper .initial h ∧
      (h.state.keys = [1] ∧ h.state.count 0 = true ∧
        (addLladdr 2 h.state 0 (some (address 3))).item = none) ∧ ¬ Sound 2 h := by
  obtain ⟨h, hrun, hkeys, hcount, hadd⟩ := exists_run_of_runEvents
    (fun h e => some (step 2 h e)) Proper (.initial : History ℕ) mergeAndLock
    (fun h => h.state.keys = [1] ∧ h.state.count 0 = true ∧
      (addLladdr 2 h.state 0 (some (address 3))).item = none) (by decide)
  refine ⟨h, hrun, ⟨hkeys, hcount, hadd⟩, ?_⟩
  intro hsound
  have hmem := hsound.listed 0 (by decide) hcount
  rw [hkeys] at hmem
  exact absurd hmem (by decide)

end MasterScheduler.Mote.NbrTable
