import MasterScheduler.Lib.Chain
import MasterScheduler.Lib.Pool
import MasterScheduler.Mote.NbrTable

/-!
# MasterScheduler.Mote.RouteTable — the routes of `uip-ds6-route.c`

A route is on `routelist`, most recently used first, and has an entry on the
list of its next hop. The next hops are items of `nbr_routes`, one of the
tables of `nbr-table.c`.

1. **Model**: the lookup, the removals, the addition, and the calls of other
   modules that change the neighbors.
2. **Lookup**: `lookupLoop_spec`, and prefixes as bits (`prefixcmp_iff`).

An item of a table is named by its slot, a block of a pool by its number. The
lists are values. Of the callbacks of `remove_key` only that of `nbr_routes`
is modelled, the notifications of the routing table are left out.
-/

namespace MasterScheduler.Mote.RouteTable

open Lib Frame802154 NbrTable

/-! ## Model -/

/-- `uip_ipaddr_t`. -/
structure Ipaddr where
  u8 : List UInt8
  length_u8 : u8.length = 16
deriving DecidableEq

/-- The constants, and the tables that are registered at the start. -/
structure Config (Table : Type) where
  /-- `UIP_DS6_ROUTE_NB`. -/
  routeNb : ℕ
  /-- `UIP_DS6_ROUTE_REMOVE_LEAST_RECENTLY_USED`. -/
  removeLeastRecentlyUsed : Bool
  /-- `NBR_TABLE_MAX_NEIGHBORS`. -/
  maxNeighbors : ℕ
  tables : List Table
  nbrRoutes : Table
  ds6Neighbors : Table
  length_le : tables.length ≤ maxNumTables
  nbrRoutes_mem : nbrRoutes ∈ tables
  ds6Neighbors_mem : ds6Neighbors ∈ tables
  ds6Neighbors_ne : ds6Neighbors ≠ nbrRoutes

variable {Table : Type} [DecidableEq Table]

/-- `uip_ds6_route_t`. -/
structure Route where
  ipaddr : Ipaddr
  length : ℕ
  /-- The item of `nbr_routes`. -/
  neighborRoutes : Option ℕ

/-- The variables of `uip-ds6-route.c`, with the neighbors. -/
structure State (C : Config Table) where
  nbr : NbrTable.State Table
  /-- The addresses in the items of `ds6_neighbors`. -/
  ipaddr : ℕ → Ipaddr
  routelist : List (Fin C.routeNb)
  routememb : Pool C.routeNb
  route : Fin C.routeNb → Route
  neighborroutememb : Pool C.routeNb
  /-- The routes in the blocks of `neighborroutememb`. -/
  neighborRoute : Fin C.routeNb → Option (Fin C.routeNb)
  /-- The lists `route_list` in the items of `nbr_routes`. -/
  routeList : ℕ → List (Fin C.routeNb)
  numRoutes : ℤ

/-- The state at the start. -/
def State.initial (C : Config Table) : State C where
  nbr := { (NbrTable.State.initial : NbrTable.State Table) with
    allTables := C.tables
    index := fun t => C.tables.idxOf t
    hasCallback := fun _ => true }
  ipaddr := fun _ => ⟨List.replicate 16 0, rfl⟩
  routelist := []
  routememb := .empty _
  route := fun _ => ⟨⟨List.replicate 16 0, rfl⟩, 0, none⟩
  neighborroutememb := .empty _
  neighborRoute := fun _ => none
  routeList := fun _ => []
  numRoutes := 0

/-- `uip_ipaddr_prefixcmp`: the whole bytes of the prefix are compared. -/
def prefixcmp (a b : Ipaddr) (length : ℕ) : Bool :=
  a.u8.take (length / 8) == b.u8.take (length / 8)

variable {C : Config Table}

/-- `uip_ds6_nbr_lookup`. -/
def uipDs6NbrLookup (s : State C) : Option Ipaddr → Option ℕ
  | some ipaddr => s.nbr.keys.find? fun i =>
      nbrGetBit s.nbr s.nbr.usedMap C.ds6Neighbors (some i) && s.ipaddr i == ipaddr
  | none => none

/-- `uip_ds6_nbr_lladdr_from_ipaddr`. -/
def uipDs6NbrLladdrFromIpaddr (s : State C) (ipaddr : Option Ipaddr) : Option Linkaddr :=
  (uipDs6NbrLookup s ipaddr).map s.nbr.lladdr

/-- `uip_ds6_nbr_ipaddr_from_lladdr`. -/
def uipDs6NbrIpaddrFromLladdr (s : State C) (lladdr : Option Linkaddr) : Option Ipaddr :=
  (getFromLladdr s.nbr C.ds6Neighbors lladdr).map s.ipaddr

/-- `uip_ds6_route_nexthop`. -/
def uipDs6RouteNexthop (s : State C) (r : Fin C.routeNb) : Option Ipaddr :=
  uipDs6NbrIpaddrFromLladdr s ((s.route r).neighborRoutes.map s.nbr.lladdr)

/-! ### Lookup -/

/-- The loop of `uip_ds6_route_lookup`, with `found_route` and `longestmatch`. -/
def lookupLoop (s : State C) (addr : Ipaddr) :
    List (Fin C.routeNb) → Option (Fin C.routeNb) → ℕ → Option (Fin C.routeNb)
  | [], foundRoute, _ => foundRoute
  | r :: rs, foundRoute, longestmatch =>
    if longestmatch ≤ (s.route r).length ∧
        prefixcmp addr (s.route r).ipaddr (s.route r).length = true then
      if (s.route r).length = 128 then some r
      else lookupLoop s addr rs (some r) (s.route r).length
    else lookupLoop s addr rs foundRoute longestmatch

/-- `uip_ds6_route_lookup`. -/
def uipDs6RouteLookup (s : State C) (addr : Option Ipaddr) : Option (Fin C.routeNb) × State C :=
  match addr with
  | none => (none, s)
  | some addr =>
    match lookupLoop s addr s.routelist none 0 with
    | none => (none, s)
    | some r =>
      if s.routelist.head? = some r then (some r, s)
      else (some r, { s with routelist := r :: s.routelist.erase r })

/-! ### Removals -/

/-- `uip_ds6_route_rm`. -/
def uipDs6RouteRm (s : State C) (route : Option (Fin C.routeNb)) : State C :=
  match route with
  | none => s
  | some r =>
    match (s.route r).neighborRoutes with
    | none => s
    | some routes =>
      let neighborRoute := (s.routeList routes).find? fun n => s.neighborRoute n = some r
      let routeList := neighborRoute.elim (s.routeList routes) (s.routeList routes).erase
      { s with
        routelist := s.routelist.erase r
        routeList := Function.update s.routeList routes routeList
        nbr := if routeList = [] then NbrTable.remove s.nbr C.nbrRoutes (some routes) else s.nbr
        routememb := s.routememb.release r
        neighborroutememb := neighborRoute.elim s.neighborroutememb s.neighborroutememb.release
        numRoutes := s.numRoutes - 1 }

/-- The loop of `rm_routelist`. -/
def rmRoutelistLoop (routes : ℕ) : ℕ → State C → State C
  | 0, s => s
  | n + 1, s =>
    match (s.routeList routes).head? with
    | none => s
    | some nbrr => rmRoutelistLoop routes n (uipDs6RouteRm s (s.neighborRoute nbrr))

/-- `rm_routelist`. The list of an item in use is never null. -/
def rmRoutelist (s : State C) : Option ℕ → State C
  | none => s
  | some routes =>
    let s := rmRoutelistLoop routes (s.routeList routes).length s
    { s with nbr := NbrTable.remove s.nbr C.nbrRoutes (some routes) }

/-- `rm_routelist_callback`. -/
def rmRoutelistCallback (s : State C) (ptr : ℕ) : State C := rmRoutelist s (some ptr)

/-- `uip_ds6_route_rm_by_nexthop`. -/
def uipDs6RouteRmByNexthop (s : State C) (nexthop : Option Ipaddr) : State C :=
  rmRoutelist s (getFromLladdr s.nbr C.nbrRoutes (uipDs6NbrLladdrFromIpaddr s nexthop))

/-! ### Neighbors -/

/-- `remove_key`, with the callback of `nbr_routes`. -/
def removeKey (s : State C) (key : ℕ) : State C :=
  let s := if nbrGetBit s.nbr s.nbr.usedMap C.nbrRoutes (some key) then rmRoutelistCallback s key
    else s
  { s with nbr := NbrTable.removeKey s.nbr key }

/-- `nbr_table_allocate`. Which listed key gives way, if any, is the choice of the policy. -/
def nbrTableAllocate (s : State C) (removable : Option ℕ) : Option ℕ × State C :=
  match membAlloc C.maxNeighbors s.nbr with
  | some key =>
    (some key, { s with nbr := { s.nbr with count := Function.update s.nbr.count key true } })
  | none =>
    match removable with
    | none => (none, s)
    | some key =>
      if key ∈ s.nbr.keys then
        -- the policy of RPL also lets a locked key go
        (some key, removeKey { s with nbr :=
          { s.nbr with lockedMap := Function.update s.nbr.lockedMap key 0 } } key)
      else (none, s)

/-- `nbr_table_add_lladdr`. -/
def nbrTableAddLladdr (s : State C) (table : Table) (lladdr : Option Linkaddr)
    (removable : Option ℕ) : Option ℕ × State C :=
  match indexFromLladdr s.nbr lladdr with
  | some item => (some item, { s with nbr := useItem s.nbr table item })
  | none =>
    match nbrTableAllocate s removable with
    | (none, s) => (none, s)
    | (some key, s) =>
      (some key, { s with nbr := useItem (listKey s.nbr key (lladdr.getD linkaddrNull)) table key })

/-- `nbr_table_update_lladdr`. -/
def nbrTableUpdateLladdr (s : State C) (oldAddr : Option Linkaddr) (newAddr : Linkaddr)
    (removeIfDuplicate : Bool) : State C :=
  match indexFromLladdr s.nbr oldAddr with
  | none => s
  | some index =>
    match indexFromLladdr s.nbr (some newAddr) with
    | some newIndex =>
      if newIndex = index then s
      else if removeIfDuplicate then removeKey s index
      else s
    | none =>
      { s with nbr := { s.nbr with lladdr := Function.update s.nbr.lladdr index newAddr } }

/-- `uip_ds6_nbr_add`. -/
def uipDs6NbrAdd (s : State C) (ipaddr : Ipaddr) (lladdr : Option Linkaddr)
    (removable : Option ℕ) : State C :=
  match nbrTableAddLladdr s C.ds6Neighbors lladdr removable with
  | (some nbr, s) => { s with ipaddr := Function.update s.ipaddr nbr ipaddr }
  | (none, s) => s

/-! ### Addition -/

/-- The failures that `uip_ds6_route_add` takes for impossible. -/
inductive Failure
  /-- "could not allocate neighbor table entry" -/
  | neighborTableEntry
  /-- "could not allocate route" -/
  | route
  /-- "could not allocate neighbor route list entry" -/
  | neighborRouteListEntry
deriving DecidableEq

/-- What `uip_ds6_route_add` returns and leaves. -/
structure Added (C : Config Table) where
  route : Option (Fin C.routeNb)
  failure : Option Failure
  state : State C

/-- `uip_ds6_route_add` from the allocation of the route on. -/
def addRoute (s : State C) (ipaddr : Ipaddr) (length : ℕ) (routes : ℕ) : Added C :=
  match s.routememb.free with
  | none => ⟨none, some .route, s⟩
  | some r =>
    let s := { s with routememb := s.routememb.take r, routelist := r :: s.routelist.erase r }
    match s.neighborroutememb.free with
    | none =>
      ⟨none, some .neighborRouteListEntry, { s with routememb := s.routememb.release r }⟩
    | some nbrr =>
      ⟨some r, none, { s with
        neighborroutememb := s.neighborroutememb.take nbrr
        neighborRoute := Function.update s.neighborRoute nbrr (some r)
        routeList := Function.update s.routeList routes (listAdd (s.routeList routes) nbrr)
        numRoutes := s.numRoutes + 1
        nbr := NbrTable.lock s.nbr C.nbrRoutes (some routes)
        route := Function.update s.route r ⟨ipaddr, length, some routes⟩ }⟩

/-- `uip_ds6_route_add` from the neighbor entry on. -/
def addVia (s : State C) (ipaddr : Ipaddr) (length : ℕ) (nexthopLladdr : Linkaddr)
    (removable : Option ℕ) : Added C :=
  match getFromLladdr s.nbr C.nbrRoutes (some nexthopLladdr) with
  | some routes => addRoute s ipaddr length routes
  | none =>
    match nbrTableAddLladdr s C.nbrRoutes (some nexthopLladdr) removable with
    | (none, s) => ⟨none, some .neighborTableEntry, s⟩
    | (some routes, s) =>
      addRoute { s with routeList := Function.update s.routeList routes [] } ipaddr length routes

/-- `uip_ds6_route_add` from the check for room on. -/
def addInRoom (s : State C) (ipaddr : Ipaddr) (length : ℕ) (nexthopLladdr : Linkaddr)
    (removable : Option ℕ) : Added C :=
  if s.numRoutes = C.routeNb then
    match if C.removeLeastRecentlyUsed then s.routelist.getLast? else none with
    | none => ⟨none, none, s⟩
    | some oldest =>
      addVia (uipDs6RouteRm s (some oldest)) ipaddr length nexthopLladdr removable
  else addVia s ipaddr length nexthopLladdr removable

/-- `uip_ds6_route_add`. -/
def uipDs6RouteAdd (s : State C) (ipaddr : Option Ipaddr) (length : ℕ) (nexthop : Option Ipaddr)
    (removable : Option ℕ) : Added C :=
  match ipaddr, nexthop with
  | some ipaddr, some nexthop =>
    match uipDs6NbrLladdrFromIpaddr s (some nexthop) with
    | none => ⟨none, none, s⟩
    | some nexthopLladdr =>
      match uipDs6RouteLookup s (some ipaddr) with
      | (none, s) => addInRoom s ipaddr length nexthopLladdr removable
      | (some r, s) =>
        if uipDs6RouteNexthop s r = some nexthop then ⟨some r, none, s⟩
        else addInRoom (uipDs6RouteRm s (some r)) ipaddr length nexthopLladdr removable
  | _, _ => ⟨none, none, s⟩

/-! ### Calls -/

/-- The calls of other modules. -/
inductive Event (C : Config Table)
  | add (ipaddr : Option Ipaddr) (length : ℕ) (nexthop : Option Ipaddr) (removable : Option ℕ)
  | rm (route : Option (Fin C.routeNb))
  | rmByNexthop (nexthop : Option Ipaddr)
  | lookup (addr : Option Ipaddr)
  | nbrAdd (ipaddr : Ipaddr) (lladdr : Option Linkaddr) (removable : Option ℕ)
  | addLladdr (table : Table) (lladdr : Option Linkaddr) (removable : Option ℕ)
  | remove (table : Table) (item : Option ℕ)
  | lock (table : Table) (item : Option ℕ)
  | unlock (table : Table) (item : Option ℕ)
  | updateLladdr (oldAddr : Option Linkaddr) (newAddr : Linkaddr) (removeIfDuplicate : Bool)

/-- A call. -/
def step (s : State C) : Event C → State C
  | .add ipaddr length nexthop removable =>
    (uipDs6RouteAdd s ipaddr length nexthop removable).state
  | .rm route => uipDs6RouteRm s route
  | .rmByNexthop nexthop => uipDs6RouteRmByNexthop s nexthop
  | .lookup addr => (uipDs6RouteLookup s addr).2
  | .nbrAdd ipaddr lladdr removable => uipDs6NbrAdd s ipaddr lladdr removable
  | .addLladdr table lladdr removable => (nbrTableAddLladdr s table lladdr removable).2
  | .remove table item => { s with nbr := NbrTable.remove s.nbr table item }
  | .lock table item => { s with nbr := NbrTable.lock s.nbr table item }
  | .unlock table item => { s with nbr := NbrTable.unlock s.nbr table item }
  | .updateLladdr oldAddr newAddr removeIfDuplicate =>
    nbrTableUpdateLladdr s oldAddr newAddr removeIfDuplicate

/-- What the callers promise: a route that is removed is in the table, `nbr_routes` belongs to
this module, and only `uip_ds6_nbr_add` adds to `ds6_neighbors`. `P` is what is known of the
lengths of the routes that are added. -/
def Proper (P : ℕ → Prop) (s : State C) : Event C → Prop
  | .add _ length _ _ => P length
  | .rm (some r) => r ∈ s.routelist
  | .addLladdr table _ _ => table ∈ C.tables ∧ table ≠ C.nbrRoutes ∧ table ≠ C.ds6Neighbors
  | .remove table _ | .lock table _ | .unlock table _ => table ∈ C.tables ∧ table ≠ C.nbrRoutes
  | _ => True

/-! ## Lookup -/

/-- A bit of an address, the first one is the most significant. -/
def Ipaddr.bit (a : Ipaddr) (k : ℕ) : Bool := (a.u8[k / 8]?.getD 0).toNat.testBit (7 - k % 8)

/-- The addresses agree on their first bits. -/
def SamePrefix (a b : Ipaddr) (length : ℕ) : Prop := ∀ k < length, a.bit k = b.bit k

instance (a b : Ipaddr) (length : ℕ) : Decidable (SamePrefix a b length) :=
  inferInstanceAs (Decidable (∀ k < length, a.bit k = b.bit k))

variable {a b : Ipaddr} {length : ℕ}

/-- A byte is its eight bits. -/
theorem byte_eq {x y : UInt8} (h : ∀ k < 8, x.toNat.testBit (7 - k) = y.toNat.testBit (7 - k)) :
    x = y := by
  refine UInt8.toNat_inj.mp (Nat.eq_of_testBit_eq fun i => ?_)
  by_cases hi : i < 8
  · have := h (7 - i) (by omega)
    rwa [show 7 - (7 - i) = i by omega] at this
  · have hpow : 2 ^ 8 ≤ 2 ^ i := Nat.pow_le_pow_right (by omega) (by omega)
    rw [Nat.testBit_lt_two_pow (x.toNat_lt.trans_le hpow),
      Nat.testBit_lt_two_pow (y.toNat_lt.trans_le hpow)]

/-- Addresses that agree byte by byte. -/
theorem prefixcmp_eq_true :
    prefixcmp a b length = true ↔ ∀ j < length / 8, a.u8[j]? = b.u8[j]? := by
  rw [prefixcmp, beq_iff_eq]
  constructor
  · intro h j hj
    have := congrArg (fun l => l[j]?) h
    simpa [List.getElem?_take, hj] using this
  · intro h
    refine List.ext_getElem? fun j => ?_
    rw [List.getElem?_take, List.getElem?_take]
    split
    case isTrue hj => exact h j hj
    case isFalse => rfl

theorem SamePrefix.prefixcmp (h : SamePrefix a b length) : prefixcmp a b length = true := by
  refine prefixcmp_eq_true.mpr fun j hj => ?_
  have ha := a.length_u8
  have hb := b.length_u8
  by_cases hj16 : j < 16
  · rw [List.getElem?_eq_getElem (by omega), List.getElem?_eq_getElem (by omega)]
    refine congrArg some (byte_eq fun k hk => ?_)
    have hbit := h (8 * j + k) (by omega)
    have hdiv : (8 * j + k) / 8 = j := by omega
    have hmod : (8 * j + k) % 8 = k := by omega
    rw [Ipaddr.bit, Ipaddr.bit, hdiv, hmod, List.getElem?_eq_getElem (by omega),
      List.getElem?_eq_getElem (by omega)] at hbit
    exact hbit
  · rw [List.getElem?_eq_none (by omega), List.getElem?_eq_none (by omega)]

/-- A prefix of whole bytes is compared as its bits are. -/
theorem prefixcmp_iff (hlength : 8 ∣ length) :
    prefixcmp a b length = true ↔ SamePrefix a b length := by
  refine ⟨fun h k hk => ?_, SamePrefix.prefixcmp⟩
  obtain ⟨m, rfl⟩ := hlength
  have := prefixcmp_eq_true.mp h (k / 8) (by omega)
  rw [Ipaddr.bit, Ipaddr.bit, this]

variable {s : State C} {addr : Ipaddr} {r : Fin C.routeNb}

omit [DecidableEq Table] in
/-- The loop finds a longest match, unless all are shorter than the one it starts with. -/
theorem lookupLoop_spec {rs : List (Fin C.routeNb)} {foundRoute : Option (Fin C.routeNb)}
    {longestmatch : ℕ} (hle : ∀ r ∈ rs, (s.route r).length ≤ 128) :
    (lookupLoop s addr rs foundRoute longestmatch = foundRoute ∧
      ∀ r ∈ rs, prefixcmp addr (s.route r).ipaddr (s.route r).length = true →
        (s.route r).length < longestmatch) ∨
    ∃ r ∈ rs, lookupLoop s addr rs foundRoute longestmatch = some r ∧
      prefixcmp addr (s.route r).ipaddr (s.route r).length = true ∧
      longestmatch ≤ (s.route r).length ∧
      ∀ r' ∈ rs, prefixcmp addr (s.route r').ipaddr (s.route r').length = true →
        (s.route r').length ≤ (s.route r).length := by
  -- On the rest of the list, with the best route so far.
  induction rs generalizing foundRoute longestmatch with
  | nil => exact .inl ⟨rfl, fun r hr => absurd hr List.not_mem_nil⟩
  | cons r rs ih =>
    have hle' : ∀ r' ∈ rs, (s.route r').length ≤ 128 := fun r' h =>
      hle r' (List.mem_cons_of_mem _ h)
    rw [lookupLoop]
    -- A later route wins if its prefix matches and is at least as long.
    by_cases hr : longestmatch ≤ (s.route r).length ∧
        prefixcmp addr (s.route r).ipaddr (s.route r).length = true
    · rw [if_pos hr]
      right
      by_cases htotal : (s.route r).length = 128
      · rw [if_pos htotal]
        refine ⟨r, List.mem_cons_self, rfl, hr.2, hr.1, fun r' hr' _ => ?_⟩
        rw [htotal]
        exact hle r' hr'
      · rw [if_neg htotal]
        rcases ih hle' with ⟨heq, hlt⟩ | ⟨r', hr', heq, hcmp, hge, hmax⟩
        · refine ⟨r, List.mem_cons_self, heq, hr.2, hr.1, ?_⟩
          rintro r' (_ | ⟨_, hr'⟩) hcmp
          · exact le_rfl
          · exact (hlt r' hr' hcmp).le
        · refine ⟨r', List.mem_cons_of_mem _ hr', heq, hcmp, hr.1.trans hge, ?_⟩
          rintro q (_ | ⟨_, hq⟩) hqcmp
          · exact hge
          · exact hmax q hq hqcmp
    · rw [if_neg hr]
      rcases ih hle' with ⟨heq, hlt⟩ | ⟨r', hr', heq, hcmp, hge, hmax⟩
      · refine .inl ⟨heq, ?_⟩
        rintro q (_ | ⟨_, hq⟩) hqcmp
        · exact not_le.mp fun hge => hr ⟨hge, hqcmp⟩
        · exact hlt q hq hqcmp
      · refine .inr ⟨r', List.mem_cons_of_mem _ hr', heq, hcmp, hge, ?_⟩
        rintro q (_ | ⟨_, hq⟩) hqcmp
        · exact (not_le.mp fun hge => hr ⟨hge, hqcmp⟩).le.trans hge
        · exact hmax q hq hqcmp

omit [DecidableEq Table] in
/-- What a lookup changes is the order of the list. -/
theorem uipDs6RouteLookup_cases (hle : ∀ r ∈ s.routelist, (s.route r).length ≤ 128)
    (addr : Ipaddr) :
    (uipDs6RouteLookup s (some addr) = (none, s) ∧ ∀ r ∈ s.routelist,
      prefixcmp addr (s.route r).ipaddr (s.route r).length = false) ∨
    ∃ r ∈ s.routelist, ∃ l, uipDs6RouteLookup s (some addr) = (some r, { s with routelist := l }) ∧
      (∃ rs, l = r :: rs) ∧ l.Perm s.routelist ∧
      prefixcmp addr (s.route r).ipaddr (s.route r).length = true ∧
      ∀ r' ∈ s.routelist, prefixcmp addr (s.route r').ipaddr (s.route r').length = true →
        (s.route r').length ≤ (s.route r).length := by
  rcases lookupLoop_spec hle with ⟨heq, hlt⟩ | ⟨r, hr, heq, hcmp, -, hmax⟩
  · left
    rw [uipDs6RouteLookup, heq]
    refine ⟨rfl, fun r hr => ?_⟩
    rw [← Bool.not_eq_true]
    intro hcmp
    exact absurd (hlt r hr hcmp) (Nat.not_lt_zero _)
  · right
    rw [uipDs6RouteLookup, heq]
    by_cases hhead : s.routelist.head? = some r
    · obtain ⟨rs, hrs⟩ := List.head?_eq_some_iff.mp hhead
      exact ⟨r, hr, s.routelist, if_pos hhead, ⟨rs, hrs⟩, .refl _, hcmp, hmax⟩
    · exact ⟨r, hr, r :: s.routelist.erase r, if_neg hhead, ⟨_, rfl⟩,
        (List.perm_cons_erase hr).symm, hcmp, hmax⟩

end MasterScheduler.Mote.RouteTable
