import MasterScheduler.Mote.RouteInvariant

/-!
# MasterScheduler.Mote.RouteAdd — what the addition of a route touches

`uip_ds6_route_add` means to delete an old route for its destination. The route
it looks at is the longest match of the prefix, whatever its length.

1. **Next hops**: what leaves the next hops of the routes as they are.
2. **Outcome**: a route joins, and at most one goes (`Replaced`).
3. **Result**: `add_touches_only_iff`, for every reachable table.
-/

namespace MasterScheduler.Mote.RouteTable

open Lib Frame802154 NbrTable

variable {Table : Type} [DecidableEq Table] {C : Config Table}

/-! ## Next hops -/

/-- The neighbors as `ds6_neighbors` sees them. -/
structure SameHops (C : Config Table) (n n' : NbrTable.State Table) : Prop where
  keys : n'.keys = n.keys
  lladdr : n'.lladdr = n.lladdr
  bits : ∀ j, nbrGetBit n' n'.usedMap C.ds6Neighbors (some j) =
    nbrGetBit n n.usedMap C.ds6Neighbors (some j)

section Hops

variable {n n' n'' : NbrTable.State Table} {s t : State C}

omit [DecidableEq Table] in
theorem SameHops.refl (n : NbrTable.State Table) : SameHops C n n := ⟨rfl, rfl, fun _ => rfl⟩

/-- A bit of `nbr_routes`. -/
theorem SameHops.setBit (h : Neighbors C n) (item : Option ℕ) (value : Bool)
    (map : ℕ → BitVec 8) : SameHops C n { n with
      usedMap := nbrSetBit n n.usedMap C.nbrRoutes item value
      lockedMap := map } := by
  refine ⟨rfl, rfl, fun j => ?_⟩
  rw [Bool.eq_iff_iff]
  refine Iff.trans (Neighbors.getBit ?_ C.ds6Neighbors_mem) ?_
  · exact ⟨h.index, h.nodup, h.counted, h.distinct⟩
  · rw [h.getBit C.ds6Neighbors_mem]
    exact h.other C.nbrRoutes_mem C.ds6Neighbors_ne.symm item value

omit [DecidableEq Table] in
theorem SameHops.nexthop (h : SameHops C s.nbr t.nbr) (hipaddr : t.ipaddr = s.ipaddr)
    {q r : Fin C.routeNb} (hroute : (t.route q).neighborRoutes = (s.route r).neighborRoutes) :
    uipDs6RouteNexthop t q = uipDs6RouteNexthop s r := by
  have hindex : ∀ a, indexFromLladdr t.nbr a = indexFromLladdr s.nbr a := by
    intro a
    rw [indexFromLladdr, indexFromLladdr, h.keys, h.lladdr]
  have hget : ∀ a, getFromLladdr t.nbr C.ds6Neighbors a = getFromLladdr s.nbr C.ds6Neighbors a := by
    intro a
    rw [getFromLladdr, getFromLladdr, hindex a]
    cases indexFromLladdr s.nbr a with
    | none => rfl
    | some j => rw [h.bits j]
  rw [uipDs6RouteNexthop, uipDs6RouteNexthop, uipDs6NbrIpaddrFromLladdr, uipDs6NbrIpaddrFromLladdr,
    hroute, h.lladdr, hipaddr, hget]

/-- A route by way of an item of `ds6_neighbors`. -/
theorem Neighbors.nexthop (h : Neighbors C s.nbr) {i : ℕ} (hi : i ∈ s.nbr.keys)
    (hbit : nbrGetBit s.nbr s.nbr.usedMap C.ds6Neighbors (some i) = true) {r : Fin C.routeNb}
    (hr : (s.route r).neighborRoutes = some i) :
    uipDs6RouteNexthop s r = some (s.ipaddr i) := by
  rw [uipDs6RouteNexthop, hr, Option.map_some, uipDs6NbrIpaddrFromLladdr, getFromLladdr,
    h.indexFromLladdr_eq hi, if_pos hbit, Option.map_some]

end Hops

/-! ## Outcome -/

/-- A route is for the destination. -/
def IsRouteFor (ipaddr : Ipaddr) (length : ℕ) (route : Route) : Prop :=
  route.length = length ∧ SamePrefix ipaddr route.ipaddr length

instance (ipaddr : Ipaddr) (length : ℕ) (route : Route) :
    Decidable (IsRouteFor ipaddr length route) :=
  inferInstanceAs (Decidable (_ ∧ _))

/-- A route for the destination joins the table by way of the next hop, at most one goes, and
the others are as before. -/
def Replaced (s : State C) (gone : Option (Fin C.routeNb)) (ipaddr : Ipaddr) (length : ℕ)
    (nexthop : Ipaddr) (a : Added C) : Prop :=
  ∃ r, a.route = some r ∧
    (∀ q, q ∈ a.state.routelist ↔ q = r ∨ q ∈ s.routelist ∧ gone ≠ some q) ∧
    IsRouteFor ipaddr length (a.state.route r) ∧
    uipDs6RouteNexthop a.state r = some nexthop ∧
    ∀ q ∈ s.routelist, gone ≠ some q → q ≠ r ∧ a.state.route q = s.route q ∧
      uipDs6RouteNexthop a.state q = uipDs6RouteNexthop s q

section Outcome

variable {P : ℕ → Prop} {s : State C} {i : ℕ} {ipaddr nexthop : Ipaddr} {length : ℕ}
  {r : Fin C.routeNb}

/-- With room in the table, nothing goes. -/
theorem InvExcept.replaced (h : Inv P s) (hi : i ∈ s.nbr.keys)
    (hbit : nbrGetBit s.nbr s.nbr.usedMap C.ds6Neighbors (some i) = true)
    (hnexthop : s.ipaddr i = nexthop) (hP : P length) (hroom : s.routelist.length < C.routeNb)
    (ipaddr : Ipaddr) (removable : Option ℕ) :
    Replaced s none ipaddr length nexthop
      (RouteTable.addInRoom s ipaddr length (s.nbr.lladdr i) removable) := by
  have hnum : s.numRoutes ≠ C.routeNb := by
    rw [h.num]
    omega
  rw [RouteTable.addInRoom, if_neg hnum]
  obtain ⟨nbr, r, n, hnbr, heq, hfree, hinv⟩ := h.addVia hi hroom ipaddr hP removable
  rw [heq]
  -- The new route was in no list.
  have hr : r ∉ s.routelist := by
    rw [h.member, hfree]
    exact Bool.false_ne_true
  have hhops : SameHops C s.nbr (NbrTable.lock nbr C.nbrRoutes (some i)) := by
    rcases hnbr with rfl | rfl
    · exact ⟨rfl, rfl, fun _ => rfl⟩
    · have := SameHops.setBit h.neighbors (some i) true s.nbr.lockedMap
      exact ⟨this.keys, this.lladdr, this.bits⟩
  have hnew : (RouteTable.appended { s with nbr := nbr } r n ⟨ipaddr, length, some i⟩ i).route r =
      ⟨ipaddr, length, some i⟩ := Function.update_self _ _ _
  refine ⟨r, rfl, ?_, ?_, ?_, ?_⟩
  · intro q
    show q ∈ r :: s.routelist.erase r ↔ _
    rw [List.erase_of_not_mem hr, List.mem_cons]
    simp
  · rw [hnew]
    exact ⟨rfl, fun _ _ => rfl⟩
  · have hkey : i ∈ (NbrTable.lock nbr C.nbrRoutes (some i)).keys := hhops.keys ▸ hi
    rw [← hnexthop]
    exact hinv.neighbors.nexthop hkey ((hhops.bits i).trans hbit) (by rw [hnew])
  · intro q hq _
    have hne : q ≠ r := ne_of_mem_of_not_mem hq hr
    have hold : (RouteTable.appended { s with nbr := nbr } r n ⟨ipaddr, length, some i⟩ i).route q =
        s.route q := Function.update_of_ne hne _ _
    exact ⟨hne, hold, SameHops.nexthop (s := s) (t := RouteTable.appended { s with nbr := nbr } r n
      ⟨ipaddr, length, some i⟩ i) hhops rfl (by rw [hold])⟩

/-- After the removal of a route, that one has gone. -/
theorem InvExcept.replaced_rm (h : Inv P s) (hr : r ∈ s.routelist) (hi : i ∈ s.nbr.keys)
    (hbit : nbrGetBit s.nbr s.nbr.usedMap C.ds6Neighbors (some i) = true)
    (hnexthop : s.ipaddr i = nexthop) (hP : P length) (ipaddr : Ipaddr) (removable : Option ℕ) :
    Replaced s (some r) ipaddr length nexthop
      (RouteTable.addInRoom (uipDs6RouteRm s (some r)) ipaddr length (s.nbr.lladdr i) removable) := by
  have hrm := h.rm hr
  have hlen := List.length_pos_of_mem hr
  have hle := h.le
  obtain ⟨j, -, n, hn, hnr⟩ := h.via r hr
  rw [h.rm_eq hn hnr] at hrm ⊢
  have hhops : SameHops C s.nbr (RouteTable.removed s r n j).nbr := by
    by_cases hnil : (s.routeList j).erase n = []
    · have hnbr : (RouteTable.removed s r n j).nbr = NbrTable.remove s.nbr C.nbrRoutes (some j) :=
        if_pos hnil
      rw [hnbr]
      exact SameHops.setBit h.neighbors (some j) false _
    · have hnbr : (RouteTable.removed s r n j).nbr = s.nbr := if_neg hnil
      rw [hnbr]
      exact .refl _
  -- The deletion has made room, so the addition succeeds.
  have hroom : (RouteTable.removed s r n j).routelist.length < C.routeNb := by
    show (s.routelist.erase r).length < C.routeNb
    rw [List.length_erase_of_mem hr]
    omega
  have hmem : ∀ q, q ∈ (RouteTable.removed s r n j).routelist ↔
      q ∈ s.routelist ∧ some r ≠ some q := by
    intro q
    show q ∈ s.routelist.erase r ↔ _
    rw [h.routes.mem_erase_iff, and_comm, ne_eq, ne_eq, Option.some.injEq, eq_comm]
  obtain ⟨q, hq, hlist, hfor, hhop, hkept⟩ := hrm.replaced
    (hhops.keys ▸ hi) ((hhops.bits i).trans hbit) hnexthop hP hroom ipaddr removable
  rw [hhops.lladdr] at hq hlist hfor hhop hkept
  refine ⟨q, hq, ?_, hfor, hhop, ?_⟩
  · intro x
    rw [hlist x, hmem x]
    simp
  · intro x hx hgone
    obtain ⟨hne, hroute, hnext⟩ := hkept x ((hmem x).mpr ⟨hx, hgone⟩) (by simp)
    exact ⟨hne, hroute, hnext.trans (hhops.nexthop rfl rfl)⟩

omit [DecidableEq Table] in
/-- The order of the routes before does not matter. -/
theorem Replaced.reorder {l : List (Fin C.routeNb)} {gone : Option (Fin C.routeNb)} {a : Added C}
    (h : Replaced { s with routelist := l } gone ipaddr length nexthop a)
    (hl : l.Perm s.routelist) : Replaced s gone ipaddr length nexthop a := by
  obtain ⟨r, hr, hlist, hfor, hhop, hkept⟩ := h
  refine ⟨r, hr, fun q => ?_, hfor, hhop, fun q hq => hkept q (hl.mem_iff.mpr hq)⟩
  rw [hlist q]
  exact or_congr_right (and_congr_left fun _ => hl.mem_iff)

/-- What an addition does, by the route that the lookup finds. -/
theorem InvExcept.add_cases (h : Inv P s) (hP : ∀ length, P length → length ≤ 128)
    (hlength : P length) (hknown : (uipDs6NbrLladdrFromIpaddr s (some nexthop)).isSome)
    (hroom : s.routelist.length < C.routeNb) (ipaddr : Ipaddr) (removable : Option ℕ) :
    ((uipDs6RouteLookup s (some ipaddr)).1 = none ∧
      (∀ r ∈ s.routelist, ¬ IsRouteFor ipaddr length (s.route r)) ∧
      Replaced s none ipaddr length nexthop
        (uipDs6RouteAdd s (some ipaddr) length (some nexthop) removable)) ∨
    ∃ r ∈ s.routelist, (uipDs6RouteLookup s (some ipaddr)).1 = some r ∧
      ((uipDs6RouteNexthop s r = some nexthop ∧ ∃ l : List (Fin C.routeNb), l.Perm s.routelist ∧
        uipDs6RouteAdd s (some ipaddr) length (some nexthop) removable =
          ⟨some r, none, { s with routelist := l }⟩) ∨
      (uipDs6RouteNexthop s r ≠ some nexthop ∧ Replaced s (some r) ipaddr length nexthop
        (uipDs6RouteAdd s (some ipaddr) length (some nexthop) removable))) := by
  obtain ⟨lladdr, hlladdr⟩ := Option.isSome_iff_exists.mp hknown
  obtain ⟨i, hi, hbit, hnexthop, rfl⟩ := uipDs6NbrLladdrFromIpaddr_eq_some hlladdr
  -- The lookup finds nothing, or a route that is kept or replaced.
  rcases uipDs6RouteLookup_cases (fun r hr => hP _ (h.lengths r hr)) ipaddr with
    ⟨heq, hnone⟩ | ⟨r, hr, l, heq, -, hl, -⟩
  · left
    refine ⟨by rw [heq], fun r hr hfor => ?_, ?_⟩
    · have hcmp : prefixcmp ipaddr (s.route r).ipaddr (s.route r).length = true := by
        rw [hfor.1]
        exact hfor.2.prefixcmp
      rw [hnone r hr] at hcmp
      cases hcmp
    · simp only [uipDs6RouteAdd, hlladdr, heq]
      exact h.replaced hi hbit hnexthop hlength hroom ipaddr removable
  · right
    refine ⟨r, hr, by rw [heq], ?_⟩
    by_cases hsame : uipDs6RouteNexthop s r = some nexthop
    · left
      refine ⟨hsame, l, hl, ?_⟩
      simp only [uipDs6RouteAdd, hlladdr, heq]
      exact if_pos hsame
    · right
      refine ⟨hsame, ?_⟩
      have hadd : uipDs6RouteAdd s (some ipaddr) length (some nexthop) removable =
          RouteTable.addInRoom (uipDs6RouteRm { s with routelist := l } (some r)) ipaddr length
            (s.nbr.lladdr i) removable := by
        simp only [uipDs6RouteAdd, hlladdr, heq]
        exact if_neg hsame
      rw [hadd]
      exact ((h.reorder hl).replaced_rm (hl.mem_iff.mpr hr) hi hbit hnexthop hlength ipaddr
        removable).reorder hl

end Outcome

/-! ## Result -/

/-- The addition succeeds and touches only its own destination. -/
structure TouchesOnly (s : State C) (ipaddr : Ipaddr) (length : ℕ) (nexthop : Ipaddr)
    (a : Added C) : Prop where
  succeeds : a.route.isSome
  one : ∃! r, r ∈ a.state.routelist ∧ IsRouteFor ipaddr length (a.state.route r)
  leads : ∀ r ∈ a.state.routelist, IsRouteFor ipaddr length (a.state.route r) →
    uipDs6RouteNexthop a.state r = some nexthop
  kept : ∀ r ∈ s.routelist, ¬ IsRouteFor ipaddr length (s.route r) →
    r ∈ a.state.routelist ∧ a.state.route r = s.route r ∧
      uipDs6RouteNexthop a.state r = uipDs6RouteNexthop s r

/-- If the lookup of the prefix finds a route, there is one route for the destination, and
either it is the one that was found or both lead to the next hop. -/
def Replaceable (s : State C) (ipaddr : Ipaddr) (length : ℕ) (nexthop : Ipaddr) : Prop :=
  ∀ r, (uipDs6RouteLookup s (some ipaddr)).1 = some r →
    ∃ e ∈ s.routelist, IsRouteFor ipaddr length (s.route e) ∧
      (∀ e' ∈ s.routelist, IsRouteFor ipaddr length (s.route e') → e' = e) ∧
      (e = r ∨ uipDs6RouteNexthop s r = some nexthop ∧ uipDs6RouteNexthop s e = some nexthop)

section Result

variable {P : ℕ → Prop} {s : State C} {ipaddr nexthop : Ipaddr} {length : ℕ}
  {r : Fin C.routeNb} {a : Added C}

omit [DecidableEq Table] in
/-- A replacement touches only its destination if what goes is the only route for it. -/
theorem Replaced.touchesOnly_iff {gone : Option (Fin C.routeNb)}
    (h : Replaced s gone ipaddr length nexthop a) (hgone : ∀ r, gone = some r → r ∈ s.routelist) :
    TouchesOnly s ipaddr length nexthop a ↔
      (∀ e ∈ s.routelist, IsRouteFor ipaddr length (s.route e) → gone = some e) ∧
      ∀ r, gone = some r → IsRouteFor ipaddr length (s.route r) := by
  obtain ⟨q, hq, hlist, hfor, hhop, hkept⟩ := h
  have hqmem : q ∈ a.state.routelist := (hlist q).mpr (.inl rfl)
  -- The new route must be the only one to this prefix, and no route to another one may be gone.
  constructor
  · intro h
    constructor
    · intro e he hefor
      by_contra hne
      obtain ⟨heq, hroute, -⟩ := hkept e he hne
      obtain ⟨x, -, hx⟩ := h.one
      have hemem : e ∈ a.state.routelist := (hlist e).mpr (.inr ⟨he, hne⟩)
      have hee := hx e ⟨hemem, by rw [hroute]; exact hefor⟩
      exact heq (hee.trans (hx q ⟨hqmem, hfor⟩).symm)
    · intro r hr
      by_contra hnot
      obtain ⟨hmem, hroute, -⟩ := h.kept r (hgone r hr) hnot
      rcases (hlist r).mp hmem with rfl | ⟨-, hne⟩
      · rw [hroute] at hfor
        exact hnot hfor
      · exact hne hr
  · rintro ⟨honly, hgonefor⟩
    have hself : ∀ e ∈ a.state.routelist, IsRouteFor ipaddr length (a.state.route e) → e = q := by
      intro e he hefor
      rcases (hlist e).mp he with rfl | ⟨hes, hne⟩
      · rfl
      · rw [(hkept e hes hne).2.1] at hefor
        exact absurd (honly e hes hefor) hne
    constructor
    · rw [hq]
      rfl
    · exact ⟨q, ⟨hqmem, hfor⟩, fun e he => hself e he.1 he.2⟩
    · intro e he hefor
      rw [hself e he hefor]
      exact hhop
    · intro e he hnot
      have hne : gone ≠ some e := fun heq => hnot (hgonefor e heq)
      exact ⟨(hlist e).mpr (.inr ⟨he, hne⟩), (hkept e he hne).2⟩

omit [DecidableEq Table] in
/-- A table that only changed its order. -/
theorem touchesOnly_reorder_iff {l : List (Fin C.routeNb)} (hl : l.Perm s.routelist) :
    TouchesOnly s ipaddr length nexthop ⟨some r, none, { s with routelist := l }⟩ ↔
      ∃ e ∈ s.routelist, IsRouteFor ipaddr length (s.route e) ∧
        (∀ e' ∈ s.routelist, IsRouteFor ipaddr length (s.route e') → e' = e) ∧
        uipDs6RouteNexthop s e = some nexthop := by
  constructor
  · intro h
    obtain ⟨e, ⟨he, hfor⟩, huniq⟩ := h.one
    exact ⟨e, hl.mem_iff.mp he, hfor, fun e' he' hfor' => huniq e' ⟨hl.mem_iff.mpr he', hfor'⟩,
      h.leads e he hfor⟩
  · rintro ⟨e, he, hfor, huniq, hhop⟩
    constructor
    · rfl
    · exact ⟨e, ⟨hl.mem_iff.mpr he, hfor⟩, fun e' he' => huniq e' (hl.mem_iff.mp he'.1) he'.2⟩
    · intro e' he' hfor'
      rw [huniq e' (hl.mem_iff.mp he') hfor']
      exact hhop
    · intro e' he' _
      exact ⟨hl.mem_iff.mpr he', rfl, rfl⟩

/-- An addition touches only its own destination exactly if the lookup of the prefix finds
nothing, or if the only route for the destination is the one found or as good. -/
theorem add_touches_only_iff
    (hrun : Run (fun s e => some (step s e)) (Proper (· ≤ 128)) (State.initial C) s)
    (hlength : length ≤ 128)
    (hknown : (uipDs6NbrLladdrFromIpaddr s (some nexthop)).isSome)
    (hfree : s.numRoutes < C.routeNb) (ipaddr : Ipaddr) (removable : Option ℕ) :
    TouchesOnly s ipaddr length nexthop
        (uipDs6RouteAdd s (some ipaddr) length (some nexthop) removable) ↔
      Replaceable s ipaddr length nexthop := by
  have hinv : Inv (· ≤ 128) s := Inv.of_run (fun _ h => h) hrun
  have hroom : s.routelist.length < C.routeNb := by
    rw [hinv.num] at hfree
    exact_mod_cast hfree
  rcases hinv.add_cases (fun _ h => h) hlength hknown hroom ipaddr removable with
    ⟨hnone, hno, hreplaced⟩ | ⟨r, hr, hfound, ⟨hsame, l, hl, hadd⟩ | ⟨hother, hreplaced⟩⟩
  · -- nothing matches the prefix
    rw [hreplaced.touchesOnly_iff (by simp)]
    refine iff_of_true ⟨fun e he hfor => absurd hfor (hno e he), by simp⟩ fun r hr => ?_
    rw [hnone] at hr
    cases hr
  · -- the route that is found leads to the next hop, nothing is added
    rw [hadd, touchesOnly_reorder_iff hl, Replaceable]
    constructor
    · rintro ⟨e, he, hfor, huniq, hhop⟩ r' hr'
      obtain rfl := Option.some.inj (hfound.symm.trans hr')
      exact ⟨e, he, hfor, huniq, .inr ⟨hsame, hhop⟩⟩
    · intro h
      obtain ⟨e, he, hfor, huniq, rfl | ⟨-, hhop⟩⟩ := h r hfound
      · exact ⟨e, he, hfor, huniq, hsame⟩
      · exact ⟨e, he, hfor, huniq, hhop⟩
  · -- the route that is found goes
    rw [hreplaced.touchesOnly_iff (by rintro q ⟨⟩; exact hr), Replaceable]
    constructor
    · rintro ⟨honly, hgone⟩ r' hr'
      obtain rfl := Option.some.inj (hfound.symm.trans hr')
      exact ⟨r, hr, hgone r rfl, fun e' he' hfor' => (Option.some.inj (honly e' he' hfor')).symm,
        .inl rfl⟩
    · intro h
      obtain ⟨e, he, hfor, huniq, rfl | ⟨hsame, -⟩⟩ := h r hfound
      · refine ⟨fun e' he' hfor' => by rw [huniq e' he' hfor'], ?_⟩
        rintro q ⟨⟩
        exact hfor
      · exact absurd hsame hother

end Result

/-! ### Nested prefixes -/

/-- Neighbors 1 and 2 are known, and a route for a prefix leads to neighbor 1. -/
def addPrefix (ipaddr : Ipaddr) (length : ℕ) : List (Event smallConfig) :=
  [.nbrAdd (linkLocal 1) (some (address 1)) none, .nbrAdd (linkLocal 2) (some (address 2)) none,
    .add (some ipaddr) length (some (linkLocal 1)) none]

/-- A route for a host joins a route for another host. -/
theorem add_touches_only_iff_host : ∃ s : State smallConfig, s.routelist.length = 1 ∧
    TouchesOnly s (ula 1) 128 (linkLocal 2)
      (uipDs6RouteAdd s (some (ula 1)) 128 (some (linkLocal 2)) none) := by
  obtain ⟨s, hrun, hlen, hknown, hfree, hnone⟩ := exists_run_of_runEvents
    (fun s e => some (step s e)) (Proper (· ≤ 128)) (State.initial smallConfig)
    (addPrefix (ula 2) 128)
    (fun s => s.routelist.length = 1 ∧
      (uipDs6NbrLladdrFromIpaddr s (some (linkLocal 2))).isSome ∧ s.numRoutes < 3 ∧
      (uipDs6RouteLookup s (some (ula 1))).1 = none) (by decide +kernel)
  refine ⟨s, hlen, (add_touches_only_iff hrun le_rfl hknown hfree (ula 1) none).mpr ?_⟩
  intro r hr
  rw [hnone] at hr
  cases hr

/-- A route for a host takes the place of the route for its prefix. -/
theorem prefix_route_deleted : ∃ s : State smallConfig,
    Run (fun s e => some (step s e)) (Proper (· ≤ 128)) (State.initial smallConfig) s ∧
      (uipDs6NbrLladdrFromIpaddr s (some (linkLocal 2))).isSome ∧ s.numRoutes < 3 ∧
      ¬ TouchesOnly s (ula 1) 128 (linkLocal 2)
        (uipDs6RouteAdd s (some (ula 1)) 128 (some (linkLocal 2)) none) := by
  obtain ⟨s, hrun, hknown, hfree, r, hr, hnot, hgone⟩ := exists_run_of_runEvents
    (fun s e => some (step s e)) (Proper (· ≤ 128)) (State.initial smallConfig)
    (addPrefix (ula 0) 64)
    (fun s => (uipDs6NbrLladdrFromIpaddr s (some (linkLocal 2))).isSome ∧ s.numRoutes < 3 ∧
      ∃ r ∈ s.routelist, ¬ IsRouteFor (ula 1) 128 (s.route r) ∧
        ((uipDs6RouteAdd s (some (ula 1)) 128 (some (linkLocal 2)) none).state.route r).length ≠
          (s.route r).length) (by decide +kernel)
  refine ⟨s, hrun, hknown, hfree, fun h => hgone ?_⟩
  rw [(h.kept r hr hnot).2.1]

end MasterScheduler.Mote.RouteTable
