import MasterScheduler.Lib.Loop
import MasterScheduler.Lib.Ranked
import MasterScheduler.Lib.ShortestPath
import MasterScheduler.Host.Priodict

/-!
# MasterScheduler.Host.Dijkstra — shortest paths

`Dijkstra` and `shortestPath` of `Master/Python/dijkstra.py` over the priority
dictionary. The search settles one vertex after another; a vertex that has no
entry in the graph makes it raise an exception, unless it is the end.

1. **Model**: the loop over the dictionary, and the way back over the
   predecessors.
2. **Rounds**: `loop_spec`, the invariant being the one of
   `MasterScheduler.Lib.ShortestPath`.
3. **Result**: `shortestPathBy_cases`, for any graph with positive weights;
   `shortestPath_cases` for exact sums, and `extends_pyAdd` for floats.

Vertices are anything with an order, as the dictionary compares them. Lengths
are rationals, added exactly or as Python adds floats.
-/

namespace MasterScheduler.Host

open Lib

/-- The graph argument, `Dict{v: Dict{w: length}}`. -/
abbrev WeightedGraph (K : Type) := List (K × List (K × ℚ))

namespace WeightedGraph

variable {K : Type} [LinearOrder K]

/-- `G[v][w]`, or `none` if one of the keys is missing. -/
def weight (G : WeightedGraph K) (v w : K) : Option ℚ := (G.lookup v).bind (·.lookup w)

/-- All keys of inner dictionaries. -/
def neighbors (G : WeightedGraph K) : List K := G.flatMap fun a => a.2.map Prod.fst

end WeightedGraph

namespace Dijkstra

variable {K : Type} [LinearOrder K]

/-! ## Model -/

/-- The locals of `Dijkstra`. -/
structure State (K : Type) where
  D : PyDict K ℚ
  P : PyDict K K
  Q : PriorityDictionary K ℚ

/-- `G[v][w]`. -/
def getEdge (G : WeightedGraph K) (v w : K) : Except PyError ℚ :=
  match G.weight v w with
  | some c => .ok c
  | none => .error .keyError

/-- The body of the loop `for w in G[v]`, with a way to add lengths. -/
def relax (add : ℚ → ℚ → ℚ) (G : WeightedGraph K) (v : K) (st : State K) (w : K) :
    Except PyError (State K) := do
  let vwLength := add (← st.D.getItem v) (← getEdge G v w)
  match st.D.getItem? w with
  | some d => if vwLength < d then .error .valueError else .ok st
  | none =>
      if ∀ q, st.Q.items.getItem? w = some q → vwLength < q then
        .ok { st with Q := st.Q.setItem w vwLength, P := st.P.setItem w v }
      else .ok st

/-- The loop `for v in Q`. Its rounds are bounded by the vertices. -/
def loop (add : ℚ → ℚ → ℚ) (G : WeightedGraph K) (stop : Option K) :
    ℕ → State K → Except PyError (State K)
  | 0, _ => .error .diverges
  | fuel + 1, st =>
      if st.Q.items.entries.length = 0 then .ok st
      else do
        let (v, Q) ← st.Q.smallest
        let st := { st with D := st.D.setItem v (← Q.items.getItem v), Q := Q }
        if stop = some v then return st
        match G.lookup v with
        | none => .error .valueError
        | some edges =>
            let st ← (edges.map Prod.fst).foldlM (relax add G v) st
            loop add G stop fuel { st with Q := ← st.Q.delItem v }

/-- `Dijkstra`; without an end it visits all vertices. -/
def dijkstraBy (add : ℚ → ℚ → ℚ) (G : WeightedGraph K) (start : K) (stop : Option K) :
    Except PyError (State K) :=
  loop add G stop (G.neighbors.length + 2)
    ⟨Keyed.empty, Keyed.empty, PriorityDictionary.empty.setItem start 0⟩

/-- The loop of `shortestPath`. With more vertices than there are predecessors it would go
round for ever. -/
def walkBack (P : PyDict K K) (start : K) : ℕ → List K → K → Except PyError (List K)
  | 0, _, _ => .error .diverges
  | fuel + 1, path, stop =>
      if stop = start then .ok (path ++ [stop])
      else do walkBack P start fuel (path ++ [stop]) (← P.getItem stop)

/-- `shortestPath`, with a way to add lengths. -/
def shortestPathBy (add : ℚ → ℚ → ℚ) (G : WeightedGraph K) (start stop : K) :
    Except PyError (ℚ × List K) := do
  let st ← dijkstraBy add G start (some stop)
  let cost ← st.D.getItem stop
  let path ← walkBack st.P start (st.P.entries.length + 1) [] stop
  return (cost, path.reverse)

/-- `shortestPath` with exact sums. -/
def shortestPath (G : WeightedGraph K) (start stop : K) : Except PyError (ℚ × List K) :=
  shortestPathBy HAdd.hAdd G start stop

/-- The graph in the comment of the module, with the vertices numbered. -/
def clrGraph : WeightedGraph ℕ :=
  [(0, [(1, 10), (3, 5)]), (1, [(2, 1), (3, 2)]), (2, [(4, 4)]), (3, [(1, 3), (2, 9), (4, 2)]),
    (4, [(0, 7), (2, 6)])]

example : shortestPath clrGraph 0 2 = .ok (9, [0, 3, 1, 2]) := by decide +kernel

/-! ## Rounds -/

/-- The labels between two rounds. -/
def State.labels (st : State K) : Labels K ℚ where
  settled := st.D.getItem?
  label := st.Q.items.getItem?
  pred := st.P.getItem?

/-- The labels while a vertex is handled, which is in the priority dictionary to the end of
its round. -/
def State.handling (v : K) (st : State K) : Labels K ℚ where
  settled := st.D.getItem?
  label := Function.update st.Q.items.getItem? v none
  pred := st.P.getItem?

section Rounds

variable {add : ℚ → ℚ → ℚ} {G : WeightedGraph K} {start stop v w : K} {st : State K} {c d : ℚ}
  {todo : K → K → Prop}

theorem weight_eq_some (h : G.weight v w = some c) : ∃ edges, (v, edges) ∈ G ∧ (w, c) ∈ edges := by
  obtain ⟨edges, hv, hw⟩ := Option.bind_eq_some_iff.mp h
  obtain ⟨l₁, l₂, rfl, _⟩ := List.lookup_eq_some_iff.mp hv
  obtain ⟨k₁, k₂, rfl, _⟩ := List.lookup_eq_some_iff.mp hw
  exact ⟨_, List.mem_append_right _ List.mem_cons_self,
    List.mem_append_right _ List.mem_cons_self⟩

theorem mem_neighbors (h : G.weight v w = some c) : w ∈ G.neighbors := by
  obtain ⟨edges, hv, hw⟩ := weight_eq_some h
  exact List.mem_flatMap.mpr ⟨_, hv, List.mem_map_of_mem hw⟩

/-- One edge of the vertex that is handled. -/
theorem relax_spec (hvalid : st.Q.Valid) (hinv : (st.handling v).Inv add G.weight start todo)
    (hv : st.D.getItem? v = some d) (hQ : st.Q.items.getItem? v ≠ none)
    (he : G.weight v w = some c) :
    ∃ st', relax add G v st w = .ok st' ∧ st'.Q.Valid ∧
      (st'.handling v).Inv add G.weight start (fun a b => todo a b ∧ ¬ (a = v ∧ b = w)) ∧
      st'.D = st.D ∧ st'.Q.items.getItem? v ≠ none := by
  have hrelax : relax add G v st w = (match st.D.getItem? w with
      | some e => if add d c < e then .error .valueError else .ok st
      | none =>
          if ∀ q, st.Q.items.getItem? w = some q → add d c < q then
            .ok { st with Q := st.Q.setItem w (add d c), P := st.P.setItem w v }
          else .ok st) := by
    rw [relax, PyDict.getItem_eq_ok hv, getEdge, he]
    rfl
  rw [hrelax]
  cases hw : st.D.getItem? w with
  | some e =>
    -- The distance of a settled vertex is not improved.
    dsimp only
    rw [if_neg (hinv.not_lt hv hw he)]
    refine ⟨st, rfl, hvalid, hinv.skip hv he (.inl ?_), rfl, hQ⟩
    change st.D.getItem? w ≠ none
    rw [hw]
    exact Option.some_ne_none e
  | none =>
    have hwv : w ≠ v := by
      rintro rfl
      rw [hw] at hv
      cases hv
    have hlabel : (st.handling v).label w = st.Q.items.getItem? w := Function.update_of_ne hwv ..
    dsimp only
    by_cases hbetter : ∀ q, st.Q.items.getItem? w = some q → add d c < q
    · rw [if_pos hbetter]
      refine ⟨_, rfl, PriorityDictionary.setItem_valid hvalid w (add d c), ?_, rfl, ?_⟩
      · have hlabels : State.handling v
            { st with Q := st.Q.setItem w (add d c), P := st.P.setItem w v } =
            (st.handling v).improve v w (add d c) := by
          rw [State.handling, State.handling, Labels.improve, PriorityDictionary.setItem_items,
            PyDict.getItem?_setItem_eq, PyDict.getItem?_setItem_eq, Function.update_comm hwv]
        rw [hlabels]
        exact Labels.improve_inv hinv hv he hw (fun q hq => hbetter q (hlabel ▸ hq))
      · dsimp only
        rw [PriorityDictionary.setItem_items, PyDict.getItem?_setItem, if_neg hwv.symm]
        exact hQ
    · rw [if_neg hbetter]
      simp only [not_forall, not_lt] at hbetter
      obtain ⟨q, hq, hle⟩ := hbetter
      exact ⟨st, rfl, hvalid, hinv.skip hv he (.inr ⟨q, hlabel.trans hq, hle⟩), rfl, hQ⟩

/-- All edges of the vertex that is handled. -/
theorem foldlM_relax {edges : List (K × ℚ)} (hvalid : st.Q.Valid)
    (hinv : (st.handling v).Inv add G.weight start fun a _ => a = v)
    (hv : st.D.getItem? v = some d) (hQ : st.Q.items.getItem? v ≠ none)
    (hedges : G.lookup v = some edges) :
    ∃ st', (edges.map Prod.fst).foldlM (relax add G v) st = .ok st' ∧ st'.Q.Valid ∧
      (st'.handling v).Inv add G.weight start (fun _ _ => False) ∧ st'.D = st.D ∧
      st'.Q.items.getItem? v ≠ none := by
  have hweight : ∀ w, G.weight v w = edges.lookup w := by
    intro w
    rw [WeightedGraph.weight, hedges]
    rfl
  -- The invariant of the loop over the neighbors: only the edges to the others are still to do.
  have hfold := foldlM_prefix
    (I := fun pre (st' : State K) => st'.Q.Valid ∧
      (st'.handling v).Inv add G.weight start (fun a b => a = v ∧ b ∉ pre) ∧
      st'.D = st.D ∧ st'.Q.items.getItem? v ≠ none)
    (f := relax add G v) (l := edges.map Prod.fst) (b := st)
    ⟨hvalid, hinv.mono fun _ _ _ _ h => ⟨h, List.not_mem_nil⟩, rfl, hQ⟩ ?_
  · obtain ⟨st', hrun, hvalid', hinv', hD, hQ'⟩ := hfold
    refine ⟨st', hrun, hvalid', hinv'.mono ?_, hD, hQ'⟩
    rintro a b c hab ⟨rfl, hb⟩
    rw [hweight] at hab
    obtain ⟨l₁, l₂, rfl, _⟩ := List.lookup_eq_some_iff.mp hab
    exact hb (by simp)
  -- One neighbor: the edge to it is done, and to no vertex of the prefix.
  · rintro pre w post st₁ hsplit ⟨hvalid₁, hinv₁, hD₁, hQ₁⟩
    obtain ⟨c, he⟩ : ∃ c, G.weight v w = some c := by
      rw [hweight, ← Option.isSome_iff_exists, List.lookup_isSome_iff]
      have hmem : w ∈ edges.map Prod.fst := by
        rw [hsplit]
        exact List.mem_append_right _ List.mem_cons_self
      obtain ⟨⟨w', c⟩, hmem', rfl⟩ := List.mem_map.mp hmem
      exact ⟨(w', c), hmem', beq_self_eq_true w'⟩
    obtain ⟨st', hrun, hvalid', hinv', hD', hQ'⟩ := relax_spec hvalid₁ hinv₁ (hD₁ ▸ hv) hQ₁ he
    refine ⟨st', hrun, hvalid', hinv'.mono ?_, hD'.trans hD₁, hQ'⟩
    rintro a b _ _ ⟨⟨rfl, hb⟩, hne⟩
    refine ⟨rfl, ?_⟩
    rw [List.mem_append, List.mem_singleton]
    rintro (hpre | rfl)
    · exact hb hpre
    · exact hne ⟨rfl, rfl⟩

/-- What holds between two rounds. -/
structure Round (add : ℚ → ℚ → ℚ) (G : WeightedGraph K) (start stop : K) (st : State K) : Prop where
  valid : st.Q.Valid
  inv : st.labels.Inv add G.weight start fun _ _ => False
  entries : ∀ v, st.D.getItem? v ≠ none → G.lookup v ≠ none ∧ v ≠ stop

/-- A vertex without an entry comes before the end: there is a way to it that is shorter than
all those to the end, or no longer if its key is smaller. -/
def BlockedBy (add : ℚ → ℚ → ℚ) (G : WeightedGraph K) (start stop : K) : Prop :=
  ∃ v p c, G.lookup v = none ∧ WalkBy add G.weight start v p c ∧
    ∀ q d, WalkBy add G.weight start stop q d → toLex (c, v) < toLex (d, stop)

/-- The same with exact lengths. -/
abbrev Blocked (G : WeightedGraph K) (start stop : K) : Prop := BlockedBy HAdd.hAdd G start stop

/-- A vertex without an entry, besides the end, is no farther than the end. -/
def ObstructedBy (add : ℚ → ℚ → ℚ) (G : WeightedGraph K) (start stop : K) : Prop :=
  ∃ v p c, v ≠ stop ∧ G.lookup v = none ∧ WalkBy add G.weight start v p c ∧
    ∀ q d, WalkBy add G.weight start stop q d → c ≤ d

/-- The search is over: the end is settled, or there is no way to it. -/
def Over (add : ℚ → ℚ → ℚ) (G : WeightedGraph K) (start stop : K) (st : State K) : Prop :=
  (∃ (d : ℚ) (L : Labels K ℚ) (todo : K → K → Prop), L.Inv add G.weight start todo ∧
    L.settled = st.D.getItem? ∧ L.pred = st.P.getItem? ∧ st.D.getItem? stop = some d) ∨
  (st.D.getItem? stop = none ∧ ∀ p c, ¬ WalkBy add G.weight start stop p c)

/-- The vertices that are not settled. -/
def unsettled (G : WeightedGraph K) (start : K) (st : State K) : ℕ :=
  (start :: G.neighbors).countP fun v => (st.D.getItem? v).isNone

theorem Round.stop_unsettled (h : Round add G start stop st) : st.D.getItem? stop = none := by
  by_contra hne
  exact (h.entries stop hne).2 rfl

theorem mem_vertices (h : Round add G start stop st) (hv : st.Q.items.getItem? v = some d) :
    v ∈ start :: G.neighbors := by
  by_cases hvs : v = start
  · exact hvs ▸ List.mem_cons_self
  · obtain ⟨u, du, c, _, _, he, _⟩ := h.inv.label v d hv hvs
    exact List.mem_cons_of_mem _ (mem_neighbors he)

theorem unsettled_lt {st' : State K} (hv : v ∈ start :: G.neighbors)
    (hnone : st.D.getItem? v = none)
    (hD : st'.D.getItem? = Function.update st.D.getItem? v (some d)) :
    unsettled G start st' < unsettled G start st := by
  refine countP_lt_countP (fun u _ hu => ?_) hv (by rw [hnone]; rfl) ?_
  · rw [hD, Function.update_apply] at hu
    split at hu
    · cases hu
    · exact hu
  · rw [hD, Function.update_self]
    exact Bool.false_ne_true

/-- With nothing left to settle there is no way to what is unsettled. -/
theorem not_walk_of_empty (hext : Extends add G.weight start) (h : Round add G start stop st)
    (hempty : st.Q.items.entries = []) (hv : st.D.getItem? v = none) (p : List K) (c : ℚ) :
    ¬ WalkBy add G.weight start v p c := by
  intro hwalk
  obtain ⟨y, e, hy, _⟩ := h.inv.exists_label hext hv hwalk
  change st.Q.items.getItem? y = some e at hy
  rw [PyDict.entries_eq_nil_iff.mp hempty y] at hy
  cases hy

/-- A vertex becomes final. -/
def State.finish (st : State K) (v : K) (d : ℚ) (heap : List (ℚ ×ₗ K)) : State K where
  D := st.D.setItem v d
  P := st.P
  Q := ⟨st.Q.items, heap⟩

theorem handling_finish (st : State K) (v : K) (d : ℚ) (heap : List (ℚ ×ₗ K)) :
    (st.finish v d heap).handling v = st.labels.settle v d := by
  rw [State.handling, State.labels, Labels.settle]
  dsimp only [State.finish]
  rw [PyDict.getItem?_setItem_eq]

/-- A round, with the vertex the iterator yields. -/
theorem loop_eq {fuel : ℕ} {heap : List (ℚ ×ₗ K)} (hne : st.Q.items.entries ≠ [])
    (hsmall : st.Q.smallest = .ok (v, ⟨st.Q.items, heap⟩)) (hv : st.Q.items.getItem? v = some d) :
    loop add G (some stop) (fuel + 1) st =
      if stop = v then .ok (st.finish v d heap)
      else
        match G.lookup v with
        | none => .error .valueError
        | some edges => (do
            let st' ← (edges.map Prod.fst).foldlM (relax add G v) (st.finish v d heap)
            loop add G (some stop) fuel { st' with Q := ← st'.Q.delItem v }) := by
  have hlen : st.Q.items.entries.length ≠ 0 := fun h0 => hne (List.length_eq_zero_iff.mp h0)
  rw [loop, if_neg hlen, hsmall]
  simp only [bind, Except.bind, PyDict.getItem_eq_ok hv, Option.some.injEq]
  rfl

/-- The rest of a round behind the choice of a vertex with an entry. -/
theorem round_next (hext : Extends add G.weight start) (h : Round add G start stop st) {x : K}
    {heap : List (ℚ ×ₗ K)} {edges : List (K × ℚ)}
    (hvalid : PriorityDictionary.Valid ⟨st.Q.items, heap⟩) (hx : st.Q.items.getItem? x = some d)
    (hmin : ∀ y e, st.Q.items.getItem? y = some e → toLex (d, x) ≤ toLex (e, y))
    (hstop : stop ≠ x) (hedges : G.lookup x = some edges) :
    ∃ st' Q, (edges.map Prod.fst).foldlM (relax add G x) (st.finish x d heap) = .ok st' ∧
      st'.Q.delItem x = .ok Q ∧ Round add G start stop { st' with Q := Q } ∧
      unsettled G start { st' with Q := Q } < unsettled G start st := by
  -- The vertex is settled at its distance, and its edges are to do.
  have hinv : ((st.finish x d heap).handling x).Inv add G.weight start fun u _ => u = x := by
    rw [handling_finish]
    exact Labels.settle_inv hext h.inv hx hmin
  have hD : (st.finish x d heap).D.getItem? = Function.update st.D.getItem? x (some d) :=
    PyDict.getItem?_setItem_eq st.D x d
  -- Settling it does not take it out of the queue yet.
  have hdx : (st.finish x d heap).D.getItem? x = some d := by
    rw [hD, Function.update_self]
  have hQx : (st.finish x d heap).Q.items.getItem? x ≠ none := by
    dsimp only [State.finish]
    rw [hx]
    exact Option.some_ne_none d
  -- All its edges are done, then it leaves the queue.
  obtain ⟨st', hrun, hvalid', hinv', hD', hQ'⟩ := foldlM_relax hvalid hinv hdx hQx hedges
  obtain ⟨q, hq⟩ := Option.ne_none_iff_exists'.mp hQ'
  refine ⟨st', { st'.Q with items := st'.Q.items.erase x }, hrun, ?_, ⟨?_, ?_, ?_⟩, ?_⟩
  · rw [PriorityDictionary.delItem, hq]
  · exact PriorityDictionary.delItem_valid hvalid' x
  · have hlabels : State.labels { st' with Q := { st'.Q with items := st'.Q.items.erase x } } =
        st'.handling x := by
      rw [State.labels, State.handling]
      dsimp only
      rw [PyDict.getItem?_erase_eq]
    rw [hlabels]
    exact hinv'
  · intro v hv
    dsimp only at hv
    rw [hD', hD, Function.update_apply] at hv
    split at hv
    case isTrue heq =>
      rw [heq, hedges]
      exact ⟨Option.some_ne_none edges, hstop.symm⟩
    case isFalse => exact h.entries v hv
  · refine unsettled_lt (d := d) (mem_vertices h hx) (h.inv.unsettled x d hx) ?_
    dsimp only
    rw [hD']
    exact hD

theorem loop_spec (hext : Extends add G.weight start) {fuel : ℕ} (h : Round add G start stop st)
    (hfuel : unsettled G start st < fuel) :
    (loop add G (some stop) fuel st = .error .valueError ∧ ObstructedBy add G start stop ∧
      (NothingLost add G.weight start → BlockedBy add G start stop)) ∨
    ((NothingLost add G.weight start → ¬ BlockedBy add G start stop) ∧
      ∃ st', loop add G (some stop) fuel st = .ok st' ∧ Over add G start stop st') := by
  -- On the fuel, which is more than the vertices that are not settled.
  induction fuel generalizing st with
  | zero => exact absurd hfuel (Nat.not_lt_zero _)
  | succ fuel ih =>
    have hentry : ∀ v, G.lookup v = none → st.D.getItem? v = none := by
      intro v hv
      by_contra hne
      exact (h.entries v hne).1 hv
    by_cases hempty : st.Q.items.entries = []
    · -- Every vertex there is a way to is settled, and has an entry.
      right
      refine ⟨?_, st, by rw [loop, hempty]; rfl, .inr ⟨h.stop_unsettled, ?_⟩⟩
      · rintro - ⟨v, p, c, hv, hp, _⟩
        exact not_walk_of_empty hext h hempty (hentry v hv) p c hp
      · exact not_walk_of_empty hext h hempty h.stop_unsettled
    obtain ⟨x, heap, hsmall, hvalid, d, hx, hmin⟩ :=
      PriorityDictionary.smallest_spec h.valid hempty
    rw [loop_eq hempty hsmall hx]
    have hfirst : NothingLost add G.weight start → ∀ v, st.D.getItem? v = none → ∀ p c,
        WalkBy add G.weight start v p c → toLex (d, x) ≤ toLex (c, v) :=
      fun hlost v hv p c hp => h.inv.le_of_walk hext hlost hmin hv hp
    by_cases hstop : stop = x
    · -- What has no entry is not settled, so it comes later.
      subst hstop
      right
      rw [if_pos rfl]
      refine ⟨?_, _, rfl, .inl ⟨d, st.labels.settle stop d, _,
        Labels.settle_inv hext h.inv hx hmin, ?_, rfl, ?_⟩⟩
      · rintro hlost ⟨v, p, c, hv, hp, hlt⟩
        obtain ⟨q, hq⟩ := h.inv.walk_of_label hx
        exact absurd (hlt q d hq) (hfirst hlost v (hentry v hv) p c hp).not_gt
      · exact (PyDict.getItem?_setItem_eq st.D stop d).symm
      · dsimp only [State.finish]
        rw [PyDict.getItem?_setItem, if_pos rfl]
    rw [if_neg hstop]
    cases hedges : G.lookup x with
    | none =>
      left
      obtain ⟨q, hq⟩ := h.inv.walk_of_label hx
      refine ⟨rfl, ⟨x, q, d, Ne.symm hstop, hedges, hq, fun p c hp => ?_⟩, fun hlost => ?_⟩
      · exact h.inv.least_le hext hmin h.stop_unsettled hp
      · refine ⟨x, q, d, hedges, hq, fun p c hp => ?_⟩
        refine lt_of_le_of_ne (hfirst hlost stop h.stop_unsettled p c hp) fun heq => hstop ?_
        exact (Prod.mk.inj (toLex.injective heq)).2.symm
    | some edges =>
      obtain ⟨st', Q, hrun, hdel, hround, hlt⟩ := round_next hext h hvalid hx hmin hstop hedges
      dsimp only
      rw [hrun]
      simp only [bind, Except.bind, hdel]
      exact ih hround (by omega)

theorem round_init (add : ℚ → ℚ → ℚ) (G : WeightedGraph K) (start stop : K) : Round add G start stop
    ⟨Keyed.empty, Keyed.empty, PriorityDictionary.empty.setItem start 0⟩ := by
  refine ⟨PriorityDictionary.setItem_valid PriorityDictionary.valid_empty start 0, ?_, ?_⟩
  · have hlabels : State.labels (State.mk Keyed.empty Keyed.empty
        (PriorityDictionary.empty.setItem start 0)) = Labels.init start fun _ => none := by
      rw [State.labels, Labels.init]
      dsimp only
      rw [PriorityDictionary.setItem_items, PyDict.getItem?_setItem_eq]
      rfl
    rw [hlabels]
    exact Labels.inv_init start _
  · intro v hv
    exact absurd rfl hv

theorem dijkstraBy_spec (hext : Extends add G.weight start) :
    (dijkstraBy add G start (some stop) = .error .valueError ∧ ObstructedBy add G start stop ∧
      (NothingLost add G.weight start → BlockedBy add G start stop)) ∨
    ((NothingLost add G.weight start → ¬ BlockedBy add G start stop) ∧
      ∃ st, dijkstraBy add G start (some stop) = .ok st ∧ Over add G start stop st) := by
  refine loop_spec hext (round_init add G start stop) (Nat.lt_succ_of_le ?_)
  exact List.countP_le_length

end Rounds

/-! ## Result -/

section Result

variable {add : ℚ → ℚ → ℚ} {G : WeightedGraph K} {start stop v : K} {L : Labels K ℚ}
  {P : PyDict K K} {d : ℚ} {todo : K → K → Prop}

/-- The entries of vertices up to a rank. -/
def within (P : PyDict K K) (rank : K → ℕ) (n : ℕ) : ℕ := P.entries.countP fun a => rank a.1 ≤ n

theorem within_lt {u : K} {rank : K → ℕ} (hpred : P.getItem? v = some u) (hlt : rank u < rank v) :
    within P rank (rank u) < within P rank (rank v) := by
  refine countP_lt_countP (fun a _ ha => ?_) (PyDict.getItem?_eq_some_iff.mp hpred) ?_ ?_
  · simp only [decide_eq_true_eq] at ha ⊢
    exact ha.trans hlt.le
  · simp only [decide_eq_true_eq]
    exact le_refl (rank v)
  · simp only [decide_eq_true_eq, not_le]
    exact hlt

/-- The way back is a shortest walk, with smaller ranks in front. -/
theorem walkBack_spec (hext : Extends add G.weight start) (hinv : L.Inv add G.weight start todo)
    (hP : L.pred = P.getItem?) {rank : K → ℕ}
    (hrank : ∀ u v, L.settled v ≠ none → v ≠ start → L.pred v = some u → rank u < rank v)
    {fuel : ℕ} (path : List K) (hv : L.settled v = some d) (hfuel : within P rank (rank v) < fuel) :
    ∃ p, walkBack P start fuel path v = .ok (path ++ p.reverse) ∧
      WalkBy add G.weight start v p d ∧ p.Nodup ∧ ∀ u ∈ p, rank u ≤ rank v := by
  -- On the fuel, which is more than the entries up to the rank.
  induction fuel generalizing path v d with
  | zero => exact absurd hfuel (Nat.not_lt_zero _)
  | succ fuel ih =>
    have hset : L.settled v ≠ none := by
      rw [hv]
      exact Option.some_ne_none d
    rw [walkBack]
    by_cases hvs : v = start
    · subst hvs
      have hstart := hinv.settled_start hext hset
      rw [hv, Option.some.injEq] at hstart
      subst hstart
      rw [if_pos rfl]
      refine ⟨[v], rfl, .nil, List.nodup_singleton v, ?_⟩
      intro u hu
      rw [List.mem_singleton] at hu
      rw [hu]
    -- The predecessor has a smaller rank.
    · obtain ⟨u, du, c, hpred, hu, he, rfl⟩ := hinv.linked v d hv hvs
      have hlt := hrank u v hset hvs hpred
      rw [hP] at hpred
      obtain ⟨p, hrun, hwalk, hnodup, hranks⟩ := ih (path ++ [v]) hu
        (by have := within_lt hpred hlt; omega)
      rw [if_neg hvs, PyDict.getItem_eq_ok hpred]
      refine ⟨p ++ [v], ?_, hwalk.snoc he, ?_, ?_⟩
      · refine Eq.trans hrun ?_
        rw [List.append_assoc, List.reverse_append]
        rfl
      · -- All vertices in front have smaller ranks.
        have hnew : v ∉ p := fun hmem => absurd hlt (hranks v hmem).not_gt
        rw [List.nodup_append]
        refine ⟨hnodup, List.nodup_singleton v, ?_⟩
        rintro a ha b hb rfl
        rw [List.mem_singleton] at hb
        exact hnew (hb ▸ ha)
      · intro x hx
        rcases List.mem_append.mp hx with hx | hx
        · exact (hranks x hx).trans hlt.le
        · rw [List.mem_singleton] at hx
          rw [hx]

/-- A simple path of least cost. -/
structure IsShortestBy (add : ℚ → ℚ → ℚ) (G : WeightedGraph K) (start stop : K) (cost : ℚ)
    (path : List K) : Prop where
  walk : WalkBy add G.weight start stop path cost
  nodup : path.Nodup
  le : ∀ q d, WalkBy add G.weight start stop q d → cost ≤ d

/-- A simple path of least exact cost. -/
abbrev IsShortest (G : WeightedGraph K) (start stop : K) (cost : ℚ) (path : List K) : Prop :=
  IsShortestBy HAdd.hAdd G start stop cost path

/-- The three ways the search ends. -/
theorem shortestPathBy_cases (hext : Extends add G.weight start) :
    (shortestPathBy add G start stop = .error .valueError ∧ ObstructedBy add G start stop ∧
      (NothingLost add G.weight start → BlockedBy add G start stop)) ∨
    ((NothingLost add G.weight start → ¬ BlockedBy add G start stop) ∧
      ((∀ p c, ¬ WalkBy add G.weight start stop p c) ∧
          shortestPathBy add G start stop = .error .keyError ∨
        ∃ cost path, shortestPathBy add G start stop = .ok (cost, path) ∧
          IsShortestBy add G start stop cost path)) := by
  rw [shortestPathBy]
  rcases @dijkstraBy_spec K _ add G start stop hext with ⟨herr, hstuck⟩ | ⟨hfree, st, hrun, hover⟩
  · left
    rw [herr]
    exact ⟨rfl, hstuck⟩
  right
  rw [hrun]
  refine ⟨hfree, ?_⟩
  rcases hover with ⟨d, L, todo, hinv, hsettled, hpred, hd⟩ | ⟨hnone, hno⟩
  · right
    obtain ⟨_, rank, _, hrank⟩ := hinv.ranked
    obtain ⟨p, hback, hwalk, hnodup, _⟩ := walkBack_spec hext hinv hpred hrank []
      (by rw [hsettled]; exact hd) (Nat.lt_succ_of_le List.countP_le_length)
    refine ⟨d, p, ?_, hwalk, hnodup, fun q c hq => ?_⟩
    · simp only [bind, Except.bind, PyDict.getItem_eq_ok hd]
      rw [hback, List.nil_append]
      simp only [List.reverse_reverse]
      rfl
    · exact (hinv.isDist stop d (by rw [hsettled]; exact hd)).le q c hq
  · left
    refine ⟨hno, ?_⟩
    simp only [bind, Except.bind, PyDict.getItem, hnone]

/-- The same with exact sums, which lose nothing. -/
theorem shortestPath_cases (hpos : Positive G.weight) :
    (Blocked G start stop ∧ shortestPath G start stop = .error .valueError) ∨
    (¬ Blocked G start stop ∧ (∀ p c, ¬ Walk G.weight start stop p c) ∧
      shortestPath G start stop = .error .keyError) ∨
    (¬ Blocked G start stop ∧
      ∃ cost path, shortestPath G start stop = .ok (cost, path) ∧
        IsShortest G start stop cost path) := by
  have hlost := hpos.nothingLost start
  rcases shortestPathBy_cases (hpos.extends start) with
    ⟨herr, _, hblocked⟩ | ⟨hfree, ⟨hno, herr⟩ | hpath⟩
  · exact .inl ⟨hblocked hlost, herr⟩
  · exact .inr (.inl ⟨hfree hlost, hno, herr⟩)
  · exact .inr (.inr ⟨hfree hlost, hpath⟩)

theorem nonneg_of_walk_pyAdd {p : List K} {c : ℚ} (hpos : Positive G.weight)
    (h : WalkBy pyAdd G.weight start v p c) : 0 ≤ c := by
  induction h with
  | nil => exact le_refl 0
  | snoc h he ih => exact addRounded_nonneg (by norm_num) ih (hpos _ _ _ he).le

/-- Floats: the cost of a walk has been rounded, so the next sum is no smaller. -/
theorem extends_pyAdd (hpos : Positive G.weight) : Extends pyAdd G.weight start where
  le := by
    intro u p c v d h he
    have hd := hpos u v d he
    cases h with
    | nil => exact addRounded_nonneg (by norm_num) le_rfl hd.le
    | snoc h' he' =>
      have hsum := add_pos_of_nonneg_of_pos (nonneg_of_walk_pyAdd hpos h') (hpos _ _ _ he')
      have hrounded := (two_zpow_pos _).trans_le
        (two_zpow_log_le_roundDigits (p := 53) (by norm_num) hsum)
      exact (roundDigits_le_roundDigits_roundDigits (by norm_num) hsum).trans
        (roundDigits_mono (by norm_num) hrounded (le_add_of_nonneg_right hd.le))
  mono := by
    intro c c' u v d hc hle he
    have hd := hpos u v d he
    exact roundDigits_mono (by norm_num) (add_pos_of_nonneg_of_pos hc hd) (by linarith)

theorem positive_weight (h : ∀ a ∈ G, ∀ b ∈ a.2, 0 < b.2) : Positive G.weight := by
  intro u v c huv
  obtain ⟨edges, hu, hv⟩ := weight_eq_some huv
  exact h _ hu _ hv

/-- What the iterator of the priority dictionary answers. -/
structure IteratedInOrder {K V : Type} [LinearOrder K] [LinearOrder V]
    (events : List (PriorityDictionary.Event K V)) : Prop where
  /-- A key that is yielded has the least pair of latest value and key. -/
  least : ∀ pre k post, events = pre ++ .yielded k :: post →
    PriorityDictionary.Least (PriorityDictionary.View.after pre).remaining k
  /-- The iterator stops when no key remains. -/
  complete : ∀ pre post, events = pre ++ .stopped :: post →
    ∀ k, (PriorityDictionary.View.after pre).remaining k = none
  /-- A key that is yielded again has been set in a later round than its own. -/
  once : ∀ pre k mid post, events = pre ++ .yielded k :: (mid ++ .yielded k :: post) →
    ∃ a j b v, mid = a ++ .yielded j :: b ∧ .setItem k v ∈ b

/-- The one vertex besides start and end is nearer than the end and has no entry; and a key set
again behind its round. -/
theorem sink_not_returned :
    (Positive (WeightedGraph.weight [(0, [(1, 1), (2, 5)])]) ∧
      (∃ p c, Walk (WeightedGraph.weight [(0, [(1, 1), (2, 5)])]) 0 2 p c) ∧
      shortestPath [(0, [(1, 1), (2, 5)])] 0 2 = .error .valueError) ∧
    PriorityDictionary.runEmpty
        [.setItem 0 1, .setItem 1 5, .next, .next, .setItem 0 2, (.next : PriorityDictionary.Op ℕ ℕ)] =
      .ok [.setItem 0 1, .setItem 1 5, .yielded 0, .yielded 1, .setItem 0 2, .yielded 0] :=
  ⟨⟨positive_weight (by decide), ⟨_, _, .snoc .nil (d := 5) rfl⟩, by decide +kernel⟩,
    by decide +kernel⟩

/-- The search returns a shortest path, or fails at a vertex without an entry that is nearer; with
floats likewise, but where a weight is lost the vertex may be as far as the end. The iterator of
the priority dictionary fails exactly where a missing entry is deleted, and yields in order. -/
theorem shortestPath_and_iteration :
    (∀ {K : Type} [LinearOrder K] (G : WeightedGraph K) (start stop : K), Positive G.weight →
      (∃ p c, Walk G.weight start stop p c) →
      (Blocked G start stop → shortestPath G start stop = .error .valueError) ∧
      (¬ Blocked G start stop →
        ∃ cost path, shortestPath G start stop = .ok (cost, path) ∧
          IsShortest G start stop cost path)) ∧
    (∀ {K : Type} [LinearOrder K] (G : WeightedGraph K) (start stop : K), Positive G.weight →
      (∃ p c, WalkBy pyAdd G.weight start stop p c) →
      ((∃ cost path, shortestPathBy pyAdd G start stop = .ok (cost, path) ∧
          IsShortestBy pyAdd G start stop cost path) ∨
        shortestPathBy pyAdd G start stop = .error .valueError ∧
          ObstructedBy pyAdd G start stop) ∧
      (NothingLost pyAdd G.weight start →
        (shortestPathBy pyAdd G start stop = .error .valueError ↔
          BlockedBy pyAdd G start stop))) ∧
    ∀ {K V : Type} [LinearOrder K] [LinearOrder V] (ops : List (PriorityDictionary.Op K V)),
      ((∃ e, PriorityDictionary.runEmpty ops = .error e) ↔
        ∃ pre op post events, ops = pre ++ op :: post ∧
          PriorityDictionary.runEmpty pre = .ok events ∧ .stopped ∉ events ∧
            (PriorityDictionary.View.after events).DeletesMissing op) ∧
      ∀ events, PriorityDictionary.runEmpty ops = .ok events → IteratedInOrder events := by
  refine ⟨?_, ?_, ?_⟩
  · rintro K _ G start stop hpos ⟨p, c, hwalk⟩
    rcases @shortestPath_cases K _ G start stop hpos with
      ⟨hblocked, herr⟩ | ⟨_, hno, _⟩ | ⟨hfree, h⟩
    · exact ⟨fun _ => herr, fun hfree => absurd hblocked hfree⟩
    · exact absurd hwalk (hno p c)
    · exact ⟨fun hblocked => absurd hblocked hfree, fun _ => h⟩
  · rintro K _ G start stop hpos ⟨p, c, hwalk⟩
    rcases @shortestPathBy_cases K _ pyAdd G start stop (extends_pyAdd hpos) with
      ⟨herr, hnear, hblocked⟩ | ⟨hfree, ⟨hno, _⟩ | ⟨cost, path, hrun, hshort⟩⟩
    · exact ⟨.inr ⟨herr, hnear⟩, fun hlost => ⟨fun _ => hblocked hlost, fun _ => herr⟩⟩
    · exact absurd hwalk (hno p c)
    · refine ⟨.inl ⟨cost, path, hrun, hshort⟩, fun hlost => ⟨fun herr => ?_, fun hblocked => ?_⟩⟩
      · rw [hrun] at herr
        cases herr
      · exact absurd hblocked (hfree hlost)
  · intro K V _ _ ops
    constructor
    · exact PriorityDictionary.run_error_iff PriorityDictionary.shows_empty
    · intro events hrun
      constructor
      · intro pre k post hevents
        exact PriorityDictionary.yielded_least hrun hevents
      · intro pre post hevents
        exact PriorityDictionary.stopped_none hrun hevents
      · intro pre k mid post hevents
        exact PriorityDictionary.yielded_again hrun hevents

/-- A loop over three keys that gives one of them a smaller value and deletes another, and sets the
first again after its round. -/
def mixedOps : List (PriorityDictionary.Op ℕ ℕ) :=
  [.setItem 0 1, .setItem 1 7, .setItem 2 5, .next, .setItem 1 3, .delItem 2, .next, .setItem 0 9,
    .next, .next]

/-- Three hops with the float 1.1, and one with the float 3.3; vertex 4 has no entry. -/
def floatGraph : WeightedGraph ℕ :=
  [(0, [(1, 2476979795053773 / 2 ^ 51), (3, 7430939385161318 / 2 ^ 51), (4, 4)]),
    (1, [(2, 2476979795053773 / 2 ^ 51)]), (2, [(3, 2476979795053773 / 2 ^ 51)])]

theorem floatGraph_positive : Positive floatGraph.weight := positive_weight (by decide +kernel)

/-- No vertex with an edge is farther than 2.2. -/
theorem floatGraph_nothingLost : NothingLost pyAdd floatGraph.weight 0 := by
  intro u v c d hc he
  have hnonneg := hc.nonneg (extends_pyAdd floatGraph_positive)
  have h1 : WalkBy pyAdd floatGraph.weight 0 1 _ _ :=
    .snoc .nil (d := 2476979795053773 / 2 ^ 51) rfl
  have h2 := h1.snoc (v := 2) (d := 2476979795053773 / 2 ^ 51) rfl
  have hbound : c ≤ 3 := by
    obtain ⟨edges, hu, -⟩ := weight_eq_some he
    simp only [floatGraph, List.mem_cons, Prod.mk.injEq, List.not_mem_nil, or_false] at hu
    rcases hu with ⟨rfl, -⟩ | ⟨rfl, -⟩ | ⟨rfl, -⟩
    · exact (hc.le _ _ .nil).trans (by norm_num)
    · exact (hc.le _ _ h1).trans (by decide +kernel)
    · exact (hc.le _ _ h2).trans (by decide +kernel)
  have hweight : ∀ a ∈ floatGraph, ∀ b ∈ a.2, (1 : ℚ) ≤ b.2 := by decide +kernel
  obtain ⟨edges, hu, hv⟩ := weight_eq_some he
  have hd : 1 ≤ d := hweight _ hu _ hv
  refine lt_addRounded hnonneg (by linarith) ?_
  linarith

/-- The shortest path of a textbook graph, and one of a graph with floats, where the hop is nearer
than the sum of three; a loop that ends, and the one that deletes the key of its round. -/
theorem shortestPath_and_iteration_clr :
    (∃ cost path, shortestPath clrGraph 0 2 = .ok (cost, path) ∧
      IsShortest clrGraph 0 2 cost path) ∧
    (∃ cost, shortestPathBy pyAdd floatGraph 0 3 = .ok (cost, [0, 3]) ∧
      IsShortestBy pyAdd floatGraph 0 3 cost [0, 3] ∧ ¬ BlockedBy pyAdd floatGraph 0 3) ∧
    PriorityDictionary.runEmpty mixedOps = .ok [.setItem 0 1, .setItem 1 7, .setItem 2 5,
      .yielded 0, .setItem 1 3, .delItem 2, .yielded 1, .setItem 0 9, .yielded 0, .stopped] ∧
    IteratedInOrder [.setItem 0 1, .setItem 1 7, .setItem 2 5, .yielded 0, .setItem 1 3, .delItem 2,
      .yielded 1, .setItem 0 9, .yielded 0, (.stopped : PriorityDictionary.Event ℕ ℕ)] ∧
    ∃ e, PriorityDictionary.runEmpty
      [.setItem 0 1, .next, .delItem 0, (.next : PriorityDictionary.Op ℕ ℕ)] = .error e := by
  have hdirect : Walk clrGraph.weight 0 1 _ _ := .snoc .nil (d := 10) rfl
  obtain ⟨hblocked, hfree⟩ := shortestPath_and_iteration.1 clrGraph 0 2
    (positive_weight (by decide)) ⟨_, _, hdirect.snoc (d := 1) rfl⟩
  have hrun : shortestPathBy pyAdd floatGraph 0 3 = .ok (7430939385161318 / 2 ^ 51, [0, 3]) := by
    decide +kernel
  obtain ⟨hends, hraises⟩ := shortestPath_and_iteration.2.1 floatGraph 0 3 floatGraph_positive
    ⟨_, _, .snoc .nil (d := 7430939385161318 / 2 ^ 51) rfl⟩
  have hraises := hraises floatGraph_nothingLost
  rw [hrun] at hends hraises
  refine ⟨?_, ⟨_, hrun, ?_, fun h => ?_⟩, by decide +kernel,
    (shortestPath_and_iteration.2.2 mixedOps).2 _ (by decide +kernel),
    (shortestPath_and_iteration.2.2 _).1.mpr
      ⟨[.setItem 0 1, .next, .delItem 0], .next, [], [.setItem 0 1, .yielded 0, .delItem 0], rfl,
        by decide +kernel, by decide, 0, rfl, rfl⟩⟩
  · by_cases h : Blocked clrGraph 0 2
    · exact absurd (hblocked h) (by decide +kernel)
    · exact hfree h
  · rcases hends with ⟨cost, path, heq, hshort⟩ | ⟨herr, _⟩
    · cases heq
      exact hshort
    · cases herr
  · exact absurd (hraises.mpr h) (by simp)

end Result

end Dijkstra

end MasterScheduler.Host
