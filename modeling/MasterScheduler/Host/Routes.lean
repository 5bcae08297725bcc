import MasterScheduler.Host.Links
import MasterScheduler.Host.SubPaths
import MasterScheduler.Host.TimeSources

/-!
# MasterScheduler.Host.Routes — flows over the paths of Dijkstra

`compute_path` takes its path from `dijkstra.shortestPath`. What the scheduler
needs of a path is what a shortest path has: no node twice, and edges of the
graph only.

- `schedulable_of_dijkstra`: the flows that can be routed can be scheduled.
- `RoutedSchedule.of_dijkstra`: their schedules are routed over simple paths.
-/

namespace MasterScheduler.Host

open Lib Dijkstra

/-- The path that `shortestPath` returns. -/
def dijkstraPath (G : Graph) (start stop : Node) : Except PyError (List Node) :=
  (shortestPath G start stop).map Prod.snd

section

variable {G : WeightedGraph Node} {start stop : Node} {path sub : List Node} {c : ℚ} {f : Flow}
  {etxPower : ℕ}

theorem dijkstraPath_spec (hpos : Positive G.weight) (h : dijkstraPath G start stop = .ok path) :
    ∃ cost, IsShortest G start stop cost path := by
  unfold dijkstraPath at h
  rcases @shortestPath_cases Node _ G start stop hpos with
    ⟨_, herr⟩ | ⟨_, _, herr⟩ | ⟨_, cost, p, hrun, hshort⟩
  · rw [herr] at h
    cases h
  · rw [herr] at h
    cases h
  · rw [hrun] at h
    cases h
    exact ⟨cost, hshort⟩

/-- The path of a flow has no node twice. -/
theorem nodup_of_routeOf (hpos : Positive (WeightedGraph.weight f.graph))
    (h : RouteOf dijkstraPath etxPower f path) : path.Nodup := by
  obtain ⟨cost, hshort⟩ := dijkstraPath_spec (positive_etxGraph etxPower hpos) h
  exact hshort.nodup

/-- A walk has edges only. -/
theorem weight_of_walk (h : Walk G.weight start stop path c) :
    ∀ hop ∈ hops path, ∃ w, G.weight hop.1 hop.2 = some w := by
  induction h with
  | nil =>
    intro hop hhop
    cases hhop
  | @snoc u v p c d h he ih =>
    have hne : p ≠ [] := by
      obtain ⟨q, rfl⟩ := h.head_eq
      exact List.cons_ne_nil _ _
    have hlast : hops (p ++ [v]) = hops p ++ [(u, v)] :=
      hops_append_tail (b := [u, v]) hne h.getLast?_eq
    intro hop hhop
    rw [hlast, List.mem_append, List.mem_singleton] at hhop
    rcases hhop with hhop | rfl
    · exact ih hop hhop
    · exact ⟨d, he⟩

theorem two_le_length_of_walk (h : Walk G.weight start stop path c) (hne : start ≠ stop) :
    2 ≤ path.length := by
  obtain ⟨q, rfl⟩ := h.head_eq
  cases q with
  | nil => exact absurd (Option.some.inj h.getLast?_eq) hne
  | cons a q =>
    rw [List.length_cons, List.length_cons]
    omega

theorem etx_eq (g : Graph) (u v : Node) {w : ℚ} (h : WeightedGraph.weight g u v = some w) :
    g.etx u v = .ok w := by
  unfold Graph.etx
  unfold WeightedGraph.weight at h
  rw [h]

/-- The hops of a part are hops of the path. -/
theorem mem_hops_of_isInfix (h : sub <:+: path) {hop : Node × Node} (hhop : hop ∈ hops sub) :
    hop ∈ hops path := by
  obtain ⟨i, hi, rfl⟩ := List.mem_iff_getElem.1 hhop
  unfold hops at hi ⊢
  rw [List.length_zip, List.length_tail] at hi
  have hnext : NextHop sub sub[i] sub[i + 1] :=
    ⟨i, List.getElem?_eq_getElem (by omega), List.getElem?_eq_getElem (by omega)⟩
  obtain ⟨j, hj, hj'⟩ := hnext.of_isInfix h
  obtain ⟨hjlt, hjx⟩ := List.getElem?_eq_some_iff.1 hj
  obtain ⟨hjlt', hjx'⟩ := List.getElem?_eq_some_iff.1 hj'
  rw [List.mem_iff_getElem]
  refine ⟨j, by rw [List.length_zip, List.length_tail]; omega, ?_⟩
  simp only [List.getElem_zip, List.getElem_tail, hjx, hjx']

/-- A flow between two nodes can be scheduled if there is a way, no vertex without an entry is
nearer, and all ETX values are one at least. -/
theorem schedulable_of_dijkstra (hm : 3 ≤ f.maxSubFlowLength)
    (hetx : ∀ u v w, WeightedGraph.weight f.graph u v = some w → 1 ≤ w)
    (hne : f.source ≠ f.destination)
    (hreach : ∃ p c, Walk (WeightedGraph.weight f.graph) f.source f.destination p c)
    (hfree : ¬ Blocked (etxGraph f.graph etxPower) f.source f.destination) :
    Schedulable dijkstraPath etxPower f := by
  have hpos : Positive (WeightedGraph.weight f.graph) :=
    fun u v w h => lt_of_lt_of_le one_pos (hetx u v w h)
  obtain ⟨p, c, hwalk⟩ := hreach
  obtain ⟨d, hwalk'⟩ := walk_etxGraph etxPower hwalk
  -- `dijkstra.py` finds a route, is blocked, or there is none.
  rcases @shortestPath_cases Node _ (etxGraph f.graph etxPower) f.source f.destination
    (positive_etxGraph etxPower hpos) with ⟨hblocked, _⟩ | ⟨_, hno, _⟩ | ⟨_, cost, path, hrun, hshort⟩
  · exact absurd hblocked hfree
  · exact absurd hwalk' (hno p d)
  have hroute : dijkstraPath (etxGraph f.graph etxPower) f.source f.destination = .ok path := by
    rw [dijkstraPath, hrun]
    rfl
  -- Every hop of the route is an edge, and so has an estimate of at least one.
  have hedges : ∀ hop ∈ hops path, ∃ w, f.graph.etx hop.1 hop.2 = .ok w ∧ 1 ≤ w := by
    intro hop hhop
    obtain ⟨e, he⟩ := weight_of_walk hshort.walk hop hhop
    rw [etxGraph_weight] at he
    obtain ⟨w, hw, -⟩ := Option.map_eq_some_iff.mp he
    exact ⟨w, etx_eq f.graph _ _ hw, hetx _ _ w hw⟩
  obtain ⟨subs, hsubs, hsplit⟩ := splitPath_ok hm (two_le_length_of_walk hshort.walk hne)
  have hsimple : ∀ sub ∈ subs, SimpleSubPath f.graph sub := by
    intro sub hsub
    have hinfix := splitPath_isInfix hsubs sub hsub
    exact ⟨hshort.nodup.sublist hinfix.sublist, hsplit.two_le sub hsub,
      fun hop hhop => hedges hop (mem_hops_of_isInfix hinfix hhop)⟩
  obtain ⟨costs, hcosts, _⟩ := mapM_forall₂ (f := subPathCostBy (· + ·) f.graph) (l := subs)
    (R := fun _ _ => True) fun sub hsub =>
      (subPathCostBy_ok (· + ·) (hsimple sub hsub).etx).imp fun _ h => ⟨h, trivial⟩
  refine ⟨{ f with path := subs, cost := costs }, ?_, hsimple⟩
  unfold Flow.computePath Flow.computePathBy
  simp only [hroute, hsubs, hcosts, bind, Except.bind, pure, Except.pure]

/-- The schedules of such flows are routed over simple paths. -/
theorem RoutedSchedule.of_dijkstra {add : ℚ → ℚ → ℚ} {flows : List Flow} {numChannels : ℕ}
    {strategy : SchedulingStrategy} {alg : Option WindowSizeAlgorithm}
    {fixedWindowSize : Option ℤ} {S : Schedule} (hne : flows ≠ [])
    (hf : ∀ f ∈ flows, Schedulable dijkstraPath etxPower f)
    (hpos : ∀ f ∈ flows, Positive (WeightedGraph.weight f.graph))
    (hadd : ∀ f ∈ flows, ∀ path, RouteOf dijkstraPath etxPower f path → CountsHops add path.length)
    (hw : WindowChoice strategy alg fixedWindowSize) (hC : 1 ≤ numChannels)
    (hnum : (flows.map (·.flowNumber)).Nodup)
    (hS : createBy add dijkstraPath flows etxPower numChannels strategy alg fixedWindowSize =
      .ok S) :
    RoutedSchedule S ∧ (S.flows.map (·.toFlow)).Perm flows :=
  RoutedSchedule.of_createBy hne hf hadd hw hC
    (fun f hmem _ hroute => nodup_of_routeOf (hpos f hmem) hroute) hnum hS

end

end MasterScheduler.Host
