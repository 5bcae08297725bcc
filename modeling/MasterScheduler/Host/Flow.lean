import Mathlib.Algebra.Order.Floor.Ring
import Mathlib.Data.List.Chain
import Mathlib.Logic.Function.Basic
import MasterScheduler.Lib.Rounding

/-!
# MasterScheduler.Host.Flow — flows, their sub-paths and their cells

The host side of Master (`Master/Python/flow.py`, `cell.py`,
`scheduling_configuration.py`). A flow is routed (`computePath` splits a long
path into overlapping sub-paths) and then cut into cells (`createCells`), one
list of participants per cell, by one of three retransmission strategies.

An ETX value is a rational, as every float is. The sum of floats is rounded:
`computePathBy pyAdd` is what Python computes, `computePath` the same with exact
sums. A schedule depends on the costs only through the windows, and there on
nothing but that a cost is not below the number of hops, which both sums have
in common (`CountsHops`). `dijkstra.shortestPath` is an argument of
`computePath`: nothing below depends on which path it returns.
-/

namespace MasterScheduler.Host

open Lib

/-- Node identifiers as they appear in the neighbour graph. -/
abbrev Node := ℕ

/-- What can go wrong on the modelled paths. `diverges` stands for a loop
without end. -/
inductive PyError where
  | keyError
  | indexError
  | valueError
  | attributeError
  | diverges
deriving DecidableEq, Repr

/-- The neighbour graph, `Dict{sender: Dict{receiver: etx}}`. -/
abbrev Graph := List (Node × List (Node × ℚ))

/-- `graph[sender][receiver]`. -/
def Graph.etx (g : Graph) (sender receiver : Node) : Except PyError ℚ :=
  match (g.lookup sender).bind (·.lookup receiver) with
  | some w => .ok w
  | none => .error .keyError

inductive SchedulingStrategy where
  | noRetransmissions
  | upperEtxTxPerLink
  | slidingWindow
deriving DecidableEq, Repr

inductive WindowSizeAlgorithm where
  | etxBased
  | etxBasedDoubled
  | etxBasedTrippled
  | etxLinkBased
  | etxLinkBasedDoubled
  | etxLinkBasedTrippled
  | fixed
deriving DecidableEq, Repr

/-- A `Cell` object. Two cells of a flow may carry the same participants, so
the identity of the object is kept: the flow object it was created by and its
position in that flow's `cells`. -/
structure Cell where
  ident : ℕ × ℕ
  flowNumber : ℕ
  participants : List Node
deriving DecidableEq, Repr

structure Flow where
  graph : Graph
  flowNumber : ℕ
  source : Node
  destination : Node
  maxSubFlowLength : ℕ := 10

/-- A flow after `compute_path`: its sub-paths in order, with their costs. -/
structure RoutedFlow extends Flow where
  path : List (List Node)
  cost : List ℚ

/-- A flow after `create_cells`. -/
structure PlannedFlow extends RoutedFlow where
  cells : List Cell
  maxTransmissions : Node → Option ℤ

/-- `flow.length` once the cells exist. -/
def PlannedFlow.length (f : PlannedFlow) : ℕ := f.cells.length

/-! ## Routing -/

/-- The hops of a path, sender and receiver of `hop_idx` for every
`hop_idx in range(hop_count)`. -/
def hops (path : List Node) : List (Node × Node) := path.zip path.tail

/-- `math.ceil(length / n)`; the quotient of floats is on the right side of every integer for
lengths below `2 ^ 53`. -/
def ceilDiv (length n : ℕ) : ℕ := (length + n - 1) / n

/-- `while math.ceil(length / n) > max_sub_flow_length - 1: n += 1`. Once `n`
reaches `length` the quotient stays one, so a loop that has not ended by then
never ends. -/
def numSubFlows (length maxLength : ℕ) : ℕ → ℕ → Except PyError ℕ
  | 0, _ => .error .diverges
  | fuel + 1, n =>
      if maxLength - 1 < ceilDiv length n then numSubFlows length maxLength fuel (n + 1)
      else .ok n

/-- Sub-path `idx`; every one but the first starts with the last element of
the previous one. -/
def subFlowPath (path : List Node) (len : ℕ) : ℕ → List Node
  | 0 => path.take len
  | idx + 1 => (path.drop ((idx + 1) * len - 1)).take (len + 1)

/-- The overlapping sub-paths of a path. -/
def splitPath (path : List Node) (maxLength : ℕ) : Except PyError (List (List Node)) :=
  -- A path that is short enough stays whole.
  if maxLength < path.length then do
    let n ← numSubFlows path.length maxLength path.length 2
    return (List.range n).map (subFlowPath path (ceilDiv path.length n))
  else
    return [path.take path.length]

/-- The sum of two floats, which have 53 binary digits. -/
def pyAdd : ℚ → ℚ → ℚ := addRounded 53

/-- Cost of one sub-path in the unmodified graph, with a way to add ETX values. -/
def subPathCostBy (add : ℚ → ℚ → ℚ) (g : Graph) (subPath : List Node) : Except PyError ℚ :=
  (hops subPath).foldlM (fun cost hop => do return add cost (← g.etx hop.1 hop.2)) 0

/-- The cost with exact sums. -/
def subPathCost (g : Graph) (subPath : List Node) : Except PyError ℚ :=
  subPathCostBy (· + ·) g subPath

/-- The graph `compute_path` hands to Dijkstra, all weights raised to `etx_power`. -/
def etxGraph (g : Graph) (etxPower : ℕ) : Graph :=
  g.map fun (sender, receivers) => (sender, receivers.map fun (r, w) => (r, w ^ etxPower))

/-- `compute_path`, with a way to add ETX values. -/
def Flow.computePathBy (add : ℚ → ℚ → ℚ) (f : Flow)
    (shortestPath : Graph → Node → Node → Except PyError (List Node)) (etxPower : ℕ) :
    Except PyError RoutedFlow := do
  let path ← shortestPath (etxGraph f.graph etxPower) f.source f.destination
  let subPaths ← splitPath path f.maxSubFlowLength
  let cost ← subPaths.mapM (subPathCostBy add f.graph)
  return { f with path := subPaths, cost := cost }

/-- `compute_path` with exact sums. -/
def Flow.computePath (f : Flow) (shortestPath : Graph → Node → Node → Except PyError (List Node))
    (etxPower : ℕ) : Except PyError RoutedFlow :=
  f.computePathBy (· + ·) shortestPath etxPower

/-! ## Window size -/

/-- The sum of `math.ceil(graph[hop_sender][hop_receiver])` over the hops. -/
def linkCost (g : Graph) (subPath : List Node) : Except PyError ℤ :=
  (hops subPath).foldlM (fun cost hop => do return cost + ⌈← g.etx hop.1 hop.2⌉) 0

/-- The window size of one sub-path when no fixed size is given. The `fixed`
algorithm sets none, so that reading the size afterwards raises `KeyError`. The
products are exact here. -/
def etxWindowSize (g : Graph) (subPath : List Node) (cost : ℚ) :
    Option WindowSizeAlgorithm → Except PyError ℤ
  | some .etxBased => .ok (⌈cost⌉ - (subPath.length - 1 : ℕ) + 2)
  | some .etxBasedDoubled => .ok (⌈2 * cost⌉ - (subPath.length - 1 : ℕ) + 2)
  | some .etxBasedTrippled => .ok (⌈3 * cost⌉ - (subPath.length - 1 : ℕ) + 2)
  | some .etxLinkBased => do return (← linkCost g subPath) - (subPath.length - 1 : ℕ) + 2
  | some .etxLinkBasedDoubled => do
      return 2 * (← linkCost g subPath) - (subPath.length - 1 : ℕ) + 2
  | some .etxLinkBasedTrippled => do
      return 3 * (← linkCost g subPath) - (subPath.length - 1 : ℕ) + 2
  | some .fixed => .error .keyError
  | none => .error .keyError

/-- `calculate_window_size`; a fixed size of zero counts as absent. -/
def calculateWindowSize (g : Graph) (subPath : List Node) (cost : ℚ)
    (alg : Option WindowSizeAlgorithm) (fixedWindowSize : Option ℤ) : Except PyError ℤ :=
  match fixedWindowSize with
  | none => etxWindowSize g subPath cost alg
  | some w =>
      -- Python takes a size of zero for no size.
      if w = 0 then etxWindowSize g subPath cost alg
      else if w < 2 then .error .valueError
      else .ok w

/-! ## Cells -/

/-- `range(a, b)` for a natural start. -/
def pyRange (a : ℕ) (b : ℤ) : List ℕ := List.range' a (b - a).toNat

/-- The slots in which the node at `pathIdx` of a sub-path takes part. -/
def insertionIndices (w : ℤ) (pathLen pathIdx : ℕ) : List ℕ :=
  if pathIdx = 0 then pyRange 0 (w - 1)
  else if pathIdx = pathLen - 1 then pyRange (pathIdx - 1) (pathIdx + w - 2)
  else pyRange (pathIdx - 1) (pathIdx + w - 1)

/-- `participant_lists[i].append(p)`. -/
def appendAt (ls : List (List Node)) (i : ℕ) (p : Node) : Except PyError (List (List Node)) :=
  if i < ls.length then .ok (ls.modify i (· ++ [p])) else .error .indexError

/-- The participants of the sliding-window cells of one sub-path. -/
def participantLists (w : ℤ) (subPath : List Node) : Except PyError (List (List Node)) :=
  subPath.zipIdx.foldlM
    (fun ls (p, pathIdx) =>
      (insertionIndices w subPath.length pathIdx).foldlM (fun ls i => appendAt ls i p) ls)
    (List.replicate ((subPath.length - 1 : ℕ) + w - 2).toNat [])

/-- The dictionary `max_transmissions`. -/
abbrev MaxTx := Node → Option ℤ

/-- Sliding window: the number of slots in which a node may send. -/
def windowTransmissions (w : ℤ) (subPath : List Node) (maxTx : MaxTx) : MaxTx :=
  subPath.zipIdx.foldl
    (fun maxTx (p, pathIdx) =>
      let slots := (insertionIndices w subPath.length pathIdx).length
      if pathIdx = 0 then Function.update maxTx p (some slots)
      -- The last node of a sub-path only receives.
      else if pathIdx = subPath.length - 1 then maxTx
      else Function.update maxTx p (some (slots - 1)))
    maxTx

/-- `math.ceil(graph[hop_sender][hop_receiver])`. -/
def hopEtxCeil (g : Graph) (hop : Node × Node) : Except PyError ℤ := do
  return ⌈← g.etx hop.1 hop.2⌉

/-- One hop under `upper_etx_tx_per_link`: `hop_etx_ceil` equal cells. -/
def addHop (g : Graph) (acc : List (List Node) × MaxTx) (hop : Node × Node) :
    Except PyError (List (List Node) × MaxTx) := do
  let n ← hopEtxCeil g hop
  return (acc.1 ++ List.replicate n.toNat [hop.1, hop.2],
    Function.update acc.2 hop.1 (some n))

/-- The cells of one sub-path (their participants) and the updated
`max_transmissions`. -/
def subPathCells (g : Graph) (strategy : SchedulingStrategy) (alg : Option WindowSizeAlgorithm)
    (fixedWindowSize : Option ℤ) (subPath : List Node) (cost : ℚ) (maxTx : MaxTx) :
    Except PyError (List (List Node) × MaxTx) :=
  match strategy with
  | .noRetransmissions =>
      .ok ((hops subPath).map fun hop => [hop.1, hop.2],
        (hops subPath).foldl (fun maxTx hop => Function.update maxTx hop.1 (some 1)) maxTx)
  | .upperEtxTxPerLink => (hops subPath).foldlM (addHop g) ([], maxTx)
  -- The window is computed anew for every sub-path.
  | .slidingWindow => do
      let w ← calculateWindowSize g subPath cost alg fixedWindowSize
      let parts ← participantLists w subPath
      return (parts, windowTransmissions w subPath maxTx)

/-- One round of the loop over `self.path.items()`. -/
def addSubPath (g : Graph) (strategy : SchedulingStrategy) (alg : Option WindowSizeAlgorithm)
    (fixedWindowSize : Option ℤ) (acc : List (List Node) × MaxTx) (sub : List Node × ℚ) :
    Except PyError (List (List Node) × MaxTx) := do
  let (cells, maxTx) ← subPathCells g strategy alg fixedWindowSize sub.1 sub.2 acc.2
  return (acc.1 ++ cells, maxTx)

/-- The `Cell` objects for lists of participants, created by flow object `oid`. -/
def mkCells (oid flowNumber : ℕ) (parts : List (List Node)) : List Cell :=
  parts.zipIdx.map fun (ps, i) => ⟨(oid, i), flowNumber, ps⟩

/-- `create_cells` for the flow object `oid`. -/
def RoutedFlow.createCells (f : RoutedFlow) (oid : ℕ) (strategy : SchedulingStrategy)
    (alg : Option WindowSizeAlgorithm) (fixedWindowSize : Option ℤ) :
    Except PyError PlannedFlow := do
  let (parts, maxTx) ← (f.path.zip f.cost).foldlM
    (addSubPath f.graph strategy alg fixedWindowSize) ([], fun _ => none)
  return { f with cells := mkCells oid f.flowNumber parts, maxTransmissions := maxTx }

end MasterScheduler.Host
