import MasterScheduler.Host.Flow

/-!
# MasterScheduler.Host.Schedule — reverse longest path first

`Schedule.create` of `Master/Python/scheduling.py`. The flows are placed one
after the other, longest first, each from its last cell to its first, into the
earliest timeslot at or after the previous cell's that has a free channel and
shares no node with the cell; every channel is then cut to the used length and
reversed in place, and the cells learn their final position. `createBy pyAdd` is
what Python computes, `create` the same with exact sums.
-/

namespace MasterScheduler.Host

/-- `self.schedule`: channel, then timeslot; the integer `0` is `none`. -/
abbrev Grid := List (List (Option Cell))

/-- The loop state of `create`. -/
structure SlotState where
  schedule : Grid
  usedNodesInTimeslot : List (List Node)
  lastTimeslot : ℕ

/-- `available_channel_in_slot`. It returns `False` when every channel is
taken, which the caller uses as an index, hence as `0`. -/
def availableChannelInSlot (slot : ℕ) : Grid → ℕ → Except PyError ℕ
  | [], _ => .ok 0
  | channel :: rest, channelIdx =>
      match channel[slot]? with
      | none => .error .indexError
      | some none => .ok channelIdx
      | some (some _) => availableChannelInSlot slot rest (channelIdx + 1)

/-- The first loop of `schedulable_in_slot`: some channel is free in the slot.
It has no `break`, so every channel is indexed. -/
def slotAvailable (slot : ℕ) : Grid → Except PyError Bool
  | [] => .ok false
  | channel :: rest =>
      match channel[slot]? with
      | none => .error .indexError
      | some c => do return c.isNone || (← slotAvailable slot rest)

def schedulableInSlot (st : SlotState) (slot : ℕ) (participants : List Node) :
    Except PyError Bool := do
  if !(← slotAvailable slot st.schedule) then return false
  match st.usedNodesInTimeslot[slot]? with
  | none => .error .indexError
  | some used =>
      -- An empty slot conflicts with nothing.
      if used.length = 0 then return true
      return participants.all (· ∉ used)

/-- `while not schedulable_in_slot(insert_at_index, …): insert_at_index += 1`.
With a channel to index, running past the table raises `IndexError`; without
one the loop never ends. -/
def findSlot (st : SlotState) (participants : List Node) : ℕ → ℕ → Except PyError ℕ
  | 0, _ => .error .diverges
  | fuel + 1, insertAt => do
      if ← schedulableInSlot st insertAt participants then return insertAt
      else findSlot st participants fuel (insertAt + 1)

/-- The body of the loop over `reversed(flow.cells)`; `insert_at_index` is
carried from cell to cell. -/
def placeCell (acc : SlotState × ℕ) (cell : Cell) : Except PyError (SlotState × ℕ) := do
  let (st, insertAt) := acc
  let slot ← findSlot st cell.participants (st.usedNodesInTimeslot.length + 1 - insertAt) insertAt
  -- A slot that is schedulable has a free channel, the first one is taken.
  let channel ← availableChannelInSlot slot st.schedule 0
  return ({ schedule := st.schedule.modify channel (·.set slot (some cell))
            usedNodesInTimeslot :=
              st.usedNodesInTimeslot.modify slot (· ++ cell.participants)
            lastTimeslot := if st.lastTimeslot < slot then slot else st.lastTimeslot }, slot)

def placeFlow (st : SlotState) (flow : PlannedFlow) : Except PyError SlotState := do
  let (st, _) ← flow.cells.reverse.foldlM placeCell (st, 0)
  return st

/-- `order_flows_decreasing`: a stable sort on the number of cells. -/
def orderFlowsDecreasing (flows : List PlannedFlow) : List PlannedFlow :=
  flows.mergeSort fun a b => b.length ≤ a.length

/-- `tmp = ch[i]; ch[i] = ch[j]; ch[j] = tmp`. -/
def swapAt {α : Type} (ch : List α) (i j : ℕ) : List α :=
  match ch[i]?, ch[j]? with
  | some a, some b => (ch.set i b).set j a
  | _, _ => ch

/-- Cut a channel behind the last used timeslot and reverse it in place. -/
def cutAndReverse {α : Type} (lastTimeslot : ℕ) (channel : List α) : List α :=
  let ch := channel.take (lastTimeslot + 1)
  (List.range (ch.length / 2)).foldl (fun ch t => swapAt ch t (lastTimeslot - t)) ch

/-- The attributes `timeslot` and `channel` of the cell objects. -/
abbrev CellAttributes := ℕ × ℕ → Option (ℕ × ℕ)

/-- `set_schedule_attributes` on every cell of one channel. -/
def setChannelAttributes (attrs : CellAttributes) (channel : List (Option Cell) × ℕ) :
    CellAttributes :=
  channel.1.zipIdx.foldl
    (fun attrs (c, timeslot) =>
      match c with
      | some cell => Function.update attrs cell.ident (some (timeslot, channel.2))
      | none => attrs)
    attrs

/-- A finished schedule. -/
structure Schedule where
  flows : List PlannedFlow
  schedule : Grid
  lastTimeslot : ℕ
  attrs : CellAttributes

/-- Placement of planned flows on `numChannels` channels. -/
def placeFlows (flows : List PlannedFlow) (numChannels : ℕ) : Except PyError Schedule := do
  -- At worst every cell has a timeslot of its own.
  let maxScheduleLength := (flows.map PlannedFlow.length).sum
  let flows := orderFlowsDecreasing flows
  let st ← flows.foldlM placeFlow
    { schedule := List.replicate numChannels (List.replicate maxScheduleLength none)
      usedNodesInTimeslot := List.replicate maxScheduleLength []
      lastTimeslot := 0 }
  let grid := st.schedule.map (cutAndReverse st.lastTimeslot)
  return { flows := flows, schedule := grid, lastTimeslot := st.lastTimeslot
           attrs := grid.zipIdx.foldl setChannelAttributes fun _ => none }

/-- `Schedule.create` with the only algorithm there is, `rlpf`, and a way to add ETX values. -/
def createBy (add : ℚ → ℚ → ℚ) (shortestPath : Graph → Node → Node → Except PyError (List Node))
    (flows : List Flow) (etxPower numChannels : ℕ) (strategy : SchedulingStrategy)
    (alg : Option WindowSizeAlgorithm) (fixedWindowSize : Option ℤ) :
    Except PyError Schedule := do
  let routed ← flows.mapM fun f => f.computePathBy add shortestPath etxPower
  let planned ← routed.zipIdx.mapM fun (f, oid) => f.createCells oid strategy alg fixedWindowSize
  placeFlows planned numChannels

/-- `Schedule.create` with exact sums. -/
def create (shortestPath : Graph → Node → Node → Except PyError (List Node))
    (flows : List Flow) (etxPower numChannels : ℕ) (strategy : SchedulingStrategy)
    (alg : Option WindowSizeAlgorithm) (fixedWindowSize : Option ℤ) :
    Except PyError Schedule :=
  createBy (· + ·) shortestPath flows etxPower numChannels strategy alg fixedWindowSize

end MasterScheduler.Host
