import MasterScheduler.Host.Schedule

/-!
# MasterScheduler.Host.Contiki — the schedule file

`Contiki_schedule.generate_for_enhanced_beacon` of
`Master/Python/scheduling_contiki.py`: a header with the per-flow tables,
followed by one record of variable length for every node with a cell. Every
number is written through `c_uint8`, which keeps its lowest eight bits.
-/

namespace MasterScheduler.Host

/-- `c_uint8(x)`. -/
def cUint8 (x : ℤ) : UInt8 := UInt8.ofNat (x % 256).toNat

/-- `num_of_flows`. -/
def numOfFlows : ℕ := 8

/-! ## Cells of a node -/

/-- `schedule[channel][timeslot]` for all channels of one timeslot. -/
def timeslotCells (g : Grid) (timeslot : ℕ) : Except PyError (List (Option Cell)) :=
  g.mapM fun channel =>
    match channel[timeslot]? with
    | some c => .ok c
    | none => .error .indexError

/-- The cells of the table, timeslot by timeslot. -/
def gridCells (g : Grid) : Except PyError (List Cell) :=
  match g[0]? with
  | none => .error .indexError
  | some channel => do
      let slots ← (List.range channel.length).mapM (timeslotCells g)
      return slots.flatten.reduceOption

/-- The dictionary `node_schedule`, in insertion order. -/
abbrev NodeSchedules := List (Node × List Cell)

/-- `node_schedule[participant].append(cell)`, creating the entry if needed. -/
def appendCell (participant : Node) (cell : Cell) : NodeSchedules → NodeSchedules
  | [] => [(participant, [cell])]
  | (n, cells) :: rest =>
      if n = participant then (n, cells ++ [cell]) :: rest
      else (n, cells) :: appendCell participant cell rest

/-- The innermost loop of `get_node_schedule`. -/
def addCell (nodes : List Node) (d : NodeSchedules) (cell : Cell) : NodeSchedules :=
  cell.participants.foldl (fun d p => if p ∈ nodes then appendCell p cell d else d) d

def getNodeSchedule (S : Schedule) (nodes : List Node) : Except PyError NodeSchedules := do
  return (← gridCells S.schedule).foldl (addCell nodes) []

/-! ## Links -/

/-- The option byte of a link: `Link_options.transmit.value`. -/
def linkTransmit : ℕ := 1

/-- `Link_options.receive.value`. -/
def linkReceive : ℕ := 2

/-- `neighbor` is the sender or the receiver of the link. -/
structure Link where
  timeslot : ℕ
  channel : ℕ
  linkOption : ℕ
  flowNumber : ℕ
  neighbor : Node
deriving DecidableEq, Repr

/-- `participants[i]`. -/
def participantAt (participants : List Node) (i : ℕ) : Except PyError Node :=
  match participants[i]? with
  | some n => .ok n
  | none => .error .indexError

/-- Link option and neighbour of a node, from its position in the cell. -/
def linkRole (participants : List Node) (nodeId : Node) : Except PyError (ℕ × Node) :=
  if nodeId ∉ participants then .error .valueError
  else
    let i := participants.idxOf nodeId
    -- The first participant only sends, the last only receives, the others do both.
    if i = 0 then do return (linkTransmit, ← participantAt participants 1)
    else if i = participants.length - 1 then
      do return (linkReceive, ← participantAt participants (participants.length - 2))
    else do return (linkTransmit ||| linkReceive, ← participantAt participants (i + 1))

def cellLink (S : Schedule) (nodeId : Node) (cell : Cell) : Except PyError Link := do
  let (linkOption, neighbor) ← linkRole cell.participants nodeId
  match S.attrs cell.ident with
  | none => .error .attributeError
  | some (timeslot, channel) => return ⟨timeslot, channel, linkOption, cell.flowNumber, neighbor⟩

/-- The sort key `(x.neighbor, x.timeslot)`. -/
def linkLe (a b : Link) : Bool :=
  a.neighbor < b.neighbor || (a.neighbor = b.neighbor && a.timeslot ≤ b.timeslot)

def sortedListOfLinks (S : Schedule) (nodeId : Node) (cells : List Cell) :
    Except PyError (List Link) := do
  return (← cells.mapM (cellLink S nodeId)).mergeSort linkLe

/-! ## Records -/

def getFlowFromSender (S : Schedule) (nodeId : Node) : Option PlannedFlow :=
  S.flows.find? (·.source = nodeId)

def getFlowFromId (S : Schedule) (id : ℕ) : Option PlannedFlow :=
  S.flows.find? (id = ·.flowNumber)

/-- What the file says about one node. -/
structure NodeRecord where
  nodeId : ℕ
  /-- Flow number and destination of the flow the node is the source of. -/
  ownFlow : Option (ℕ × ℕ)
  links : List Link
  flowForwards : List ℕ
  maxTransmission : List ℤ

/-- The list `forward_to`: flow and neighbour of every link that can send. -/
def forwardTo (links : List Link) : List (ℕ × Node) :=
  (links.filter (·.linkOption ≠ linkReceive)).map fun l => (l.flowNumber, l.neighbor)

/-- `dict(list(dict.fromkeys(forward_to)))[idx]`, or zero. -/
def flowForward (links : List Link) (idx : ℕ) : ℕ :=
  -- `dict` keeps the last value of a key.
  ((forwardTo links).eraseDups.reverse.lookup idx).getD 0

def maxTransmissionOf (S : Schedule) (nodeId : Node) (links : List Link) (flowPos : ℕ) :
    Except PyError ℤ :=
  if flowPos ∈ (forwardTo links).map Prod.fst then
    match getFlowFromId S flowPos with
    | none => .error .attributeError
    | some flow => .ok ((flow.maxTransmissions nodeId).getD 0)
  else .ok 0

def nodeRecord (S : Schedule) (entry : Node × List Cell) : Except PyError NodeRecord := do
  let links ← sortedListOfLinks S entry.1 entry.2
  -- One entry for every flow number, zero for flows that do not pass here.
  let maxTransmission ← (List.range' 1 numOfFlows).mapM (maxTransmissionOf S entry.1 links)
  return { nodeId := entry.1
           ownFlow := (getFlowFromSender S entry.1).map fun f => (f.flowNumber, f.destination)
           links := links
           flowForwards := (List.range' 1 numOfFlows).map (flowForward links)
           maxTransmission := maxTransmission }

def Link.bytes (l : Link) : List UInt8 :=
  [cUint8 l.flowNumber, cUint8 l.linkOption, cUint8 l.timeslot, cUint8 l.channel]

/-- `own_transmission_flow`, followed by the receiver only if there is one. -/
def ownFlowBytes : Option (ℕ × ℕ) → List UInt8
  | some (flowNumber, destination) => [cUint8 flowNumber, cUint8 destination]
  | none => [cUint8 0]

def NodeRecord.bytes (r : NodeRecord) : List UInt8 :=
  cUint8 ((r.nodeId : ℤ) - 1) :: (ownFlowBytes r.ownFlow ++ cUint8 r.links.length ::
    (r.links.flatMap Link.bytes ++ (r.flowForwards.map (fun n : ℕ => cUint8 n) ++
      r.maxTransmission.map cUint8)))

/-! ## Header -/

/-- The part of the file that is the same for every node. -/
structure ScheduleHeader where
  slotframeLength : ℕ
  numFlows : ℕ
  senderOfFlow : List ℕ
  receiverOfFlow : List ℕ
  firstTxSlotInFlow : List ℕ
  lastTxSlotInFlow : List ℕ

/-- `slotframe_length`: at least the minimal length, and odd. -/
def slotframeLength (length minimalScheduleLength : ℕ) : ℕ :=
  let len := if length < minimalScheduleLength then minimalScheduleLength else length
  -- An odd length is coprime to the four channels of the hopping sequence.
  if len % 2 = 0 then len + 1 else len

/-- The entry of a header table for one flow number; every flow with the number
writes its value, and zero is written if there is none. -/
def flowColumn (S : Schedule) (value : PlannedFlow → Except PyError ℕ) (idx : ℕ) :
    Except PyError (List ℕ) :=
  match S.flows.filter (idx = ·.flowNumber) with
  | [] => .ok [0]
  | flows => flows.mapM value

def flowTable (S : Schedule) (value : PlannedFlow → Except PyError ℕ) :
    Except PyError (List ℕ) := do
  return (← (List.range' 1 numOfFlows).mapM (flowColumn S value)).flatten

/-- `flow.cells[0].timeslot`, and `flow.cells[-1].timeslot`. -/
def cellTimeslot (S : Schedule) : Option Cell → Except PyError ℕ
  | none => .error .indexError
  | some cell =>
      match S.attrs cell.ident with
      | some (timeslot, _) => .ok timeslot
      | none => .error .attributeError

def scheduleHeader (S : Schedule) (minimalScheduleLength : ℕ) : Except PyError ScheduleHeader :=
  match S.schedule[0]? with
  | none => .error .indexError
  | some channel => do
      let senders ← flowTable S fun f => .ok f.source
      let receivers ← flowTable S fun f => .ok f.destination
      let first ← flowTable S fun f => cellTimeslot S f.cells.head?
      let last ← flowTable S fun f => cellTimeslot S f.cells.getLast?
      return { slotframeLength := slotframeLength channel.length minimalScheduleLength
               numFlows := S.flows.length
               senderOfFlow := senders
               receiverOfFlow := receivers
               firstTxSlotInFlow := first
               lastTxSlotInFlow := last }

def ScheduleHeader.bytes (h : ScheduleHeader) : List UInt8 :=
  cUint8 h.slotframeLength :: cUint8 h.numFlows ::
    ((h.senderOfFlow ++ h.receiverOfFlow ++ h.firstTxSlotInFlow ++ h.lastTxSlotInFlow).map
      fun n : ℕ => cUint8 n)

/-! ## The file -/

def nodeRecords (S : Schedule) (nodeIds : List Node) : Except PyError (List NodeRecord) := do
  (← getNodeSchedule S nodeIds).mapM (nodeRecord S)

/-- `generate_for_enhanced_beacon` with TTL based retransmissions. -/
def generateForEnhancedBeacon (S : Schedule) (nodeIds : List Node) (minimalScheduleLength : ℕ) :
    Except PyError (List UInt8) := do
  let records ← nodeRecords S nodeIds
  let header ← scheduleHeader S minimalScheduleLength
  return header.bytes ++ records.flatMap NodeRecord.bytes

end MasterScheduler.Host
