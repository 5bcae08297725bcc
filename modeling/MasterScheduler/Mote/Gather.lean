import MasterScheduler.Mote.Routing
import MasterScheduler.Lib.Transition

/-!
# MasterScheduler.Mote.Gather — gathering the link qualities

The part of `master-routing.c` that collects the ETX metric of every node at
the coordinator (CPAN): a node is polled by its time source, sends its own
metric, polls the neighbors that have it as their time source, and forwards
their metrics. The coordinator asks the network for metrics that never came.

- The MAC layer is as in `MasterScheduler.Mote.Routing`: a queue for each
  neighbor, packets whose sent callback has not run yet, and packets that are
  refused, whose sent callback runs inside `NETSTACK_NETWORK.output`.
- `deliveries` and `trace` record what happened; no handler reads them.
- A handler that follows a null pointer or overruns an array ends the run.
-/

namespace MasterScheduler.Mote.Gather

/-- The commands of the metric gathering. -/
inductive Command where
  | etxMetricGet
  | etxMetricMissing
  | etxMetricSend
  | startDistCommit
deriving DecidableEq, Repr

/-- `master_routing_packet_t`: `data[0]` is the command, `data` the rest. -/
structure Packet where
  flowNumber : NodeId
  packetNumber : ℕ
  command : Command
  data : List UInt8
deriving DecidableEq, Repr

/-- What is used of `struct tsch_neighbor`. -/
structure Nbr where
  id : NodeId
  etxLink : ℕ
  rank : ℕ
  /-- The time source the neighbor has told in its beacons. -/
  timeSource : NodeId
  isTimeSource : Bool
  etxMetricReceived : Bool
deriving DecidableEq, Repr

/-- A packet in a queue, under `PACKETBUF_ATTR_PACKET_COMMAND`. -/
structure Sent where
  dest : Option NodeId
  command : Command
  packet : Packet
deriving DecidableEq, Repr

/-- The pointer `next_dest`: the broadcast neighbor before the first poll,
`NULL` after the last. -/
inductive NextDest where
  | broadcast
  | nbr (id : NodeId)
  | null
deriving DecidableEq, Repr

/-- A metric packet given to `command_input_send_metric`, and whether it was kept. -/
structure Delivery where
  src : NodeId
  flowNumber : NodeId
  packetNumber : ℕ
  accepted : Bool
deriving DecidableEq, Repr

/-- What happens to the polls of a node. -/
inductive Trace where
  /-- A `CM_ETX_METRIC_GET` is given to `NETSTACK_NETWORK.output`. -/
  | polled (n : NodeId)
  /-- Its sent callback reports `MAC_TX_OK`. -/
  | acknowledged (n : NodeId)
  /-- Its sent callback reports anything else. -/
  | failed (n : NodeId)
  /-- The sent callback of a metric finds no packet left to forward. -/
  | forwarded
  /-- The metric of a node comes in. -/
  | metric (owner : NodeId)
  /-- `next_dest` moves on from a neighbor. -/
  | passed (n : NodeId)
deriving DecidableEq, Repr

/-- Identity and build of a node. -/
structure Node where
  cfg : Config
  nodeId : NodeId
  /-- `tsch_is_coordinator`. -/
  isCoordinator : Bool
  /-- `MASTER_TSCH_DISTRIBUTOR`. -/
  distributor : NodeId
  /-- `TSCH_QUEUE_MAX_NEIGHBOR_QUEUES`. -/
  maxNeighborQueues : ℕ

/-- The variables of one node. -/
structure State where
  currentState : Phase
  /-- The neighbors in the order of `neighbor_list`, without the virtual ones. -/
  nbrs : List Nbr
  nextDest : NextDest
  ownPacketNumber : ℕ
  /-- The packet buffer; `data` is all of its memory. -/
  mrp : Packet
  /-- `masternet_len` without header and command. -/
  payloadLen : ℕ
  metricReceived : BitVector
  metricComplete : Bool
  /-- `ingore_missing_metric_requests`. -/
  ignoreMissing : Bool
  missingMetricTimer : Bool
  link : Option NodeId
  queue : Option NodeId → List Sent
  pending : List (Sent × TxStatus)
  /-- A null pointer was followed, or an array overrun. -/
  fault : Bool
  deliveries : List Delivery
  trace : List Trace

/-- A node after `init_master_routing`; its neighbors come with their beacons. -/
def initState (cfg : Config) : State where
  currentState := .eb
  nbrs := []
  nextDest := .broadcast
  ownPacketNumber := 0
  mrp := ⟨0, 0, .etxMetricGet, List.replicate (cfg.msgLength - 1) 0⟩
  payloadLen := 0
  metricReceived := List.replicate cfg.metricWords 0
  metricComplete := false
  ignoreMissing := false
  missingMetricTimer := false
  link := none
  queue := fun _ => []
  pending := []
  fault := false
  deliveries := []
  trace := []

def State.log (s : State) (t : Trace) : State := { s with trace := s.trace ++ [t] }

/-! ## Neighbors -/

def handleStateChange (s : State) (newState : Phase) : State :=
  { s with currentState := newState }

def changeLink (s : State) (dest : Option NodeId) : State := { s with link := dest }

/-- `tsch_queue_get_nbr`. -/
def State.getNbr (s : State) (id : NodeId) : Option Nbr := s.nbrs.find? (·.id == id)

/-- `tsch_queue_get_time_source`. -/
def State.getTimeSource (s : State) : Option Nbr := s.nbrs.find? (·.isTimeSource)

/-- `tsch_queue_add_nbr`: a new neighbor goes to the end of the list, all zero. -/
def addNbr (nbrs : List Nbr) (id : NodeId) : List Nbr :=
  if nbrs.any (·.id == id) then nbrs else nbrs ++ [⟨id, 0, 0, 0, false, false⟩]

/-- `tsch_queue_update_time_source`, for a neighbor that may be new. -/
def updateTimeSource (m : Node) (s : State) (id : NodeId) : State :=
  if m.isCoordinator then s
  else
    { s with nbrs := (addNbr s.nbrs id).map fun n => { n with isTimeSource := n.id == id } }

/-- `nbr->etx_metric_received = 1`. -/
def setMetricReceived (s : State) (id : NodeId) : State :=
  { s with nbrs := s.nbrs.map fun n => if n.id = id then { n with etxMetricReceived := true } else n }

/-- `reset_nbr_metric_received`. -/
def resetNbrMetricReceived (s : State) : State :=
  { s with nbrs := s.nbrs.map fun n => { n with etxMetricReceived := false } }

/-- The neighbors behind a given one. -/
def State.nbrsAfter (s : State) (id : NodeId) : List Nbr :=
  (s.nbrs.dropWhile (·.id != id)).tail

/-- `has_next_neighbor`. The first search reads the first neighbor unchecked. -/
def hasNextNeighbor (m : Node) (s : State) : Bool × State :=
  match s.nextDest with
  | .null => (false, s)
  | .broadcast =>
      if s.nbrs = [] then (false, { s with fault := true })
      else
        match s.nbrs.find? (·.timeSource == m.nodeId) with
        | some n => (true, { s with nextDest := .nbr n.id })
        | none => (false, { s with nextDest := .null })
  | .nbr id =>
      let s := s.log (.passed id)
      match (s.nbrsAfter id).find? (·.timeSource == m.nodeId) with
      | some n => (true, { s with nextDest := .nbr n.id })
      | none => (false, { s with nextDest := .null })

/-- `tsch_queue_is_empty` of the time source; false for a null pointer. -/
def State.timeSourceQueueEmpty (s : State) : Bool :=
  match s.getTimeSource with
  | some n => (s.queue (some n.id)).isEmpty
  | none => false

/-! ## Sending

`out` stands for `NETSTACK_NETWORK.output` with the link quality and the command
that `setup_packet_configuration` has put into the packet. -/

/-- A call of `NETSTACK_NETWORK.output`. -/
abbrev Out := State → ℕ → Command → Option NodeId → State

/-- `mrp.flow_number = node_id; mrp.packet_number = ++own_packet_number`. -/
def freshPacket (m : Node) (s : State) (command : Command) : State :=
  { s with ownPacketNumber := (s.ownPacketNumber + 1) % 65536
           mrp := { s.mrp with flowNumber := m.nodeId
                               packetNumber := (s.ownPacketNumber + 1) % 65536
                               command := command } }

def convergcastPollNeighbor (m : Node) (out : Out) (s : State) (command : Command) (dest : Nbr) :
    State :=
  let s := { freshPacket m s command with payloadLen := 0 }
  out (changeLink s (some dest.id)) dest.etxLink command (some dest.id)

def convergcastForwardToTimesource (out : Out) (s : State) : State :=
  match s.getTimeSource with
  | some n => out (changeLink s (some n.id)) n.etxLink .etxMetricSend (some n.id)
  | none => { s with fault := true }

def handleConvergcast (m : Node) (out : Out) (s : State) : State :=
  if s.currentState = .pollNeighbour then
    match s.nextDest with
    | .nbr id =>
        match s.getNbr id with
        | some n => convergcastPollNeighbor m out s .etxMetricGet n
        | none => { s with fault := true }
    | .broadcast => out (changeLink { freshPacket m s .etxMetricGet with payloadLen := 0 } none) 0
        .etxMetricGet none
    | .null => { s with fault := true }
  else convergcastForwardToTimesource out s

/-! ## After a packet was sent -/

def callbackConvergcast (m : Node) (out : Out) (s : State) (nextState : Phase) : State :=
  match nextState with
  | .sendMetric =>
      match s.getTimeSource with
      | some n => changeLink s (some n.id)
      | none => { s with fault := true }
  | .pollNeighbour => handleConvergcast m out s
  | .waitForSchedule =>
      let s := if m.isCoordinator then { s with missingMetricTimer := true } else s
      changeLink s none
  | _ => s

/-- The flush of `tsch_queue_reset`: the sent callback of every packet is due. -/
def tschQueueReset (s : State) : State :=
  let dests := (none :: s.nbrs.map fun n => some n.id).dedup
  { s with queue := fun _ => []
           pending := s.pending ++ dests.flatMap fun d => (s.queue d).map fun p => (p, .err) }

/-- The new state is taken and acted upon. -/
def enterState (m : Node) (out : Out) (s : State) (nextState : Phase) : State :=
  callbackConvergcast m out (handleStateChange s nextState) nextState

/-- `has_next_neighbor() ? ST_POLL_NEIGHBOUR : ST_WAIT_FOR_SCHEDULE`. -/
def pollNext (m : Node) (out : Out) (s : State) : State :=
  let (more, s) := hasNextNeighbor m s
  enterState m out s (if more then .pollNeighbour else .waitForSchedule)

/-- `transition_to_new_state_after_callback`. -/
def transitionAfterCallback (m : Node) (out : Out) (s : State) (command : Command)
    (hasPacketsToForward : Bool) : State :=
  match command with
  | .etxMetricSend =>
      if hasPacketsToForward then enterState m out s .sendMetric
      else pollNext m out (s.log .forwarded)
  | .etxMetricGet =>
      if hasPacketsToForward then enterState m out s .sendMetric else pollNext m out s
  | .etxMetricMissing =>
      enterState m out s (if hasPacketsToForward then .sendMetric else .waitForSchedule)
  | .startDistCommit =>
      if m.nodeId = m.distributor then
        tschQueueReset (handleStateChange (changeLink s none) .waitForSchedule)
      else s

/-- The packet back in `mrp`, the rest of it cleared. -/
def restorePacket (m : Node) (s : State) (p : Packet) : State :=
  { s with
    mrp := { p with data := p.data ++ List.replicate (m.cfg.msgLength - 1 - p.data.length) 0 }
    payloadLen := p.data.length }

/-- The end of `handle_callback_commands_convergcast`. -/
def finishConvergcast (m : Node) (out : Out) (s : State) (command : Command) : State :=
  transitionAfterCallback m out s command (!m.isCoordinator && !s.timeSourceQueueEmpty)

/-- A packet that did not get through in `ST_SEND_METRIC` goes out again, unless the
time source has changed. -/
def resendPacket (m : Node) (out : Out) (s : State) (sent : Sent) : State :=
  if m.isCoordinator then handleConvergcast m out (restorePacket m s sent.packet)
  else
    match s.getTimeSource with
    | none => { s with fault := true }
    | some ts =>
        if some ts.id ≠ sent.dest then s
        else handleConvergcast m out (restorePacket m s sent.packet)

/-- `etx_metric_received` of the neighbor a packet was for; the broadcast neighbor
never has it, and `none` is a neighbor that is not in the table. -/
def State.metricReceivedFrom (s : State) (dest : Option NodeId) : Option Bool :=
  match dest with
  | none => some false
  | some id => (s.getNbr id).map (·.etxMetricReceived)

/-- `handle_callback_commands_convergcast` for a status other than `MAC_TX_OK`. -/
def handleFailedConvergcast (m : Node) (out : Out) (s : State) (sent : Sent) : State :=
  match s.metricReceivedFrom sent.dest with
  | none => s
  | some received =>
      if s.currentState = .pollNeighbour ∧ received = true then
        finishConvergcast m out s sent.command
      else if s.currentState = .pollMissingMetric ∧ sent.command = .etxMetricMissing then s
      else if s.currentState = .sendMetric then resendPacket m out s sent
      else finishConvergcast m out s sent.command

/-- The end of a poll. -/
def logCallback (s : State) (sent : Sent) (ret : TxStatus) : State :=
  match sent.command, sent.dest with
  | .etxMetricGet, some id => s.log (if ret = .ok then .acknowledged id else .failed id)
  | _, _ => s

/-- `master_routing_output_callback`. -/
def outputCallback (m : Node) (out : Out) (s : State) (sent : Sent) (ret : TxStatus) : State :=
  let s := logCallback s sent ret
  if s.currentState = .ignoreCommands ∨ s.currentState = .scheduleInstalled then s
  else if sent.command = .startDistCommit then
    if ret = .ok then transitionAfterCallback m out s .startDistCommit false
    else if s.currentState ≠ .waitForDistCommit then s
    else
      match sent.dest.bind s.getNbr with
      | some n => out { s with payloadLen := 0 } n.etxLink .startDistCommit (some n.id)
      | none => { s with fault := true }
  else if ret = .ok then finishConvergcast m out s sent.command
  else handleFailedConvergcast m out s sent

/-- The packet that goes out. -/
def State.outgoing (s : State) (command : Command) (dest : Option NodeId) : Sent :=
  ⟨dest, command, { s.mrp with data := s.mrp.data.take s.payloadLen }⟩

def logPoll (s : State) (command : Command) (dest : Option NodeId) : State :=
  match command, dest with
  | .etxMetricGet, some id => s.log (.polled id)
  | _, _ => s

/-- `tsch_queue_add_packet`. -/
def tschQueueAddPacket (s : State) (sent : Sent) : State :=
  { s with queue := Function.update s.queue sent.dest (s.queue sent.dest ++ [sent]) }

/-- `NETSTACK_NETWORK.output`; `macs` says what the MAC layer does with this packet
and with those handed over in the sent callback of a refused one. A packet
without transmissions is dropped without a callback. -/
def output (m : Node) : List MacOutcome → Out
  | [], s, etxLink, command, dest =>
      let s' := logPoll s command dest
      if maxTx etxLink = 0 then s' else tschQueueAddPacket s' (s.outgoing command dest)
  | mac :: macs, s, etxLink, command, dest =>
      let s' := logPoll s command dest
      if maxTx etxLink = 0 then s'
      else
        match mac with
        | .queued => tschQueueAddPacket s' (s.outgoing command dest)
        | .refused => outputCallback m (output m macs) s' (s.outgoing command dest) .err

/-! ## Commands -/

/-- `command_input_get_metric`. The metric itself is in `MasterScheduler.Mote.Metric`;
`etxLinks` are its bytes. -/
def commandInputGetMetric (m : Node) (out : Out) (s : State) (etxLinks : List UInt8) : State :=
  let s := freshPacket m s .etxMetricSend
  handleConvergcast m out
    { s with mrp := { s.mrp with data := etxLinks ++ s.mrp.data.drop etxLinks.length }
             payloadLen := etxLinks.length }

/-- `command_input_send_metric_CPAN`, without the printing. -/
def commandInputSendMetricCpan (m : Node) (out : Out) (s : State) : State :=
  if s.metricComplete then s
  else
    let s := { s with metricReceived := setBit s.metricReceived (s.mrp.flowNumber - 1) }
    let finishedNodes := (List.range m.cfg.nodesToCount).countP (isBitSet s.metricReceived)
    if finishedNodes = m.cfg.deploymentNodeCount then
      let s := { s with missingMetricTimer := false, metricComplete := true }
      let s := { freshPacket m (handleStateChange s .waitForDistCommit) .startDistCommit with
        payloadLen := 0 }
      match s.getNbr m.distributor with
      | some n => out (changeLink s (some n.id)) n.etxLink .startDistCommit (some n.id)
      | none => s
    else if s.currentState = .waitForSchedule then { s with missingMetricTimer := true }
    else s

/-- `command_input_send_metric_Node`. -/
def commandInputSendMetricNode (m : Node) (out : Out) (s : State) (len : ℕ) : State :=
  let s := { s with payloadLen := len }
  if s.currentState = .waitForSchedule ∧ s.timeSourceQueueEmpty = true then
    handleConvergcast m out s
  else
    match s.getTimeSource with
    | some n => out s n.etxLink .etxMetricSend (some n.id)
    | none => { s with fault := true }

/-- The packet is dropped as one that was received before. -/
def isDuplicate (s : State) (src : NodeId) : Bool :=
  s.mrp.flowNumber == src && (s.getNbr src).any (·.etxMetricReceived)

/-- `command_input_send_metric`: the return value and the state. -/
def commandInputSendMetric (m : Node) (out : Out) (s : State) (len : ℕ) (src : NodeId) :
    Bool × State :=
  let delivery := ⟨src, s.mrp.flowNumber, s.mrp.packetNumber, !isDuplicate s src⟩
  let s' := { s with deliveries := s.deliveries ++ [delivery] }.log (.metric s.mrp.flowNumber)
  if isDuplicate s src then (false, s')
  else
    let s' := setMetricReceived s' src
    (true,
      if m.isCoordinator then commandInputSendMetricCpan m out s'
      else commandInputSendMetricNode m out s' len)

/-- The nodes listed in a request, read from the packet buffer; `none` if the
list overruns the array it is copied to. -/
def missingNodes (m : Node) (s : State) : Option (List NodeId) :=
  let len := (s.mrp.data.headD 0).toNat
  if len ≤ m.maxNeighborQueues then some (((s.mrp.data.drop 1).take len).map UInt8.toNat)
  else none

/-- `has_missing_node_as_nbr`. -/
def hasMissingNodeAsNbr (s : State) (missing : List NodeId) : Option Nbr :=
  s.nbrs.foldl (fun choice n =>
    if n.id ∈ missing ∧ n.etxLink < 2000 then
      match choice with
      | none => some n
      | some c => if n.rank < c.rank then some n else some c
    else choice) none

/-- `command_input_missing_metric`. -/
def commandInputMissingMetric (m : Node) (out : Out) (s : State) (missing : List NodeId)
    (len : ℕ) : State :=
  match hasMissingNodeAsNbr s missing with
  | some n =>
      convergcastPollNeighbor m out (handleStateChange s .pollMissingMetric) .etxMetricMissing n
  | none =>
      let command := s.mrp.command
      let s := freshPacket m (handleStateChange s .searchMissingMetric) command
      out { changeLink s none with payloadLen := len } 10 command none

/-- `command_input_prepare_distributor`. -/
def commandInputPrepareDistributor (m : Node) (out : Out) (s : State) : State :=
  let s := { freshPacket m s .startDistCommit with payloadLen := 0 }
  match s.getTimeSource with
  | some n => out (changeLink s (some n.id)) n.etxLink .startDistCommit (some n.id)
  | none => { s with fault := true }

/-- `transition_to_new_state`, on a packet that is already in `mrp`; `len` counts
the bytes behind the command. -/
def transitionToNewState (m : Node) (out : Out) (s : State) (src : NodeId) (len : ℕ)
    (etxLinks : List UInt8) : State :=
  match s.currentState, s.mrp.command with
  | .eb, .etxMetricGet => commandInputGetMetric m out (handleStateChange s .sendMetric) etxLinks
  | .eb, .etxMetricMissing =>
      match s.getTimeSource with
      | none => { s with fault := true }
      | some ts =>
          if ts.id = src then s
          else
            commandInputGetMetric m out
              (handleStateChange (updateTimeSource m s src) .sendMetric) etxLinks
  | .pollNeighbour, .etxMetricSend | .pollMissingMetric, .etxMetricSend
  | .sendMetric, .etxMetricSend =>
      (commandInputSendMetric m out s len src).2
  | .sendMetric, .etxMetricMissing =>
      commandInputGetMetric m out (updateTimeSource m s src) etxLinks
  | .pollNeighbour, .startDistCommit | .pollMissingMetric, .startDistCommit
  | .sendMetric, .startDistCommit | .waitForSchedule, .startDistCommit =>
      commandInputPrepareDistributor m out s
  | .waitForDistCommit, .startDistCommit =>
      changeLink (handleStateChange s .waitForSchedule) none
  | .waitForSchedule, .etxMetricSend =>
      let (changeState, s) := commandInputSendMetric m out s len src
      if !m.isCoordinator && changeState then handleStateChange s .sendMetric else s
  | .waitForSchedule, .etxMetricMissing =>
      if s.ignoreMissing || m.isCoordinator then s
      else
        let s := { s with ignoreMissing := true }
        match missingNodes m s with
        | none => { s with fault := true }
        | some missing =>
            if m.nodeId ∈ missing then
              commandInputGetMetric m out (updateTimeSource m s src) etxLinks
            else commandInputMissingMetric m out s missing len
  | _, _ => s

/-- `master_routing_input`. -/
def masterRoutingInput (m : Node) (out : Out) (s : State) (src : NodeId) (p : Packet)
    (etxLinks : List UInt8) : State :=
  transitionToNewState m out
    { s with mrp := { p with data := p.data ++ s.mrp.data.drop p.data.length } }
    src p.data.length etxLinks

/-- `master_start_metric_gathering`, without the printing. The result of
`has_next_neighbor` is not looked at. -/
def masterStartMetricGathering (m : Node) (out : Out) (s : State) : State :=
  let s := handleStateChange s .pollNeighbour
  let s := { s with metricReceived := setBit s.metricReceived (m.nodeId - 1) }
  let s := (hasNextNeighbor m s).2
  if s.fault then s else handleConvergcast m out s

/-- `missing_metric_timeout`. -/
def missingMetricTimeout (m : Node) (out : Out) (s : State) : State :=
  let s := freshPacket m (handleStateChange s .searchMissingMetric) .etxMetricMissing
  let missing := ((List.range' 1 (m.cfg.nodesToCount - 1)).filter
    fun i => !isBitSet s.metricReceived i).map fun i => UInt8.ofNat (i + 1)
  let payload := UInt8.ofNat missing.length :: missing
  let s := { s with mrp := { s.mrp with data := payload ++ s.mrp.data.drop payload.length }
                    payloadLen := payload.length }
  out (changeLink s none) 10 .etxMetricMissing none

/-! ## Events -/

/-- The phases of the dissemination, which follows on the gathering. -/
def IsDissemination (phase : Phase) : Bool :=
  phase == .scheduleDist || phase == .scheduleOld || phase == .scheduleRetransmitting ||
    phase == .scheduleReceived || phase == .ignoreCommands || phase == .scheduleInstalled

inductive Event where
  | start (macs : List MacOutcome)
  | input (src : NodeId) (p : Packet) (etxLinks : List UInt8) (macs : List MacOutcome)
  /-- The MAC layer is done with the first packet of a queue. -/
  | done (dest : Option NodeId) (status : TxStatus)
  /-- The sent callback of the packet the MAC layer finished first. -/
  | sent (macs : List MacOutcome)
  /-- A beacon of a neighbor with what it tells, and whether it becomes the time source. -/
  | beacon (src : NodeId) (etxLink rank timeSource : ℕ) (switch : Bool)
  | missingMetricTimeout (macs : List MacOutcome)
  | activateMissingMetricRequests
  /-- The dissemination moves on; installing a schedule resets the neighbors. -/
  | disseminate (phase : Phase)
deriving DecidableEq, Repr

/-- `eb_input`, as far as the table of neighbors is concerned. -/
def ebInput (m : Node) (s : State) (src : NodeId) (etxLink rank timeSource : ℕ)
    (switch : Bool) : State :=
  let s := { s with
    nbrs := (addNbr s.nbrs src).map fun n =>
      if n.id = src then { n with etxLink := etxLink, rank := rank, timeSource := timeSource }
      else n }
  if switch then updateTimeSource m s src else s

/-- What an event does, if it can happen. -/
def act (m : Node) (s : State) : Event → Option State
  | .start macs =>
      -- the timer runs out once, before the first poll
      if m.isCoordinator ∧ s.currentState = .eb ∧ s.nextDest = .broadcast then
        some (masterStartMetricGathering m (output m macs) s)
      else none
  | .input src p etxLinks macs =>
      if p.data.length + 1 ≤ m.cfg.msgLength then
        some (masterRoutingInput m (output m macs) s src p etxLinks)
      else none
  | .done dest status =>
      match s.queue dest with
      | [] => none
      | p :: rest =>
          some { s with queue := Function.update s.queue dest rest
                        pending := s.pending ++ [(p, status)] }
  | .sent macs =>
      match s.pending with
      | [] => none
      | (p, status) :: rest =>
          some (outputCallback m (output m macs) { s with pending := rest } p status)
  | .beacon src etxLink rank timeSource switch =>
      some (ebInput m s src etxLink rank timeSource switch)
  | .missingMetricTimeout macs =>
      if s.missingMetricTimer then some (missingMetricTimeout m (output m macs) s) else none
  | .activateMissingMetricRequests => some { s with ignoreMissing := false }
  | .disseminate phase =>
      if IsDissemination phase ∧
          (s.currentState = .waitForSchedule ∨ IsDissemination s.currentState) then
        let s := handleStateChange s phase
        some (if phase = .scheduleInstalled then resetNbrMetricReceived s else s)
      else none

def step (m : Node) (s : State) (e : Event) : Option State := if s.fault then none else act m s e

theorem act_of_step {m : Node} {s t : State} {e : Event} (h : step m s e = some t) :
    act m s e = some t := by
  unfold step at h
  split_ifs at h
  exact h

/-! ## What sending leaves alone -/

/-- Sending packets and handling their callbacks keeps the neighbors and the
deliveries, and only adds to the trace. -/
structure Ext (s s' : State) : Prop where
  nbrs : s'.nbrs = s.nbrs
  deliveries : s'.deliveries = s.deliveries
  trace : s.trace <+: s'.trace

theorem Ext.refl (s : State) : Ext s s := ⟨rfl, rfl, List.prefix_rfl⟩

theorem Ext.trans {s t u : State} (h : Ext s t) (h' : Ext t u) : Ext s u :=
  ⟨h'.nbrs.trans h.nbrs, h'.deliveries.trans h.deliveries, h.trace.trans h'.trace⟩

/-- A step that touches nothing of this. -/
theorem Ext.of_eq {s s' : State} (hn : s'.nbrs = s.nbrs) (hd : s'.deliveries = s.deliveries)
    (ht : s'.trace = s.trace) : Ext s s' := ⟨hn, hd, ht ▸ List.prefix_rfl⟩

/-- The same before a step. -/
theorem Ext.after {s t u : State} (h : Ext t u) (hn : t.nbrs = s.nbrs)
    (hd : t.deliveries = s.deliveries) (ht : t.trace = s.trace) : Ext s u :=
  (Ext.of_eq hn hd ht).trans h

theorem ext_log (s : State) (t : Trace) : Ext s (s.log t) :=
  ⟨rfl, rfl, List.prefix_append _ _⟩

def OutExt (out : Out) : Prop := ∀ s etxLink command dest, Ext s (out s etxLink command dest)

theorem ext_hasNextNeighbor (m : Node) (s : State) : Ext s (hasNextNeighbor m s).2 := by
  unfold hasNextNeighbor
  cases s.nextDest with
  | null => exact .of_eq rfl rfl rfl
  | broadcast =>
    dsimp only
    split_ifs
    · exact .of_eq rfl rfl rfl
    · cases s.nbrs.find? (·.timeSource == m.nodeId) <;> exact .of_eq rfl rfl rfl
  | nbr id =>
    dsimp only
    cases ((s.log (.passed id)).nbrsAfter id).find? (·.timeSource == m.nodeId) <;>
      exact (ext_log s (.passed id)).trans (.of_eq rfl rfl rfl)

section

variable {m : Node} {out : Out}

theorem ext_convergcastForwardToTimesource (hout : OutExt out) (s : State) :
    Ext s (convergcastForwardToTimesource out s) := by
  unfold convergcastForwardToTimesource
  cases s.getTimeSource with
  | none => exact .of_eq rfl rfl rfl
  | some n => exact (hout (changeLink s (some n.id)) _ _ _).after rfl rfl rfl

theorem ext_handleConvergcast (hout : OutExt out) (s : State) :
    Ext s (handleConvergcast m out s) := by
  unfold handleConvergcast
  split_ifs
  · cases s.nextDest with
    | null => exact .of_eq rfl rfl rfl
    | broadcast =>
      exact (hout (changeLink { freshPacket m s .etxMetricGet with payloadLen := 0 } none)
        _ _ _).after rfl rfl rfl
    | nbr id =>
      dsimp only
      cases s.getNbr id with
      | none => exact .of_eq rfl rfl rfl
      | some n =>
        exact (hout (changeLink { freshPacket m s .etxMetricGet with payloadLen := 0 }
          (some n.id)) _ _ _).after rfl rfl rfl
  · exact ext_convergcastForwardToTimesource hout s

theorem ext_callbackConvergcast (hout : OutExt out) (s : State) (nextState : Phase) :
    Ext s (callbackConvergcast m out s nextState) := by
  unfold callbackConvergcast
  split
  · cases s.getTimeSource <;> exact .of_eq rfl rfl rfl
  · exact ext_handleConvergcast hout s
  · split_ifs <;> exact .of_eq rfl rfl rfl
  · exact .of_eq rfl rfl rfl

theorem ext_enterState (hout : OutExt out) (s : State) (p : Phase) :
    Ext s (enterState m out s p) :=
  (ext_callbackConvergcast hout (handleStateChange s p) p).after rfl rfl rfl

theorem ext_pollNext (hout : OutExt out) (s : State) : Ext s (pollNext m out s) :=
  (ext_hasNextNeighbor m s).trans (ext_enterState hout _ _)

theorem ext_transitionAfterCallback (hout : OutExt out) (s : State) (command : Command)
    (hasPackets : Bool) : Ext s (transitionAfterCallback m out s command hasPackets) := by
  unfold transitionAfterCallback
  cases command with
  | etxMetricSend =>
    dsimp only
    split_ifs
    · exact ext_enterState hout s _
    · exact (ext_log s .forwarded).trans (ext_pollNext hout _)
  | etxMetricGet =>
    dsimp only
    split_ifs
    · exact ext_enterState hout s _
    · exact ext_pollNext hout s
  | etxMetricMissing => exact ext_enterState hout s _
  | startDistCommit =>
    dsimp only
    split_ifs <;> exact .of_eq rfl rfl rfl

theorem ext_resendPacket (hout : OutExt out) (s : State) (sent : Sent) :
    Ext s (resendPacket m out s sent) := by
  have hresend : Ext s (handleConvergcast m out (restorePacket m s sent.packet)) :=
    (ext_handleConvergcast hout (restorePacket m s sent.packet)).after rfl rfl rfl
  unfold resendPacket
  split_ifs
  · exact hresend
  · cases s.getTimeSource with
    | none => exact .of_eq rfl rfl rfl
    | some ts =>
      dsimp only
      split_ifs
      · exact .refl s
      · exact hresend

theorem ext_handleFailedConvergcast (hout : OutExt out) (s : State) (sent : Sent) :
    Ext s (handleFailedConvergcast m out s sent) := by
  unfold handleFailedConvergcast
  cases s.metricReceivedFrom sent.dest with
  | none => exact .refl s
  | some received =>
    dsimp only
    split_ifs
    · exact ext_transitionAfterCallback hout s _ _
    · exact .refl s
    · exact ext_resendPacket hout s sent
    · exact ext_transitionAfterCallback hout s _ _

theorem ext_logCallback (s : State) (sent : Sent) (ret : TxStatus) :
    Ext s (logCallback s sent ret) := by
  unfold logCallback
  split
  · exact ext_log s _
  · exact .of_eq rfl rfl rfl

theorem ext_outputCallback_logCallback (hout : OutExt out) (s : State) (sent : Sent)
    (ret : TxStatus) : Ext (logCallback s sent ret) (outputCallback m out s sent ret) := by
  unfold outputCallback
  dsimp only
  split_ifs
  · exact .of_eq rfl rfl rfl
  · exact ext_transitionAfterCallback hout _ _ _
  · exact .of_eq rfl rfl rfl
  · cases sent.dest.bind (logCallback s sent ret).getNbr with
    | none => exact .of_eq rfl rfl rfl
    | some n =>
      exact (hout { logCallback s sent ret with payloadLen := 0 } _ _ _).after rfl rfl rfl
  · exact ext_transitionAfterCallback hout _ _ _
  · exact ext_handleFailedConvergcast hout _ sent

theorem ext_outputCallback (hout : OutExt out) (s : State) (sent : Sent) (ret : TxStatus) :
    Ext s (outputCallback m out s sent ret) :=
  (ext_logCallback s sent ret).trans (ext_outputCallback_logCallback hout s sent ret)

end

theorem ext_logPoll (s : State) (command : Command) (dest : Option NodeId) :
    Ext s (logPoll s command dest) := by
  unfold logPoll
  split
  · exact ext_log s _
  · exact .of_eq rfl rfl rfl

theorem outExt_output (m : Node) (macs : List MacOutcome) : OutExt (output m macs) := by
  induction macs with
  | nil =>
    intro s etxLink command dest
    refine (ext_logPoll s command dest).trans ?_
    unfold output
    dsimp only
    split_ifs <;> exact .of_eq rfl rfl rfl
  | cons mac macs ih =>
    intro s etxLink command dest
    refine (ext_logPoll s command dest).trans ?_
    unfold output
    dsimp only
    split_ifs
    · exact .of_eq rfl rfl rfl
    · cases mac with
      | queued => exact .of_eq rfl rfl rfl
      | refused => exact ext_outputCallback ih _ _ _

end MasterScheduler.Mote.Gather
