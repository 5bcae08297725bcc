import MasterScheduler.Mote.Schedule
import Mathlib.Logic.Function.Basic

/-!
# MasterScheduler.Mote.Routing — the dissemination state machine of a node

The part of `master-routing.c` that spreads the schedule: the handlers for
packets, sent callbacks, beacons and timers, on the state of one node.

- The queues of the MAC layer belong to the state, one per neighbor and one for
  broadcast. A packet leaves its queue when the MAC layer is done with it and
  waits in `pending` until its sent callback runs.
- What a handler cannot know (the ETX of a neighbor, the outcome of a flash
  access, whether the MAC layer takes a packet) is given by `Env`.
- `handed` records every packet given to `NETSTACK_NETWORK.output`.
-/

namespace MasterScheduler.Mote

open Lib

abbrev NodeId := ℕ

/-- `enum phase`. -/
inductive Phase where
  | eb
  | beginGatherMetric
  | pollNeighbour
  | sendMetric
  | pollMissingMetric
  | searchMissingMetric
  | waitForSchedule
  | waitForDistCommit
  | scheduleDist
  | scheduleOld
  | scheduleRetransmitting
  | scheduleReceived
  | scheduleInstalled
  | ignoreCommands
deriving DecidableEq, Repr

/-- The commands of the dissemination. -/
inductive Command where
  | schedule
  | scheduleRetransmit
  | scheduleRetransmitReq
  | scheduleEnd
deriving DecidableEq, Repr

/-- `master_routing_packet_t`: `data[0]` is the command, `data[1]` the packet
number within the schedule, and the rest of `data` the payload. -/
structure Packet where
  flowNumber : NodeId
  packetNumber : ℕ
  command : Command
  number : ℕ
  payload : List UInt8
deriving DecidableEq, Repr

/-- The status of a packet the MAC layer is done with: `MAC_TX_OK`, `MAC_TX_ERR`,
or any other failure, which the sent callback treats like a missing
acknowledgement. -/
inductive TxStatus where
  | ok
  | noAck
  | err
deriving DecidableEq, Repr

/-- What NETSTACK_MAC does with a packet: it is queued, or the sent callback
runs at once with `MAC_TX_ERR`. -/
inductive MacOutcome where
  | queued
  | refused
deriving DecidableEq, Repr

structure Env where
  etxLink : ℕ
  read : FlashOutcome
  /-- The second read of `callback_input_schedule_send`. -/
  reread : FlashOutcome
  write : FlashOutcome
  mac : MacOutcome
deriving DecidableEq, Repr

/-- Identity and build of a node. -/
structure Node where
  cfg : Config
  nodeId : NodeId
  /-- `MASTER_TSCH_DISTRIBUTOR`. -/
  distributor : NodeId

/-- The variables of one node. An address is `none` for broadcast. -/
structure NodeState where
  currentState : Phase
  scheduleVersion : ℕ
  schedulePackets : ℕ
  receivedPackets : BitVector
  scheduleReceived : ByteVector
  flash : Flash
  schedulePacketNumber : ℕ
  ownPacketNumber : ℕ
  /-- The packet buffer; its payload is the whole rest of `data`. -/
  mrp : Packet
  /-- `masternet_len` without header, command and packet number. -/
  payloadLen : ℕ
  /-- The address of the link in the beacon slot of slotframe 1. -/
  link : Option NodeId
  nbrs : List NodeId
  queue : Option NodeId → List Packet
  pending : List (Option NodeId × Packet × TxStatus)
  missingResponseTimer : Bool
  installTimer : Bool
  /-- Whether the schedule-received callback is still registered. -/
  receivedCallback : Bool
  handed : List (Option NodeId × Packet)

/-- A node after `init_master_routing`, with some content of its flash. -/
def initMasterRouting (cfg : Config) (flash : Flash) : NodeState where
  currentState := .eb
  scheduleVersion := 0
  schedulePackets := 0
  receivedPackets := List.replicate cfg.receivedWords 0
  scheduleReceived := List.replicate 3 0
  flash := flash
  schedulePacketNumber := 1
  ownPacketNumber := 0
  mrp := ⟨0, 0, .schedule, 0, List.replicate (cfg.msgLength - 2) 0⟩
  payloadLen := 0
  link := none
  nbrs := []
  queue := fun _ => []
  pending := []
  missingResponseTimer := false
  installTimer := false
  receivedCallback := true
  handed := []

/-! ## Queues, links and output -/

def handleStateChange (s : NodeState) (newState : Phase) : NodeState :=
  { s with currentState := newState }

def changeLink (s : NodeState) (dest : Option NodeId) : NodeState :=
  { s with link := dest }

def NodeState.addNbr (s : NodeState) (dest : Option NodeId) : NodeState :=
  match dest with
  | none => s
  | some n => if n ∈ s.nbrs then s else { s with nbrs := s.nbrs ++ [n] }

/-- `tsch_queue_add_packet`. -/
def tschQueueAddPacket (s : NodeState) (dest : Option NodeId) (p : Packet) : NodeState :=
  { s.addNbr dest with queue := Function.update s.queue dest (s.queue dest ++ [p]) }

/-- `tsch_queue_remove_packet_from_queue`. -/
def tschQueueRemovePacket (s : NodeState) (dest : Option NodeId) : NodeState :=
  { s with queue := Function.update s.queue dest (s.queue dest).tail }

/-- `tsch_queue_is_packet_in_nbr_queue` looks at the head only. A unicast packet
is queued under its packet number within the schedule. -/
def tschQueueIsPacketInNbrQueue (s : NodeState) (nbr : NodeId) (number : ℕ) : Bool :=
  (s.queue (some nbr)).head?.any (fun p => p.number == number)

/-- `sent_packet_configuration.max_tx` as `setup_packet_configuration` sets it. -/
def maxTx (etxLink : ℕ) : ℕ :=
  if etxLink % 1000 > 0 then etxLink / 1000 + 1 else etxLink / 1000

def handleRetransmit (s : NodeState) : NodeState :=
  match s.nbrs.find? (fun n => !(s.queue (some n)).isEmpty) with
  | some n => changeLink s (some n)
  | none => changeLink (handleStateChange s .scheduleReceived) none

/-- `handle_callback_commands_divergcast` for `MAC_TX_ERR`: of a packet that was not
queued, or of one the radio could not send. -/
def handleTxErr (s : NodeState) : NodeState :=
  if s.currentState = .scheduleOld then
    { changeLink (handleStateChange s .scheduleDist) none with missingResponseTimer := false }
  else if s.currentState = .scheduleRetransmitting then handleRetransmit s
  else s

/-- `mrp` cut to `masternet_len`, as it goes out. -/
def NodeState.outgoing (s : NodeState) : Packet :=
  { s.mrp with payload := s.mrp.payload.take s.payloadLen }

/-- `NETSTACK_NETWORK.output`. A packet without transmissions is dropped
without a callback. -/
def output (env : Env) (s : NodeState) (etxLink : ℕ) (dest : Option NodeId) : NodeState :=
  let s' := { s with handed := s.handed ++ [(dest, s.outgoing)] }
  if maxTx etxLink = 0 then s'
  else
    match env.mac with
    | .queued => tschQueueAddPacket s' dest s.outgoing
    | .refused => handleTxErr s'

/-! ## The payload -/

/-- The return value of `fill_schedule_packet_from_flash`: 0, 1 or 2. -/
inductive FillResult where
  | more
  | last
  | failed
deriving DecidableEq, Repr

/-- Offset of a packet in the file. -/
def flashOffset (cfg : Config) (packetNumber : ℕ) : ℤ :=
  packetNumber * cfg.schedulePayloadSize - cfg.schedulePayloadSize

/-- `bytes_to_write`, a byte. -/
def bytesToWrite (cfg : Config) (bytesInFlash : ℤ) (packetNumber : ℕ) : ℕ :=
  let left := bytesInFlash - flashOffset cfg packetNumber
  if (cfg.schedulePayloadSize : ℤ) > left then (left % 256).toNat
  else cfg.schedulePayloadSize

def fillSchedulePacketFromFlash (cfg : Config) (s : NodeState) (packetNumber : ℕ)
    (outcome : FlashOutcome) : FillResult × NodeState :=
  let offset := flashOffset cfg packetNumber
  let read := readFlash s.flash offset (bytesToWrite cfg s.flash.bytesInFlash packetNumber) outcome
  let s := { s with mrp.payload := read.1 ++ s.mrp.payload.drop read.1.length }
  match read.2 with
  | none => (.failed, s)
  | some n =>
      (if offset + n = s.flash.bytesInFlash then .last else .more, { s with payloadLen := n })

/-- `unpack_schedule_to_flash`: the packet in `mrp` has `len` bytes of payload. -/
def unpackScheduleToFlash (cfg : Config) (s : NodeState) (len : ℕ) (outcome : FlashOutcome) :
    Bool × NodeState :=
  let write := writeToFlashOffset s.flash (s.mrp.payload.take (len % 256))
    (flashOffset cfg s.mrp.number) outcome
  (write.1, { s with flash := write.2 })

def commandInputScheduleNewPacket (cfg : Config) (env : Env) (s : NodeState) (len : ℕ) :
    NodeState :=
  let unpacked := unpackScheduleToFlash cfg s len env.write
  if unpacked.1 then
    { unpacked.2 with receivedPackets := setBit s.receivedPackets s.mrp.number }
  else unpacked.2

/-! ## Handlers -/

section Handlers

variable (node : Node) (env : Env) (s : NodeState)

/-- The next packet of this node under a command and a packet number. -/
def preparePacket (command : Command) (number : ℕ) : NodeState :=
  { s with
    ownPacketNumber := (s.ownPacketNumber + 1) % 2 ^ 16
    mrp := { s.mrp with
      flowNumber := node.nodeId
      packetNumber := (s.ownPacketNumber + 1) % 2 ^ 16
      command := command
      number := number } }

/-- The node has the whole schedule: a new version, and its own bit for the beacons. -/
def finishSchedule : NodeState :=
  { s with
    scheduleVersion := (s.scheduleVersion + 1) % 256
    scheduleReceived := setBit1Byte s.scheduleReceived (node.nodeId - 1) }

/-- `getMissingPacket(received_packets_as_bit_array, schedule_packets)`. -/
def NodeState.missingPacket : Option ℕ := getMissingPacket s.receivedPackets s.schedulePackets

def masterScheduleLoadedCallback : NodeState :=
  let s := preparePacket node (handleStateChange s .scheduleDist) .schedule s.schedulePacketNumber
  let s := { s with receivedPackets := setBit s.receivedPackets s.schedulePacketNumber }
  output env (fillSchedulePacketFromFlash node.cfg s s.schedulePacketNumber env.read).2 10 none

/-- The request for a missing packet, with `masternet_len` set for it. -/
def requestPacket (missing : ℕ) : NodeState :=
  { preparePacket node s .scheduleRetransmitReq missing with payloadLen := 0 }

def requestRetransmitOrFinish (dest : NodeId) : NodeState :=
  if s.currentState ≠ .scheduleOld then s
  else
    match s.missingPacket with
    | none =>
        let s := tschQueueRemovePacket s (some dest)
        let s := finishSchedule node (handleStateChange s .scheduleReceived)
        { changeLink s none with missingResponseTimer := false }
    | some missing =>
        if tschQueueIsPacketInNbrQueue s dest missing then s
        else
          let s := output env (requestPacket node s missing) env.etxLink (some dest)
          { s with missingResponseTimer := true }

def missingResponse : NodeState :=
  handleStateChange (changeLink { s with missingResponseTimer := false } none) .waitForSchedule

/-- `check_received_schedules_by_nodes`; it also removes the callback. -/
def checkReceivedSchedulesByNodes : Bool × NodeState :=
  let nodesHaveSchedule :=
    ((List.range node.cfg.nodesToCount).filter (isBitSet1Byte s.scheduleReceived)).length
  if nodesHaveSchedule = node.cfg.deploymentNodeCount then
    (true, { s with receivedCallback := false })
  else (false, s)

/-- The bits of another node's vector that are taken over. -/
def mergeReceived (own others : ByteVector) (lastNodeId : ℕ) : ByteVector :=
  (List.range lastNodeId).foldl
    (fun v i => if !isBitSet1Byte v i && isBitSet1Byte others i then setBit1Byte v i else v) own

def masterScheduleReceivedCallback (others : ByteVector) : NodeState :=
  if s.currentState = .scheduleRetransmitting ∨ s.currentState = .scheduleReceived then
    let s := { s with
      scheduleReceived := mergeReceived s.scheduleReceived others node.cfg.lastNodeId }
    let checked := checkReceivedSchedulesByNodes node s
    if checked.1 then { checked.2 with installTimer := true } else checked.2
  else s

def masterScheduleDifferenceCallback (nbr : NodeId) (nbrVersion nbrPackets : ℕ) : NodeState :=
  if s.currentState = .scheduleOld then s
  else if nbrVersion > s.scheduleVersion then
    if env.etxLink > 2000 then s
    else
      let s := { s with schedulePackets := nbrPackets }
      match s.missingPacket with
      | none => finishSchedule node (handleStateChange s .scheduleReceived)
      | some missing =>
          let s := requestPacket node (handleStateChange s .scheduleOld) missing
          let s := output env (changeLink s (some nbr)) env.etxLink (some nbr)
          { s with missingResponseTimer := true }
  else s

/-- Forwarding of the packet in `mrp`, with the length it came with. -/
def forwardBroadcast (len : ℕ) : NodeState :=
  output env { s with payloadLen := len } 10 none

def commandInputSchedulePacket (len : ℕ) : NodeState :=
  forwardBroadcast env (commandInputScheduleNewPacket node.cfg env s len) len

def commandInputScheduleLastPacket (len : ℕ) : NodeState :=
  let s := commandInputScheduleNewPacket node.cfg env s len
  let s := { s with schedulePackets := s.mrp.number }
  let s :=
    if s.missingPacket = none then finishSchedule node (handleStateChange s .scheduleReceived)
    else s
  forwardBroadcast env s len

def handleScheduleDistributionStateChanges (len : ℕ) : NodeState :=
  if isBitSet s.receivedPackets s.mrp.number then s
  else
    match s.mrp.command with
    | .schedule => commandInputSchedulePacket node env (handleStateChange s .scheduleDist) len
    | .scheduleEnd =>
        commandInputScheduleLastPacket node env (handleStateChange s .scheduleDist) len
    | .scheduleRetransmit =>
        commandInputScheduleNewPacket node.cfg env (handleStateChange s .scheduleDist) len
    | .scheduleRetransmitReq => s

/-- The next schedule packet of the distributor, before its payload is read. -/
def nextSchedulePacket : NodeState :=
  let number := (s.schedulePacketNumber + 1) % 256
  { preparePacket node s .schedule number with
    schedulePacketNumber := number
    receivedPackets := setBit s.receivedPackets number }

/-- The packets the distributor sends one after the other. -/
def callbackInputScheduleSend : NodeState :=
  if node.nodeId ≠ node.distributor then s
  else
    let s := nextSchedulePacket node s
    let filled := fillSchedulePacketFromFlash node.cfg s s.schedulePacketNumber env.read
    if filled.1 = .last then
      let s := finishSchedule node { filled.2 with schedulePackets := s.schedulePacketNumber }
      output env { s with mrp.command := .scheduleEnd } 10 none
    else
      -- the payload is read a second time; a failure only takes back the own packet number
      let again :=
        fillSchedulePacketFromFlash node.cfg filled.2 s.schedulePacketNumber env.reread
      if again.1 = .failed then
        let ownPacketNumber := (again.2.ownPacketNumber + (2 ^ 16 - 1)) % 2 ^ 16
        output env { again.2 with ownPacketNumber := ownPacketNumber } 10 none
      else output env again.2 10 none

def commandInputScheduleRetransmitt (len : ℕ) (src : NodeId) (dest : Option NodeId) :
    NodeState :=
  let number := s.mrp.number
  let s :=
    if isBitSet s.receivedPackets number then s
    else commandInputScheduleNewPacket node.cfg env s len
  if dest = some node.nodeId then
    let s := if tschQueueIsPacketInNbrQueue s src number then tschQueueRemovePacket s (some src)
      else s
    requestRetransmitOrFinish node env s src
  else if s.missingPacket = none then
    let s := { handleStateChange s .scheduleReceived with missingResponseTimer := false }
    finishSchedule node (changeLink s none)
  else s

def commandInputScheduleRetransmittRequest (src : NodeId) : NodeState :=
  if tschQueueIsPacketInNbrQueue s src s.mrp.number then s
  else
    let s := preparePacket node (handleStateChange s .scheduleRetransmitting) .scheduleRetransmit
      s.mrp.number
    let filled := fillSchedulePacketFromFlash node.cfg s s.mrp.number env.read
    if filled.1 = .failed then filled.2
    else
      let s := output env filled.2 env.etxLink (some src)
      if s.link = none then changeLink s (some src) else s

/-! ## Dispatch -/

/-- `transition_to_new_state` on a packet of `len` bytes of payload in `mrp`. -/
def transitionToNewState (len : ℕ) (src : NodeId) (dest : Option NodeId) : NodeState :=
  match s.currentState with
  | .waitForSchedule | .scheduleDist => handleScheduleDistributionStateChanges node env s len
  | .scheduleReceived | .scheduleRetransmitting =>
      if s.mrp.command = .scheduleRetransmitReq then
        commandInputScheduleRetransmittRequest node env s src
      else s
  | .scheduleOld =>
      if s.mrp.command = .scheduleRetransmit then
        commandInputScheduleRetransmitt node env s len src dest
      else s
  | _ => s

/-- A packet is copied into `mrp`; what it does not cover stays. -/
def NodeState.copyIn (p : Packet) : NodeState :=
  { s with mrp := { p with payload := p.payload ++ s.mrp.payload.drop p.payload.length } }

/-- `master_routing_input`. -/
def masterRoutingInput (p : Packet) (src : NodeId) (dest : Option NodeId) : NodeState :=
  if p.payload.length + 2 > node.cfg.msgLength then s
  else transitionToNewState node env (s.copyIn p) p.payload.length src dest

/-- `transition_to_new_state_after_callback` for a packet sent to `dest`. -/
def transitionToNewStateAfterCallback (p : Packet) (dest : Option NodeId) : NodeState :=
  match p.command with
  | .schedule => callbackInputScheduleSend node env s
  | .scheduleEnd =>
      if s.missingPacket = none then handleStateChange s .scheduleReceived else s
  | .scheduleRetransmitReq =>
      if s.currentState = .scheduleOld then
        if isBitSet s.receivedPackets p.number then
          requestRetransmitOrFinish node env s (dest.getD 0)
        else { s with missingResponseTimer := true }
      else s
  | .scheduleRetransmit =>
      if s.currentState = .scheduleRetransmitting then handleRetransmit s else s

/-- A packet that did not get through is put back into `mrp`, which is zeroed before. -/
def NodeState.putBack (p : Packet) : NodeState :=
  { s with mrp := { p with
      payload := p.payload ++ List.replicate (node.cfg.msgLength - 2 - p.payload.length) 0 } }

/-- `handle_callback_commands_divergcast` for a packet that was queued. -/
def handleCallbackCommandsDivergcast (p : Packet) (dest : Option NodeId) (ret : TxStatus) :
    NodeState :=
  match ret with
  | .err => handleTxErr s
  | .ok => transitionToNewStateAfterCallback node env s p dest
  | .noAck =>
      let s := NodeState.putBack node s p
      match p.command with
      | .scheduleRetransmitReq =>
          if isBitSet s.receivedPackets p.number then
            requestRetransmitOrFinish node env s (dest.getD 0)
          else
            { changeLink (handleStateChange s .scheduleDist) none with
              missingResponseTimer := false }
      | .scheduleRetransmit =>
          output env { s with payloadLen := p.payload.length } env.etxLink dest
      | _ => transitionToNewStateAfterCallback node env s p dest

/-- `master_routing_output_callback` for a packet that was queued. -/
def masterRoutingOutputCallback (p : Packet) (dest : Option NodeId) (ret : TxStatus) :
    NodeState :=
  if s.currentState = .ignoreCommands ∨ s.currentState = .scheduleInstalled then s
  else handleCallbackCommandsDivergcast node env s p dest ret

/-- What `install_schedule` does to the dissemination; the queues are flushed
while commands are ignored, so the callbacks of the flush have no effect. -/
def installSchedule : NodeState :=
  let checked := checkReceivedSchedulesByNodes node { s with installTimer := false }
  if checked.1 then
    let s := { handleStateChange checked.2 .ignoreCommands with queue := fun _ => [] }
    handleStateChange s .scheduleInstalled
  else checked.2

/-- A beacon with the version, packet count and received vector of a neighbor. -/
def tschRxProcessBeacon (nbr : NodeId) (fromTimeSource : Bool) (version packets : ℕ)
    (received : ByteVector) : NodeState :=
  let s := s.addNbr (some nbr)
  let s := if s.receivedCallback then masterScheduleReceivedCallback node s received else s
  if !fromTimeSource && version != s.scheduleVersion then
    masterScheduleDifferenceCallback node env s nbr version packets
  else s

end Handlers

end MasterScheduler.Mote
