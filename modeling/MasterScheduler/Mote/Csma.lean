import MasterScheduler.Lib.Chain
import MasterScheduler.Lib.Custody
import MasterScheduler.Lib.Pool
import MasterScheduler.Lib.Transition
import MasterScheduler.Mote.Frame802154

/-!
# MasterScheduler.Mote.Csma — the packet queues of `csma-output.c`

Every neighbor with packets has a queue and a timer. When the timer fires, the
first packet is sent; what the radio reports decides whether it is sent again
or completed. The sent callback is the last thing that a function does, so the
calls it makes come after.

1. **Model**: the pools and queues, the radio, the three entries of the module.
2. **Histories**: what was handed in, accepted and completed, the calls of the
   sent callbacks, the transmissions of each packet.

A packet is known by a number, which stands for the contents of the packet
buffer. The length of a backoff is left out: a timer that is armed may fire at
any time. Queue buffers are shared with other modules.
-/

namespace MasterScheduler.Mote.Csma

open Lib Frame802154

/-! ## Model -/

/-- The constants, in their ranges. -/
structure Config where
  /-- `CSMA_MAX_NEIGHBOR_QUEUES`. -/
  maxNeighborQueues : ℕ
  /-- `QUEUEBUF_NUM`, which is also `MAX_QUEUED_PACKETS`. -/
  queuebufNum : ℕ
  /-- `CSMA_MAX_PACKET_PER_NEIGHBOR`. -/
  maxPacketPerNeighbor : ℕ
  /-- `CSMA_MIN_BE`. -/
  minBe : ℕ
  /-- `CSMA_MAX_BACKOFF`. -/
  maxBackoff : ℕ
  /-- `CSMA_MAX_FRAME_RETRIES`. -/
  maxFrameRetries : ℕ
  packet_pos : 0 < maxPacketPerNeighbor
  minBe_le : minBe ≤ 8
  maxBackoff_le : maxBackoff ≤ 5
  maxFrameRetries_le : maxFrameRetries ≤ 7

/-- The results of a transmission. -/
inductive Status
  | ok
  | collision
  | noack
  | deferred
  | err
  | errFatal
deriving DecidableEq

/-- What the module reads and writes of a packet buffer. -/
structure Packetbuf where
  macSeqno : ℕ
  receiver : Linkaddr
  maxMacTransmissions : ℕ
  /-- The number of the packet. -/
  contents : ℕ

variable {Sent Ptr : Type}

/-- `struct qbuf_metadata`. -/
structure QbufMetadata (Sent Ptr : Type) where
  sent : Sent
  cptr : Ptr
  maxTransmissions : ℕ

/-- `struct neighbor_queue`. -/
structure NeighborQueue (cfg : Config) where
  addr : Linkaddr
  transmissions : ℕ
  collisions : ℕ
  packetQueue : List (Fin cfg.queuebufNum)

/-- `struct packet_queue`. -/
structure PacketQueue (cfg : Config) where
  buf : Option (Fin cfg.queuebufNum)
  ptr : Option (Fin cfg.queuebufNum)

/-- The variables of `csma-output.c`, with the packet buffer and the queue buffers. -/
structure State (cfg : Config) (Sent Ptr : Type) where
  seqno : ℕ
  neighborList : List (Fin cfg.maxNeighborQueues)
  neighborMemb : Pool cfg.maxNeighborQueues
  neighbor : Fin cfg.maxNeighborQueues → NeighborQueue cfg
  /-- The timers that are armed. -/
  transmitTimer : Fin cfg.maxNeighborQueues → Bool
  packetMemb : Pool cfg.queuebufNum
  packet : Fin cfg.queuebufNum → PacketQueue cfg
  metadataMemb : Pool cfg.queuebufNum
  metadata : Fin cfg.queuebufNum → Option (QbufMetadata Sent Ptr)
  bufmem : Pool cfg.queuebufNum
  queuebuf : Fin cfg.queuebufNum → Option Packetbuf
  /-- The queue buffers of other modules. -/
  others : Fin cfg.queuebufNum → Bool
  packetbuf : Option Packetbuf
  /-- The neighbor whose packet is with the radio. -/
  sending : Option (Fin cfg.maxNeighborQueues)

/-- A call of a sent callback. -/
structure Call (Sent Ptr : Type) where
  /-- The packet that the call is about. -/
  packet : ℕ
  sent : Sent
  cptr : Ptr
  status : Status
  numTx : ℕ
deriving DecidableEq

variable {cfg : Config}

/-- `neighbor_queue_from_addr`. -/
def neighborQueueFromAddr (s : State cfg Sent Ptr) (addr : Linkaddr) :
    Option (Fin cfg.maxNeighborQueues) :=
  s.neighborList.find? fun n => decide ((s.neighbor n).addr = addr)

/-- `schedule_transmission`. -/
def scheduleTransmission (s : State cfg Sent Ptr) (n : Fin cfg.maxNeighborQueues) :
    State cfg Sent Ptr :=
  { s with transmitTimer := Function.update s.transmitTimer n true }

/-- A neighbor queue is written. -/
def setNeighbor (s : State cfg Sent Ptr) (n : Fin cfg.maxNeighborQueues)
    (nq : NeighborQueue cfg) : State cfg Sent Ptr :=
  { s with neighbor := Function.update s.neighbor n nq }

/-! ### Packets that are handed in -/

/-- The neighbor queue that `csma_output_packet` uses: the one that there is, or a new one. -/
def findOrAdd (s : State cfg Sent Ptr) (addr : Linkaddr) :
    Option (Fin cfg.maxNeighborQueues) × State cfg Sent Ptr :=
  match neighborQueueFromAddr s addr with
  | some n => (some n, s)
  | none =>
    match s.neighborMemb.free with
    | none => (none, s)
    | some n =>
      (some n, { s with
        neighborMemb := s.neighborMemb.take n
        neighbor := Function.update s.neighbor n ⟨addr, 0, cfg.minBe, []⟩
        neighborList := listAdd s.neighborList n })

/-- The limit that a packet gets: an attribute of zero stands for the default. -/
def limit (cfg : Config) (maxMacTransmissions : ℕ) : ℕ :=
  if maxMacTransmissions % 256 = 0 then cfg.maxFrameRetries + 1 else maxMacTransmissions % 256

/-- The allocations of `csma_output_packet` for a packet, which goes to the end of the queue.
What was allocated is freed if one of them fails. -/
def addPacket (s : State cfg Sent Ptr) (n : Fin cfg.maxNeighborQueues) (pb : Packetbuf)
    (sent : Sent) (cptr : Ptr) : Bool × State cfg Sent Ptr :=
  match s.packetMemb.free with
  | none => (false, s)
  | some q =>
    -- The three allocations of the source are nested: the failing branches stand in their order.
    let s := { s with packetMemb := s.packetMemb.take q }
    match s.metadataMemb.free with
    | none =>
      (false, { s with
        packet := Function.update s.packet q { s.packet q with ptr := none }
        packetMemb := s.packetMemb.release q })
    | some m =>
      let s := { s with metadataMemb := s.metadataMemb.take m }
      match s.bufmem.free with
      | none =>
        (false, { s with
          packet := Function.update s.packet q ⟨none, some m⟩
          metadataMemb := s.metadataMemb.release m
          packetMemb := s.packetMemb.release q })
      | some b =>
        let nq := s.neighbor n
        let queue := listAdd nq.packetQueue q
        let s := { s with
          bufmem := s.bufmem.take b
          queuebuf := Function.update s.queuebuf b (some pb)
          packet := Function.update s.packet q ⟨some b, some m⟩
          metadata := Function.update s.metadata m
            (some ⟨sent, cptr, limit cfg pb.maxMacTransmissions⟩)
          neighbor := Function.update s.neighbor n { nq with packetQueue := queue } }
        -- Only the first packet of a queue arms the timer.
        (true, if queue.head? = some q then scheduleTransmission s n else s)

/-- `csma_output_packet`, with the call of the sent callback if the packet is dropped. -/
def csmaOutputPacket (s : State cfg Sent Ptr) (pb : Packetbuf) (sent : Sent) (cptr : Ptr) :
    Option (Call Sent Ptr) × State cfg Sent Ptr :=
  -- Zero means that the framer shall choose a number, so it is skipped.
  let seqno := if s.seqno = 0 then 1 else s.seqno
  let pb := { pb with macSeqno := seqno }
  let s := { s with packetbuf := some pb, seqno := (seqno + 1) % 256 }
  let drop : Call Sent Ptr := ⟨pb.contents, sent, cptr, .err, 1⟩
  match findOrAdd s pb.receiver with
  -- There is no place for another neighbor.
  | (none, s) => (some drop, s)
  | (some n, s) =>
    if (s.neighbor n).packetQueue.length < cfg.maxPacketPerNeighbor then
      match addPacket s n pb sent cptr with
      | (true, s) => (none, s)
      | (false, s) =>
        -- A neighbor that was added for this packet goes again.
        if (s.neighbor n).packetQueue.length = 0 then
          (some drop, { s with
            neighborList := s.neighborList.erase n
            neighborMemb := s.neighborMemb.release n })
        else (some drop, s)
    -- The queue of the neighbor is full.
    else (some drop, s)

/-! ### The timer -/

/-- `transmit_from_queue` up to `send_one_packet`. The timer that calls it is not armed any
more. -/
def transmitFromQueue (s : State cfg Sent Ptr) (n : Fin cfg.maxNeighborQueues) :
    State cfg Sent Ptr :=
  let s := { s with transmitTimer := Function.update s.transmitTimer n false }
  match (s.neighbor n).packetQueue.head? with
  -- The timer of an empty queue: nothing is sent.
  | none => s
  | some q =>
    { s with
      packetbuf := (s.packet q).buf.bind s.queuebuf
      sending := some n }

/-! ### The radio -/

/-- The results of `NETSTACK_RADIO.transmit`. -/
inductive RadioTx
  | ok
  | collision
  | other

/-- What the framer and the radio report during `send_one_packet`. -/
structure Radio where
  /-- `NETSTACK_FRAMER.create` succeeds. -/
  created : Bool
  /-- `mac_dsn` of the framer. -/
  macDsn : ℕ
  /-- `receiving_packet` before the transmission. -/
  receiving : Bool
  /-- `pending_packet` before the transmission. -/
  pending : Bool
  transmit : RadioTx
  /-- Something is heard after the wait for an acknowledgment. -/
  heard : Bool
  /-- `pending_packet` after that. -/
  ackPending : Bool
  /-- What is read has the length and the number of the acknowledgment. -/
  ackMatches : Bool

/-- The status that `send_one_packet` finds, and whether the packet was transmitted. -/
def sendStatus (isBroadcast : Bool) (r : Radio) : Status × Bool :=
  -- The framer fails: the packet will never fit.
  if r.created = false then (.errFatal, false)
  -- The radio is busy before the transmission.
  else if r.receiving || (!isBroadcast && r.pending) then (.collision, false)
  else
    match r.transmit with
    | .ok =>
      -- No acknowledgment is waited for.
      if isBroadcast then (.ok, true)
      else if r.heard && r.ackPending then
        -- Another frame than the acknowledgment counts as a collision.
        if r.ackMatches then (.ok, true) else (.collision, true)
      else (.noack, true)
    | .collision => (.collision, true)
    | .other => (.err, true)

/-- `free_packet`. -/
def freePacket (s : State cfg Sent Ptr) (n : Fin cfg.maxNeighborQueues)
    (p : Fin cfg.queuebufNum) : State cfg Sent Ptr :=
  let nq := s.neighbor n
  let queue := nq.packetQueue.erase p
  let s := { s with
    bufmem := (s.packet p).buf.elim s.bufmem s.bufmem.release
    metadataMemb := (s.packet p).ptr.elim s.metadataMemb s.metadataMemb.release
    packetMemb := s.packetMemb.release p }
  -- The next packet of the neighbor starts with fresh counters.
  if queue ≠ [] then
    scheduleTransmission (setNeighbor s n ⟨nq.addr, 0, cfg.minBe, queue⟩) n
  else
    -- With its last packet the neighbor goes too.
    { setNeighbor s n { nq with packetQueue := queue } with
      transmitTimer := Function.update s.transmitTimer n false
      neighborList := s.neighborList.erase n
      neighborMemb := s.neighborMemb.release n }

/-- `tx_done`. -/
def txDone (s : State cfg Sent Ptr) (status : Status) (q : Fin cfg.queuebufNum)
    (n : Fin cfg.maxNeighborQueues) : Option (Call Sent Ptr) × State cfg Sent Ptr :=
  let call := ((s.packet q).ptr.bind s.metadata).bind fun metadata =>
    ((s.packet q).buf.bind s.queuebuf).map fun pb =>
      ⟨pb.contents, metadata.sent, metadata.cptr, status, (s.neighbor n).transmissions⟩
  (call, freePacket s n q)

/-- `rexmit`. The contents of a queue buffer are not updated. -/
def rexmit (s : State cfg Sent Ptr) (q : Fin cfg.queuebufNum) (n : Fin cfg.maxNeighborQueues) :
    State cfg Sent Ptr :=
  let s := scheduleTransmission s n
  match (s.packet q).buf, s.packetbuf with
  | some b, some pb =>
    let updated := (s.queuebuf b).map fun old => { pb with contents := old.contents }
    { s with queuebuf := Function.update s.queuebuf b updated }
  | _, _ => s

/-- The end of `collision` and `noack`. -/
def retry (s : State cfg Sent Ptr) (status : Status) (q : Fin cfg.queuebufNum)
    (n : Fin cfg.maxNeighborQueues) : Option (Call Sent Ptr) × State cfg Sent Ptr :=
  let maxTransmissions := (((s.packet q).ptr.bind s.metadata).map (·.maxTransmissions)).getD 0
  -- A collision below the backoff limit leaves `transmissions` as it is.
  if (s.neighbor n).transmissions ≥ maxTransmissions then txDone s status q n
  else (none, rexmit s q n)

/-- `collision`. -/
def collision (s : State cfg Sent Ptr) (q : Fin cfg.queuebufNum)
    (n : Fin cfg.maxNeighborQueues) (numTransmissions : ℕ) :
    Option (Call Sent Ptr) × State cfg Sent Ptr :=
  let nq := s.neighbor n
  let collisions := (nq.collisions + numTransmissions) % 256
  let nq :=
    -- The attempts up to `CSMA_MAX_BACKOFF` are not counted as transmissions.
    if collisions > cfg.maxBackoff then
      { nq with collisions := cfg.minBe, transmissions := (nq.transmissions + 1) % 256 }
    else { nq with collisions := collisions }
  retry (setNeighbor s n nq) .collision q n

/-- `noack`. -/
def noack (s : State cfg Sent Ptr) (q : Fin cfg.queuebufNum) (n : Fin cfg.maxNeighborQueues)
    (numTransmissions : ℕ) : Option (Call Sent Ptr) × State cfg Sent Ptr :=
  let nq := s.neighbor n
  retry (setNeighbor s n { nq with
    collisions := cfg.minBe
    transmissions := (nq.transmissions + numTransmissions) % 256 }) .noack q n

/-- `tx_ok`. -/
def txOk (s : State cfg Sent Ptr) (q : Fin cfg.queuebufNum) (n : Fin cfg.maxNeighborQueues)
    (numTransmissions : ℕ) : Option (Call Sent Ptr) × State cfg Sent Ptr :=
  let nq := s.neighbor n
  txDone (setNeighbor s n { nq with
    collisions := cfg.minBe
    transmissions := (nq.transmissions + numTransmissions) % 256 }) .ok q n

/-- The sequence number of a queue buffer. -/
def queuebufSeqno (s : State cfg Sent Ptr) (q : Fin cfg.queuebufNum) : Option ℕ :=
  ((s.packet q).buf.bind s.queuebuf).map (·.macSeqno)

/-- `packet_sent`. The packet is found by its sequence number. -/
def packetSent (s : State cfg Sent Ptr) (n : Fin cfg.maxNeighborQueues) (status : Status)
    (numTransmissions : ℕ) : Option (Call Sent Ptr) × State cfg Sent Ptr :=
  match (s.neighbor n).packetQueue.find? fun q =>
    decide (queuebufSeqno s q = s.packetbuf.map (·.macSeqno)) with
  | none => (none, s)
  | some q =>
    -- A packet without metadata is left in the queue.
    if (s.packet q).ptr = none then (none, s)
    else
      match status with
      | .ok => txOk s q n numTransmissions
      | .noack => noack s q n numTransmissions
      | .collision => collision s q n numTransmissions
      -- Nothing happens: the packet stays and no timer is armed.
      | .deferred => (none, s)
      | .err | .errFatal => txDone s status q n

/-- `NETSTACK_FRAMER.create` gives the packet a sequence number if it has none. -/
def create (s : State cfg Sent Ptr) (macDsn : ℕ) : State cfg Sent Ptr :=
  { s with packetbuf := s.packetbuf.map fun pb =>
      if pb.macSeqno = 0 then { pb with macSeqno := macDsn } else pb }

/-- `send_one_packet`: the call of a sent callback, and the packet that was transmitted. -/
def sendOnePacket (s : State cfg Sent Ptr) (n : Fin cfg.maxNeighborQueues) (r : Radio) :
    Option (Call Sent Ptr) × Option ℕ × State cfg Sent Ptr :=
  let s := create s r.macDsn
  let (ret, transmitted) :=
    sendStatus (decide (s.packetbuf.map (·.receiver) = some linkaddrNull)) r
  let (call, s') := packetSent { s with sending := none } n ret 1
  (call, if transmitted then s.packetbuf.map (·.contents) else none, s')

/-! ## Histories -/

/-- A packet that was handed in. -/
structure Request (Sent Ptr : Type) where
  receiver : Linkaddr
  maxMacTransmissions : ℕ
  sent : Sent
  cptr : Ptr

/-- The state, with what happened so far. -/
structure World (cfg : Config) (Sent Ptr : Type) where
  state : State cfg Sent Ptr
  handed : List (Request Sent Ptr)
  accepted : List ℕ
  completed : List ℕ
  calls : List (Call Sent Ptr)
  transmissions : ℕ → ℕ

/-- What happens to the module. -/
inductive Event (cfg : Config) (Sent Ptr : Type)
  | output (request : Request Sent Ptr)
  | timer (n : Fin cfg.maxNeighborQueues)
  | radio (r : Radio)
  /-- Another module takes or frees a queue buffer. -/
  | otherBuf (b : Fin cfg.queuebufNum)

/-- The state at the start. The first sequence number is random. -/
def State.initial (cfg : Config) (seqno : UInt8) : State cfg Sent Ptr where
  seqno := seqno.toNat
  neighborList := []
  neighborMemb := .empty _
  neighbor := fun _ => ⟨linkaddrNull, 0, 0, []⟩
  transmitTimer := fun _ => false
  packetMemb := .empty _
  packet := fun _ => ⟨none, none⟩
  metadataMemb := .empty _
  metadata := fun _ => none
  bufmem := .empty _
  queuebuf := fun _ => none
  others := fun _ => false
  packetbuf := none
  sending := none

def World.initial (cfg : Config) (seqno : UInt8) : World cfg Sent Ptr :=
  ⟨.initial cfg seqno, [], [], [], [], fun _ => 0⟩

/-- Another module takes a queue buffer that is free, or frees one of its own. -/
def otherBuf (s : State cfg Sent Ptr) (b : Fin cfg.queuebufNum) : Option (State cfg Sent Ptr) :=
  if s.others b then
    some { s with bufmem := s.bufmem.release b, others := Function.update s.others b false }
  else if s.bufmem b then none
  else some { s with bufmem := s.bufmem.take b, others := Function.update s.others b true }

/-- An event, if it can happen: nothing else runs while a packet is with the radio. -/
def step (w : World cfg Sent Ptr) : Event cfg Sent Ptr → Option (World cfg Sent Ptr)
  | .output request =>
    if w.state.sending = none then
      let number := w.handed.length
      let (call, s) := csmaOutputPacket w.state
        ⟨0, request.receiver, request.maxMacTransmissions, number⟩ request.sent request.cptr
      some { w with
        state := s
        handed := w.handed ++ [request]
        accepted := if call.isNone then w.accepted ++ [number] else w.accepted
        calls := w.calls ++ call.toList }
    else none
  | .timer n =>
    if w.state.sending = none ∧ w.state.transmitTimer n = true then
      some { w with state := transmitFromQueue w.state n }
    else none
  | .radio r =>
    w.state.sending.map fun n =>
      let (call, transmitted, s) := sendOnePacket w.state n r
      { w with
        state := s
        completed := w.completed ++ call.toList.map (·.packet)
        calls := w.calls ++ call.toList
        transmissions := fun k => w.transmissions k + if transmitted = some k then 1 else 0 }
  | .otherBuf b =>
    if w.state.sending = none then (otherBuf w.state b).map fun s => { w with state := s }
    else none

end MasterScheduler.Mote.Csma
