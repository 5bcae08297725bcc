import MasterScheduler.Lib.Ring
import MasterScheduler.Lib.Transition
import MasterScheduler.Mote.Data
import MasterScheduler.Mote.Routing

/-!
# MasterScheduler.Mote.Queue — the packets of the TSCH queues

Where a `struct tsch_packet` goes: `tsch_queue_add_packet` puts it into the
queue of a neighbor, a transmit slot takes it over to the ring of dequeued
packets, and `tsch_tx_process_pending` frees it after its sent callback. The
routing layer, expired packets and `tsch_queue_reset` take the short way.

- Slot operation runs in an interrupt. Between the start of a slot, which picks
  the packet, and its end the code of the processes goes on.
- `frames` are the calls of that code that hold a packet, innermost first; a
  sent callback may call everything else.
- An address that `memb_alloc` hands out again is a new packet here, so that a
  pointer to the old one can be told from it.
- `added`, `taken` and `dequeues` record what happened; the code has no such
  variables.

This is the build with queues per flow and packets with a time to live. There
the neighbor of a slot is never the broadcast neighbor without a packet, so
the search for any other packet does not happen.
-/

namespace MasterScheduler.Mote.Queue

open Lib

abbrev PacketId := ℕ

/-- The queues: those of the virtual neighbors, of flows and of nodes. -/
inductive Nbr where
  | eb
  | broadcast
  | flow (handle : ℕ)
  | node (id : ℕ)
deriving DecidableEq, Repr

inductive LinkType where
  | normal
  | advertising
  | advertisingOnly
deriving DecidableEq, Repr

/-- What is used of `struct tsch_link`. -/
structure Link where
  /-- `LINK_OPTION_TX`. -/
  tx : Bool
  /-- `LINK_OPTION_RX`. -/
  rx : Bool
  linkType : LinkType
  addr : Nbr
  slotframeHandle : ℕ
deriving DecidableEq, Repr

/-- What is used of `struct tsch_packet` and the attributes of its queuebuf; `ret` is
`none` for `MAC_TX_DEFERRED`. -/
structure Packet where
  transmissions : ℕ
  maxTransmissions : ℕ
  ret : Option TxStatus
  transmissionTtl : ℕ
  earliestTxSlot : ℕ
  sendNbr : Bool
deriving DecidableEq, Repr

/-- A transmit slot in progress: `current_packet`, `current_neighbor` and the
`dequeued_index` that was looked up at its start. -/
structure Slot where
  packet : PacketId
  neighbor : Nbr
  dequeuedIndex : Option ℕ
  asn : ℕ
deriving DecidableEq, Repr

/-- Process code that holds a packet until it frees it. -/
inductive Frame where
  /-- `tsch_tx_process_pending`, with a packet it has not removed from the ring. -/
  | pending (p : PacketId)
  /-- A packet taken from a queue, with or without a sent callback before it is freed. -/
  | removed (p : PacketId)
deriving DecidableEq, Repr

/-- The sizes of the build, each a power of two but the last. -/
structure Sizes where
  /-- `TSCH_QUEUE_NUM_PER_NEIGHBOR`. -/
  perNeighbor : ℕ
  /-- `TSCH_DEQUEUED_ARRAY_SIZE`. -/
  dequeued : ℕ
  /-- `QUEUEBUF_NUM`. -/
  queuebufs : ℕ

structure State where
  /-- `tsch_locked`. -/
  locked : Bool
  /-- The packets allocated from `packet_memb`. -/
  live : List PacketId
  nextPacket : PacketId
  packet : PacketId → Packet
  /-- `tx_ringbuf` and `tx_array` of every neighbor. -/
  queue : Nbr → RingBuffer PacketId
  dequeued : RingBuffer PacketId
  slot : Option Slot
  frames : List Frame
  /-- A packet was freed twice, or used after it was freed. -/
  fault : Bool
  added : Nbr → List PacketId
  taken : Nbr → List PacketId
  /-- The packet of a slot, and what the slot took out of the queue. -/
  dequeues : List (PacketId × Option PacketId)

def initState (z : Sizes) : State where
  locked := false
  live := []
  nextPacket := 0
  packet := fun _ => ⟨0, 0, none, 0, 0, false⟩
  queue := fun _ => .init (z.perNeighbor - 1)
  dequeued := .init (z.dequeued - 1)
  slot := none
  frames := []
  fault := false
  added := fun _ => []
  taken := fun _ => []
  dequeues := []

/-! ## Queues -/

/-- Following a pointer to a packet. -/
def State.touch (s : State) (p : PacketId) : State :=
  if p ∈ s.live then s else { s with fault := true }

/-- `tsch_queue_free_packet`. -/
def freePacket (s : State) (p : PacketId) : State :=
  let s := s.touch p
  { s with live := s.live.filter (· ≠ p) }

/-- `tsch_queue_remove_packet_from_queue`. -/
def removePacketFromQueue (s : State) (n : Nbr) : Option PacketId × State :=
  if s.locked then (none, s)
  else
    match (s.queue n).peekGet with
    | none => (none, s)
    | some p =>
        (some p, { s with queue := Function.update s.queue n (s.queue n).get
                          taken := Function.update s.taken n (s.taken n ++ [p]) })

/-- `tsch_queue_add_packet`; `queuebuf` says whether there is a queuebuf left. -/
def addPacket (z : Sizes) (s : State) (n : Nbr) (content : Packet) (queuebuf : Bool) : State :=
  if s.locked then s
  else
    match (s.queue n).peekPut with
    | none => s
    | some putIndex =>
        if s.live.length < z.queuebufs ∧ queuebuf = true then
          let p := s.nextPacket
          { s with
            live := p :: s.live
            nextPacket := p + 1
            packet := Function.update s.packet p { content with transmissions := 0, ret := none }
            queue := Function.update s.queue n ((s.queue n).write putIndex p).put
            added := Function.update s.added n (s.added n ++ [p]) }
        else s

/-! ## The start of a slot

`usable` stands for the conditions on the backoff of a neighbor and on the
link a packet asks for. -/

/-- `tsch_queue_get_packet_for_nbr`. -/
def getPacketForNbr (s : State) (usable : Nbr → PacketId → Bool) (n : Nbr) : Option PacketId :=
  if s.locked then none else (s.queue n).peekGet.filter (usable n)

/-- The loop over the expired packets of a queue, given what the queue holds. -/
def dropExpired (usable : Nbr → PacketId → Bool) (asn : ℕ) (n : Nbr) :
    List PacketId → State → Option PacketId × State
  | [], s => (none, s)
  | p :: rest, s =>
      if usable n p then
        let s := s.touch p
        if tschSlotnumLt ((asn : ℤ) - 1) (s.packet p).transmissionTtl then (some p, s)
        else dropExpired usable asn n rest (freePacket (removePacketFromQueue s n).2 p)
      else (none, s)

/-- The part of `get_packet_and_neighbor_for_link` that looks for a data packet: one for
the neighbor of the link itself, else the first of the flow that is not expired. -/
def getDataPacketForLink (usable : Nbr → PacketId → Bool) (asn : ℕ) (s : State) (link : Link) :
    Option (PacketId × Nbr) × State :=
  let actual := getPacketForNbr s usable link.addr
  let s := actual.elim s s.touch
  match actual.filter fun p => (s.packet p).sendNbr with
  | some p => (some (p, link.addr), s)
  | none =>
      let n := .flow link.slotframeHandle
      if s.locked then (none, s)
      else
        let (p, s) := dropExpired usable asn n (s.queue n).toList s
        ((p.filter fun p => !tschSlotnumLt asn (s.packet p).earliestTxSlot).map (·, n), s)

/-- `get_packet_and_neighbor_for_link`. -/
def getPacketAndNeighborForLink (usable : Nbr → PacketId → Bool) (asn : ℕ) (s : State)
    (link : Link) : Option (PacketId × Nbr) × State :=
  if link.tx then
    match if link.linkType = .normal then none else getPacketForNbr s usable .eb with
    | some p => (some (p, .eb), s)
    | none =>
        if link.linkType = .advertisingOnly then (none, s)
        else getDataPacketForLink usable asn s link
  else (none, s)

/-- The packet of a slot; without one, a link that cannot receive gives way to the
backup link. -/
def packetOfSlot (usable : Nbr → PacketId → Bool) (asn : ℕ) (s : State) (link : Link)
    (backup : Option Link) : Option (PacketId × Nbr) × State :=
  let (found, s) := getPacketAndNeighborForLink usable asn s link
  match found, backup with
  | none, some backup =>
      if link.rx then (none, s) else getPacketAndNeighborForLink usable asn s backup
  | found, _ => (found, s)

/-- The start of a slot, up to where `tsch_tx_slot` waits. -/
def startSlot (usable : Nbr → PacketId → Bool) (asn : ℕ) (s : State) (link : Link)
    (backup : Option Link) : State :=
  let (found, s) := packetOfSlot usable asn s link backup
  match found with
  | none => s
  | some (p, n) =>
      let dequeuedIndex := s.dequeued.peekPut
      let s := if dequeuedIndex = none then s else s.touch p
      { s with slot := some ⟨p, n, dequeuedIndex, asn⟩ }

/-! ## The end of a slot -/

/-- `tsch_queue_packet_sent`: whether the packet stays in the queue, what was taken
out, and the state. -/
def packetSent (s : State) (n : Nbr) (p : PacketId) (asn : ℕ) (status : TxStatus) :
    Bool × Option PacketId × State :=
  if status = .ok then
    let (removed, s) := removePacketFromQueue s n
    (false, removed, s)
  else
    let s := s.touch p
    let content := s.packet p
    let maxTransmissions :=
      -- time is left to send it again
      if tschSlotnumLt asn content.transmissionTtl then
        ((((content.transmissionTtl : ℤ) - asn) % 256).toNat + content.transmissions) % 256
      else content.transmissions
    let s := { s with
      packet := Function.update s.packet p { content with maxTransmissions := maxTransmissions } }
    if maxTransmissions ≤ content.transmissions then
      let (removed, s) := removePacketFromQueue s n
      (false, removed, s)
    else (true, none, s)

/-- The end of `tsch_tx_slot`. -/
def endSlot (s : State) (slot : Slot) (status : TxStatus) : State :=
  match slot.dequeuedIndex with
  | none => { s with slot := none }
  | some index =>
      let p := slot.packet
      let s := s.touch p
      let content := { s.packet p with
        transmissions := ((s.packet p).transmissions + 1) % 256, ret := some status }
      let s := { s with slot := none, packet := Function.update s.packet p content }
      let (inQueue, removed, s) := packetSent s slot.neighbor p slot.asn status
      if inQueue then s
      else
        { s with dequeued := (s.dequeued.write index p).put
                 dequeues := s.dequeues ++ [(p, removed)] }

/-! ## Events -/

inductive Event where
  | addPacket (n : Nbr) (content : Packet) (queuebuf : Bool)
  | startSlot (usable : Nbr → PacketId → Bool) (asn : ℕ) (link : Link) (backup : Option Link)
  | endSlot (status : TxStatus)
  /-- `tsch_queue_remove_packet_from_queue` in the routing layer, which then frees the packet. -/
  | removePacket (n : Nbr)
  /-- A round of `tsch_queue_flush_nbr_queue`, up to the sent callback. -/
  | flush (n : Nbr)
  /-- A round of `tsch_tx_process_pending`, up to the sent callback. -/
  | processPending
  /-- The end of such a round. -/
  | free
  | getLock
  | releaseLock

def Frame.isPending : Frame → Bool
  | .pending _ => true
  | .removed _ => false

/-- What an event does, if it can happen. -/
def act (z : Sizes) (s : State) : Event → Option State
  | .addPacket n content queuebuf => some (addPacket z s n content queuebuf)
  | .startSlot usable asn link backup =>
      if s.slot = none then some (startSlot usable asn s link backup) else none
  | .endSlot status => s.slot.map fun slot => endSlot s slot status
  | .removePacket n =>
      match removePacketFromQueue s n with
      | (none, s) => some s
      | (some p, s) => some { s with frames := .removed p :: s.frames }
  | .flush n =>
      match removePacketFromQueue s n with
      | (none, _) => none
      | (some p, s) =>
          let s := s.touch p
          some { s with
            packet := Function.update s.packet p { s.packet p with ret := some .err }
            frames := .removed p :: s.frames }
  | .processPending =>
      -- the process does not call itself
      if s.frames.any Frame.isPending then none
      else
        s.dequeued.peekGet.map fun p =>
          let s := s.touch p
          { s with frames := .pending p :: s.frames }
  | .free =>
      match s.frames with
      | [] => none
      | .removed p :: frames => some { freePacket s p with frames := frames }
      | .pending p :: frames =>
          let s := freePacket s p
          some { s with frames := frames, dequeued := s.dequeued.get }
  | .getLock =>
      -- waits for the end of a slot
      if s.slot = none ∧ s.locked = false then some { s with locked := true } else none
  | .releaseLock => if s.locked then some { s with locked := false } else none

def step (z : Sizes) (s : State) (e : Event) : Option State := if s.fault then none else act z s e

end MasterScheduler.Mote.Queue
