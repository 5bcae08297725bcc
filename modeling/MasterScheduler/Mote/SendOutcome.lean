import MasterScheduler.Mote.Accounting
import MasterScheduler.Mote.Mac
import MasterScheduler.Mote.SendGate
import MasterScheduler.Mote.TxCount

/-!
# MasterScheduler.Mote.SendOutcome — what becomes of a packet that is sent

`send_packet` of `tsch.c` either queues the packet or calls the sent callback
with an error. The number of transmissions is cut to a byte first, and with zero
the function returns at once.

1. **Model**: the calls of the callback are recorded; what it does comes after.
2. **Outcome**: `oneOutcome_iff`, for every packet and state.
3. **Budgets**: where the number of transmissions comes from, and when it is zero.
-/

namespace MasterScheduler.Mote.SendOutcome

open Lib Frame802154 Framer Mac Queue

/-! ## Model -/

/-- The attributes of the packet buffer that are not part of the frame. -/
structure Attrs where
  maxMacTransmissions : UInt16
  flowNumber : UInt16
  sendNbr : UInt16
  transmissionTtl : UInt16
  earliestTxSlot : UInt16
deriving DecidableEq, Repr

/-- `tsch_broadcast_address`. -/
def broadcastAddress : Linkaddr := ⟨List.replicate 8 0xff, rfl⟩

/-- The neighbor entry with an address. That of flow 0 is the one for beacons. -/
def nbrOf (addr : Linkaddr) : Nbr :=
  if addr = linkaddrNull then .eb
  else if addr = broadcastAddress then .broadcast
  else if addr = TxCount.flowAddr (addr.u8.getD 1 0).toNat then .flow (addr.u8.getD 1 0).toNat
  else .node (addr.u8.foldr (fun b n => b.toNat + 256 * n) 0)

/-- What is left after `send_packet`. -/
structure Sent where
  queues : State
  /-- The packet buffer as the callback or the caller finds it. -/
  pb : Packetbuf
  /-- The copy in the queue. -/
  queuebuf : Option Queuebuf
  /-- The calls of the sent callback: the status and the number of transmissions. -/
  calls : List (TxStatus × ℕ)

/-- The buffer after a framer that failed. -/
def framerLeft (config : Mac.Config) (pb : Packetbuf) : Packetbuf :=
  if config.panId = 0xffff then pb else assignSeqno config.macDsn pb

/-- The call of `tsch_queue_add_packet`, whose result is `NULL` if no packet was allocated. -/
def enqueue (z : Sizes) (n : Nbr) (content : Queue.Packet) (pb : Packetbuf) (room : Bool)
    (s : State) : Sent :=
  let t := addPacket z s n content room
  if t.nextPacket = s.nextPacket then ⟨t, pb, none, [(.err, 1)]⟩
  else ⟨t, pb, some ⟨copyto pb, pb⟩, []⟩

/-- `send_packet` with a sent callback; `room` says whether a neighbor entry and a queuebuf are
left. -/
def sendPacket (z : Sizes) (config : Mac.Config) (associated : Bool) (a : Attrs) (pb : Packetbuf)
    (room : Bool) (s : State) : Sent :=
  if associated = false then ⟨s, pb, none, [(.err, 1)]⟩
  else
    let broadcast := pb.receiver = linkaddrNull
    let pb := setAttrs config pb
    let maxTransmissions : UInt8 := a.maxMacTransmissions.toUInt8
    -- no transmissions left
    if maxTransmissions = 0 then ⟨s, pb, none, []⟩
    else
      let pb := if config.neighborDiscovery ∧ pb.macMetadata ≠ 0 then leave (createUnicast pb) else pb
      match framerCreate config.panId config.macDsn pb with
      | none => ⟨s, framerLeft config pb, none, [(.err, 1)]⟩
      | some (pb, _) =>
          let sendToNbr : UInt8 := a.sendNbr.toUInt8
          let addr :=
            if broadcast then broadcastAddress
            else if sendToNbr = 0 then TxCount.flowAddr a.flowNumber.toNat
            else pb.receiver
          let content : Queue.Packet :=
            { transmissions := 0
              maxTransmissions := maxTransmissions.toNat
              ret := none
              transmissionTtl := a.transmissionTtl.toNat
              earliestTxSlot := a.earliestTxSlot.toNat
              sendNbr := a.sendNbr ≠ 0 }
          enqueue z (nbrOf addr) content pb room s

/-! ## Outcome -/

/-- One packet is appended to one queue. -/
def Appended (s t : State) : Prop :=
  ∃ n p, (t.queue n).toList = (s.queue n).toList ++ [p] ∧ ∀ n', n' ≠ n → t.queue n' = s.queue n'

/-- The packet is queued, or the callback is called once with an error. -/
def OneOutcome (s : State) (r : Sent) : Prop :=
  Appended s r.queues ∧ r.calls = [] ∨
    r.queues.queue = s.queue ∧ ∃ status n, status ≠ .ok ∧ r.calls = [(status, n)]

section

variable {z : Sizes} {s : State} {config : Mac.Config} {a : Attrs} {pb : Packetbuf} {room : Bool}

/-- A packet is allocated exactly if it is appended. -/
theorem addPacket_cases (z : Sizes) (s : State) (n : Nbr) (content : Queue.Packet) (room : Bool) :
    addPacket z s n content room = s ∨
      (addPacket z s n content room).nextPacket = s.nextPacket + 1 ∧
        Appended s (addPacket z s n content room) := by
  unfold addPacket
  by_cases hl : s.locked = true
  · rw [if_pos hl]
    exact .inl rfl
  rw [if_neg hl]
  cases hput : (s.queue n).peekPut with
  | none => exact .inl rfl
  | some i =>
    dsimp only
    split_ifs with hfree
    · -- the packet goes to the end of this queue
      right
      refine ⟨rfl, n, s.nextPacket, ?_, ?_⟩
      · dsimp only
        rw [Function.update_self, RingBuffer.toList_push hput]
      · intro n' hn'
        exact Function.update_of_ne hn' _ _
    · exact .inl rfl

theorem enqueue_cases (z : Sizes) (s : State) (n : Nbr) (content : Queue.Packet) (pb : Packetbuf)
    (room : Bool) :
    enqueue z n content pb room s = ⟨s, pb, none, [(.err, 1)]⟩ ∨
      ∃ t, enqueue z n content pb room s = ⟨t, pb, some ⟨copyto pb, pb⟩, []⟩ ∧ Appended s t := by
  unfold enqueue
  dsimp only
  rcases addPacket_cases z s n content room with heq | ⟨hnext, happ⟩
  · rw [heq, if_pos rfl]
    exact .inl rfl
  · have hne : (addPacket z s n content room).nextPacket ≠ s.nextPacket := by
      intro h
      exact Nat.succ_ne_self _ (hnext.symm.trans h)
    rw [if_neg hne]
    exact .inr ⟨_, rfl, happ⟩

theorem not_appended_self (s : State) : ¬ Appended s s := by
  rintro ⟨n, p, hlist, _⟩
  have hlen := congrArg List.length hlist
  rw [List.length_append, List.length_singleton] at hlen
  omega

/-- A node that is associated does one of three things. -/
theorem sendPacket_cases :
    (a.maxMacTransmissions.toUInt8 = 0 ∧
      (sendPacket z config true a pb room s).queues = s ∧
      (sendPacket z config true a pb room s).calls = []) ∨
    (a.maxMacTransmissions.toUInt8 ≠ 0 ∧
      (sendPacket z config true a pb room s).queues = s ∧
      (sendPacket z config true a pb room s).calls = [(.err, 1)]) ∨
    (a.maxMacTransmissions.toUInt8 ≠ 0 ∧
      Appended s (sendPacket z config true a pb room s).queues ∧
      (sendPacket z config true a pb room s).calls = []) := by
  unfold sendPacket
  rw [if_neg (by decide)]
  dsimp only
  by_cases hzero : a.maxMacTransmissions.toUInt8 = 0
  · rw [if_pos hzero]
    exact .inl ⟨hzero, rfl, rfl⟩
  rw [if_neg hzero]
  right
  split
  · -- the framer failed
    exact .inl ⟨hzero, rfl, rfl⟩
  · rename_i framed _ _
    rcases enqueue_cases z s (nbrOf (if pb.receiver = linkaddrNull then broadcastAddress
        else if a.sendNbr.toUInt8 = 0 then TxCount.flowAddr a.flowNumber.toNat
        else framed.receiver)) _ framed room with heq | ⟨t, heq, happ⟩
    · rw [heq]
      exact .inl ⟨hzero, rfl, rfl⟩
    · rw [heq]
      exact .inr ⟨hzero, happ, rfl⟩

theorem toUInt8_eq_zero_iff (x : UInt16) : x.toUInt8 = 0 ↔ x.toNat % 256 = 0 := by
  rw [← UInt8.toNat_inj, UInt16.toNat_toUInt8]
  rfl

/-- A call has one outcome exactly if the node is not associated or the number of transmissions
is not zero in its low byte. -/
theorem oneOutcome_iff (z : Sizes) (config : Mac.Config) (associated : Bool) (a : Attrs)
    (pb : Packetbuf) (room : Bool) (s : State) :
    OneOutcome s (sendPacket z config associated a pb room s) ↔
      associated = false ∨ a.maxMacTransmissions.toNat % 256 ≠ 0 := by
  have hlow := toUInt8_eq_zero_iff a.maxMacTransmissions
  cases associated with
  | false =>
    refine ⟨fun _ => .inl rfl, fun _ => .inr ⟨rfl, .err, 1, ?_, rfl⟩⟩
    decide
  | true =>
    rcases @sendPacket_cases z s config a pb room with
      ⟨hzero, hqueues, hcalls⟩ | ⟨hne, hqueues, hcalls⟩ | ⟨hne, happ, hcalls⟩
    · -- neither of the two happens
      constructor
      · rintro (⟨happ, _⟩ | ⟨_, _, _, _, hone⟩)
        · rw [hqueues] at happ
          exact absurd happ (not_appended_self s)
        · rw [hcalls] at hone
          cases hone
      · rintro (h | h)
        · cases h
        · exact absurd (hlow.1 hzero) h
    · refine ⟨fun _ => .inr fun h => hne (hlow.2 h), fun _ => .inr ⟨?_, .err, 1, ?_, hcalls⟩⟩
      · rw [hqueues]
      · decide
    · exact ⟨fun _ => .inr fun h => hne (hlow.2 h), fun _ => .inl ⟨happ, hcalls⟩⟩

end

/-! ## Budgets -/

/-- The attributes after `packetbuf_clear`, with which `keepalive_send` calls. -/
def keepaliveAttrs : Attrs := ⟨0, 0, 0, 0, 0⟩

/-- `max_tx` of `setup_packet_configuration`. -/
def setupMaxTx (etxLink : UInt16) : UInt16 :=
  if etxLink % 1000 > 0 then etxLink / 1000 + 1 else etxLink / 1000

/-- `max_tx` of a data packet, at its source and where it is relayed. -/
def ttlMaxTx (ttl : UInt16) (asn : Hopping.Asn) : UInt16 :=
  SendGate.toUint16 (tschSlotnumDiff16 ttl.toNat (((asn.ls4b.toNat : ℤ) - 1) % 2 ^ 16))

theorem toNat_setupMaxTx (etxLink : UInt16) :
    (setupMaxTx etxLink).toNat = (etxLink.toNat + 999) / 1000 := by
  have hlt := etxLink.toNat_lt
  have hmod : (etxLink % 1000).toNat = etxLink.toNat % 1000 := UInt16.toNat_mod _ _
  have hdiv : (etxLink / 1000).toNat = etxLink.toNat / 1000 := UInt16.toNat_div _ _
  have hpos : etxLink % 1000 > 0 ↔ 0 < etxLink.toNat % 1000 := by
    rw [← hmod]
    exact UInt16.lt_iff_toNat_lt
  unfold setupMaxTx
  split_ifs with h
  · have hone : (1 : UInt16).toNat = 1 := rfl
    have hrem := hpos.1 h
    rw [UInt16.toNat_add, hdiv, hone, Nat.mod_eq_of_lt (by omega)]
    omega
  · have hrem : ¬ 0 < etxLink.toNat % 1000 := fun h' => h (hpos.2 h')
    rw [hdiv]
    omega

/-- A metric or schedule packet has no transmissions exactly if the ETX is zero. -/
theorem setupMaxTx_low (etxLink : UInt16) :
    (setupMaxTx etxLink).toNat % 256 = 0 ↔ etxLink.toNat = 0 := by
  have hlt := etxLink.toNat_lt
  rw [toNat_setupMaxTx]
  omega

/-- A data packet has none exactly if the slots left are a multiple of 256. -/
theorem ttlMaxTx_low (ttl : UInt16) (asn : Hopping.Asn) :
    (ttlMaxTx ttl asn).toNat % 256 = 0 ↔ ((ttl.toNat : ℤ) + 1 - asn.ls4b.toNat) % 256 = 0 := by
  have hto : ∀ x : ℤ, (SendGate.toUint16 x).toNat = (x % 2 ^ 16).toNat := by
    intro x
    unfold SendGate.toUint16
    rw [UInt16.toNat_ofNat']
    omega
  unfold ttlMaxTx tschSlotnumDiff16
  rw [hto, Int.bmod_def]
  split_ifs <;> omega

/-! ## Result -/

section

variable (z : Sizes) (config : Mac.Config) (associated : Bool) (a : Attrs) (pb : Packetbuf)
  (room : Bool) (s : State)

/-- The call with a given number of transmissions. -/
def sendWith (maxTx : UInt16) : Sent :=
  sendPacket z config associated { a with maxMacTransmissions := maxTx } pb room s

/-- Every call has one outcome exactly if the node is not associated or the low byte of the number
of transmissions is not zero. For the three callers: never, if the ETX is not zero, and if the
slots left are no multiple of 256. -/
theorem sendPacket_outcome (etxLink ttl : UInt16) (asn : Hopping.Asn) :
    (OneOutcome s (sendPacket z config associated a pb room s) ↔
        associated = false ∨ a.maxMacTransmissions.toNat % 256 ≠ 0) ∧
      (OneOutcome s (sendPacket z config associated keepaliveAttrs pb room s) ↔
        associated = false) ∧
      (OneOutcome s (sendWith z config associated a pb room s (setupMaxTx etxLink)) ↔
        associated = false ∨ etxLink.toNat ≠ 0) ∧
      (OneOutcome s (sendWith z config associated a pb room s (ttlMaxTx ttl asn)) ↔
        associated = false ∨ ((ttl.toNat : ℤ) + 1 - asn.ls4b.toNat) % 256 ≠ 0) := by
  refine ⟨oneOutcome_iff z config associated a pb room s, ?_, ?_, ?_⟩
  · -- the attribute is zero
    have hzero : ¬ keepaliveAttrs.maxMacTransmissions.toNat % 256 ≠ 0 := by decide
    rw [oneOutcome_iff, or_iff_left hzero]
  · unfold sendWith
    rw [oneOutcome_iff, Ne, setupMaxTx_low]
  · unfold sendWith
    rw [oneOutcome_iff, Ne, ttlMaxTx_low]

end

theorem length_runningAddr : ([0, 0, 0, 0, 0, 0, 0, 5] : List UInt8).length = 8 := rfl

/-- A node of a running network. -/
def runningConfig : Mac.Config :=
  ⟨false, 0xabcd, 0, 0, ⟨[0, 0, 0, 0, 0, 0, 0, 5], length_runningAddr⟩⟩

/-- Room for four packets at every neighbor, and eight altogether. -/
def fourSizes : Sizes := ⟨4, 8, 8⟩

/-- A data packet of flow 1 in slot 745, whose last slot is 1000. -/
def dataAttrs : Attrs := ⟨ttlMaxTx 1000 ⟨745, 0⟩, 1, 0, 1000, 745⟩

/-- A keep-alive message, and a data packet with 256 slots left: neither is queued, and the
callback is not called. -/
theorem no_outcome :
    ¬ OneOutcome (initState fourSizes)
        (sendPacket fourSizes runningConfig true keepaliveAttrs emptyPacketbuf true
          (initState fourSizes)) ∧
      dataAttrs.maxMacTransmissions = 256 ∧
      ¬ OneOutcome (initState fourSizes)
        (sendPacket fourSizes runningConfig true dataAttrs emptyPacketbuf true
          (initState fourSizes)) := by
  have hdata : dataAttrs.maxMacTransmissions = 256 := by decide
  refine ⟨?_, hdata, ?_⟩
  · rw [oneOutcome_iff]
    decide
  · rw [oneOutcome_iff, hdata]
    decide

end MasterScheduler.Mote.SendOutcome
