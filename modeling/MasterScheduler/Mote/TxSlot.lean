import MasterScheduler.Mote.Accounting
import MasterScheduler.Mote.Elements
import MasterScheduler.Mote.Framer

/-!
# MasterScheduler.Mote.TxSlot — the status of a transmission

`tsch_tx_slot` hands a packet to the radio, transmits it, waits for an
acknowledgement if there has to be one, and reports what came of it. The status
is a static variable: it keeps its value from slot to slot, and a packet that
the radio does not take leaves it as it is.

1. **Model**: the status of a slot, and slots on the queues of
   `MasterScheduler.Mote.Queue`.
2. **Slot**: `truthful_iff`, for any status before.
3. **Runs**: `truthful_of_run`. What counts is the status of the slot before.

The build is without link layer security. `tsch_packet_update_eb` always
returns 1, so the packet is always ready.
-/

namespace MasterScheduler.Mote.TxSlot

open Lib Frame802154 Framer Elements Queue

/-! ## Model -/

/-- What `frame802154` and the slot operation of a node work with. -/
structure Config where
  panId : UInt16
  linkaddrNodeAddr : Linkaddr
  /-- `TSCH_WITH_SIXTOP`. -/
  sixtop : Bool
  /-- `CCA_ENABLED`. -/
  ccaEnabled : Bool
deriving DecidableEq, Repr

/-- `RADIO_TX_OK`. -/
def radioTxOk : ℤ := 0

/-- What the radio and the stack do in a slot. -/
structure Radio where
  /-- The result of `NETSTACK_RADIO.prepare`; zero is success. -/
  prepare : ℤ
  /-- `cca_status` is not zero behind the wait. -/
  clear : Bool
  /-- The result of `NETSTACK_RADIO.transmit`. -/
  transmit : ℤ
  /-- `ackbuf` after `NETSTACK_RADIO.read`, and how much of it was read. -/
  ackbuf : Memory
  ackLen : ℕ
  /-- The record `frame` before it is parsed into. -/
  frame : Frame802154.Frame

/-- `frame802154_check_dest_panid`. -/
def checkDestPanid (panId : UInt16) (frame : Frame802154.Frame) : Bool :=
  (hasPanid frame.fcf).2 && (frame.destPid == panId || frame.destPid == 0xffff)

/-- An address of `frame802154_extract_linkaddr`. Only long addresses can be handled. -/
def extractAddr (mode : Fin 4) (addr : Linkaddr) : Option Linkaddr :=
  if mode = noAddr ∨ isBroadcastAddr mode addr then some linkaddrNull
  else if mode = shortAddrMode then none
  else some addr

/-- The destination of `frame802154_extract_linkaddr`. -/
def extractLinkaddr (frame : Frame802154.Frame) : Option Linkaddr :=
  match extractAddr frame.fcf.srcAddrMode frame.srcAddr with
  | none => none
  | some _ => extractAddr frame.fcf.destAddrMode frame.destAddr

/-- `tsch_packet_parse_eack`: zero or the length, in eight bits. -/
def tschPacketParseEack (cfg : Config) (buf : Memory) (size : ℕ) (seqno : UInt8) (frame : Frame802154.Frame) :
    UInt8 :=
  let (frame, ret) := Frame802154.parse buf 0 size frame
  if ret < 3 then 0
  else if seqno ≠ frame.seq then 0
  else if checkDestPanid cfg.panId frame = false then 0
  else
    match extractLinkaddr frame with
    | none => 0
    | some dest =>
        if dest ≠ cfg.linkaddrNodeAddr ∧ dest ≠ linkaddrNull then 0
        else if frame.fcf.ieListPresent then
          match (parseInformationElements cfg.sixtop (buf.read ret (size - ret)) Ies.zero).result with
          | .error _ => 0
          | .ok n => UInt8.ofNat ret + UInt8.ofNat n
        else UInt8.ofNat ret

/-- `is_broadcast` of a neighbor. -/
def isBroadcast : Nbr → Bool
  | .eb | .broadcast => true
  | .flow _ | .node _ => false

/-- The sequence number of a packet is its third byte. -/
def seqnoOf (packet : List UInt8) : UInt8 := packet.getD 2 0

/-- `mac_tx_status` at the end of `tsch_tx_slot`, given its value at the start. -/
def macTxStatus (cfg : Config) (old : TxStatus) (n : Nbr) (packet : List UInt8) (r : Radio) :
    TxStatus :=
  if r.prepare = 0 then
    -- `cca_status` starts at 1 and is only or-ed, so the source never gets here; it would set
    -- `MAC_TX_COLLISION`, which counts as a failure like a missing acknowledgement
    if cfg.ccaEnabled ∧ r.clear = false then .noAck
    else if r.transmit = radioTxOk then
      if isBroadcast n then .ok
      else
        -- an acknowledgement that cannot be parsed has no length
        let ackLen : ℕ :=
          if 0 < r.ackLen ∧
              tschPacketParseEack cfg r.ackbuf r.ackLen (seqnoOf packet) r.frame = 0 then 0
          else r.ackLen
        if ackLen ≠ 0 then .ok else .noAck
    else .err
  else old

/-- A transmit slot that had room for a dequeued packet. -/
structure Record where
  packet : PacketId
  neighbor : Nbr
  data : List UInt8
  radio : Radio
  /-- What it reported. -/
  ret : TxStatus

structure State where
  queues : Queue.State
  /-- The bytes in the queuebuf of a packet. -/
  data : PacketId → List UInt8
  /-- The static variable. -/
  macTxStatus : TxStatus
  log : List Record

/-- The static variable is zero at first: `MAC_TX_OK`. -/
def initState (z : Sizes) : State where
  queues := Queue.initState z
  data := fun _ => []
  macTxStatus := .ok
  log := []

inductive Event where
  /-- Any other event of the queues; `data` are the bytes of a packet that is added. -/
  | queues (e : Queue.Event) (data : List UInt8)
  /-- `tsch_tx_slot`, from its packet being known to its end. -/
  | txSlot (r : Radio)

/-- What an event of the queues does beyond them. -/
def follow (s : State) (t : Queue.State) (data : List UInt8) : Queue.Event → State
  | .addPacket .. =>
      let p := s.queues.nextPacket
      if t.nextPacket = p then { s with queues := t }
      else { s with queues := t, data := Function.update s.data p data }
  | _ => { s with queues := t }

/-- The end of a transmit slot, with its packet and its place in the ring. -/
def txSlot (cfg : Config) (z : Sizes) (s : State) (slot : Slot) (r : Radio) : Option State :=
  match slot.dequeuedIndex with
  | none => (Queue.step z s.queues (.endSlot s.macTxStatus)).map fun t => { s with queues := t }
  | some _ =>
      let data := s.data slot.packet
      let status := macTxStatus cfg s.macTxStatus slot.neighbor data r
      (Queue.step z s.queues (.endSlot status)).map fun t =>
        { s with queues := t
                 macTxStatus := status
                 log := s.log ++ [⟨slot.packet, slot.neighbor, data, r, status⟩] }

def step (cfg : Config) (z : Sizes) (s : State) : Event → Option State
  | .queues (.endSlot _) _ => none
  | .queues e data => (Queue.step z s.queues e).map fun t => follow s t data e
  | .txSlot r => s.queues.slot.bind fun slot => txSlot cfg z s slot r

/-! ## What a slot did -/

namespace Record

variable (cfg : Config) (c : Record)

/-- The packet was handed to the radio. -/
def Handed : Prop := c.radio.prepare = 0

/-- `NETSTACK_RADIO.transmit` was called and returned `RADIO_TX_OK`. -/
def Transmitted : Prop :=
  c.Handed ∧ (cfg.ccaEnabled = true → c.radio.clear = true) ∧ c.radio.transmit = radioTxOk

/-- The record of what was received. -/
def ackFrame : Frame802154.Frame := (Frame802154.parse c.radio.ackbuf 0 c.radio.ackLen c.radio.frame).1

/-- `tsch_packet_parse_eack` took what was received for the acknowledgement. -/
def Accepted : Prop :=
  tschPacketParseEack cfg c.radio.ackbuf c.radio.ackLen (seqnoOf c.data) c.radio.frame ≠ 0

/-- What was received has the sequence number of the packet. -/
def Numbered : Prop :=
  c.ackFrame.fcf.sequenceNumberSuppression = false ∧ c.ackFrame.seq = seqnoOf c.data

/-- Success is reported only if it happened. -/
def Truthful : Prop :=
  c.ret = .ok →
    c.Handed ∧ c.Transmitted cfg ∧ (isBroadcast c.neighbor = false → c.Accepted cfg ∧ c.Numbered)

end Record

/-- The status that the slots so far have left. -/
def lastStatus (log : List Record) : TxStatus := (log.getLast?.map (·.ret)).getD .ok

/-- The packet was handed to the radio or the slot before it did not report success, and nothing
without a sequence number was taken for its acknowledgement. -/
def Sound (cfg : Config) (pre : List Record) (c : Record) : Prop :=
  (c.Handed ∨ lastStatus pre ≠ .ok) ∧
    ¬ (c.Transmitted cfg ∧ isBroadcast c.neighbor = false ∧ c.Accepted cfg ∧
      c.ackFrame.fcf.sequenceNumberSuppression = true)

/-! ## Slot -/

section

variable {cfg : Config} {old : TxStatus} {n : Nbr} {packet : List UInt8} {r : Radio}

theorem seq_of_accepted {buf : Memory} {size : ℕ} {seqno : UInt8} {frame : Frame802154.Frame}
    (h : tschPacketParseEack cfg buf size seqno frame ≠ 0) :
    0 < size ∧ (Frame802154.parse buf 0 size frame).1.seq = seqno := by
  unfold tschPacketParseEack at h
  dsimp only at h
  by_cases hret : (Frame802154.parse buf 0 size frame).2 < 3
  · rw [if_pos hret] at h
    exact absurd rfl h
  rw [if_neg hret] at h
  constructor
  · -- nothing is parsed of nothing
    by_contra hsize
    have hlt : size < 2 := by omega
    unfold Frame802154.parse at hret
    rw [if_pos hlt] at hret
    exact hret (Nat.succ_pos 2)
  · by_contra hseq
    rw [if_pos fun h' => hseq h'.symm] at h
    exact h rfl

/-- When a slot reports success. -/
theorem macTxStatus_eq_ok :
    macTxStatus cfg old n packet r = .ok ↔
      if r.prepare = 0 then
        ¬ (cfg.ccaEnabled = true ∧ r.clear = false) ∧ r.transmit = radioTxOk ∧
          (isBroadcast n = false →
            tschPacketParseEack cfg r.ackbuf r.ackLen (seqnoOf packet) r.frame ≠ 0)
      else old = .ok := by
  unfold macTxStatus
  by_cases hprepare : r.prepare = 0
  swap
  · rw [if_neg hprepare, if_neg hprepare]
  rw [if_pos hprepare, if_pos hprepare]
  by_cases hcca : cfg.ccaEnabled = true ∧ r.clear = false
  · rw [if_pos hcca]
    exact iff_of_false (by decide) fun h => h.1 hcca
  rw [if_neg hcca]
  by_cases htransmit : r.transmit = radioTxOk
  swap
  · rw [if_neg htransmit]
    exact iff_of_false (by decide) fun h => htransmit h.2.1
  rw [if_pos htransmit]
  by_cases hbroadcast : isBroadcast n = true
  · rw [if_pos hbroadcast]
    refine iff_of_true rfl ⟨hcca, htransmit, fun hunicast => ?_⟩
    rw [hbroadcast] at hunicast
    cases hunicast
  rw [if_neg hbroadcast]
  rw [Bool.not_eq_true] at hbroadcast
  -- a unicast: what was received decides
  dsimp only
  by_cases hack : tschPacketParseEack cfg r.ackbuf r.ackLen (seqnoOf packet) r.frame = 0
  · have hzero : ¬ (if 0 < r.ackLen ∧ tschPacketParseEack cfg r.ackbuf r.ackLen (seqnoOf packet)
        r.frame = 0 then 0 else r.ackLen) ≠ 0 := by
      split_ifs with h
      · simp
      · simp only [hack, and_true] at h
        omega
    rw [if_neg hzero]
    exact iff_of_false (by decide) fun h => h.2.2 hbroadcast hack
  · have hsize := (seq_of_accepted hack).1
    have hlen : (if 0 < r.ackLen ∧ tschPacketParseEack cfg r.ackbuf r.ackLen (seqnoOf packet)
        r.frame = 0 then 0 else r.ackLen) = r.ackLen := if_neg fun h => hack h.2
    rw [hlen, if_pos (by omega)]
    exact iff_of_true rfl ⟨hcca, htransmit, fun _ => hack⟩

/-- A report is truthful exactly if the packet was handed to the radio or the status before was
not success, and what was accepted has a sequence number. -/
theorem truthful_iff {c : Record}
    (hret : c.ret = macTxStatus cfg old c.neighbor c.data c.radio) :
    c.Truthful cfg ↔ (c.Handed ∨ old ≠ .ok) ∧
      ¬ (c.Transmitted cfg ∧ isBroadcast c.neighbor = false ∧ c.Accepted cfg ∧
        c.ackFrame.fcf.sequenceNumberSuppression = true) := by
  have hok := @macTxStatus_eq_ok cfg old c.neighbor c.data c.radio
  rw [← hret] at hok
  unfold Record.Truthful
  rw [hok]
  -- Without a prepared frame the status is left as it was.
  by_cases hhanded : c.radio.prepare = 0
  swap
  · -- the status is that of the slot before
    rw [if_neg hhanded]
    have hnot : ¬ c.Transmitted cfg := fun h => hhanded h.1
    constructor
    · intro h
      exact ⟨.inr fun hold => hhanded (h hold).1, fun h' => hnot h'.1⟩
    · rintro ⟨hhanded' | hold, _⟩ hok'
      · exact absurd hhanded' hhanded
      · exact absurd hok' hold
  rw [if_pos hhanded]
  constructor
  · intro h
    refine ⟨.inl hhanded, ?_⟩
    rintro ⟨⟨_, hclear, htransmit⟩, hunicast, haccepted, hsuppressed⟩
    have hcca : ¬ (cfg.ccaEnabled = true ∧ c.radio.clear = false) := by
      rintro ⟨henabled, hbusy⟩
      rw [hclear henabled] at hbusy
      cases hbusy
    rcases (h ⟨hcca, htransmit, fun _ => haccepted⟩).2.2 hunicast with ⟨_, hnumbered, _⟩
    rw [hsuppressed] at hnumbered
    cases hnumbered
  · rintro ⟨_, hnumbered⟩ ⟨hcca, htransmit, haccepted⟩
    have htransmitted : c.Transmitted cfg := by
      refine ⟨hhanded, fun henabled => ?_, htransmit⟩
      by_contra hbusy
      exact hcca ⟨henabled, Bool.eq_false_iff.2 hbusy⟩
    refine ⟨hhanded, htransmitted, fun hunicast => ⟨haccepted hunicast, ?_, ?_⟩⟩
    · by_contra hsuppressed
      rw [Bool.not_eq_false] at hsuppressed
      exact hnumbered ⟨htransmitted, hunicast, haccepted hunicast, hsuppressed⟩
    · exact (seq_of_accepted (haccepted hunicast)).2

end

/-! ## The status in a packet -/

section

variable {s t : Queue.State} {p : PacketId} {z : Sizes}

theorem ret_packetSent (s : Queue.State) (n : Nbr) (p : PacketId) (asn : ℕ) (status : TxStatus)
    (q : PacketId) : ((packetSent s n p asn status).2.2.packet q).ret = (s.packet q).ret := by
  unfold packetSent
  by_cases hok : status = .ok
  · rw [if_pos hok]
    dsimp only
    rw [(sameContent_removePacketFromQueue s n).2]
  rw [if_neg hok]
  dsimp only
  rw [(sameContent_touch s p).2]
  generalize hcontent : (if tschSlotnumLt asn (s.packet p).transmissionTtl = true then _ else _) = m
  have hupdate : (Function.update s.packet p { s.packet p with maxTransmissions := m } q).ret =
      (s.packet q).ret := by
    by_cases hq : q = p
    · rw [hq, Function.update_self]
    · rw [Function.update_of_ne hq]
  split_ifs
  · dsimp only
    rw [(sameContent_removePacketFromQueue _ n).2]
    exact hupdate
  · exact hupdate

/-- A slot sets the status of its packet and of no other. -/
theorem ret_endSlot {slot : Slot} {status : TxStatus}
    (h : ((endSlot s slot status).packet p).ret = some .ok) :
    (slot.dequeuedIndex ≠ none ∧ p = slot.packet ∧ status = .ok) ∨
      (s.packet p).ret = some .ok := by
  unfold endSlot at h
  cases hi : slot.dequeuedIndex with
  | none =>
    rw [hi] at h
    exact .inr h
  | some i =>
    rw [hi] at h
    dsimp only at h
    have hret : ((Function.update (s.touch slot.packet).packet slot.packet
        { (s.touch slot.packet).packet slot.packet with
          transmissions := (((s.touch slot.packet).packet slot.packet).transmissions + 1) % 256
          ret := some status }) p).ret = some .ok := by
      rw [← h]
      split_ifs
      · rw [ret_packetSent]
      · dsimp only
        rw [ret_packetSent]
    by_cases hp : p = slot.packet
    · rw [hp, Function.update_self] at hret
      exact .inl ⟨by simp, hp, Option.some.inj hret⟩
    · rw [Function.update_of_ne hp, (sameContent_touch s slot.packet).2] at hret
      exact .inr hret

/-- Nothing else makes it success. -/
theorem ret_step {e : Queue.Event} (he : ∀ status, e ≠ .endSlot status)
    (hstep : Queue.step z s e = some t) (h : (t.packet p).ret = some .ok) :
    (s.packet p).ret = some .ok := by
  have hupdate : ∀ {packet : PacketId → Queue.Packet} {q : PacketId} {content : Queue.Packet},
      content.ret ≠ some .ok → (Function.update packet q content p).ret = some .ok →
      (packet p).ret = some .ok := by
    intro packet q content hne hp
    by_cases hq : p = q
    · rw [hq, Function.update_self] at hp
      exact absurd hp hne
    · rwa [Function.update_of_ne hq] at hp
  unfold Queue.step at hstep
  split_ifs at hstep with hfault
  unfold act at hstep
  cases e with
  -- A new packet has no status yet.
  | addPacket n content queuebuf =>
    cases hstep
    unfold addPacket at h
    by_cases hl : s.locked = true
    · rw [if_pos hl] at h
      exact h
    rw [if_neg hl] at h
    cases hput : (s.queue n).peekPut with
    | none =>
      rw [hput] at h
      exact h
    | some i =>
      rw [hput] at h
      dsimp only at h
      split_ifs at h
      · exact hupdate (by simp) h
      · exact h
  | startSlot usable asn link backup =>
    dsimp only at hstep
    split_ifs at hstep with hslot
    cases hstep
    rwa [(sameContent_startSlot usable asn s link backup).2] at h
  | endSlot status => exact absurd rfl (he status)
  | removePacket n =>
    dsimp only at hstep
    rcases removePacketFromQueue_cases s n with hr | ⟨q, _, _, hr⟩
    · rw [hr] at hstep
      cases hstep
      exact h
    · rw [hr] at hstep
      cases hstep
      exact h
  | flush n =>
    dsimp only at hstep
    rcases removePacketFromQueue_cases s n with hr | ⟨q, _, _, hr⟩
    · rw [hr] at hstep
      cases hstep
    · -- a packet that is flushed has failed
      rw [hr] at hstep
      cases hstep
      have hold := hupdate (by simp) h
      rwa [(sameContent_touch (popped s n q) q).2] at hold
  | processPending =>
    dsimp only at hstep
    split_ifs at hstep
    rcases Option.map_eq_some_iff.1 hstep with ⟨q, _, rfl⟩
    rwa [(sameContent_touch s q).2] at h
  | free =>
    dsimp only at hstep
    split at hstep
    · cases hstep
    · cases hstep
      rwa [(sameContent_freePacket s _).2] at h
    · cases hstep
      rwa [(sameContent_freePacket s _).2] at h
  | getLock =>
    dsimp only at hstep
    split_ifs at hstep
    cases hstep
    exact h
  | releaseLock =>
    dsimp only at hstep
    split_ifs at hstep
    cases hstep
    exact h

end

/-! ## Runs -/

structure Inv (cfg : Config) (s : State) : Prop where
  /-- The static variable is what the last slot reported. -/
  status : s.macTxStatus = lastStatus s.log
  truthful : Always (fun pre c => c.Truthful cfg ↔ Sound cfg pre c) s.log
  /-- A packet with success has it from a slot. -/
  ret : ∀ p, (s.queues.packet p).ret = some .ok → ∃ c ∈ s.log, c.packet = p ∧ c.ret = .ok

section

variable {cfg : Config} {z : Sizes} {s u : State} {t : Queue.State}

theorem lastStatus_concat (log : List Record) (c : Record) :
    lastStatus (log ++ [c]) = c.ret := by
  unfold lastStatus
  rw [List.getLast?_concat]
  rfl

/-- The queues go on without a report. -/
theorem Inv.advance (h : Inv cfg s)
    (hret : ∀ p, (t.packet p).ret = some .ok → (s.queues.packet p).ret = some .ok)
    (data : PacketId → List UInt8) : Inv cfg { s with queues := t, data := data } :=
  ⟨h.status, h.truthful, fun p hp => h.ret p (hret p hp)⟩

/-- A queue event of another kind. -/
theorem Inv.queues (h : Inv cfg s) {e : Queue.Event} (he : ∀ status, e ≠ .endSlot status)
    (hstep : Queue.step z s.queues e = some t) (data : List UInt8) :
    Inv cfg (follow s t data e) := by
  have hret := fun p => ret_step (p := p) he hstep
  unfold follow
  split
  · dsimp only
    split_ifs
    · exact h.advance hret s.data
    · exact h.advance hret _
  · exact h.advance hret s.data

/-- A slot reports what the radio did, or what the slot before reported. -/
theorem Inv.txSlot (h : Inv cfg s) {slot : Slot} {r : Radio}
    (hstep : TxSlot.txSlot cfg z s slot r = some u) (hslot : s.queues.slot = some slot) :
    Inv cfg u := by
  unfold TxSlot.txSlot at hstep
  have hend : ∀ {status t}, Queue.step z s.queues (.endSlot status) = some t →
      t = endSlot s.queues slot status := by
    intro status t ht
    unfold Queue.step at ht
    split_ifs at ht
    unfold act at ht
    rw [hslot] at ht
    exact (Option.some.inj ht).symm
  cases hi : slot.dequeuedIndex with
  | none =>
    -- there is no room for a dequeued packet
    rw [hi] at hstep
    rcases Option.map_eq_some_iff.1 hstep with ⟨t, ht, rfl⟩
    refine h.advance (fun p hp => ?_) s.data
    rw [hend ht] at hp
    rcases ret_endSlot hp with ⟨hne, _⟩ | hold
    · exact absurd hi hne
    · exact hold
  | some i =>
    rw [hi] at hstep
    rcases Option.map_eq_some_iff.1 hstep with ⟨t, ht, rfl⟩
    refine ⟨?_, ?_, ?_⟩
    · dsimp only
      rw [lastStatus_concat]
    · refine always_concat h.truthful ?_
      unfold Sound
      rw [← h.status]
      exact truthful_iff rfl
    · intro p hp
      dsimp only at hp
      rw [hend ht] at hp
      rcases ret_endSlot hp with ⟨_, rfl, hok⟩ | hold
      · exact ⟨_, List.mem_append_right _ (List.mem_singleton_self _), rfl, hok⟩
      · rcases h.ret p hold with ⟨c, hc, hpacket, hok⟩
        exact ⟨c, List.mem_append_left _ hc, hpacket, hok⟩

theorem Inv.step (h : Inv cfg s) {e : Event} (hstep : TxSlot.step cfg z s e = some u) :
    Inv cfg u := by
  unfold TxSlot.step at hstep
  split at hstep
  · cases hstep
  · rename_i e data he
    rcases Option.map_eq_some_iff.1 hstep with ⟨t, ht, rfl⟩
    exact h.queues he ht data
  · rcases Option.bind_eq_some_iff.1 hstep with ⟨slot, hslot, htx⟩
    exact h.txSlot htx hslot

theorem inv_initState (cfg : Config) (z : Sizes) : Inv cfg (initState z) := by
  refine ⟨rfl, always_nil, fun p hp => ?_⟩
  cases hp

end

/-- In every run, a packet has the status success only if a slot reported it, and a report is
truthful exactly if its packet was handed to the radio or the slot before did not report success,
and nothing without a sequence number was taken for its acknowledgement. -/
theorem truthful_of_run (cfg : Config) (z : Sizes) (s : State)
    (hrun : Run (TxSlot.step cfg z) (fun _ _ => True) (initState z) s) :
    (∀ p, (s.queues.packet p).ret = some .ok → ∃ c ∈ s.log, c.packet = p ∧ c.ret = .ok) ∧
      Always (fun pre c => c.Truthful cfg ↔ Sound cfg pre c) s.log := by
  have hinv := hrun.invariant (fun _ _ _ h _ hs => h.step hs) (inv_initState cfg z)
  exact ⟨hinv.ret, hinv.truthful⟩

theorem length_nodeConfigAddr : ([5, 0, 0, 0, 0, 0, 0, 0] : List UInt8).length = 8 := rfl

/-- Node 5 in a network, without a check of the channel. -/
def nodeConfig : Config :=
  ⟨0xabcd, ⟨[5, 0, 0, 0, 0, 0, 0, 0], length_nodeConfigAddr⟩, false, false⟩

/-- A data frame with sequence number 7. -/
def dataBytes : List UInt8 := [0x61, 0xdc, 7]

/-- A frame record of zeros. -/
def zeroFrame : Frame802154.Frame where
  fcf := parseFcf 0 0
  destAddr := linkaddrNull
  srcAddr := linkaddrNull
  seq := 0
  destPid := 0
  srcPid := 0
  payload := 0
  payloadLen := 0

/-- An acknowledgement of number 7 for node 5. -/
def ackBytes : List UInt8 := [0x02, 0x2c, 7, 0xcd, 0xab, 0, 0, 0, 0, 0, 0, 0, 5]

/-- A radio that transmits and receives the acknowledgement. -/
def goodRadio : Radio := ⟨0, true, 0, fun i => ackBytes.getD i 0, ackBytes.length, zeroFrame⟩

/-- A radio that does not take the packet. -/
def busyRadio : Radio := ⟨1, true, 1, fun _ => 0, 0, zeroFrame⟩

/-- A packet for node 5 is added, and a slot starts to send it. -/
def slotEvents (asn : ℕ) : List Event :=
  [.queues (.addPacket (.node 5) ⟨0, 3, none, 1000, 0, true⟩ true) dataBytes,
    .queues (.startSlot (fun _ _ => true) asn ⟨true, true, .normal, .node 5, 0⟩ none) []]

/-- The packet of a slot, what the slot reported and whether the radio took the packet. -/
def reportOf (c : Record) : PacketId × TxStatus × ℤ := (c.packet, c.ret, c.radio.prepare)

/-- A packet is sent and acknowledged. -/
theorem truthful_of_run_acknowledged :
    ∃ s, Run (TxSlot.step nodeConfig smallSizes) (fun _ _ => True) (initState smallSizes) s ∧
      s.log.map reportOf = [(0, .ok, 0)] ∧
      ((∀ p, (s.queues.packet p).ret = some .ok → ∃ c ∈ s.log, c.packet = p ∧ c.ret = .ok) ∧
        Always (fun pre c => c.Truthful nodeConfig ↔ Sound nodeConfig pre c) s.log) := by
  obtain ⟨s, hrun, hs⟩ := exists_run_of_runEvents (TxSlot.step nodeConfig smallSizes)
    (fun _ _ => True) (initState smallSizes) (slotEvents 7 ++ [.txSlot goodRadio])
    (fun s => s.log.map reportOf = [(0, .ok, 0)]) (by decide)
  exact ⟨s, hrun, hs, truthful_of_run nodeConfig smallSizes s hrun⟩

/-- After that the radio does not take the next packet. It is dequeued all the same, with the status
of the one before. -/
theorem stale_status :
    ∃ s, Run (TxSlot.step nodeConfig smallSizes) (fun _ _ => True) (initState smallSizes) s ∧
      s.queues.dequeues = [(0, some 0), (1, some 1)] ∧ (s.queues.packet 1).ret = some .ok ∧
      ∃ c ∈ s.log, c.packet = 1 ∧ ¬ c.Truthful nodeConfig := by
  obtain ⟨s, hrun, hs⟩ := exists_run_of_runEvents (TxSlot.step nodeConfig smallSizes)
    (fun _ _ => True) (initState smallSizes)
    (slotEvents 7 ++ [.txSlot goodRadio] ++ slotEvents 17 ++ [.txSlot busyRadio])
    (fun s => s.queues.dequeues = [(0, some 0), (1, some 1)] ∧
      (s.queues.packet 1).ret = some .ok ∧ (1, TxStatus.ok, 1) ∈ s.log.map reportOf)
    (by decide)
  refine ⟨s, hrun, hs.1, hs.2.1, ?_⟩
  rcases List.mem_map.1 hs.2.2 with ⟨c, hc, hreport⟩
  unfold reportOf at hreport
  rw [Prod.mk.injEq, Prod.mk.injEq] at hreport
  rcases hreport with ⟨hpacket, hret, hprepare⟩
  refine ⟨c, hc, hpacket, ?_⟩
  intro htruthful
  have hhanded := (htruthful hret).1
  unfold Record.Handed at hhanded
  rw [hprepare] at hhanded
  exact absurd hhanded (by decide)

end MasterScheduler.Mote.TxSlot
