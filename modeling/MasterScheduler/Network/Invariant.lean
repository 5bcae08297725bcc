import MasterScheduler.Network.Control

/-!
# MasterScheduler.Network.Invariant — what holds of the whole network

The invariant of all nodes, frames and beacons together. It does not depend on
the flash: reads and writes may fail in any way.

- `DistOk`: the distributor has one `CM_SCHEDULE` packet on its way at most,
  and none once it has ended.
- `Control`: the invariant.
- `Control.step`: one step; `control_of_run`: whole runs.
-/

namespace MasterScheduler.Network

open Lib Mote

/-! ## The distributor moves on -/

/-- What other nodes may rely on when the distributor changes from `d` to `d'`. -/
structure Ext (d d' : NodeState) : Prop where
  bits : ∀ k, isBitSet d.receivedPackets k = true → isBitSet d'.receivedPackets k = true
  ended : d.scheduleVersion = 1 →
    d'.scheduleVersion = 1 ∧ d'.schedulePackets = d.schedulePackets

section Ext

variable {d d' s : NodeState}

/-- A distributor that does nothing. -/
theorem Ext.refl (d : NodeState) : Ext d d := ⟨fun _ h => h, fun h => ⟨h, rfl⟩⟩

/-- Packets stay good. -/
theorem PacketOk.ext (h : Ext d d') {dest : Option NodeId} {q : Packet} (hq : PacketOk d dest q) :
    PacketOk d' dest q := by
  refine ⟨hq.broadcast, fun hc => h.bits _ (hq.sent hc), fun hc => (h.ended (hq.ended hc)).1,
    ?_, ?_⟩
  · intro hc
    rw [(h.ended (hq.ended (by rw [hc]; decide))).2]
    exact hq.last hc
  · intro hc
    rw [(h.ended (hq.ended (by rw [hc]; decide))).2]
    exact hq.asked hc

/-- Packets stay good to carry. -/
theorem Carries.ext (h : Ext d d') {packets : ℕ} {dest : Option NodeId} {q : Packet}
    (hq : Carries d packets dest q) : Carries d' packets dest q := by
  refine ⟨hq.packet.ext h, ?_⟩
  intro hc
  rw [(h.ended (hq.packet.ended (by rw [hc]; decide))).2]
  exact hq.knows hc

/-- Complete nodes stay complete. -/
theorem Complete.ext (h : Ext d d') {packets : ℕ} {bits : BitVector}
    (hc : Complete d packets bits) : Complete d' packets bits := by
  rcases h.ended hc.ended with ⟨hended, hpackets⟩
  exact ⟨hended, hc.packets.trans hpackets.symm, hc.missing⟩

/-- The invariant of another node survives a step of the distributor. -/
theorem NodeOk.ext (h : Ext d d') (hs : NodeOk d s) : NodeOk d' s := by
  refine ⟨⟨hs.version, fun hv => (hs.finished hv).ext h, fun hp => (hs.phase hp).ext h, ?_,
    fun dest q hq => (hs.queue dest q hq).ext h, fun x hx => (hs.pending x hx).ext h⟩,
    hs.searching⟩
  intro ho
  rcases hs.old ho with ⟨hended, hpackets, hv⟩
  rcases h.ended hended with ⟨hended', hpackets'⟩
  exact ⟨hended', hpackets.trans hpackets'.symm, hv⟩

/-- Beacons stay true. -/
theorem BeaconOk.ext (h : Ext d d') {version packets : ℕ} (hb : BeaconOk d version packets) :
    BeaconOk d' version packets := by
  refine ⟨hb.version, ?_⟩
  intro hv
  rcases hb.ended hv with ⟨hended, hpackets⟩
  rcases h.ended hended with ⟨hended', hpackets'⟩
  exact ⟨hended', hpackets.trans hpackets'.symm⟩

end Ext

/-! ## The distributor -/

/-- The `CM_SCHEDULE` packets of a node that are queued or wait for their callback. -/
def outstanding (s : NodeState) : ℕ :=
  (s.queue none ++ s.pending.map (·.2.1)).countP (·.command = .schedule)

/-- The invariant of the distributor. -/
structure DistOk (cfg : Config) (loaded : Bool) (d : NodeState) : Prop where
  words : d.receivedPackets.length = cfg.receivedWords
  fresh : loaded = false →
    d.scheduleVersion = 0 ∧ outstanding d = 0 ∧ d.schedulePacketNumber = 1
  bits : loaded = true →
    ∀ k, 1 ≤ k → k ≤ d.schedulePacketNumber → isBitSet d.receivedPackets k = true
  sending : outstanding d ≤ 1
  opened : outstanding d ≠ 0 → d.scheduleVersion = 0

/-- The distributor hands over a packet of its own. -/
theorem distributor_output {d t : NodeState} (env : Env) (hd : NodeOk d d)
    (hv : d.scheduleVersion = 0) (hnone : outstanding d = 0) (hqueue : t.queue = d.queue)
    (hpending : t.pending = d.pending) (hext : Ext d t) (hphase : t.currentState ∉ completePhases)
    (hold : t.currentState ≠ .scheduleOld) (hversion : t.scheduleVersion ≤ 1)
    (hdone : t.scheduleVersion = 1 → IsComplete t t)
    (hout : PacketOk t none t.outgoing)
    (hcommand : t.outgoing.command = .schedule → t.scheduleVersion = 0) :
    NodeOk (output env t 10 none) (output env t 10 none) ∧
      outstanding (output env t 10 none) ≤ 1 ∧
      (outstanding (output env t 10 none) ≠ 0 → t.scheduleVersion = 0) := by
  -- before the end there are only `CM_SCHEDULE` packets around
  have hcarries : ∀ {dest q}, Carries d d.schedulePackets dest q →
      Carries t t.schedulePackets dest q := by
    intro dest q hq
    refine ⟨hq.packet.ext hext, ?_⟩
    intro he
    have := hq.packet.ended (by rw [he]; decide)
    omega
  have ht : NodeOk t t := by
    refine ⟨⟨hversion, hdone, fun hp => absurd hp hphase, fun ho => absurd ho hold, ?_, ?_⟩,
      fun ho => absurd ho hold⟩
    · rw [hqueue]
      exact fun dest q hq => hcarries (hd.queue dest q hq)
    · rw [hpending]
      exact fun x hx => hcarries (hd.pending x hx)
  have hoks := ht.output env 10 ⟨hout, fun _ => rfl⟩
  refine ⟨hoks.ext ⟨by simp, by simp⟩, ?_⟩
  have hcount : outstanding t = 0 := by
    unfold outstanding at hnone ⊢
    rw [hqueue, hpending]
    exact hnone
  -- the packet is queued, or nothing is
  have hcases : outstanding (output env t 10 none) = 0 ∨
      outstanding (output env t 10 none) =
        if t.outgoing.command = .schedule then 1 else 0 := by
    unfold outstanding at hcount ⊢
    rw [output_pending]
    unfold output
    dsimp only
    split
    · exact .inl hcount
    · split
      · right
        rw [tschQueueAddPacket_frame]
        rw [List.countP_append] at hcount
        simp only [Function.update_self, List.countP_append, List.countP_singleton,
          decide_eq_true_eq]
        omega
      · rw [handleTxErr_frame]
        exact .inl hcount
  split_ifs at hcases with hc
  · exact ⟨by omega, fun _ => hcommand hc⟩
  · exact ⟨by omega, fun h => absurd (by omega) h⟩

/-! ## The distributor between its packets -/

/-- The broadcast packets that a node has handed over. -/
def broadcasts (s : NodeState) : List Packet :=
  s.handed.filterMap fun x => if x.1 = none then some x.2 else none

/-- What the handlers of the distributor leave alone, unless they send the next
packet of the schedule. -/
structure Still (s t : NodeState) : Prop where
  version : t.scheduleVersion = s.scheduleVersion
  packets : t.schedulePackets = s.schedulePackets
  bits : t.receivedPackets = s.receivedPackets
  flash : t.flash = s.flash
  number : t.schedulePacketNumber = s.schedulePacketNumber
  sending : outstanding t ≤ outstanding s
  broadcasts : broadcasts t = broadcasts s

section Still

variable {node : Node} {env : Env} {d s t u : NodeState}

/-- Doing nothing is still. -/
theorem Still.refl (s : NodeState) : Still s s := ⟨rfl, rfl, rfl, rfl, rfl, le_rfl, rfl⟩

/-- Two still handlers. -/
theorem Still.trans (h : Still s t) (h' : Still t u) : Still s u :=
  ⟨h'.version.trans h.version, h'.packets.trans h.packets, h'.bits.trans h.bits,
    h'.flash.trans h.flash, h'.number.trans h.number, h'.sending.trans h.sending,
    h'.broadcasts.trans h.broadcasts⟩

/-- A still step takes nothing back. -/
theorem Still.ext (h : Still s t) : Ext s t := by
  refine ⟨?_, ?_⟩
  · rw [h.bits]
    exact fun _ hk => hk
  · rw [h.version, h.packets]
    exact fun hv => ⟨hv, rfl⟩

/-- What is outstanding depends on queue and callbacks. -/
theorem outstanding_congr (hqueue : t.queue none = s.queue none) (hpending : t.pending = s.pending) :
    outstanding t = outstanding s := by
  unfold outstanding
  rw [hqueue, hpending]

/-- A unicast packet. -/
theorem Still.output (env : Env) (etxLink : ℕ) (dest : NodeId) :
    Still s (output env s etxLink (some dest)) := by
  refine ⟨by simp, by simp, by simp, by simp, by simp, ?_, by simp [Network.broadcasts]⟩
  refine (outstanding_congr ?_ (by simp)).le
  unfold Mote.output
  dsimp only
  split
  · rfl
  · split
    · rw [tschQueueAddPacket_frame]
      simp
    · rw [handleTxErr_frame]

/-- A repeated transmission is still. -/
theorem Still.handleRetransmit : Still s (Mote.handleRetransmit s) := by
  rw [handleRetransmit_frame]
  exact ⟨rfl, rfl, rfl, rfl, rfl, le_rfl, rfl⟩

/-- So is an error. -/
theorem Still.handleTxErr : Still s (Mote.handleTxErr s) := by
  rw [handleTxErr_frame]
  exact ⟨rfl, rfl, rfl, rfl, rfl, le_rfl, rfl⟩

/-- A packet whose callback runs. -/
theorem Still.pop {x : Option NodeId × Packet × TxStatus}
    {rest : List (Option NodeId × Packet × TxStatus)} (hp : s.pending = x :: rest) :
    Still s { s with pending := rest } := by
  refine ⟨rfl, rfl, rfl, rfl, rfl, ?_, rfl⟩
  unfold outstanding
  rw [hp]
  simp only [List.countP_append, List.map_cons, List.countP_cons]
  omega

/-- The distributor never searches for packets. -/
theorem NodeOk.not_old (h : NodeOk d d) : d.currentState ≠ .scheduleOld := by
  intro ho
  rcases h.old ho with ⟨hended, -, hv⟩
  omega

/-- A node that does not search asks for nothing. -/
theorem requestRetransmitOrFinish_eq (h : s.currentState ≠ .scheduleOld) (dest : NodeId) :
    requestRetransmitOrFinish node env s dest = s := if_pos h

/-- The answer to a request is still. -/
theorem commandInputScheduleRetransmittRequest_still (src : NodeId) :
    Still s (commandInputScheduleRetransmittRequest node env s src) := by
  rcases retransmittRequest_cases node env s src with ⟨-, hres⟩ | ⟨-, t, ht, hres⟩
  · rw [hres]
    exact .refl s
  · have hserve : Still s t := by
      rw [ht.frame]
      exact ⟨rfl, rfl, rfl, rfl, rfl, le_rfl, rfl⟩
    rcases hres with ⟨-, hres⟩ | ⟨-, hres⟩
    · rw [hres]
      exact hserve
    · rw [hres]
      have hout := hserve.trans (.output env env.etxLink src)
      split
      · exact ⟨hout.version, hout.packets, hout.bits, hout.flash, hout.number, hout.sending,
          hout.broadcasts⟩
      · exact hout

/-- The distributor has every packet that is around. -/
theorem masterRoutingInput_still (h : NodeOk d d) {q : Packet} {dest : Option NodeId}
    (hq : PacketOk d dest q) (src : NodeId) :
    Still d (masterRoutingInput node env d q src dest) := by
  have hcopy : Still d (d.copyIn q) := ⟨rfl, rfl, rfl, rfl, rfl, le_rfl, rfl⟩
  have hdist : ∀ len, Still d
      (handleScheduleDistributionStateChanges node env (d.copyIn q) len) := by
    intro len
    unfold handleScheduleDistributionStateChanges
    split
    · exact hcopy
    · rename_i hbit
      split
      · rename_i hcommand
        exact absurd (hq.sent (by rw [show q.command = .schedule from hcommand]; decide)) hbit
      · rename_i hcommand
        exact absurd (hq.sent (by rw [show q.command = .scheduleEnd from hcommand]; decide)) hbit
      · rename_i hcommand
        exact absurd (hq.sent (by rw [show q.command = .scheduleRetransmit from hcommand]; decide))
          hbit
      · exact hcopy
  unfold masterRoutingInput
  split
  · exact .refl d
  -- The distributor answers requests, and is not moved by the schedule it sends.
  · unfold transitionToNewState
    split
    · exact hdist _
    · exact hdist _
    · split
      · exact hcopy.trans (commandInputScheduleRetransmittRequest_still src)
      · exact hcopy
    · split
      · exact hcopy.trans (commandInputScheduleRetransmittRequest_still src)
      · exact hcopy
    · rename_i hold
      exact absurd hold h.not_old
    · exact hcopy

/-- Beacons tell the distributor nothing new. -/
theorem tschRxProcessBeacon_still {version packets : ℕ} (hb : BeaconOk d version packets)
    (nbr : NodeId) (fromTimeSource : Bool) (received : ByteVector) :
    Still d (tschRxProcessBeacon node env d nbr fromTimeSource version packets received) := by
  obtain ⟨s, hs, hstill⟩ : ∃ s, (if (d.addNbr (some nbr)).receivedCallback = true then
      masterScheduleReceivedCallback node (d.addNbr (some nbr)) received
      else d.addNbr (some nbr)) = s ∧ Still d s := by
    refine ⟨_, rfl, ?_⟩
    split
    · rw [masterScheduleReceivedCallback_frame, addNbr_frame]
      exact ⟨rfl, rfl, rfl, rfl, rfl, le_rfl, rfl⟩
    · rw [addNbr_frame]
      exact ⟨rfl, rfl, rfl, rfl, rfl, le_rfl, rfl⟩
  have hle : version ≤ s.scheduleVersion := by
    rw [hstill.version]
    have h1 := hb.version
    by_cases hv : version = 1
    · rw [(hb.ended hv).1]
      exact h1
    · omega
  unfold tschRxProcessBeacon
  dsimp only
  rw [hs]
  split
  · unfold masterScheduleDifferenceCallback
    split
    · exact hstill
    · rw [if_neg (by omega)]
      exact hstill
  · exact hstill

/-- A sent callback that does not ask for the next packet. -/
theorem masterRoutingOutputCallback_still (hold : s.currentState ≠ .scheduleOld) {p : Packet}
    {dest : Option NodeId} {status : TxStatus} (hp : PacketOk d dest p)
    (hnext : p.command = .schedule → status ≠ .err → node.nodeId ≠ node.distributor) :
    Still s (masterRoutingOutputCallback node env s p dest status) := by
  have hafter : ∀ u : NodeState, u.currentState = s.currentState → status ≠ .err → Still s u →
      Still s (transitionToNewStateAfterCallback node env u p dest) := by
    intro u hu hstatus hstill
    unfold transitionToNewStateAfterCallback
    split
    · rename_i hcommand
      unfold callbackInputScheduleSend
      rw [if_pos (hnext hcommand hstatus)]
      exact hstill
    · split
      · exact hstill.trans ⟨rfl, rfl, rfl, rfl, rfl, le_rfl, rfl⟩
      · exact hstill
    · rw [if_neg (by rw [hu]; exact hold)]
      exact hstill
    · split
      · exact hstill.trans .handleRetransmit
      · exact hstill
  unfold masterRoutingOutputCallback
  split
  · exact .refl s
  · unfold handleCallbackCommandsDivergcast
    cases status with
    | err => exact .handleTxErr
    | ok => exact hafter s rfl (by decide) (.refl s)
    | noAck =>
      dsimp only
      split
      · split
        · rw [requestRetransmitOrFinish_eq (by exact hold)]
          exact ⟨rfl, rfl, rfl, rfl, rfl, le_rfl, rfl⟩
        · exact ⟨rfl, rfl, rfl, rfl, rfl, le_rfl, rfl⟩
      · rename_i hcommand
        -- a retransmission has a destination
        cases dest with
        | none =>
          have := hp.broadcast.1 rfl
          rw [hcommand] at this
          rcases this with h | h <;> cases h
        | some m =>
          refine Still.trans (t := { NodeState.putBack node s p with
            payloadLen := p.payload.length }) ?_ (.output env env.etxLink m)
          exact ⟨rfl, rfl, rfl, rfl, rfl, le_rfl, rfl⟩
      · exact hafter (NodeState.putBack node s p) rfl (by decide)
          ⟨rfl, rfl, rfl, rfl, rfl, le_rfl, rfl⟩

/-- The installation is still. -/
theorem installSchedule_still : Still s (installSchedule node s) := by
  unfold installSchedule
  dsimp only
  rw [checkReceivedSchedulesByNodes_frame]
  split
  · refine ⟨rfl, rfl, rfl, rfl, rfl, ?_, rfl⟩
    unfold outstanding
    simp only [handleStateChange, List.nil_append, List.countP_append]
    omega
  · exact ⟨rfl, rfl, rfl, rfl, rfl, le_rfl, rfl⟩

/-- Only broadcast packets are counted, and a transmission keeps the count. -/
theorem txSlot_still (h : NodeOk d s) {status : TxStatus} {giveUp : Bool} {p : Packet}
    (ht : txSlot s status giveUp = some (p, t)) : Still s t := by
  rcases txSlot_cases ht with ⟨hmem, rfl | ⟨rest, hq, rfl⟩⟩
  · exact .refl t
  · refine ⟨rfl, rfl, rfl, rfl, rfl, ?_, rfl⟩
    unfold outstanding
    cases hlink : s.link with
    | none =>
      rw [hlink] at hq
      simp only [Function.update_self, hq, List.map_append, List.countP_append, List.map_cons,
        List.map_nil, List.countP_cons, List.countP_nil]
      omega
    | some m =>
      have hcommand : p.command ≠ .schedule := by
        intro hc
        have := (h.queue _ p hmem).packet.broadcast.2 (.inl hc)
        rw [hlink] at this
        cases this
      simp only [Function.update_of_ne (show none ≠ some m by simp), List.map_append,
        List.countP_append, List.map_cons, List.map_nil, List.countP_singleton, hcommand,
        decide_false]
      simp

/-- The distributor is as before. -/
theorem DistOk.still {cfg : Config} {loaded : Bool} (h : DistOk cfg loaded s) (ht : Still s t) :
    DistOk cfg loaded t := by
  have hle := ht.sending
  refine ⟨?_, ?_, ?_, hle.trans h.sending, ?_⟩
  · rw [ht.bits]
    exact h.words
  · intro hl
    rcases h.fresh hl with ⟨hv, hnone, hnumber⟩
    exact ⟨ht.version.trans hv, by omega, ht.number.trans hnumber⟩
  · rw [ht.bits, ht.number]
    exact h.bits
  · rw [ht.version]
    exact fun ho => h.opened (by omega)

end Still

/-! ## The packets of the schedule -/

section Sends

variable {node : Node} {cfg : Config} {k : ℕ} {s t : NodeState}

/-- The distributor sets a flag for itself, when the schedule ends. -/
theorem received_of_sends (h : Sends node k s t) {i : ℕ}
    (hi : isBitSet1Byte t.scheduleReceived i = true) :
    isBitSet1Byte s.scheduleReceived i = true ∨
      i = node.nodeId - 1 ∧ t.scheduleVersion = (s.scheduleVersion + 1) % 256 := by
  rcases h.command with ⟨-, -, -, hr⟩ | ⟨-, hv, -, hr⟩
  · rw [hr] at hi
    exact .inl hi
  · rw [hr] at hi
    rcases testBit_of_insertBit (by decide) hi with rfl | hi
    · exact .inr ⟨rfl, hv⟩
    · exact .inl hi

/-- The distributor sends its next packet: every packet before has been sent,
and none of them is still on its way. -/
theorem distributes_of_sends (h : Sends node k s t) (hs : NodeOk s s) (hv : s.scheduleVersion = 0)
    (hnone : outstanding s = 0) (hwords : s.receivedPackets.length = cfg.receivedWords)
    (hbits : ∀ j, 1 ≤ j → j < k → isBitSet s.receivedPackets j = true)
    (hend : t.mrp.command = .scheduleEnd → 1 ≤ k) (hk : k < 32 * cfg.receivedWords) (env : Env) :
    NodeOk (output env t 10 none) (output env t 10 none) ∧
      DistOk cfg true (output env t 10 none) ∧ Ext s (output env t 10 none) := by
  have hbit : ∀ j, isBitSet t.receivedPackets j = (decide (j = k) || isBitSet s.receivedPackets j) := by
    intro j
    rw [h.frame]
    refine testBit_insertBit (by decide) ?_ j
    unfold Covers
    rw [hwords]
    omega
  -- The packets up to this one are marked, the last of them by this step.
  have hall : ∀ j, 1 ≤ j → j ≤ k → isBitSet t.receivedPackets j = true := by
    intro j hj hjk
    rw [hbit]
    by_cases heq : j = k
    · simp [heq]
    · simp [hbits j hj (by omega)]
  have hself : isBitSet t.receivedPackets k = true := by simp [hbit]
  have hext : Ext s t := by
    refine ⟨?_, fun hv' => absurd (hv'.symm.trans hv) (by decide)⟩
    intro j hj
    rw [hbit, hj, Bool.or_true]
  have hstate : t.currentState = s.currentState := by rw [h.frame]
  -- The distributor is in no phase of a complete node before it has sent the end.
  have hphase : t.currentState ∉ completePhases := by
    rw [hstate]
    intro hp
    have := (hs.phase hp).ended
    omega
  have hnumber : t.schedulePacketNumber = k := by rw [h.frame]
  have hlength : t.receivedPackets.length = cfg.receivedWords := by
    rw [h.frame, ← hwords]
    exact length_insertBit _ _
  have hqueue : t.queue = s.queue := by rw [h.frame]
  have hpending : t.pending = s.pending := by rw [h.frame]
  have houtgoing : t.outgoing.command = t.mrp.command := rfl
  have hown : t.outgoing.number = k := h.number
  have hout : NodeOk (output env t 10 none) (output env t 10 none) ∧
      outstanding (output env t 10 none) ≤ 1 ∧
      (outstanding (output env t 10 none) ≠ 0 → t.scheduleVersion = 0) := by
    refine distributor_output env hs hv hnone hqueue hpending hext hphase
      (by rw [hstate]; exact hs.not_old) ?_ ?_ ?_ ?_
    · rcases h.command with ⟨-, hv', -⟩ | ⟨-, hv', -⟩ <;> omega
    · intro hv1
      rcases h.command with ⟨-, hv', -⟩ | ⟨-, -, hp, -⟩
      · omega
      · refine ⟨hv1, rfl, firstMissing_eq_none.2 ?_⟩
        rw [hp]
        exact hall
    · rcases h.command with ⟨hc, -⟩ | ⟨hc, hv', hp, -⟩
      · refine ⟨by simp [houtgoing, hc], fun _ => ?_, ?_, ?_, ?_⟩
        · rw [hown]
          exact hself
        all_goals simp [houtgoing, hc]
      · refine ⟨by simp [houtgoing, hc], fun _ => ?_, fun _ => by omega, fun _ => ?_, ?_⟩
        · rw [hown]
          exact hself
        · have := hend hc
          exact ⟨by omega, by omega⟩
        · simp [houtgoing, hc]
    · intro hc
      rcases h.command with ⟨-, hv', -⟩ | ⟨hc', -⟩
      · omega
      · rw [houtgoing, hc'] at hc
        cases hc
  refine ⟨hout.1, ⟨by simpa using hlength, by simp, ?_, hout.2.1, ?_⟩, ?_⟩
  · intro _ j hj hjk
    rw [output_schedulePacketNumber, hnumber] at hjk
    rw [output_receivedPackets]
    exact hall j hj hjk
  · rw [output_scheduleVersion]
    exact hout.2.2
  · refine ⟨?_, fun hv' => absurd (hv'.symm.trans hv) (by decide)⟩
    rw [output_receivedPackets]
    exact hext.bits

end Sends

/-! ## The network -/

/-- A received vector names nodes of the testbed that have the schedule. -/
def Received (D : Deployment) (net : NetState) (v : ByteVector) : Prop :=
  ∀ i, isBitSet1Byte v i = true →
    i + 1 ∈ D.cfg.nodeIds ∧ (net.node (i + 1)).scheduleVersion = 1

/-- The invariant of the network. -/
structure Control (D : Deployment) (net : NetState) : Prop where
  dist : DistOk D.cfg net.loaded (net.node D.distributor)
  nodes : ∀ n ∈ D.cfg.nodeIds, NodeOk (net.node D.distributor) (net.node n)
  air : ∀ f ∈ net.air, PacketOk (net.node D.distributor) f.dest f.packet
  beacons : ∀ b ∈ net.beacons,
    BeaconOk (net.node D.distributor) b.scheduleVersion b.schedulePackets ∧
      Received D net b.scheduleReceived
  received : ∀ n ∈ D.cfg.nodeIds, Received D net (net.node n).scheduleReceived

/-- The number of the next packet of the distributor, a byte. -/
def nextNumber (s : NodeState) : ℕ := (s.schedulePacketNumber + 1) % 256

/-- The next packet of the distributor has a place in the bit array, and a number
that has wrapped to zero does not end the schedule. -/
def InBounds (D : Deployment) (net : NetState) : Event → Prop
  | .loaded _ => 1 < 32 * D.cfg.receivedWords
  | .sent n env => n = D.distributor →
      ∀ x ∈ (net.node n).pending.head?, x.2.1.command = .schedule →
        nextNumber (net.node n) < 32 * D.cfg.receivedWords ∧
          (nextNumber (net.node n) = 0 →
            (fillSchedulePacketFromFlash D.cfg (net.node n) 0 env.read).1 ≠ .last)
  | _ => True

instance (D : Deployment) (net : NetState) : ∀ e, Decidable (InBounds D net e)
  | .loaded _ => inferInstanceAs (Decidable (_ < _))
  | .sent n _ => inferInstanceAs (Decidable (n = _ →
      ∀ x ∈ (net.node n).pending.head?, x.2.1.command = .schedule → _ ∧ (_ → _ ≠ _)))
  | .input .. | .transmit .. | .sendBeacon _ | .beacon .. | .missingResponse _ | .install _ =>
      inferInstanceAs (Decidable True)

section Network

variable {D : Deployment} {net net' : NetState} {n : NodeId} {t : NodeState} {heard : ByteVector}

/-- The identities start at 1. -/
theorem one_le_of_mem_nodeIds {cfg : Config} (h : n ∈ cfg.nodeIds) : 1 ≤ n := by
  unfold Config.nodeIds at h
  split at h
  · exact (List.mem_range'_1.1 h).1
  · rcases List.mem_append.1 h with h | h
    · exact (List.mem_range'_1.1 h).1
    · exact le_trans (by decide) (List.mem_range'_1.1 h).1

/-- The distributor has every packet. -/
theorem Control.hasAll (h : Control D net) : HasAll (net.node D.distributor) := by
  intro hv k h1 hk
  exact ((h.nodes _ D.distributor_mem).finished hv).bit h1 hk

/-- A version does not go down again, so received vectors stay true. -/
theorem Received.set {v : ByteVector} (h : Received D net v) (ht : t.scheduleVersion ≤ 1)
    (hversion : (net.node n).scheduleVersion ≤ t.scheduleVersion) : Received D (net.set n t) v := by
  intro i hi
  rcases h i hi with ⟨hmem, hv⟩
  refine ⟨hmem, ?_⟩
  by_cases hin : i + 1 = n
  · rw [hin, NetState.set_node_self]
    rw [hin] at hv
    omega
  · rw [NetState.set_node_of_ne _ _ hin]
    exact hv

/-- One node changes. -/
theorem Control.update (h : Control D net) (hn : n ∈ D.cfg.nodeIds) (loaded : Bool)
    (hdist : DistOk D.cfg loaded ((net.set n t).node D.distributor))
    (hext : Ext (net.node D.distributor) ((net.set n t).node D.distributor))
    (hok : NodeOk ((net.set n t).node D.distributor) t)
    (hversion : (net.node n).scheduleVersion ≤ t.scheduleVersion)
    (hreceived : ∀ i, isBitSet1Byte t.scheduleReceived i = true →
      isBitSet1Byte (net.node n).scheduleReceived i = true ∨ isBitSet1Byte heard i = true ∨
        i = n - 1 ∧ 1 ≤ t.scheduleVersion)
    (hheard : Received D net heard) : Control D { net.set n t with loaded := loaded } := by
  have hkeep : ∀ {v}, Received D net v → Received D (net.set n t) v :=
    fun hv => hv.set hok.version hversion
  -- The others rely on the distributor only through what it never takes back.
  refine ⟨hdist, ?_, fun f hf => (h.air f hf).ext hext, ?_, ?_⟩
  · intro m hm
    by_cases hmn : m = n
    · rw [hmn]
      dsimp only
      rw [NetState.set_node_self]
      exact hok
    · dsimp only
      rw [NetState.set_node_of_ne net _ hmn]
      exact (h.nodes m hm).ext hext
  · intro b hb
    exact ⟨(h.beacons b hb).1.ext hext, hkeep (h.beacons b hb).2⟩
  · intro m hm
    by_cases hmn : m = n
    · rw [hmn]
      dsimp only
      rw [NetState.set_node_self]
      intro i hi
      rcases hreceived i hi with hi | hi | ⟨rfl, hv⟩
      · exact hkeep (h.received n hn) i hi
      · exact hkeep hheard i hi
      · have h1 := one_le_of_mem_nodeIds hn
        have heq : n - 1 + 1 = n := Nat.sub_add_cancel h1
        have hv' : ((net.set n t).node n).scheduleVersion = 1 := by
          rw [NetState.set_node_self]
          have := hok.version
          omega
        rw [heq]
        exact ⟨hn, hv'⟩
    · dsimp only
      rw [NetState.set_node_of_ne net _ hmn]
      exact hkeep (h.received m hm)

/-- A handler of any node, except for the packets the distributor makes. -/
theorem Control.handler (h : Control D net) (hn : n ∈ D.cfg.nodeIds)
    (hok : NodeOk (net.node D.distributor) t) (heffect : Effect (D.node n) heard (net.node n) t)
    (hheard : Received D net heard) (hstill : n = D.distributor → Still (net.node n) t) :
    Control D (net.set n t) := by
  by_cases hd : n = D.distributor
  · have hstill' := hstill hd
    subst hd
    refine h.update hn net.loaded ?_ ?_ ?_ heffect.version heffect.received hheard
    · rw [NetState.set_node_self]
      exact h.dist.still hstill'
    · rw [NetState.set_node_self]
      exact hstill'.ext
    · rw [NetState.set_node_self]
      exact hok.ext hstill'.ext
  · have hkeep : (net.set n t).node D.distributor = net.node D.distributor :=
      NetState.set_node_of_ne _ _ (Ne.symm hd)
    refine h.update hn net.loaded ?_ ?_ ?_ heffect.version heffect.received hheard
    · rw [hkeep]
      exact h.dist
    · rw [hkeep]
      exact .refl _
    · rw [hkeep]
      exact hok

/-- No flag is set in an empty list. -/
theorem received_empty (D : Deployment) (net : NetState) : Received D net [] := by
  intro i hi
  simp [isBitSet1Byte, testBit] at hi

/-- The upload is finished: the first packet. -/
theorem Control.loaded (h : Control D net) (hl : net.loaded = false)
    (hbound : 1 < 32 * D.cfg.receivedWords) (env : Env) :
    Control D { net.set D.distributor (masterScheduleLoadedCallback (D.node D.distributor) env
      (net.node D.distributor)) with loaded := true } := by
  have hd := h.nodes _ D.distributor_mem
  rcases h.dist.fresh hl with ⟨hv, hnone, hnumber⟩
  rcases masterScheduleLoadedCallback_cases (D.node D.distributor) env (net.node D.distributor)
    with ⟨t, ht, -, heq⟩
  rw [hnumber] at ht
  have hs : NodeOk (handleStateChange (net.node D.distributor) .scheduleDist)
      (handleStateChange (net.node D.distributor) .scheduleDist) := by
    have hcore := hd.toNodeCore.openPhase .scheduleDist (by decide) (by decide)
    refine (hcore.ok (by intro ho; cases ho)).ext ?_
    exact ⟨fun _ hk => hk, fun hv' => ⟨hv', rfl⟩⟩
  rcases distributes_of_sends ht hs hv hnone h.dist.words (fun j h1 hj => by omega)
    (fun _ => le_rfl) hbound env with ⟨hok, hdist, hext⟩
  rw [heq]
  refine h.update D.distributor_mem true ?_ ?_ ?_ ?_ ?_ (received_empty D net)
  · rw [NetState.set_node_self]
    exact hdist
  · rw [NetState.set_node_self]
    exact ⟨hext.bits, hext.ended⟩
  · rw [NetState.set_node_self]
    exact hok
  · rw [hv]
    exact Nat.zero_le _
  · intro i hi
    rw [output_scheduleReceived] at hi
    rw [output_scheduleVersion]
    rcases received_of_sends ht hi with hi | ⟨hi, hv'⟩
    · exact .inl hi
    · exact .inr (.inr ⟨hi, by rw [hv']; simp [handleStateChange, hv]⟩)

/-- The sent callback of a schedule packet, up to the buffer. -/
theorem masterRoutingOutputCallback_schedule (node : Node) (env : Env) {s : NodeState} {p : Packet}
    (dest : Option NodeId) {status : TxStatus}
    (hphase : ¬ (s.currentState = .ignoreCommands ∨ s.currentState = .scheduleInstalled))
    (hcommand : p.command = .schedule) (hstatus : status ≠ .err) :
    ∃ mrp, masterRoutingOutputCallback node env s p dest status =
      callbackInputScheduleSend node env { s with mrp := mrp } := by
  unfold masterRoutingOutputCallback
  rw [if_neg hphase]
  unfold handleCallbackCommandsDivergcast
  cases status with
  | err => exact absurd rfl hstatus
  | ok =>
    refine ⟨s.mrp, ?_⟩
    dsimp only
    unfold transitionToNewStateAfterCallback
    rw [hcommand]
  | noAck =>
    refine ⟨(NodeState.putBack node s p).mrp, ?_⟩
    dsimp only
    rw [hcommand]
    unfold transitionToNewStateAfterCallback
    rw [hcommand]
    rfl

/-- The distributor sends its next packet. -/
theorem Control.next (h : Control D net) {dest : Option NodeId} {p : Packet} {status : TxStatus}
    {rest : List (Option NodeId × Packet × TxStatus)}
    (hp : (net.node D.distributor).pending = (dest, p, status) :: rest)
    (hphase : ¬ ((net.node D.distributor).currentState = .ignoreCommands ∨
      (net.node D.distributor).currentState = .scheduleInstalled))
    (hcommand : p.command = .schedule) (hstatus : status ≠ .err)
    (hbound : nextNumber (net.node D.distributor) < 32 * D.cfg.receivedWords) (env : Env)
    (hzero : nextNumber (net.node D.distributor) = 0 →
      (fillSchedulePacketFromFlash D.cfg (net.node D.distributor) 0 env.read).1 ≠ .last) :
    Control D (net.set D.distributor (masterRoutingOutputCallback (D.node D.distributor) env
      { net.node D.distributor with pending := rest } p dest status)) := by
  have hd := h.nodes _ D.distributor_mem
  -- The packet of the callback was outstanding, and is not any more.
  have hcount : outstanding { net.node D.distributor with pending := rest } + 1 =
      outstanding (net.node D.distributor) := by
    unfold outstanding
    rw [hp]
    simp only [List.countP_append, List.map_cons, List.countP_cons, hcommand, decide_true, if_true]
    omega
  have hsending := h.dist.sending
  have hv : (net.node D.distributor).scheduleVersion = 0 := h.dist.opened (by omega)
  have hl : net.loaded = true := by
    by_contra hl
    have := (h.dist.fresh (by simpa using hl)).2.1
    omega
  -- The callback retransmits, or sends the next packet, or the last one.
  rcases masterRoutingOutputCallback_schedule (D.node D.distributor) env
    (s := { net.node D.distributor with pending := rest }) dest hphase hcommand hstatus
    with ⟨mrp, hcallback⟩
  rcases callbackInputScheduleSend_cases env
    { net.node D.distributor with pending := rest, mrp := mrp }
    (show (D.node D.distributor).nodeId = (D.node D.distributor).distributor from rfl)
    with ⟨t, ht, hend, heq⟩
  have hnumber : nextNumber (net.node D.distributor) ≤
      (net.node D.distributor).schedulePacketNumber + 1 := Nat.mod_le _ _
  have hpos : t.mrp.command = .scheduleEnd → 1 ≤ nextNumber (net.node D.distributor) := by
    intro hc
    by_contra hlt
    have h0 : nextNumber (net.node D.distributor) = 0 := by omega
    have hl := hend.1 hc
    dsimp only at hl
    rw [show ((net.node D.distributor).schedulePacketNumber + 1) % 256 = 0 from h0] at hl
    have hsame := fill_fst_congr D.cfg 0 env.read
      (s := { net.node D.distributor with pending := rest, mrp := mrp })
      (t := net.node D.distributor) rfl
    exact hzero h0 (hsame.symm.trans hl)
  have hs : NodeOk { net.node D.distributor with pending := rest, mrp := mrp }
      { net.node D.distributor with pending := rest, mrp := mrp } := by
    have hpop := (hd.pop hp).1
    refine NodeOk.ext (d := net.node D.distributor) ⟨fun _ hk => hk, fun hv' => ⟨hv', rfl⟩⟩ ?_
    exact ⟨hpop.toNodeCore.congr rfl rfl rfl rfl rfl rfl, hpop.searching⟩
  have hnone : outstanding { net.node D.distributor with pending := rest, mrp := mrp } = 0 := by
    change outstanding { net.node D.distributor with pending := rest } = 0
    omega
  rcases distributes_of_sends ht hs hv hnone h.dist.words
    (fun j h1 hj => h.dist.bits hl j h1 (Nat.le_of_lt_succ (lt_of_lt_of_le hj hnumber))) hpos
    hbound env with ⟨hok, hdist, hext⟩
  rw [hcallback, heq]
  have hupdate := h.update (n := D.distributor) (t := output env t 10 none)
    D.distributor_mem true (by rw [NetState.set_node_self]; exact hdist)
    (by rw [NetState.set_node_self]; exact ⟨hext.bits, hext.ended⟩)
    (by rw [NetState.set_node_self]; exact hok) (by rw [hv]; exact Nat.zero_le _) ?_
    (received_empty D net)
  · rw [← hl] at hupdate
    exact hupdate
  · intro i hi
    rw [output_scheduleReceived] at hi
    rw [output_scheduleVersion]
    rcases received_of_sends ht hi with hi | ⟨hi, hv'⟩
    · exact .inl hi
    · exact .inr (.inr ⟨hi, by rw [hv']; simp [hv]⟩)

/-- A transmission adds a frame. -/
theorem Control.send (h : Control D net) (frames : List Frame)
    (hframes : ∀ f ∈ frames, PacketOk (net.node D.distributor) f.dest f.packet) :
    Control D { net with air := net.air ++ frames } := by
  refine ⟨h.dist, h.nodes, ?_, h.beacons, h.received⟩
  intro f hf
  rcases List.mem_append.1 hf with hf | hf
  · exact h.air f hf
  · exact hframes f hf

/-- A beacon tells what its sender has. -/
theorem Control.sendBeacon (h : Control D net) (hn : n ∈ D.cfg.nodeIds) :
    Control D { net with beacons := net.beacons ++ [beaconOf n (net.node n)] } := by
  refine ⟨h.dist, h.nodes, h.air, ?_, h.received⟩
  intro b hb
  rcases List.mem_append.1 hb with hb | hb
  · exact h.beacons b hb
  · rw [List.mem_singleton.1 hb]
    have hok := h.nodes n hn
    refine ⟨⟨hok.version, ?_⟩, h.received n hn⟩
    intro hv
    exact ⟨(hok.finished hv).ended, (hok.finished hv).packets⟩

/-- A node with its own bit set has the schedule. -/
theorem Control.complete_of_bit (h : Control D net) (hn : n ∈ D.cfg.nodeIds) {m : NodeId}
    (hm : m ∈ D.cfg.nodeIds) (hbit : isBitSet1Byte (net.node m).scheduleReceived (n - 1) = true) :
    IsComplete (net.node D.distributor) (net.node n) := by
  have hv := (h.received m hm (n - 1) hbit).2
  rw [show n - 1 + 1 = n from Nat.sub_add_cancel (one_le_of_mem_nodeIds hn)] at hv
  exact (h.nodes n hn).finished hv

/-- As many nodes as the deployment has. -/
theorem length_nodeIds (cfg : Config) : cfg.nodeIds.length = cfg.deploymentNodeCount := by
  unfold Config.nodeIds Config.deploymentNodeCount
  split
  · exact List.length_range'
  · rfl

/-- As many bits as there are nodes: the bits of all nodes. -/
theorem all_of_checkReceived (node : Node) {s : NodeState}
    (hbits : ∀ i, isBitSet1Byte s.scheduleReceived i = true → i + 1 ∈ node.cfg.nodeIds)
    (hcheck : (checkReceivedSchedulesByNodes node s).1 = true) {n : NodeId}
    (hn : n ∈ node.cfg.nodeIds) : isBitSet1Byte s.scheduleReceived (n - 1) = true := by
  have hcount : ((List.range node.cfg.nodesToCount).filter
      (isBitSet1Byte s.scheduleReceived)).length = node.cfg.deploymentNodeCount := by
    unfold checkReceivedSchedulesByNodes at hcheck
    dsimp only at hcheck
    split at hcheck
    · assumption
    · cases hcheck
  -- the nodes behind the bits are different nodes of the testbed, and as many as there are
  have hnodup : (((List.range node.cfg.nodesToCount).filter
      (isBitSet1Byte s.scheduleReceived)).map (· + 1)).Nodup :=
    (List.nodup_range.filter _).map (fun a b h => Nat.succ.inj h)
  have hsub : (((List.range node.cfg.nodesToCount).filter
      (isBitSet1Byte s.scheduleReceived)).map (· + 1)).Subperm node.cfg.nodeIds := by
    refine List.subperm_of_subset hnodup ?_
    intro m hm
    rcases List.mem_map.1 hm with ⟨i, hi, rfl⟩
    exact hbits i (List.mem_filter.1 hi).2
  have hperm := hsub.perm_of_length_le (by rw [length_nodeIds, List.length_map, hcount])
  rcases List.mem_map.1 (hperm.mem_iff.2 hn) with ⟨i, hi, rfl⟩
  exact (List.mem_filter.1 hi).2

/-- A node that installs finds all nodes complete. -/
theorem Control.all_complete (h : Control D net) {m : NodeId} (hm : m ∈ D.cfg.nodeIds)
    (hcheck : (checkReceivedSchedulesByNodes (D.node m)
      { net.node m with installTimer := false }).1 = true) (hn : n ∈ D.cfg.nodeIds) :
    IsComplete (net.node D.distributor) (net.node n) := by
  have hbits : ∀ i, isBitSet1Byte
      { net.node m with installTimer := false }.scheduleReceived i = true →
      i + 1 ∈ (D.node m).cfg.nodeIds := fun i hi => (h.received m hm i hi).1
  exact h.complete_of_bit hn hm (all_of_checkReceived (D.node m) hbits hcheck hn)

/-- One step. -/
theorem Control.step {e : Event} (h : Control D net) (hbound : InBounds D net e)
    (hs : Network.step D net e = some net') : Control D net' := by
  -- One case for each event; only those of the distributor change what others rely on.
  cases step_cases hs with
  | @loaded env hl => exact h.loaded hl hbound env
  | @input n i env f hn hf _ _ =>
    have hin := masterRoutingInput_ok (D.node n) env [] (h.nodes n hn) h.hasAll
      (h.air f hf) f.src
    refine h.handler hn hin.1 hin.2 (received_empty D net) ?_
    rintro rfl
    exact masterRoutingInput_still (h.nodes _ hn) (h.air f hf) f.src
  | @transmit n status giveUp p s hn ht =>
    rcases txSlot_ok (D.node n) [] (h.nodes n hn) ht with ⟨hok, heffect, hp⟩
    have hnode := h.handler hn hok heffect (received_empty D net)
      fun _ => txSlot_still (h.nodes n hn) ht
    refine hnode.send (sentFrames n (net.node n).link p status) ?_
    intro f hf
    unfold sentFrames at hf
    split at hf
    · cases hf
    · rw [List.mem_singleton.1 hf]
      refine hp.ext ?_
      by_cases hd : n = D.distributor
      · subst hd
        rw [NetState.set_node_self]
        exact (txSlot_still (h.nodes _ hn) ht).ext
      · rw [NetState.set_node_of_ne _ _ (Ne.symm hd)]
        exact .refl _
  | @sent n env dest p status rest hn hp =>
    rcases (h.nodes n hn).pop hp with ⟨hok, hcarries⟩
    by_cases hnext : n = D.distributor ∧ p.command = .schedule ∧ status ≠ .err ∧
        ¬ ((net.node n).currentState = .ignoreCommands ∨
          (net.node n).currentState = .scheduleInstalled)
    · rcases hnext with ⟨rfl, hcommand, hstatus, hphase⟩
      rcases hbound rfl _ (by rw [hp]; rfl) hcommand with ⟨hwords, hzero⟩
      exact h.next hp hphase hcommand hstatus hwords env hzero
    · have hpop := Still.pop hp
      by_cases hphase : (net.node n).currentState = .ignoreCommands ∨
          (net.node n).currentState = .scheduleInstalled
      · rw [masterRoutingOutputCallback_ignored (s := { net.node n with pending := rest }) hphase]
        exact h.handler hn hok (.of_eq rfl rfl rfl rfl) (received_empty D net) fun _ => hpop
      · have hquiet : p.command = .schedule → status ≠ .err →
            (D.node n).nodeId ≠ (D.node n).distributor :=
          fun hcommand hstatus hd => hnext ⟨hd, hcommand, hstatus, hphase⟩
        have hin := masterRoutingOutputCallback_ok (D.node n) env [] hok hcarries status hquiet
        refine h.handler hn hin.1 (hin.2.after rfl rfl rfl rfl) (received_empty D net) ?_
        rintro rfl
        exact hpop.trans (masterRoutingOutputCallback_still
          (s := { net.node D.distributor with pending := rest }) (h.nodes _ hn).not_old
          hcarries.packet hquiet)
  | @sendBeacon n hn => exact h.sendBeacon hn
  | @beacon n i fromTimeSource env b hn hb _ _ =>
    rcases h.beacons b hb with ⟨hbeacon, hheard⟩
    have hin := tschRxProcessBeacon_ok (D.node n) env b.scheduleReceived (h.nodes n hn) hbeacon
      b.src fromTimeSource
    refine h.handler hn hin.1 hin.2 hheard ?_
    rintro rfl
    exact tschRxProcessBeacon_still hbeacon b.src fromTimeSource b.scheduleReceived
  | @missingResponse n hn _ =>
    have hin := missingResponse_ok (D.node n) [] (h.nodes n hn)
    exact h.handler hn hin.1 hin.2 (received_empty D net)
      fun _ => ⟨rfl, rfl, rfl, rfl, rfl, le_rfl, rfl⟩
  | @install n hn _ =>
    have hin := installSchedule_ok (D.node n) [] (h.nodes n hn)
      fun hcheck => h.all_complete hn hcheck hn
    exact h.handler hn hin.1 hin.2 (received_empty D net) fun _ => installSchedule_still

/-- The invariant holds at the start. -/
theorem control_of_start {file : List UInt8} (h : Start D file net) : Control D net := by
  have hd := h.fresh _ D.distributor_mem
  have hbits : ∀ n ∈ D.cfg.nodeIds, ∀ i,
      isBitSet1Byte (net.node n).scheduleReceived i = false := by
    intro n hn i
    rw [(h.fresh n hn).received]
    exact testBit_replicate_zero _ _
  -- Nothing was sent, and every node is fresh.
  refine ⟨⟨?_, ?_, ?_, ?_, ?_⟩, ?_, ?_, ?_, ?_⟩
  · rw [hd.bits, List.length_replicate]
  · intro _
    refine ⟨hd.version, ?_, hd.number⟩
    unfold outstanding
    rw [hd.queue, hd.pending]
    rfl
  · intro hl
    rw [h.loaded] at hl
    cases hl
  · unfold outstanding
    rw [hd.queue, hd.pending]
    exact Nat.zero_le _
  · exact fun _ => hd.version
  · intro n hn
    have hf := h.fresh n hn
    have hphase : (net.node n).currentState ∉ completePhases ∧
        (net.node n).currentState ≠ .scheduleOld := by
      have := hf.phase
      revert this
      generalize (net.node n).currentState = st
      revert st
      decide
    refine ⟨⟨hf.version.le.trans zero_le_one, ?_, fun hp => absurd hp hphase.1,
      fun ho => absurd ho hphase.2, ?_, ?_⟩, fun ho => absurd ho hphase.2⟩
    · intro hv
      rw [hf.version] at hv
      cases hv
    · intro dest q hq
      rw [hf.queue] at hq
      cases hq
    · intro x hx
      rw [hf.pending] at hx
      cases hx
  · intro f hf
    rw [h.air] at hf
    cases hf
  · intro b hb
    rw [h.beacons] at hb
    cases hb
  · intro n hn i hi
    rw [hbits n hn i] at hi
    cases hi

/-- The invariant holds along every run in bounds. -/
theorem control_of_run {file : List UInt8} (h : Start D file net)
    (hrun : Run (Network.step D) (InBounds D) net net') : Control D net' :=
  hrun.invariant (fun _ _ _ hI hbound hs => hI.step hbound hs) (control_of_start h)

end Network

end MasterScheduler.Network
