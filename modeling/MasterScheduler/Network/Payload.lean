import MasterScheduler.Network.Invariant

/-!
# MasterScheduler.Network.Payload — what the packets carry

Every packet with a part of the schedule carries the chunk of its number, and the
distributor sends every number once, in order, the last one as the end packet.
A read of the flash may fail where the code reads a second time, and wherever a
retransmission is prepared; anywhere else an old buffer would go out under a new
number.

- `Hands`: what a handler does with the packets of its node.
- `Content`: the invariant of the network.
- `payload_of_run`: whole runs.
-/

namespace MasterScheduler.Network

open Lib Mote

/-! ## What a handler hands over -/

/-- A handler that stores nothing and hands over packets with a property only. -/
structure Hands (C : Packet → Prop) (s t : NodeState) : Prop where
  flash : t.flash = s.flash
  bits : t.receivedPackets = s.receivedPackets
  handed : ∀ x ∈ t.handed, x ∈ s.handed ∨ C x.2
  queue : ∀ dest, ∀ q ∈ t.queue dest, q ∈ s.queue dest ∨ C q
  pending : ∀ x ∈ t.pending, x ∈ s.pending ∨ x.2.1 ∈ s.queue x.1 ∨ C x.2.1

section Hands

variable {C : Packet → Prop} {d s t u : NodeState} {node : Node} {env : Env}

/-- A handler that changes none of the five fields. -/
theorem Hands.of_eq (hflash : t.flash = s.flash) (hbits : t.receivedPackets = s.receivedPackets)
    (hhanded : t.handed = s.handed) (hqueue : t.queue = s.queue)
    (hpending : t.pending = s.pending) : Hands C s t := by
  refine ⟨hflash, hbits, ?_, ?_, ?_⟩
  · rw [hhanded]
    exact fun _ hx => .inl hx
  · rw [hqueue]
    exact fun _ _ hq => .inl hq
  · rw [hpending]
    exact fun _ hx => .inl hx

/-- Doing nothing hands over nothing. -/
theorem Hands.refl (s : NodeState) : Hands C s s := .of_eq rfl rfl rfl rfl rfl

/-- Two handlers one after the other. -/
theorem Hands.trans (h : Hands C s t) (h' : Hands C t u) : Hands C s u := by
  refine ⟨h'.flash.trans h.flash, h'.bits.trans h.bits, ?_, ?_, ?_⟩
  · intro x hx
    rcases h'.handed x hx with hx | hx
    · exact h.handed x hx
    · exact .inr hx
  · intro dest q hq
    rcases h'.queue dest q hq with hq | hq
    · exact h.queue dest q hq
    · exact .inr hq
  · intro x hx
    rcases h'.pending x hx with hx | hx | hx
    · exact h.pending x hx
    · exact .inr (h.queue x.1 _ hx)
    · exact .inr (.inr hx)

/-- Sending hands over the outgoing packet. -/
theorem Hands.output (env : Env) (etxLink : ℕ) (dest : Option NodeId) (hq : C s.outgoing) :
    Hands C s (output env s etxLink dest) := by
  refine ⟨by simp, by simp, ?_, ?_, fun x hx => .inl (by rwa [output_pending] at hx)⟩
  · intro x hx
    rw [output_handed] at hx
    rcases List.mem_append.1 hx with hx | hx
    · exact .inl hx
    · rw [List.mem_singleton.1 hx]
      exact .inr hq
  · intro dest' q hq'
    unfold Mote.output at hq'
    dsimp only at hq'
    split at hq'
    · exact .inl hq'
    · split at hq'
      · rw [tschQueueAddPacket_frame] at hq'
        dsimp only at hq'
        rw [Function.update_apply] at hq'
        split_ifs at hq' with hdest
        · rcases List.mem_append.1 hq' with hq' | hq'
          · rw [hdest]
            exact .inl hq'
          · rw [List.mem_singleton.1 hq']
            exact .inr hq
        · exact .inl hq'
      · rw [handleTxErr_frame] at hq'
        exact .inl hq'

/-- A repeated transmission hands over nothing new. -/
theorem Hands.handleRetransmit : Hands C s (Mote.handleRetransmit s) := by
  rw [handleRetransmit_frame]
  exact .of_eq rfl rfl rfl rfl rfl

/-- An error of the transmission hands over nothing new. -/
theorem Hands.handleTxErr : Hands C s (Mote.handleTxErr s) := by
  rw [handleTxErr_frame]
  exact .of_eq rfl rfl rfl rfl rfl

/-- Taking a packet from a queue hands over nothing new. -/
theorem Hands.dequeue (dest : Option NodeId) : Hands C s (tschQueueRemovePacket s dest) := by
  refine ⟨rfl, rfl, fun _ hx => .inl hx, ?_, fun _ hx => .inl hx⟩
  intro dest' q hq
  unfold tschQueueRemovePacket at hq
  dsimp only at hq
  rw [Function.update_apply] at hq
  split_ifs at hq with hdest
  · rw [hdest]
    exact .inl (List.mem_of_mem_tail hq)
  · exact .inl hq

/-- A node that asks hands over a request. -/
theorem requestRetransmitOrFinish_hands (hC : ∀ q, q.command = .scheduleRetransmitReq → C q)
    (dest : NodeId) : Hands C s (requestRetransmitOrFinish node env s dest) := by
  unfold requestRetransmitOrFinish
  split
  · exact .refl s
  · split
    · exact (Hands.dequeue (some dest)).trans (.of_eq rfl rfl rfl rfl rfl)
    · split
      · exact .refl s
      · rename_i missing _ _
        have hreq : Hands C s (requestPacket node s missing) := .of_eq rfl rfl rfl rfl rfl
        have hout := hreq.trans (.output env env.etxLink (some dest) (hC _ rfl))
        exact hout.trans (.of_eq rfl rfl rfl rfl rfl)

/-- The answer to a request, if it can be read. -/
theorem commandInputScheduleRetransmittRequest_hands (src : NodeId)
    (hanswer : ∀ t : NodeState, t.flash = s.flash → t.mrp.number = s.mrp.number →
      (fillSchedulePacketFromFlash node.cfg t s.mrp.number env.read).1 ≠ .failed →
        C (fillSchedulePacketFromFlash node.cfg t s.mrp.number env.read).2.outgoing) :
    Hands C s (commandInputScheduleRetransmittRequest node env s src) := by
  rcases retransmittRequest_cases node env s src with ⟨-, hres⟩ | ⟨-, t, ht, hres⟩
  · rw [hres]
    exact .refl s
  · have hserve : Hands C s t := by
      rw [ht.frame]
      exact .of_eq rfl rfl rfl rfl rfl
    rcases hres with ⟨-, hres⟩ | ⟨-, hres⟩
    · rw [hres]
      exact hserve
    · have hhanded : (commandInputScheduleRetransmittRequest node env s src).handed =
          s.handed ++ [(some src, t.outgoing)] := by
        have hsame : t.handed = s.handed := by rw [ht.frame]
        rw [hres, ← hsame, ← output_handed env t env.etxLink (some src)]
        split <;> rfl
      rcases retransmittRequest_packet hhanded with ⟨t', hflash, hnumber, hread, hq⟩
      have hout := hserve.trans (.output env env.etxLink (some src)
        (hq ▸ hanswer t' hflash hnumber hread))
      rw [hres]
      split
      · exact hout.trans (.of_eq rfl rfl rfl rfl rfl)
      · exact hout

/-! ## Packets that come in -/

/-- Passing a broadcast on hands over the packet that was received. -/
theorem forwardBroadcast_hands (len : ℕ)
    (hq : C { s.mrp with payload := s.mrp.payload.take len }) :
    Hands C s (forwardBroadcast env s len) := by
  have hlen : Hands C s { s with payloadLen := len } := .of_eq rfl rfl rfl rfl rfl
  exact hlen.trans (.output env 10 none hq)

/-- Accepting a packet keeps the packets that wait. -/
theorem acceptPacket_packets (cfg : Config) (env : Env) (s : NodeState) (q : Packet) :
    (acceptPacket cfg env s q).handed = s.handed ∧ (acceptPacket cfg env s q).queue = s.queue ∧
      (acceptPacket cfg env s q).pending = s.pending := by
  unfold acceptPacket
  split
  · exact ⟨rfl, rfl, rfl⟩
  · rw [newPacket_frame]
    exact ⟨rfl, rfl, rfl⟩

/-- A new packet is stored first and passed on as it came. -/
theorem handleScheduleDistribution_hands {q : Packet} (hq : C q)
    (hcommand : q.command ≠ .scheduleRetransmitReq)
    (hunset : isBitSet s.receivedPackets q.number ≠ true) :
    Hands C (acceptPacket node.cfg env s q)
      (handleScheduleDistributionStateChanges node env (s.copyIn q) q.payload.length) := by
  have haccept : acceptPacket node.cfg env s q =
      commandInputScheduleNewPacket node.cfg env (s.copyIn q) q.payload.length := if_neg hunset
  have hmrp : (acceptPacket node.cfg env s q).mrp = (s.copyIn q).mrp := by
    rw [haccept, newPacket_frame]
  have hsame : ∀ mrp : Packet, mrp = (s.copyIn q).mrp →
      C { mrp with payload := mrp.payload.take q.payload.length } := by
    rintro mrp rfl
    rw [copyIn_payload]
    exact hq
  have hdist : Hands C (acceptPacket node.cfg env s q)
      (handleStateChange (acceptPacket node.cfg env s q) .scheduleDist) :=
    .of_eq rfl rfl rfl rfl rfl
  unfold handleScheduleDistributionStateChanges
  rw [if_neg (by exact hunset)]
  have hc : (s.copyIn q).mrp.command = q.command := rfl
  rw [hc]
  -- Each command is stored once, when its bit is not set yet.
  cases hqc : q.command with
  | scheduleRetransmitReq => exact absurd hqc hcommand
  | schedule =>
    unfold commandInputSchedulePacket
    dsimp only
    rw [newPacket_handleStateChange, ← haccept]
    exact hdist.trans (forwardBroadcast_hands _ (hsame _ hmrp))
  | scheduleRetransmit =>
    dsimp only
    rw [newPacket_handleStateChange, ← haccept]
    exact hdist
  | scheduleEnd =>
    unfold commandInputScheduleLastPacket
    dsimp only
    rw [newPacket_handleStateChange, ← haccept]
    split
    · exact Hands.trans (t := finishSchedule node (handleStateChange
        { handleStateChange (acceptPacket node.cfg env s q) .scheduleDist with
          schedulePackets := (handleStateChange (acceptPacket node.cfg env s q)
            .scheduleDist).mrp.number } .scheduleReceived)) (.of_eq rfl rfl rfl rfl rfl)
        (forwardBroadcast_hands _ (hsame _ hmrp))
    · exact Hands.trans (t := { handleStateChange (acceptPacket node.cfg env s q)
        .scheduleDist with schedulePackets := (handleStateChange (acceptPacket node.cfg env s q)
          .scheduleDist).mrp.number }) (.of_eq rfl rfl rfl rfl rfl)
        (forwardBroadcast_hands _ (hsame _ hmrp))

/-- After a packet that was sent again, only a request follows. -/
theorem commandInputScheduleRetransmitt_hands (hC : ∀ q, q.command = .scheduleRetransmitReq → C q)
    (q : Packet) (src : NodeId) (dest : Option NodeId) :
    Hands C (acceptPacket node.cfg env s q)
      (commandInputScheduleRetransmitt node env (s.copyIn q) q.payload.length src dest) := by
  have hstored : (if isBitSet (s.copyIn q).receivedPackets (s.copyIn q).mrp.number then s.copyIn q
      else commandInputScheduleNewPacket node.cfg env (s.copyIn q) q.payload.length) =
        acceptPacket node.cfg env s q := rfl
  unfold commandInputScheduleRetransmitt
  dsimp only
  rw [hstored]
  split
  · split
    · exact (Hands.dequeue (some src)).trans (requestRetransmitOrFinish_hands hC src)
    · exact requestRetransmitOrFinish_hands hC src
  · split
    · exact .of_eq rfl rfl rfl rfl rfl
    · exact .refl _

/-- A packet that comes in is stored if it is new and passed on as it came, or
nothing but a request or an answer is handed over. -/
theorem masterRoutingInput_hands (node : Node) (env : Env) {B C : Packet → Prop}
    (hB : ∀ q, q.command = .scheduleRetransmitReq → B q) {q : Packet}
    (hq : q.command ≠ .scheduleRetransmitReq → B q) (src : NodeId) (dest : Option NodeId)
    (hanswer : q.command = .scheduleRetransmitReq →
      s.currentState = .scheduleReceived ∨ s.currentState = .scheduleRetransmitting →
      ∀ t : NodeState, t.flash = s.flash → t.mrp.number = q.number →
        (fillSchedulePacketFromFlash node.cfg t q.number env.read).1 ≠ .failed →
          C (fillSchedulePacketFromFlash node.cfg t q.number env.read).2.outgoing) :
    Hands C s (masterRoutingInput node env s q src dest) ∨
      q.command ≠ .scheduleRetransmitReq ∧
        Hands B (acceptPacket node.cfg env s q) (masterRoutingInput node env s q src dest) := by
  have hcopy : Hands C s (s.copyIn q) := .of_eq rfl rfl rfl rfl rfl
  have hdist : Hands C s
        (handleScheduleDistributionStateChanges node env (s.copyIn q) q.payload.length) ∨
      q.command ≠ .scheduleRetransmitReq ∧ Hands B (acceptPacket node.cfg env s q)
        (handleScheduleDistributionStateChanges node env (s.copyIn q) q.payload.length) := by
    by_cases hbit : isBitSet s.receivedPackets q.number = true
    · left
      unfold handleScheduleDistributionStateChanges
      rw [if_pos (by exact hbit)]
      exact hcopy
    · by_cases hcommand : q.command = .scheduleRetransmitReq
      · left
        unfold handleScheduleDistributionStateChanges
        rw [if_neg (by exact hbit), show (s.copyIn q).mrp.command = .scheduleRetransmitReq from
          hcommand]
        exact hcopy
      · exact .inr ⟨hcommand, handleScheduleDistribution_hands (hq hcommand) hcommand hbit⟩
  have hrequest : q.command = .scheduleRetransmitReq →
      s.currentState = .scheduleReceived ∨ s.currentState = .scheduleRetransmitting →
      Hands C s (commandInputScheduleRetransmittRequest node env (s.copyIn q) src) := by
    intro hcommand hphase
    exact hcopy.trans (commandInputScheduleRetransmittRequest_hands src (hanswer hcommand hphase))
  unfold masterRoutingInput
  split
  · exact .inl (.refl s)
  -- In each phase few commands are handled.
  · unfold transitionToNewState
    split
    · exact hdist
    · exact hdist
    · rename_i hphase
      split
      · rename_i hcommand
        exact .inl (hrequest hcommand (.inl hphase))
      · exact .inl hcopy
    · rename_i hphase
      split
      · rename_i hcommand
        exact .inl (hrequest hcommand (.inr hphase))
      · exact .inl hcopy
    · split
      · rename_i hcommand
        refine .inr ⟨?_, commandInputScheduleRetransmitt_hands hB q src dest⟩
        rw [show q.command = .scheduleRetransmit from hcommand]
        decide
      · exact .inl hcopy
    · exact .inl hcopy

/-! ## The other handlers -/

/-- A difference of versions leads to a request only. -/
theorem masterScheduleDifferenceCallback_hands
    (hC : ∀ q, q.command = .scheduleRetransmitReq → C q) (nbr : NodeId) (version packets : ℕ) :
    Hands C s (masterScheduleDifferenceCallback node env s nbr version packets) := by
  unfold masterScheduleDifferenceCallback
  split
  · exact .refl s
  · split
    · split
      · exact .refl s
      · dsimp only
        split
        · exact .of_eq rfl rfl rfl rfl rfl
        · rename_i missing _
          have hreq : Hands C s (changeLink (requestPacket node (handleStateChange
              { s with schedulePackets := packets } .scheduleOld) missing) (some nbr)) :=
            .of_eq rfl rfl rfl rfl rfl
          have hout := hreq.trans (.output env env.etxLink (some nbr) (hC _ rfl))
          exact hout.trans (.of_eq rfl rfl rfl rfl rfl)
    · exact .refl s

/-- So does a beacon. -/
theorem tschRxProcessBeacon_hands (hC : ∀ q, q.command = .scheduleRetransmitReq → C q)
    (nbr : NodeId) (fromTimeSource : Bool) (version packets : ℕ) (received : ByteVector) :
    Hands C s (tschRxProcessBeacon node env s nbr fromTimeSource version packets received) := by
  obtain ⟨s₁, hs₁, hhands⟩ : ∃ s₁,
      (if (s.addNbr (some nbr)).receivedCallback = true then
        masterScheduleReceivedCallback node (s.addNbr (some nbr)) received
        else s.addNbr (some nbr)) = s₁ ∧ Hands C s s₁ := by
    refine ⟨_, rfl, ?_⟩
    split
    · rw [masterScheduleReceivedCallback_frame, addNbr_frame]
      exact .of_eq rfl rfl rfl rfl rfl
    · rw [addNbr_frame]
      exact .of_eq rfl rfl rfl rfl rfl
  unfold tschRxProcessBeacon
  dsimp only
  rw [hs₁]
  split
  · exact hhands.trans (masterScheduleDifferenceCallback_hands hC nbr version packets)
  · exact hhands

/-- A sent callback that does not ask for the next packet of the schedule. -/
theorem transitionToNewStateAfterCallback_hands
    (hC : ∀ q, q.command = .scheduleRetransmitReq → C q) (p : Packet) (dest : Option NodeId)
    (hnext : p.command = .schedule → node.nodeId ≠ node.distributor) :
    Hands C s (transitionToNewStateAfterCallback node env s p dest) := by
  unfold transitionToNewStateAfterCallback
  split
  · rename_i hcommand
    unfold callbackInputScheduleSend
    rw [if_pos (hnext hcommand)]
    exact .refl s
  · split
    · exact .of_eq rfl rfl rfl rfl rfl
    · exact .refl s
  · split
    · split
      · exact requestRetransmitOrFinish_hands hC _
      · exact .of_eq rfl rfl rfl rfl rfl
    · exact .refl s
  · split
    · exact .handleRetransmit
    · exact .refl s

/-- A callback hands over a packet of the kind it is called with. -/
theorem masterRoutingOutputCallback_hands
    (hC : ∀ q, q.command = .scheduleRetransmitReq → C q) {p : Packet} (hp : C p)
    (dest : Option NodeId) (status : TxStatus)
    (hnext : p.command = .schedule → status ≠ .err → node.nodeId ≠ node.distributor) :
    Hands C s (masterRoutingOutputCallback node env s p dest status) := by
  unfold masterRoutingOutputCallback
  split
  · exact .refl s
  · unfold handleCallbackCommandsDivergcast
    cases status with
    | err => exact .handleTxErr
    | ok =>
      exact transitionToNewStateAfterCallback_hands hC p dest fun hc => hnext hc (by decide)
    | noAck =>
      dsimp only
      have hback : Hands C s (NodeState.putBack node s p) := .of_eq rfl rfl rfl rfl rfl
      split
      · split
        · exact hback.trans (requestRetransmitOrFinish_hands hC _)
        · exact .of_eq rfl rfl rfl rfl rfl
      · -- the same packet goes out again
        have hlen : Hands C s { NodeState.putBack node s p with
            payloadLen := p.payload.length } := .of_eq rfl rfl rfl rfl rfl
        refine hlen.trans (.output env env.etxLink dest ?_)
        have hsame : NodeState.outgoing { NodeState.putBack node s p with
            payloadLen := p.payload.length } = p := by
          unfold NodeState.outgoing NodeState.putBack
          simp
        rw [hsame]
        exact hp
      · have hnext' : p.command = .schedule → node.nodeId ≠ node.distributor :=
          fun hc => hnext hc (by decide)
        exact hback.trans (transitionToNewStateAfterCallback_hands hC p dest hnext')

/-- The installation hands over nothing. -/
theorem installSchedule_hands : Hands C s (installSchedule node s) := by
  unfold installSchedule
  dsimp only
  rw [checkReceivedSchedulesByNodes_frame]
  split
  · refine ⟨rfl, rfl, fun _ hx => .inl hx, ?_, fun _ hx => .inl hx⟩
    intro dest q hq
    cases hq
  · exact .of_eq rfl rfl rfl rfl rfl

/-- A slot hands over nothing. -/
theorem txSlot_hands {status : TxStatus} {giveUp : Bool} {p : Packet}
    (ht : txSlot s status giveUp = some (p, t)) : Hands C s t := by
  rcases txSlot_cases ht with ⟨hmem, rfl | ⟨rest, hq, rfl⟩⟩
  · exact .refl t
  · refine ⟨rfl, rfl, fun _ hx => .inl hx, ?_, ?_⟩
    · intro dest q hq'
      dsimp only at hq'
      rw [Function.update_apply] at hq'
      split_ifs at hq' with hdest
      · rw [hdest, hq]
        exact .inl (List.mem_cons_of_mem _ hq')
      · exact .inl hq'
    · intro x hx
      rcases List.mem_append.1 hx with hx | hx
      · exact .inl hx
      · rw [List.mem_singleton.1 hx]
        exact .inr (.inl hmem)

/-- Taking a callback from the list hands over nothing. -/
theorem Hands.pop {x : Option NodeId × Packet × TxStatus}
    {rest : List (Option NodeId × Packet × TxStatus)} (hp : s.pending = x :: rest) :
    Hands C s { s with pending := rest } := by
  refine ⟨rfl, rfl, fun _ hx => .inl hx, fun _ _ hq => .inl hq, ?_⟩
  intro y hy
  left
  rw [hp]
  exact List.mem_cons_of_mem _ hy

end Hands

/-! ## The content of the network -/

/-- The number of the end packet. -/
def lastPacket (D : Deployment) (file : List UInt8) : ℕ :=
  packetCount D.cfg.schedulePayloadSize file.length

/-- A file whose packets can be told apart and fit the bit array, with a packet
size that the flash can read. -/
structure Fits (D : Deployment) (file : List UInt8) : Prop where
  ends : Ends D.cfg.schedulePayloadSize file.length
  size : D.cfg.schedulePayloadSize ≠ 255
  words : lastPacket D file < 32 * D.cfg.receivedWords

/-- A packet with the chunk of its number. -/
structure Genuine (D : Deployment) (file : List UInt8) (q : Packet) : Prop where
  number : 1 ≤ q.number ∧ q.number ≤ lastPacket D file
  payload : q.payload = chunk D.cfg.schedulePayloadSize file q.number

/-- A packet of a node: unless it is a request, it is genuine and the node has it. -/
def Carried (D : Deployment) (file : List UInt8) (bits : BitVector) (q : Packet) : Prop :=
  q.command ≠ .scheduleRetransmitReq → Genuine D file q ∧ isBitSet bits q.number = true

/-- The packets of a node. -/
structure NodeContent (D : Deployment) (file : List UInt8) (s : NodeState) : Prop where
  handed : ∀ x ∈ s.handed, Carried D file s.receivedPackets x.2
  queue : ∀ dest, ∀ q ∈ s.queue dest, Carried D file s.receivedPackets q
  pending : ∀ x ∈ s.pending, Carried D file s.receivedPackets x.2.1

/-- Number and command of the packets up to `m`. -/
def labels (last m : ℕ) : List (ℕ × Command) :=
  (List.range' 1 m).map fun k => (k, if k = last then .scheduleEnd else .schedule)

/-- The invariant of the content. -/
structure Content (D : Deployment) (file : List UInt8) (net : NetState) : Prop where
  dist : (net.node D.distributor).flash = storedFile file
  started : net.loaded = true → (net.node D.distributor).scheduleVersion = 0 →
    1 ≤ (net.node D.distributor).schedulePacketNumber ∧
      (net.node D.distributor).schedulePacketNumber < lastPacket D file
  ended : (net.node D.distributor).scheduleVersion = 1 →
    (net.node D.distributor).schedulePackets = lastPacket D file
  sent : (broadcasts (net.node D.distributor)).map (fun q => (q.number, q.command)) =
    labels (lastPacket D file)
      (if net.loaded then (net.node D.distributor).schedulePacketNumber else 0)
  others : ∀ n ∈ D.cfg.nodeIds, n ≠ D.distributor →
    Gathers D.cfg.schedulePayloadSize file (lastPacket D file) (net.node n).receivedPackets
      (net.node n).flash ∧ (net.node n).receivedPackets.length = D.cfg.receivedWords
  packets : ∀ n ∈ D.cfg.nodeIds, NodeContent D file (net.node n)
  air : ∀ f ∈ net.air, f.packet.command ≠ .scheduleRetransmitReq → Genuine D file f.packet

section Content

variable {D : Deployment} {file : List UInt8} {net net' : NetState} {n : NodeId} {s t : NodeState}

/-- A packet stays good when the node has more. -/
theorem Carried.mono {bits bits' : BitVector} {q : Packet} (h : Carried D file bits q)
    (hbits : ∀ k, isBitSet bits k = true → isBitSet bits' k = true) : Carried D file bits' q :=
  fun hc => ⟨(h hc).1, hbits _ (h hc).2⟩

/-- A request carries nothing. -/
theorem carried_request {bits : BitVector} (q : Packet) (h : q.command = .scheduleRetransmitReq) :
    Carried D file bits q := fun hc => absurd h hc

/-- A handler that hands over good packets keeps the content. -/
theorem NodeContent.hands (h : NodeContent D file s)
    (ht : Hands (Carried D file s.receivedPackets) s t) : NodeContent D file t := by
  constructor
  · intro x hx
    rw [ht.bits]
    rcases ht.handed x hx with hx | hx
    · exact h.handed x hx
    · exact hx
  · intro dest q hq
    rw [ht.bits]
    rcases ht.queue dest q hq with hq | hq
    · exact h.queue dest q hq
    · exact hq
  · intro x hx
    rw [ht.bits]
    rcases ht.pending x hx with hx | hx | hx
    · exact h.pending x hx
    · exact h.queue _ _ hx
    · exact hx

/-- A complete node has the whole file in its flash. -/
theorem Content.stores (h : Content D file net) (hfits : Fits D file) (hn : n ∈ D.cfg.nodeIds)
    (hc : IsComplete (net.node D.distributor) (net.node n)) :
    (net.node n).flash.Stores file := by
  by_cases hd : n = D.distributor
  · rw [hd, h.dist]
    exact storedFile_stores file
  · have hlast : (net.node D.distributor).schedulePackets = lastPacket D file := h.ended hc.ended
    have hend := hfits.ends.isLast.2.1.2.2.1
    refine (h.others n hn hd).1.stores hfits.ends.1 hend ?_
    intro k h1 hk
    exact hc.bit h1 (hlast.symm ▸ hk)

/-- What a complete node reads from its flash for a request. -/
theorem genuine_fill (hfits : Fits D file) {k : ℕ} {env : Env} (hstores : t.flash.Stores file)
    (h1 : 1 ≤ k) (hk : k ≤ lastPacket D file) (hnumber : t.mrp.number = k)
    (hread : (fillSchedulePacketFromFlash D.cfg t k env.read).1 ≠ .failed) :
    Genuine D file (fillSchedulePacketFromFlash D.cfg t k env.read).2.outgoing ∧
      (fillSchedulePacketFromFlash D.cfg t k env.read).2.outgoing.number = k := by
  have hoff := hfits.ends.offset_le hk
  have hnum : (fillSchedulePacketFromFlash D.cfg t k env.read).2.outgoing.number = k := by
    rw [fill_frame]
    exact hnumber
  refine ⟨⟨?_, ?_⟩, hnum⟩
  · rw [hnum]
    exact ⟨h1, hk⟩
  · rw [hnum]
    cases hr : env.read with
    | completed =>
      exact outgoing_fill_chunk D.cfg hstores h1 hoff (length_chunk_ne_255 hfits.size k)
    | failed m =>
      rcases fill_failed D.cfg hstores h1 hoff m with ⟨j, hj⟩
      rw [hr, hj] at hread
      exact absurd rfl hread

/-- One node changes, and the distributor at most between its packets. -/
theorem Content.update (h : Content D file net)
    (hstill : n = D.distributor → Still (net.node n) t)
    (hdata : n ≠ D.distributor → Gathers D.cfg.schedulePayloadSize file (lastPacket D file)
      t.receivedPackets t.flash ∧ t.receivedPackets.length = D.cfg.receivedWords)
    (hpackets : NodeContent D file t) : Content D file (net.set n t) := by
  have hothers : ∀ m ∈ D.cfg.nodeIds, m ≠ D.distributor →
      Gathers D.cfg.schedulePayloadSize file (lastPacket D file)
        ((net.set n t).node m).receivedPackets ((net.set n t).node m).flash ∧
        ((net.set n t).node m).receivedPackets.length = D.cfg.receivedWords := by
    intro m hm hmd
    by_cases hmn : m = n
    · rw [hmn, NetState.set_node_self]
      exact hdata (hmn ▸ hmd)
    · rw [NetState.set_node_of_ne _ _ hmn]
      exact h.others m hm hmd
  have hcontent : ∀ m ∈ D.cfg.nodeIds, NodeContent D file ((net.set n t).node m) := by
    intro m hm
    by_cases hmn : m = n
    · rw [hmn, NetState.set_node_self]
      exact hpackets
    · rw [NetState.set_node_of_ne _ _ hmn]
      exact h.packets m hm
  -- The distributor is still, or it is another node that has changed.
  by_cases hd : n = D.distributor
  · have hs := hstill hd
    subst hd
    refine ⟨?_, ?_, ?_, ?_, hothers, hcontent, h.air⟩
    all_goals rw [NetState.set_node_self]
    · exact hs.flash.trans h.dist
    · rw [hs.version, hs.number]
      exact h.started
    · rw [hs.version, hs.packets]
      exact h.ended
    · rw [hs.broadcasts, hs.number]
      exact h.sent
  · have hkeep : (net.set n t).node D.distributor = net.node D.distributor :=
      NetState.set_node_of_ne _ _ (Ne.symm hd)
    refine ⟨?_, ?_, ?_, ?_, hothers, hcontent, h.air⟩
    all_goals rw [hkeep]
    · exact h.dist
    · exact h.started
    · exact h.ended
    · exact h.sent

/-- A handler that stores nothing. -/
theorem Content.hands (h : Content D file net) (hn : n ∈ D.cfg.nodeIds)
    (ht : Hands (Carried D file (net.node n).receivedPackets) (net.node n) t)
    (hstill : n = D.distributor → Still (net.node n) t) : Content D file (net.set n t) := by
  refine h.update hstill ?_ ((h.packets n hn).hands ht)
  intro hd
  rw [ht.bits, ht.flash]
  exact h.others n hn hd

/-- A packet that comes in. -/
theorem Content.input (h : Content D file net) (hcontrol : Control D net) (hfits : Fits D file)
    (hn : n ∈ D.cfg.nodeIds) {f : Frame} (hf : f ∈ net.air) {env : Env}
    (hwrite : env.write = .completed) :
    Content D file (net.set n (masterRoutingInput (D.node n) env (net.node n) f.packet f.src
      f.dest)) := by
  have hok := hcontrol.nodes n hn
  have hpacket := hcontrol.air f hf
  have hstill : n = D.distributor → Still (net.node n)
      (masterRoutingInput (D.node n) env (net.node n) f.packet f.src f.dest) := by
    rintro rfl
    exact masterRoutingInput_still hok hpacket f.src
  -- an answer comes from the flash of a complete node
  have hanswer : f.packet.command = .scheduleRetransmitReq →
      (net.node n).currentState = .scheduleReceived ∨
        (net.node n).currentState = .scheduleRetransmitting →
      ∀ t : NodeState, t.flash = (net.node n).flash → t.mrp.number = f.packet.number →
        (fillSchedulePacketFromFlash (D.node n).cfg t f.packet.number env.read).1 ≠ .failed →
          Carried D file (net.node n).receivedPackets
            (fillSchedulePacketFromFlash (D.node n).cfg t f.packet.number env.read).2.outgoing := by
    intro hcommand hphase t hflash hnumber hread _
    have hc : IsComplete (net.node D.distributor) (net.node n) := by
      refine hok.phase ?_
      rcases hphase with hphase | hphase
      · rw [hphase]
        decide
      · rw [hphase]
        decide
    rcases hpacket.asked hcommand with ⟨h1, hle⟩
    have hgenuine := genuine_fill hfits (hflash ▸ h.stores hfits hn hc) h1
      (h.ended hc.ended ▸ hle) hnumber hread
    exact ⟨hgenuine.1, hgenuine.2.symm ▸ hc.bit h1 hle⟩
  -- a part of the schedule is marked in the end, and agrees with the flash
  have haccept : f.packet.command ≠ .scheduleRetransmitReq →
      isBitSet (acceptPacket D.cfg env (net.node n) f.packet).receivedPackets f.packet.number = true ∧
        (n ≠ D.distributor → Gathers D.cfg.schedulePayloadSize file (lastPacket D file)
          (acceptPacket D.cfg env (net.node n) f.packet).receivedPackets
          (acceptPacket D.cfg env (net.node n) f.packet).flash) := by
    intro hcommand
    have hgenuine := h.air f hf hcommand
    by_cases hd : n = D.distributor
    · refine ⟨?_, fun hne => absurd hd hne⟩
      subst hd
      exact isBitSet_acceptPacket_mono env _ _ (hpacket.sent hcommand)
    · have hdata := h.others n hn hd
      have hwords := hfits.words
      have hgathers := acceptPacket_gathers env hdata.1 hgenuine.number.1 hgenuine.number.2
        (by rw [hdata.2]; have := hgenuine.number.2; omega) hgenuine.payload
      exact ⟨hgathers.2 hwrite, fun _ => hgathers.1⟩
  rcases masterRoutingInput_hands (D.node n) env (s := net.node n)
    (C := Carried D file (net.node n).receivedPackets)
    (B := Carried D file (acceptPacket D.cfg env (net.node n) f.packet).receivedPackets)
    (fun q => carried_request q) (fun hc _ => ⟨h.air f hf hc, (haccept hc).1⟩) f.src f.dest hanswer with
    hhands | ⟨hcommand, hhands⟩
  · exact h.hands hn hhands hstill
  · refine h.update hstill ?_ ?_
    · intro hd
      rw [hhands.bits, hhands.flash]
      refine ⟨(haccept hcommand).2 hd, ?_⟩
      exact (length_receivedPackets_acceptPacket D.cfg env (net.node n) f.packet).trans
        (h.others n hn hd).2
    · refine NodeContent.hands ?_ hhands
      have hmono : ∀ q, Carried D file (net.node n).receivedPackets q →
          Carried D file (acceptPacket D.cfg env (net.node n) f.packet).receivedPackets q :=
        fun q hq => hq.mono fun k hk => isBitSet_acceptPacket_mono env _ _ hk
      have hframe := acceptPacket_packets D.cfg env (net.node n) f.packet
      refine ⟨?_, ?_, ?_⟩
      · intro x hx
        rw [hframe.1] at hx
        exact hmono _ ((h.packets n hn).handed x hx)
      · intro dest q hq
        rw [hframe.2.1] at hq
        exact hmono _ ((h.packets n hn).queue dest q hq)
      · intro x hx
        rw [hframe.2.2] at hx
        exact hmono _ ((h.packets n hn).pending x hx)

/-! ## The packets of the distributor -/

/-- The labels of one packet more. -/
theorem labels_succ (last m : ℕ) : labels last (m + 1) =
    labels last m ++ [(m + 1, if m + 1 = last then .scheduleEnd else .schedule)] := by
  unfold labels
  rw [List.range'_concat, List.map_append]
  simp [Nat.add_comm]

/-- A broadcast that is sent is the last one. -/
theorem broadcasts_output (env : Env) (t : NodeState) :
    broadcasts (output env t 10 none) = broadcasts t ++ [t.outgoing] := by
  unfold broadcasts
  rw [output_handed, List.filterMap_append]
  rfl

/-- The distributor hands over packet `m + 1` with its chunk and its label. -/
theorem Content.sends (h : Content D file net) (hwords : DistOk D.cfg net.loaded
      (net.node D.distributor)) (hfits : Fits D file) {m : ℕ} (env : Env)
    (hsame : Hands (fun _ => False) (net.node D.distributor) s)
    (hbroadcasts : broadcasts s = broadcasts (net.node D.distributor))
    (hv : s.scheduleVersion = 0)
    (hm : (if net.loaded then (net.node D.distributor).schedulePacketNumber else 0) = m)
    (hlast : m + 1 ≤ lastPacket D file) (hs : Sends (D.node D.distributor) (m + 1) s t)
    (hend : t.mrp.command = .scheduleEnd ↔ m + 1 = lastPacket D file)
    (hpayload : t.outgoing.payload = chunk D.cfg.schedulePayloadSize file (m + 1)) :
    Content D file { net.set D.distributor (output env t 10 none) with loaded := true } := by
  have hbits : ∀ k, isBitSet (net.node D.distributor).receivedPackets k = true →
      isBitSet t.receivedPackets k = true := by
    intro k hk
    rw [hs.frame]
    refine testBit_insertBit_mono (by decide) _ ?_
    rw [hsame.bits]
    exact hk
  have hself : isBitSet t.receivedPackets (m + 1) = true := by
    rw [hs.frame]
    refine testBit_insertBit_self (by decide) ?_
    unfold Covers
    rw [hsame.bits, hwords.words]
    have := hfits.words
    omega
  have hnumber : t.schedulePacketNumber = m + 1 := by rw [hs.frame]
  have hgenuine : Genuine D file t.outgoing := by
    have hnum : t.outgoing.number = m + 1 := hs.number
    refine ⟨by rw [hnum]; exact ⟨by omega, hlast⟩, ?_⟩
    rw [hnum]
    exact hpayload
  -- what was there before is there still, and the new packet is genuine
  have hpackets : NodeContent D file (output env t 10 none) := by
    have hold := h.packets _ D.distributor_mem
    have ht : NodeContent D file t := by
      refine ⟨?_, ?_, ?_⟩
      · intro x hx
        rw [show t.handed = s.handed by rw [hs.frame]] at hx
        rcases hsame.handed x hx with hx | hx
        · exact (hold.handed x hx).mono hbits
        · exact hx.elim
      · intro dest q hq
        rw [show t.queue = s.queue by rw [hs.frame]] at hq
        rcases hsame.queue dest q hq with hq | hq
        · exact (hold.queue dest q hq).mono hbits
        · exact hq.elim
      · intro x hx
        rw [show t.pending = s.pending by rw [hs.frame]] at hx
        rcases hsame.pending x hx with hx | hx | hx
        · exact (hold.pending x hx).mono hbits
        · exact (hold.queue _ _ hx).mono hbits
        · exact hx.elim
    refine ht.hands (.output env 10 none fun _ => ⟨hgenuine, ?_⟩)
    rw [show t.outgoing.number = m + 1 from hs.number]
    exact hself
  refine ⟨?_, ?_, ?_, ?_, ?_, ?_, h.air⟩
  · dsimp only
    rw [NetState.set_node_self, output_flash, show t.flash = s.flash by rw [hs.frame], hsame.flash]
    exact h.dist
  · dsimp only
    rw [NetState.set_node_self, output_scheduleVersion, output_schedulePacketNumber, hnumber]
    intro _ hv'
    refine ⟨by omega, lt_of_le_of_ne hlast ?_⟩
    intro heq
    rcases hs.command with ⟨hc, -⟩ | ⟨-, hv1, -⟩
    · rw [hend.2 heq] at hc
      cases hc
    · rw [hv'] at hv1
      omega
  · dsimp only
    rw [NetState.set_node_self, output_scheduleVersion, output_schedulePackets]
    intro hv'
    rcases hs.command with ⟨-, hv1, -⟩ | ⟨hc, -, hp, -⟩
    · omega
    · exact hp.trans (hend.1 hc)
  · dsimp only
    rw [NetState.set_node_self, output_schedulePacketNumber, hnumber, if_pos rfl,
      broadcasts_output, labels_succ, List.map_append, ← hm, ← h.sent, ← hbroadcasts]
    congr 1
    · unfold broadcasts
      rw [show t.handed = s.handed by rw [hs.frame]]
    · rw [hm]
      have hnum : t.outgoing.number = m + 1 := hs.number
      have hcommand : t.outgoing.command =
          if m + 1 = lastPacket D file then .scheduleEnd else .schedule := by
        change t.mrp.command = _
        split_ifs with heq
        · exact hend.2 heq
        · rcases hs.command with ⟨hc, -⟩ | ⟨hc, -⟩
          · exact hc
          · exact absurd (hend.1 hc) heq
      simp [hnum, hcommand]
  · intro n hn hd
    dsimp only
    rw [NetState.set_node_of_ne _ _ hd]
    exact h.others n hn hd
  · intro n hn
    dsimp only
    by_cases hd : n = D.distributor
    · rw [hd, NetState.set_node_self]
      exact hpackets
    · rw [NetState.set_node_of_ne _ _ hd]
      exact h.packets n hn

/-- The accesses to the flash that have to succeed: every write, the read for the
first packet and for the last one, and one of the two reads for the others. -/
def ReadsOk (D : Deployment) (file : List UInt8) (net : NetState) : Event → Prop
  | .loaded env => env.read = .completed
  | .input _ _ env => env.write = .completed
  | .sent n env => n = D.distributor →
      ∀ x ∈ (net.node n).pending.head?, x.2.1.command = .schedule →
        env.read = .completed ∨
          nextNumber (net.node n) ≠ lastPacket D file ∧ env.reread = .completed
  | _ => True

instance (D : Deployment) (file : List UInt8) (net : NetState) :
    ∀ e, Decidable (ReadsOk D file net e)
  | .loaded _ | .input _ _ _ => inferInstanceAs (Decidable (_ = _))
  | .sent n _ => inferInstanceAs (Decidable (n = _ →
      ∀ x ∈ (net.node n).pending.head?, x.2.1.command = .schedule → _ ∨ _ ∧ _))
  | .transmit .. | .sendBeacon _ | .beacon .. | .missingResponse _ | .install _ =>
      inferInstanceAs (Decidable True)

/-- The distributor starts with the first packet. -/
theorem Content.loaded (h : Content D file net) (hcontrol : Control D net) (hfits : Fits D file)
    (hl : net.loaded = false) {env : Env} (hread : env.read = .completed) :
    Content D file { net.set D.distributor (masterScheduleLoadedCallback (D.node D.distributor) env
      (net.node D.distributor)) with loaded := true } := by
  rcases hcontrol.dist.fresh hl with ⟨hv, -, hnumber⟩
  rcases masterScheduleLoadedCallback_cases (D.node D.distributor) env (net.node D.distributor)
    with ⟨t, ht, hcommand, heq⟩
  have hpayload : t.outgoing.payload = chunk D.cfg.schedulePayloadSize file 1 := by
    have h255 : (chunk (D.node D.distributor).cfg.schedulePayloadSize file 1).length ≠ 255 :=
      length_chunk_ne_255 hfits.size 1
    refine masterScheduleLoadedCallback_payload hnumber (h.dist ▸ storedFile_stores file) h255
      hread ?_
    rw [heq, output_handed, show t.handed = (net.node D.distributor).handed by rw [ht.frame]; rfl]
  have htwo := hfits.ends.isLast.1
  rw [hnumber] at ht
  rw [heq]
  refine h.sends (m := 0) hcontrol.dist hfits env
    (s := handleStateChange (net.node D.distributor) .scheduleDist) (.of_eq rfl rfl rfl rfl rfl) rfl
    hv (by rw [hl]; rfl) (by unfold lastPacket; omega) ht ?_ hpayload
  rw [hcommand]
  constructor
  · intro hc
    cases hc
  · intro h1
    unfold lastPacket at h1
    omega

/-- While a packet of the schedule is on its way, the distributor has not ended. -/
theorem Content.sending (h : Content D file net) (hcontrol : Control D net)
    {dest : Option NodeId} {p : Packet} {status : TxStatus}
    {rest : List (Option NodeId × Packet × TxStatus)}
    (hp : (net.node D.distributor).pending = (dest, p, status) :: rest)
    (hcommand : p.command = .schedule) :
    net.loaded = true ∧ (net.node D.distributor).scheduleVersion = 0 ∧
      (net.node D.distributor).schedulePacketNumber < lastPacket D file := by
  have hone : 1 ≤ outstanding (net.node D.distributor) := by
    unfold outstanding
    rw [hp]
    simp only [List.countP_append, List.map_cons, List.countP_cons, hcommand, decide_true, if_true]
    omega
  have hv : (net.node D.distributor).scheduleVersion = 0 := hcontrol.dist.opened (by omega)
  have hl : net.loaded = true := by
    by_contra hl
    have := (hcontrol.dist.fresh (by simpa using hl)).2.1
    omega
  exact ⟨hl, hv, (h.started hl hv).2⟩

/-- The number of the next packet. -/
theorem nextNumber_of_lt (hfits : Fits D file)
    (hlt : (net.node D.distributor).schedulePacketNumber < lastPacket D file) :
    nextNumber (net.node D.distributor) = (net.node D.distributor).schedulePacketNumber + 1 := by
  have := hfits.ends.2.2
  unfold lastPacket at hlt
  exact Nat.mod_eq_of_lt (by omega)

/-- The reads decide on the end packet. -/
theorem fill_last_iff (hfits : Fits D file) (hflash : s.flash = storedFile file) {k : ℕ}
    (h2 : 2 ≤ k) (hk : k ≤ lastPacket D file) {env : Env}
    (hread : env.read = .completed ∨ k ≠ lastPacket D file) :
    (fillSchedulePacketFromFlash D.cfg s k env.read).1 = .last ↔ k = lastPacket D file := by
  have hpos : 0 < file.length := lt_of_lt_of_le hfits.ends.1 hfits.ends.2.1
  rcases hfits.ends.isLast with ⟨-, hlast, hnot⟩
  cases hr : env.read with
  | completed =>
    rw [fill_eq_last_iff D.cfg hflash hpos]
    constructor
    · intro hl
      by_contra hne
      exact hnot k h2 (lt_of_le_of_ne hk hne) hl
    · rintro rfl
      exact hlast
  | failed m =>
    rcases fill_failed D.cfg (hflash ▸ storedFile_stores file) (by omega : 1 ≤ k)
      (hfits.ends.offset_le hk) m with ⟨j, hj⟩
    rw [hj]
    refine ⟨fun hl => ?_, fun hl => ?_⟩
    · cases hl
    · rcases hread with hread | hne
      · rw [hr] at hread
        cases hread
      · exact absurd hl hne

/-- After a transmission the distributor goes on with the next packet. -/
theorem Content.next (h : Content D file net) (hcontrol : Control D net) (hfits : Fits D file)
    {dest : Option NodeId} {p : Packet} {status : TxStatus}
    {rest : List (Option NodeId × Packet × TxStatus)}
    (hp : (net.node D.distributor).pending = (dest, p, status) :: rest)
    (hphase : ¬ ((net.node D.distributor).currentState = .ignoreCommands ∨
      (net.node D.distributor).currentState = .scheduleInstalled))
    (hcommand : p.command = .schedule) (hstatus : status ≠ .err) {env : Env}
    (hreads : env.read = .completed ∨
      nextNumber (net.node D.distributor) ≠ lastPacket D file ∧ env.reread = .completed) :
    Content D file (net.set D.distributor (masterRoutingOutputCallback (D.node D.distributor) env
      { net.node D.distributor with pending := rest } p dest status)) := by
  rcases h.sending hcontrol hp hcommand with ⟨hl, hv, hlt⟩
  have hone := (h.started hl hv).1
  have hnext := nextNumber_of_lt hfits hlt
  -- The callback retransmits, or the distributor goes on with the next packet.
  rcases masterRoutingOutputCallback_schedule (D.node D.distributor) env
    (s := { net.node D.distributor with pending := rest }) dest hphase hcommand hstatus
    with ⟨mrp, hcallback⟩
  rcases callbackInputScheduleSend_cases env
    { net.node D.distributor with pending := rest, mrp := mrp }
    (show (D.node D.distributor).nodeId = (D.node D.distributor).distributor from rfl)
    with ⟨t, ht, hend, heq⟩
  dsimp only at ht hend
  rw [show ((net.node D.distributor).schedulePacketNumber + 1) % 256 =
    (net.node D.distributor).schedulePacketNumber + 1 from hnext] at ht hend
  -- The next packet carries the next part of the file.
  have hpayload : t.outgoing.payload = chunk D.cfg.schedulePayloadSize file
      ((net.node D.distributor).schedulePacketNumber + 1) := by
    have h255 : (chunk (D.node D.distributor).cfg.schedulePayloadSize file
        ((net.node D.distributor).schedulePacketNumber + 1)).length ≠ 255 :=
      length_chunk_ne_255 hfits.size _
    refine callbackInputScheduleSend_payload
      (s := { net.node D.distributor with pending := rest, mrp := mrp }) rfl hnext
      (h.dist ▸ storedFile_stores file) (by omega) (hfits.ends.offset_le hlt) h255
      (hreads.imp_right fun hr => hr.2) ?_
    rw [heq, output_handed, show t.handed = (net.node D.distributor).handed by rw [ht.frame]]
  have hiff : t.mrp.command = .scheduleEnd ↔
      (net.node D.distributor).schedulePacketNumber + 1 = lastPacket D file := by
    rw [hend]
    refine fill_last_iff hfits (s := { net.node D.distributor with pending := rest, mrp := mrp })
      h.dist (by omega) hlt ?_
    rcases hreads with hread | ⟨hne, -⟩
    · exact .inl hread
    · rw [hnext] at hne
      exact .inr hne
  rw [hcallback, heq]
  have hsends := h.sends hcontrol.dist hfits env
    (s := { net.node D.distributor with pending := rest, mrp := mrp })
    ((Hands.pop hp).trans (.of_eq rfl rfl rfl rfl rfl)) rfl hv (by rw [hl]; rfl) hlt ht hiff
    hpayload
  rw [← hl] at hsends
  exact hsends

/-- The packets of the file stay in bounds. -/
theorem Content.inBounds (h : Content D file net) (hcontrol : Control D net) (hfits : Fits D file)
    (e : Event) : InBounds D net e := by
  have hwords := hfits.words
  cases e with
  | loaded env =>
    have := hfits.ends.isLast.1
    unfold InBounds
    unfold lastPacket at hwords
    omega
  | sent n env =>
    rintro rfl x hx hcommand
    rcases hlist : (net.node D.distributor).pending with _ | ⟨⟨dest, p, status⟩, rest⟩
    · rw [hlist] at hx
      cases hx
    · rw [hlist] at hx
      cases hx
      rcases h.sending hcontrol hlist hcommand with ⟨-, -, hlt⟩
      rw [nextNumber_of_lt hfits hlt]
      exact ⟨by omega, fun h0 => by omega⟩
  | input => trivial
  | transmit => trivial
  | sendBeacon => trivial
  | beacon => trivial
  | missingResponse => trivial
  | install => trivial

/-- A transmission adds a frame. -/
theorem Content.send (h : Content D file net) (frames : List Frame)
    (hframes : ∀ f ∈ frames, f.packet.command ≠ .scheduleRetransmitReq → Genuine D file f.packet) :
    Content D file { net with air := net.air ++ frames } := by
  refine ⟨h.dist, h.started, h.ended, h.sent, h.others, h.packets, ?_⟩
  intro f hf
  rcases List.mem_append.1 hf with hf | hf
  · exact h.air f hf
  · exact hframes f hf

/-- One step. -/
theorem Content.step {e : Event} (h : Content D file net) (hcontrol : Control D net)
    (hfits : Fits D file) (hreads : ReadsOk D file net e)
    (hs : Network.step D net e = some net') : Content D file net' := by
  -- One case for each event; what a node hands over is what it has accepted.
  cases step_cases hs with
  | @loaded env hl => exact h.loaded hcontrol hfits hl hreads
  | @input n i env f hn hf _ _ => exact h.input hcontrol hfits hn hf hreads
  | @transmit n status giveUp p s hn ht =>
    have hnode := h.hands hn (txSlot_hands ht) fun _ => txSlot_still (hcontrol.nodes n hn) ht
    refine hnode.send (sentFrames n (net.node n).link p status) ?_
    intro f hf
    unfold sentFrames at hf
    split at hf
    · cases hf
    · rw [List.mem_singleton.1 hf]
      exact fun hc => ((h.packets n hn).queue _ p (txSlot_cases ht).1 hc).1
  | @sent n env dest p status rest hn hp =>
    have hpop : Hands (Carried D file (net.node n).receivedPackets) (net.node n)
        { net.node n with pending := rest } := .pop hp
    have hcarried : Carried D file (net.node n).receivedPackets p :=
      (h.packets n hn).pending (dest, p, status) (by rw [hp]; exact List.mem_cons_self)
    by_cases hphase : (net.node n).currentState = .ignoreCommands ∨
        (net.node n).currentState = .scheduleInstalled
    · rw [masterRoutingOutputCallback_ignored (s := { net.node n with pending := rest }) hphase]
      exact h.hands hn hpop fun _ => Still.pop hp
    · by_cases hnext : n = D.distributor ∧ p.command = .schedule ∧ status ≠ .err
      · rcases hnext with ⟨rfl, hcommand, hstatus⟩
        exact h.next hcontrol hfits hp hphase hcommand hstatus
          (hreads rfl _ (by rw [hp]; rfl) hcommand)
      · have hquiet : p.command = .schedule → status ≠ .err →
            (D.node n).nodeId ≠ (D.node n).distributor :=
          fun hcommand hstatus hd => hnext ⟨hd, hcommand, hstatus⟩
        refine h.hands hn (hpop.trans (masterRoutingOutputCallback_hands
          (s := { net.node n with pending := rest }) (fun q => carried_request q) hcarried dest
          status hquiet)) ?_
        rintro rfl
        exact (Still.pop hp).trans (masterRoutingOutputCallback_still
          (s := { net.node D.distributor with pending := rest })
          (hcontrol.nodes _ hn).not_old ((hcontrol.nodes _ hn).pop hp).2.packet hquiet)
  | @sendBeacon n hn => exact ⟨h.dist, h.started, h.ended, h.sent, h.others, h.packets, h.air⟩
  | @beacon n i fromTimeSource env b hn hb _ _ =>
    refine h.hands hn (tschRxProcessBeacon_hands (fun q => carried_request q) _ _ _ _ _) ?_
    rintro rfl
    exact tschRxProcessBeacon_still (hcontrol.beacons b hb).1 b.src fromTimeSource
      b.scheduleReceived
  | @missingResponse n hn _ =>
    exact h.hands hn (.of_eq rfl rfl rfl rfl rfl)
      fun _ => ⟨rfl, rfl, rfl, rfl, rfl, le_rfl, rfl⟩
  | @install n hn _ => exact h.hands hn installSchedule_hands fun _ => installSchedule_still

/-- Nothing is sent at the start. -/
theorem content_of_start (h : Start D file net) : Content D file net := by
  have hd := h.fresh _ D.distributor_mem
  refine ⟨h.distributor, ?_, ?_, ?_, ?_, ?_, ?_⟩
  · intro hl
    rw [h.loaded] at hl
    cases hl
  · intro hv
    rw [hd.version] at hv
    cases hv
  · rw [h.loaded]
    unfold broadcasts
    rw [hd.handed]
    rfl
  · intro n hn hne
    have hf := h.fresh n hn
    rw [hf.bits]
    exact ⟨gathers_empty _ (h.others n hn hne), List.length_replicate⟩
  · intro n hn
    have hf := h.fresh n hn
    refine ⟨?_, ?_, ?_⟩
    · intro x hx
      rw [hf.handed] at hx
      cases hx
    · intro dest q hq
      rw [hf.queue] at hq
      cases hq
    · intro x hx
      rw [hf.pending] at hx
      cases hx
  · intro f hf
    rw [h.air] at hf
    cases hf

/-- The invariant holds after every run with good reads. -/
theorem content_of_run (hfits : Fits D file) (h : Start D file net)
    (hrun : Run (Network.step D) (ReadsOk D file) net net') :
    Control D net' ∧ Content D file net' := by
  refine hrun.invariant (I := fun net => Control D net ∧ Content D file net) ?_
    ⟨control_of_start h, content_of_start h⟩
  intro net e net' hI hreads hs
  exact ⟨hI.1.step (hI.2.inBounds hI.1 hfits e) hs, hI.2.step hI.1 hfits hreads hs⟩

/-! ## The packets of a run -/

/-- The packet with the last byte of the file, if the file has more than one packet. -/
theorem eq_lastPacket_iff (hfits : Fits D file) (hlt : D.cfg.schedulePayloadSize < file.length)
    {k : ℕ} (h1 : 1 ≤ k) :
    k = lastPacket D file ↔ (k - 1) * D.cfg.schedulePayloadSize < file.length ∧
      file.length ≤ k * D.cfg.schedulePayloadSize := by
  have hlast := hfits.ends.isLast.2.1
  have hstart : (lastPacket D file - 1) * D.cfg.schedulePayloadSize < file.length := by
    refine lt_of_le_of_ne hlast.2.1 ?_
    unfold lastPacket packetCount
    have hpos := hfits.ends.1
    split_ifs with hfull
    · rw [Nat.sub_mul, Nat.div_mul_cancel hfull.1]
      omega
    · -- a full last packet would have ended the file before
      intro heq
      rw [Nat.add_sub_cancel] at heq
      have hdvd : D.cfg.schedulePayloadSize ∣ file.length := ⟨_, by rw [Nat.mul_comm]; exact heq.symm⟩
      refine hfull ⟨hdvd, hfits.size, ?_⟩
      have htwo : 2 ≤ file.length / D.cfg.schedulePayloadSize := by
        by_contra hlt2
        have hone : file.length / D.cfg.schedulePayloadSize ≤ 1 := by omega
        have := Nat.mul_le_mul_right D.cfg.schedulePayloadSize hone
        omega
      calc 2 * D.cfg.schedulePayloadSize
          ≤ file.length / D.cfg.schedulePayloadSize * D.cfg.schedulePayloadSize :=
            Nat.mul_le_mul_right _ htwo
        _ = file.length := heq
  constructor
  · rintro rfl
    exact ⟨hstart, hlast.2.2.1⟩
  · rintro ⟨hk, hend⟩
    have hle : k - 1 < lastPacket D file := Nat.lt_of_mul_lt_mul_right (lt_of_lt_of_le hk hlast.2.2.1)
    have hge : lastPacket D file - 1 < k := Nat.lt_of_mul_lt_mul_right (lt_of_lt_of_le hstart hend)
    omega

/-- The bytes of a carried packet are in the flash of the node. -/
theorem Content.holds (h : Content D file net) (hn : n ∈ D.cfg.nodeIds) {q : Packet}
    (hq : Carried D file (net.node n).receivedPackets q)
    (hcommand : q.command ≠ .scheduleRetransmitReq) :
    Holds (net.node n).flash.bytes ((q.number - 1) * D.cfg.schedulePayloadSize) q.payload := by
  rcases hq hcommand with ⟨hgenuine, hbit⟩
  rw [hgenuine.payload]
  by_cases hd : n = D.distributor
  · rw [hd, h.dist]
    exact holds_chunk _ file _
  · exact (h.others n hn hd).1.holds _ hbit

end Content

end MasterScheduler.Network
