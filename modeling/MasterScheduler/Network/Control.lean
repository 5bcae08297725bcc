import MasterScheduler.Mote.Chunking
import MasterScheduler.Network.Model

/-!
# MasterScheduler.Network.Control — what a node may believe

The invariant of one node, relative to the state `d` of the distributor: which
packets it may have, when it may take its schedule for complete, and where it
knows the number of packets from. Every handler keeps it.

- `PacketOk`: a packet that is around, in a queue or on the air.
- `NodeOk`: the invariant of a node.
- `Effect`: what a handler does to the bits and the version of its node.
-/

namespace MasterScheduler.Network

open Lib Mote

/-! ## Packets and nodes -/

/-- A packet that is around while the distributor is in state `d`. -/
structure PacketOk (d : NodeState) (dest : Option NodeId) (q : Packet) : Prop where
  broadcast : dest = none ↔ q.command = .schedule ∨ q.command = .scheduleEnd
  sent : q.command ≠ .scheduleRetransmitReq → isBitSet d.receivedPackets q.number = true
  ended : q.command ≠ .schedule → d.scheduleVersion = 1
  last : q.command = .scheduleEnd → 1 ≤ q.number ∧ q.number = d.schedulePackets
  asked : q.command = .scheduleRetransmitReq → 1 ≤ q.number ∧ q.number ≤ d.schedulePackets

/-- A packet that a node has queued or sent; a node with the end packet knows
the number of packets. -/
structure Carries (d : NodeState) (schedulePackets : ℕ) (dest : Option NodeId) (q : Packet) :
    Prop where
  packet : PacketOk d dest q
  knows : q.command = .scheduleEnd → schedulePackets = d.schedulePackets

/-- Number of packets and bits of a node that has the whole schedule. -/
structure Complete (d : NodeState) (schedulePackets : ℕ) (bits : BitVector) : Prop where
  ended : d.scheduleVersion = 1
  packets : schedulePackets = d.schedulePackets
  missing : getMissingPacket bits schedulePackets = none

/-- A node that has every packet of the schedule. -/
abbrev IsComplete (d s : NodeState) : Prop := Complete d s.schedulePackets s.receivedPackets

/-- The phases of a node with a complete schedule. -/
def completePhases : List Phase :=
  [.scheduleRetransmitting, .scheduleReceived, .scheduleInstalled, .ignoreCommands]

/-- The invariant of a node, also in the middle of a handler. -/
structure NodeCore (d s : NodeState) : Prop where
  version : s.scheduleVersion ≤ 1
  finished : s.scheduleVersion = 1 → IsComplete d s
  phase : s.currentState ∈ completePhases → IsComplete d s
  old : s.currentState = .scheduleOld →
    d.scheduleVersion = 1 ∧ s.schedulePackets = d.schedulePackets ∧ s.scheduleVersion = 0
  queue : ∀ dest, ∀ q ∈ s.queue dest, Carries d s.schedulePackets dest q
  pending : ∀ x ∈ s.pending, Carries d s.schedulePackets x.1 x.2.1

/-- The invariant of a node. -/
structure NodeOk (d s : NodeState) : Prop extends NodeCore d s where
  searching : s.currentState = .scheduleOld → s.missingPacket ≠ none

/-- What a handler does to what the node has and tells others, where `heard` is
what it may have heard from others. -/
structure Effect (node : Node) (heard : ByteVector) (s t : NodeState) : Prop where
  words : t.receivedPackets.length = s.receivedPackets.length
  bits : ∀ k, isBitSet s.receivedPackets k = true → isBitSet t.receivedPackets k = true
  version : s.scheduleVersion ≤ t.scheduleVersion
  received : ∀ i, isBitSet1Byte t.scheduleReceived i = true →
    isBitSet1Byte s.scheduleReceived i = true ∨ isBitSet1Byte heard i = true ∨
      i = node.nodeId - 1 ∧ 1 ≤ t.scheduleVersion
  number : t.schedulePacketNumber = s.schedulePacketNumber

section Effect

variable {node : Node} {heard : ByteVector} {s t u : NodeState}

/-- What two handlers in a row do is what one may do. -/
theorem Effect.trans (h : Effect node heard s t) (h' : Effect node heard t u) : Effect node heard s u where
  words := h'.words.trans h.words
  bits := fun k hk => h'.bits k (h.bits k hk)
  version := h.version.trans h'.version
  received := by
    intro i hi
    rcases h'.received i hi with hi | hi
    · rcases h.received i hi with hi | hi | ⟨hn, hv⟩
      · exact .inl hi
      · exact .inr (.inl hi)
      · exact .inr (.inr ⟨hn, hv.trans h'.version⟩)
    · exact .inr hi
  number := h'.number.trans h.number

/-- A handler that touches none of it. -/
theorem Effect.of_eq (hbits : t.receivedPackets = s.receivedPackets)
    (hversion : t.scheduleVersion = s.scheduleVersion)
    (hreceived : t.scheduleReceived = s.scheduleReceived)
    (hnumber : t.schedulePacketNumber = s.schedulePacketNumber) : Effect node heard s t where
  words := by rw [hbits]
  bits := fun k hk => hbits ▸ hk
  version := hversion.ge
  received := fun i hi => .inl (hreceived ▸ hi)
  number := hnumber

/-- A step after which bits, version, flags and number are the same may come first. -/
theorem Effect.after (h : Effect node heard t u) (hbits : t.receivedPackets = s.receivedPackets)
    (hversion : t.scheduleVersion = s.scheduleVersion)
    (hreceived : t.scheduleReceived = s.scheduleReceived)
    (hnumber : t.schedulePacketNumber = s.schedulePacketNumber) : Effect node heard s u :=
  (Effect.of_eq hbits hversion hreceived hnumber).trans h

/-- A step that keeps bits, version, flags and number may come last. -/
theorem Effect.before (h : Effect node heard s t) (hbits : u.receivedPackets = t.receivedPackets)
    (hversion : u.scheduleVersion = t.scheduleVersion)
    (hreceived : u.scheduleReceived = t.scheduleReceived)
    (hnumber : u.schedulePacketNumber = t.schedulePacketNumber) : Effect node heard s u :=
  h.trans (.of_eq hbits hversion hreceived hnumber)

/-- Sending changes nothing the others rely on. -/
theorem Effect.output (env : Env) (etxLink : ℕ) (dest : Option NodeId) :
    Effect node heard s (Mote.output env s etxLink dest) :=
  .of_eq (by simp) (by simp) (by simp) (by simp)

/-- A node that ends marks itself and has the version of the schedule. -/
theorem Effect.finishSchedule (hv : s.scheduleVersion ≤ 1) :
    Effect node heard s (Mote.finishSchedule node s) where
  words := rfl
  bits := fun _ hk => hk
  version := by
    unfold Mote.finishSchedule
    dsimp only
    omega
  received := by
    intro i hi
    rcases testBit_of_insertBit (by decide) hi with rfl | hi
    · refine .inr (.inr ⟨rfl, ?_⟩)
      unfold Mote.finishSchedule
      dsimp only
      omega
    · exact .inl hi
  number := rfl

/-- The handler of a packet of the schedule only adds bits. -/
theorem Effect.newPacket (cfg : Config) (env : Env) (len : ℕ) :
    Effect node heard s (commandInputScheduleNewPacket cfg env s len) where
  words := length_receivedPackets_newPacket cfg env s len
  bits := fun _ hk => isBitSet_newPacket_mono cfg env s len hk
  version := by rw [newPacket_frame]
  received := by
    intro i hi
    rw [newPacket_frame] at hi
    exact .inl hi
  number := by rw [newPacket_frame]

/-- Passing a broadcast on changes nothing the others rely on. -/
theorem Effect.forwardBroadcast (env : Env) (len : ℕ) :
    Effect node heard s (Mote.forwardBroadcast env s len) :=
  (Effect.output _ _ _).after rfl rfl rfl rfl

/-- A repeated transmission leaves what the node has. -/
theorem Effect.handleRetransmit : Effect node heard s (Mote.handleRetransmit s) := by
  rw [handleRetransmit_frame]
  exact .of_eq rfl rfl rfl rfl

/-- An error of the transmission leaves what the node has. -/
theorem Effect.handleTxErr : Effect node heard s (Mote.handleTxErr s) := by
  rw [handleTxErr_frame]
  exact .of_eq rfl rfl rfl rfl

end Effect

/-! ## Rules for the invariant -/

section Rules

variable {d s t : NodeState}

/-- A complete node has the packet of every number that can be asked for. -/
theorem Complete.bit {packets : ℕ} {bits : BitVector} (h : Complete d packets bits) {k : ℕ}
    (h1 : 1 ≤ k) (hk : k ≤ d.schedulePackets) : isBitSet bits k = true :=
  firstMissing_eq_none.1 h.missing k h1 (h.packets ▸ hk)

/-- The invariant depends on six fields only. -/
theorem NodeCore.congr (h : NodeCore d s) (hphase : t.currentState = s.currentState)
    (hversion : t.scheduleVersion = s.scheduleVersion)
    (hpackets : t.schedulePackets = s.schedulePackets)
    (hbits : t.receivedPackets = s.receivedPackets) (hqueue : t.queue = s.queue)
    (hpending : t.pending = s.pending) : NodeCore d t := by
  constructor
  · rw [hversion]
    exact h.version
  · unfold IsComplete
    rw [hversion, hpackets, hbits]
    exact h.finished
  · unfold IsComplete
    rw [hphase, hpackets, hbits]
    exact h.phase
  · rw [hphase, hversion, hpackets]
    exact h.old
  · rw [hqueue, hpackets]
    exact h.queue
  · rw [hpending, hpackets]
    exact h.pending

/-- A new phase. -/
theorem NodeCore.setPhase (h : NodeCore d s) (st : Phase)
    (hcomplete : st ∈ completePhases → IsComplete d s)
    (hold : st = .scheduleOld →
      d.scheduleVersion = 1 ∧ s.schedulePackets = d.schedulePackets ∧ s.scheduleVersion = 0) :
    NodeCore d (handleStateChange s st) :=
  ⟨h.version, h.finished, hcomplete, hold, h.queue, h.pending⟩

/-- A phase in which nothing is claimed. -/
theorem NodeCore.openPhase (h : NodeCore d s) (st : Phase) (hst : st ∉ completePhases)
    (hold : st ≠ .scheduleOld) : NodeCore d (handleStateChange s st) :=
  h.setPhase st (fun hc => absurd hc hst) (fun ho => absurd ho hold)

/-- Outside of the search for packets there is nothing more to the invariant. -/
theorem NodeCore.ok (h : NodeCore d s) (hold : s.currentState ≠ .scheduleOld) : NodeOk d s :=
  ⟨h, fun ho => absurd ho hold⟩

/-- A packet the node may carry may be put in a queue. -/
theorem NodeCore.enqueue (h : NodeCore d s) {dest : Option NodeId} {q : Packet}
    (hq : Carries d s.schedulePackets dest q) : NodeCore d (tschQueueAddPacket s dest q) := by
  rw [tschQueueAddPacket_frame]
  refine ⟨h.version, h.finished, h.phase, h.old, ?_, h.pending⟩
  intro dest' q' hq'
  dsimp only at hq'
  rw [Function.update_apply] at hq'
  split_ifs at hq' with hdest
  · rw [hdest]
    rcases List.mem_append.1 hq' with hq' | hq'
    · exact h.queue dest q' hq'
    · rw [List.mem_singleton.1 hq']
      exact hq
  · exact h.queue dest' q' hq'

/-- A packet may be taken from a queue. -/
theorem NodeCore.dequeue (h : NodeCore d s) (dest : Option NodeId) :
    NodeCore d (tschQueueRemovePacket s dest) := by
  refine ⟨h.version, h.finished, h.phase, h.old, ?_, h.pending⟩
  intro dest' q' hq'
  unfold tschQueueRemovePacket at hq'
  dsimp only at hq'
  rw [Function.update_apply] at hq'
  split_ifs at hq' with hdest
  · rw [hdest]
    exact h.queue dest q' (List.mem_of_mem_tail hq')
  · exact h.queue dest' q' hq'

/-- A repeated transmission keeps the invariant. -/
theorem NodeCore.handleRetransmit (h : NodeCore d s)
    (hphase : s.currentState = .scheduleRetransmitting) : NodeCore d (Mote.handleRetransmit s) := by
  have hc : IsComplete d s := h.phase (by rw [hphase]; decide)
  unfold Mote.handleRetransmit
  split
  · exact h.congr rfl rfl rfl rfl rfl rfl
  · exact (h.setPhase .scheduleReceived (fun _ => hc) (by intro ho; cases ho)).congr rfl rfl rfl rfl rfl rfl

/-- An error of the transmission keeps the invariant. -/
theorem NodeCore.handleTxErr (h : NodeCore d s) : NodeCore d (Mote.handleTxErr s) := by
  unfold Mote.handleTxErr
  split
  · exact (h.openPhase .scheduleDist (by decide) (by decide)).congr rfl rfl rfl rfl rfl rfl
  · split
    · rename_i hphase
      exact h.handleRetransmit hphase
    · exact h

/-- Sending a packet the node may carry keeps the invariant. -/
theorem NodeCore.output (h : NodeCore d s) (env : Env) (etxLink : ℕ) {dest : Option NodeId}
    (hq : Carries d s.schedulePackets dest s.outgoing) : NodeCore d (Mote.output env s etxLink dest) := by
  unfold Mote.output
  have hs : NodeCore d { s with handed := s.handed ++ [(dest, s.outgoing)] } :=
    h.congr rfl rfl rfl rfl rfl rfl
  dsimp only
  split
  · exact hs
  · split
    · exact hs.enqueue ⟨hq.packet, hq.knows⟩
    · exact hs.handleTxErr

/-- Handing a packet over does not start a search. -/
theorem output_old {env : Env} {etxLink : ℕ} {dest : Option NodeId}
    (h : (Mote.output env s etxLink dest).currentState = .scheduleOld) :
    s.currentState = .scheduleOld := by
  by_contra hne
  revert h
  unfold Mote.output
  dsimp only
  split
  · exact hne
  · split
    · rw [tschQueueAddPacket_frame]
      exact hne
    · unfold Mote.handleTxErr
      split
      · intro h
        cases h
      · split
        · unfold Mote.handleRetransmit
          split
          · exact hne
          · intro h
            cases h
        · exact hne

/-- The link of the node is no part of its invariant. -/
theorem NodeOk.changeLink (h : NodeOk d s) (dest : Option NodeId) :
    NodeOk d (Mote.changeLink s dest) :=
  ⟨h.toNodeCore.congr rfl rfl rfl rfl rfl rfl, h.searching⟩

/-- A repeated transmission keeps the search for a missing packet. -/
theorem NodeOk.handleRetransmit (h : NodeOk d s)
    (hphase : s.currentState = .scheduleRetransmitting) : NodeOk d (Mote.handleRetransmit s) := by
  refine (h.toNodeCore.handleRetransmit hphase).ok ?_
  unfold Mote.handleRetransmit
  split
  · intro ho
    cases hphase.symm.trans ho
  · intro ho
    cases ho

/-- An error of the transmission keeps the search for a missing packet. -/
theorem NodeOk.handleTxErr (h : NodeOk d s) : NodeOk d (Mote.handleTxErr s) := by
  refine h.toNodeCore.handleTxErr.ok ?_
  unfold Mote.handleTxErr
  split
  · intro ho
    cases ho
  · rename_i hold
    split
    · unfold Mote.handleRetransmit
      split
      · exact hold
      · intro ho
        cases ho
    · exact hold

/-- Sending keeps the search for a missing packet. -/
theorem NodeOk.output (h : NodeOk d s) (env : Env) (etxLink : ℕ) {dest : Option NodeId}
    (hq : Carries d s.schedulePackets dest s.outgoing) :
    NodeOk d (Mote.output env s etxLink dest) := by
  refine ⟨h.toNodeCore.output env etxLink hq, ?_⟩
  intro hold
  unfold NodeState.missingPacket
  rw [output_receivedPackets, output_schedulePackets]
  exact h.searching (output_old hold)

/-- More packets than before. -/
theorem NodeCore.newPacket (h : NodeCore d s) (cfg : Config) (env : Env) (len : ℕ) :
    NodeCore d (commandInputScheduleNewPacket cfg env s len) := by
  have hcomplete : IsComplete d s → Complete d s.schedulePackets
      (commandInputScheduleNewPacket cfg env s len).receivedPackets := by
    intro hc
    refine ⟨hc.ended, hc.packets, firstMissing_eq_none.2 ?_⟩
    intro k h1 hk
    exact isBitSet_newPacket_mono cfg env s len (firstMissing_eq_none.1 hc.missing k h1 hk)
  rw [newPacket_frame]
  exact ⟨h.version, fun hv => hcomplete (h.finished hv), fun hp => hcomplete (h.phase hp), h.old,
    h.queue, h.pending⟩

/-- The version of a complete schedule. -/
theorem NodeCore.finish (h : NodeCore d s) (node : Node) (hc : IsComplete d s)
    (hv : s.scheduleVersion = 0) (hold : s.currentState ≠ .scheduleOld) :
    NodeCore d (finishSchedule node s) := by
  unfold finishSchedule
  rw [hv]
  exact ⟨le_rfl, fun _ => hc, fun _ => hc, fun ho => absurd ho hold, h.queue, h.pending⟩

end Rules

/-! ## The handlers -/

section Handlers

variable (node : Node) (env : Env) (heard : ByteVector) {d s : NodeState}

/-- A request of a node that searches for packets. -/
theorem carries_request (hended : d.scheduleVersion = 1)
    (hpackets : s.schedulePackets = d.schedulePackets) {missing : ℕ}
    (hmissing : s.missingPacket = some missing) (dest : NodeId) (q : Packet)
    (hcommand : q.command = .scheduleRetransmitReq) (hnumber : q.number = missing) :
    Carries d s.schedulePackets (some dest) q := by
  rcases firstMissing_eq_some hmissing with ⟨h1, hle, -⟩
  refine ⟨⟨?_, ?_, fun _ => hended, ?_, ?_⟩, ?_⟩
  · simp [hcommand]
  · exact fun h => absurd hcommand h
  · intro h
    rw [hcommand] at h
    cases h
  · rw [hnumber]
    exact fun _ => ⟨h1, hpackets ▸ hle⟩
  · intro h
    rw [hcommand] at h
    cases h

/-- A node that asks for a packet or ends: the invariant holds again, the core was enough. -/
theorem requestRetransmitOrFinish_ok (h : NodeCore d s) (dest : NodeId) :
    NodeOk d (requestRetransmitOrFinish node env s dest) ∧
      Effect node heard s (requestRetransmitOrFinish node env s dest) := by
  unfold requestRetransmitOrFinish
  split
  · rename_i hphase
    exact ⟨h.ok hphase, .of_eq rfl rfl rfl rfl⟩
  · rename_i hphase
    rcases h.old (not_not.1 hphase) with ⟨hended, hpackets, hv⟩
    cases hmissing : s.missingPacket with
    | none =>
      -- nothing is missing any more: the search ends
      dsimp only
      have hc : IsComplete d s := ⟨hended, hpackets, hmissing⟩
      have hcore := ((h.dequeue (some dest)).setPhase .scheduleReceived (fun _ => hc)
        (by intro ho; cases ho)).finish node hc hv (by intro ho; cases ho)
      constructor
      · exact NodeCore.ok (hcore.congr rfl rfl rfl rfl rfl rfl) (by intro ho; cases ho)
      · have heffect : Effect node heard s (finishSchedule node
            (handleStateChange (tschQueueRemovePacket s (some dest)) .scheduleReceived)) :=
          Effect.after (t := handleStateChange (tschQueueRemovePacket s (some dest))
            .scheduleReceived) (.finishSchedule h.version) rfl rfl rfl rfl
        exact heffect.before rfl rfl rfl rfl
    | some missing =>
      dsimp only
      have hok : NodeOk d s := ⟨h, fun _ hnone => by rw [hmissing] at hnone; cases hnone⟩
      split
      · exact ⟨hok, .of_eq rfl rfl rfl rfl⟩
      · have hreq : NodeOk d (requestPacket node s missing) :=
          ⟨hok.toNodeCore.congr rfl rfl rfl rfl rfl rfl, hok.searching⟩
        have hout := hreq.output env env.etxLink
          (carries_request hended hpackets hmissing dest _ rfl rfl)
        constructor
        · exact ⟨hout.toNodeCore.congr rfl rfl rfl rfl rfl rfl, hout.searching⟩
        · have heffect : Effect node heard s (output env (requestPacket node s missing) env.etxLink
              (some dest)) := (Effect.output _ _ _).after rfl rfl rfl rfl
          exact heffect.before rfl rfl rfl rfl

/-- The distributor has every packet it announces. -/
def HasAll (d : NodeState) : Prop :=
  d.scheduleVersion = 1 → ∀ k, 1 ≤ k → k ≤ d.schedulePackets → isBitSet d.receivedPackets k = true

/-- A packet is as good as another of the same command and number. -/
theorem PacketOk.congr {dest dest' : Option NodeId} {q q' : Packet} (h : PacketOk d dest q)
    (hdest : dest = none ↔ dest' = none) (hcommand : q'.command = q.command)
    (hnumber : q'.number = q.number) : PacketOk d dest' q' := by
  constructor
  · rw [hcommand, ← hdest]
    exact h.broadcast
  · rw [hcommand, hnumber]
    exact h.sent
  · rw [hcommand]
    exact h.ended
  · rw [hcommand, hnumber]
    exact h.last
  · rw [hcommand, hnumber]
    exact h.asked

/-- A packet that is passed on as it came. -/
theorem forwardBroadcast_ok (h : NodeOk d s) {dest : Option NodeId}
    (hq : PacketOk d dest s.mrp)
    (hcommand : s.mrp.command = .schedule ∨ s.mrp.command = .scheduleEnd)
    (hknows : s.mrp.command = .scheduleEnd → s.schedulePackets = d.schedulePackets) (len : ℕ) :
    NodeOk d (forwardBroadcast env s len) := by
  have hlen : NodeOk d { s with payloadLen := len } :=
    ⟨h.toNodeCore.congr rfl rfl rfl rfl rfl rfl, h.searching⟩
  refine hlen.output env 10 ⟨?_, hknows⟩
  exact hq.congr (by simp [hq.broadcast.2 hcommand]) rfl rfl

/-- The end of the schedule, for a node that did not have it yet. -/
theorem commandInputScheduleLastPacket_ok (h : NodeCore d s) {dest : Option NodeId}
    (hphase : s.currentState = .scheduleDist) (hq : PacketOk d dest s.mrp)
    (hcommand : s.mrp.command = .scheduleEnd)
    (hbit : isBitSet s.receivedPackets s.mrp.number ≠ true) (len : ℕ) :
    NodeOk d (commandInputScheduleLastPacket node env s len) ∧
      Effect node heard s (commandInputScheduleLastPacket node env s len) := by
  have hended : d.scheduleVersion = 1 := hq.ended (by rw [hcommand]; decide)
  rcases hq.last hcommand with ⟨h1, hlast⟩
  -- a node with a version would have this packet
  have hv : s.scheduleVersion = 0 := by
    have hne : s.scheduleVersion ≠ 1 := fun hv => hbit ((h.finished hv).bit h1 hlast.le)
    have := h.version
    omega
  have hnew := h.newPacket node.cfg env len
  have heffect : Effect node heard s (commandInputScheduleNewPacket node.cfg env s len) := .newPacket _ _ _
  unfold commandInputScheduleLastPacket
  rw [newPacket_frame] at hnew heffect ⊢
  dsimp only
  -- from here on the node knows the number of packets
  have hknow : NodeCore d { s with
      receivedPackets := (commandInputScheduleNewPacket node.cfg env s len).receivedPackets
      flash := (commandInputScheduleNewPacket node.cfg env s len).flash
      schedulePackets := s.mrp.number } := by
    refine ⟨hnew.version, ?_, ?_, ?_, ?_, ?_⟩
    · intro hv'
      exact absurd (hv'.symm.trans hv) (by decide)
    · intro hp
      rw [hphase] at hp
      exact absurd hp (by decide)
    · intro ho
      rw [hphase] at ho
      cases ho
    · exact fun dest q hq' => ⟨(hnew.queue dest q hq').packet, fun _ => hlast⟩
    · exact fun x hx => ⟨(hnew.pending x hx).packet, fun _ => hlast⟩
  split
  · rename_i hmissing
    have hc : Complete d s.mrp.number
        (commandInputScheduleNewPacket node.cfg env s len).receivedPackets :=
      ⟨hended, hlast, hmissing⟩
    have hfin := (hknow.setPhase .scheduleReceived (fun _ => hc)
      (by intro ho; cases ho)).finish node hc hv (by intro ho; cases ho)
    constructor
    · exact forwardBroadcast_ok env (NodeCore.ok hfin (by intro ho; cases ho)) hq
        (.inr hcommand) (fun _ => hlast) len
    · refine Effect.trans ?_ (.forwardBroadcast _ _)
      exact heffect.trans (Effect.after (.finishSchedule hnew.version) rfl rfl rfl rfl)
  · constructor
    · exact forwardBroadcast_ok env (NodeCore.ok hknow (by rw [hphase]; decide)) hq
        (.inr hcommand) (fun _ => hlast) len
    · refine Effect.trans ?_ (.forwardBroadcast _ _)
      exact heffect.before rfl rfl rfl rfl

/-- A part of the schedule for a node that waits for it. -/
theorem handleScheduleDistribution_ok (h : NodeOk d s) {dest : Option NodeId}
    (hq : PacketOk d dest s.mrp) (len : ℕ) :
    NodeOk d (handleScheduleDistributionStateChanges node env s len) ∧
      Effect node heard s (handleScheduleDistributionStateChanges node env s len) := by
  have hdist : NodeCore d (handleStateChange s .scheduleDist) :=
    h.toNodeCore.openPhase .scheduleDist (by decide) (by decide)
  have hnew := hdist.newPacket node.cfg env len
  have heffect : Effect node heard s
      (commandInputScheduleNewPacket node.cfg env (handleStateChange s .scheduleDist) len) :=
    (Effect.newPacket _ _ _).after rfl rfl rfl rfl
  have hmrp : (commandInputScheduleNewPacket node.cfg env (handleStateChange s .scheduleDist)
      len).mrp = s.mrp := by
    rw [newPacket_frame]
    rfl
  have hstate : (commandInputScheduleNewPacket node.cfg env (handleStateChange s .scheduleDist)
      len).currentState = .scheduleDist := by
    rw [newPacket_frame]
    rfl
  unfold handleScheduleDistributionStateChanges
  -- A packet the node has already is dropped.
  split
  · exact ⟨h, .of_eq rfl rfl rfl rfl⟩
  · rename_i hbit
    split
    · rename_i hcommand
      constructor
      · refine forwardBroadcast_ok env (hnew.ok (by rw [hstate]; decide)) (hmrp.symm ▸ hq) ?_ ?_ len
        · rw [hmrp]
          exact .inl hcommand
        · intro he
          rw [hmrp, hcommand] at he
          cases he
      · exact heffect.trans (.forwardBroadcast _ _)
    · rename_i hcommand
      have hend := commandInputScheduleLastPacket_ok node env heard hdist rfl hq
        hcommand hbit len
      exact ⟨hend.1, hend.2.after rfl rfl rfl rfl⟩
    · exact ⟨hnew.ok (by rw [hstate]; decide), heffect⟩
    · exact ⟨h, .of_eq rfl rfl rfl rfl⟩

/-- A retransmission, for a node that searches. -/
theorem commandInputScheduleRetransmitt_ok (h : NodeOk d s)
    (hphase : s.currentState = .scheduleOld) (len : ℕ) (src : NodeId) (dest : Option NodeId) :
    NodeOk d (commandInputScheduleRetransmitt node env s len src dest) ∧
      Effect node heard s (commandInputScheduleRetransmitt node env s len src dest) := by
  rcases h.old hphase with ⟨hended, hpackets, hv⟩
  -- the packet is stored first, if it is missing
  obtain ⟨s₁, hs₁, hcore, hstate, hpk, hv₁, heffect⟩ : ∃ s₁,
      (if isBitSet s.receivedPackets s.mrp.number then s
        else commandInputScheduleNewPacket node.cfg env s len) = s₁ ∧ NodeCore d s₁ ∧
      s₁.currentState = .scheduleOld ∧ s₁.schedulePackets = s.schedulePackets ∧
      s₁.scheduleVersion = s.scheduleVersion ∧ Effect node heard s s₁ := by
    refine ⟨_, rfl, ?_⟩
    split
    · exact ⟨h.toNodeCore, hphase, rfl, rfl, .of_eq rfl rfl rfl rfl⟩
    · refine ⟨h.toNodeCore.newPacket _ _ _, ?_, ?_, ?_, .newPacket _ _ _⟩
      · rw [newPacket_frame]
        exact hphase
      · rw [newPacket_frame]
      · rw [newPacket_frame]
  unfold commandInputScheduleRetransmitt
  dsimp only
  rw [hs₁]
  split
  · -- it was for this node, which goes on with its search
    split
    · have hreq := requestRetransmitOrFinish_ok node env heard
        (hcore.dequeue (some src)) src
      exact ⟨hreq.1, heffect.trans (hreq.2.after rfl rfl rfl rfl)⟩
    · have hreq := requestRetransmitOrFinish_ok node env heard hcore src
      exact ⟨hreq.1, heffect.trans hreq.2⟩
  · -- it was overheard
    split
    · rename_i hmissing
      have hc : IsComplete d s₁ := ⟨hended, hpk.trans hpackets, hmissing⟩
      have hrec : NodeCore d { changeLink { handleStateChange s₁ .scheduleReceived with
          missingResponseTimer := false } none with link := none } :=
        (hcore.setPhase .scheduleReceived (fun _ => hc) (by intro ho; cases ho)).congr
          rfl rfl rfl rfl rfl rfl
      have hfin := hrec.finish node hc (hv₁.trans hv) (by intro ho; cases ho)
      constructor
      · exact NodeCore.ok hfin (by intro ho; cases ho)
      · exact heffect.trans (Effect.after (.finishSchedule hrec.version) rfl rfl rfl rfl)
    · rename_i hmissing
      exact ⟨⟨hcore, fun _ => hmissing⟩, heffect⟩

/-- A request, for a node that can serve it. -/
theorem commandInputScheduleRetransmittRequest_ok (h : NodeOk d s) (hall : HasAll d)
    (hphase : s.currentState ∈ completePhases) {dest : Option NodeId}
    (hq : PacketOk d dest s.mrp) (hcommand : s.mrp.command = .scheduleRetransmitReq)
    (src : NodeId) :
    NodeOk d (commandInputScheduleRetransmittRequest node env s src) ∧
      Effect node heard s (commandInputScheduleRetransmittRequest node env s src) := by
  have hc := h.phase hphase
  have hended := hc.ended
  rcases hq.asked hcommand with ⟨h1, hle⟩
  rcases retransmittRequest_cases node env s src with ⟨-, hres⟩ | ⟨-, t, ht, hres⟩
  · rw [hres]
    exact ⟨h, .of_eq rfl rfl rfl rfl⟩
  · have hphase' : t.currentState = .scheduleRetransmitting := by rw [ht.frame]
    have hserve : NodeOk d t := by
      refine NodeCore.ok ?_ (by rw [hphase']; decide)
      rw [ht.frame]
      exact (h.toNodeCore.setPhase .scheduleRetransmitting (fun _ => hc)
        (by intro ho; cases ho)).congr rfl rfl rfl rfl rfl rfl
    have heffect : Effect node heard s t := by
      rw [ht.frame]
      exact .of_eq rfl rfl rfl rfl
    -- the packet that goes out is one the distributor has
    have hcarries : Carries d t.schedulePackets (some src) t.outgoing := by
      have hqc : t.outgoing.command = .scheduleRetransmit := ht.command
      have hqn : t.outgoing.number = s.mrp.number := ht.number
      refine ⟨⟨by simp [hqc], ?_, fun _ => hended, ?_, ?_⟩, ?_⟩
      · rw [hqn]
        exact fun _ => hall hended _ h1 hle
      · intro he
        rw [hqc] at he
        cases he
      · intro he
        rw [hqc] at he
        cases he
      · intro he
        rw [hqc] at he
        cases he
    have hout := hserve.output env env.etxLink hcarries
    have heffect' := heffect.trans (.output env env.etxLink (some src))
    rcases hres with ⟨-, hres⟩ | ⟨-, hres⟩
    · rw [hres]
      exact ⟨hserve, heffect⟩
    · rw [hres]
      split
      · exact ⟨hout.changeLink (some src), heffect'.before rfl rfl rfl rfl⟩
      · exact ⟨hout, heffect'⟩

/-- The copy of the received packet is no part of the invariant. -/
theorem NodeOk.copyIn (h : NodeOk d s) (q : Packet) : NodeOk d (s.copyIn q) :=
  ⟨h.toNodeCore.congr rfl rfl rfl rfl rfl rfl, h.searching⟩

/-- Any packet that is around. -/
theorem masterRoutingInput_ok (h : NodeOk d s) (hall : HasAll d) {q : Packet}
    {dest : Option NodeId} (hq : PacketOk d dest q) (src : NodeId) :
    NodeOk d (masterRoutingInput node env s q src dest) ∧
      Effect node heard s (masterRoutingInput node env s q src dest) := by
  have hin : PacketOk d dest (s.copyIn q).mrp := hq.congr Iff.rfl rfl rfl
  have hcopy := h.copyIn q
  unfold masterRoutingInput
  split
  · exact ⟨h, .of_eq rfl rfl rfl rfl⟩
  -- In each phase few commands are handled; all others leave the node.
  · unfold transitionToNewState
    split
    iterate 2
      · have := handleScheduleDistribution_ok node env heard hcopy hin q.payload.length
        exact ⟨this.1, this.2.after rfl rfl rfl rfl⟩
    iterate 2
      · rename_i hphase
        split
        · rename_i hcommand
          have := commandInputScheduleRetransmittRequest_ok node env heard hcopy hall
            (by rw [hphase]; decide) hin hcommand src
          exact ⟨this.1, this.2.after rfl rfl rfl rfl⟩
        · exact ⟨hcopy, .of_eq rfl rfl rfl rfl⟩
    · rename_i hphase
      split
      · have := commandInputScheduleRetransmitt_ok node env heard hcopy hphase
          q.payload.length src dest
        exact ⟨this.1, this.2.after rfl rfl rfl rfl⟩
      · exact ⟨hcopy, .of_eq rfl rfl rfl rfl⟩
    · exact ⟨hcopy, .of_eq rfl rfl rfl rfl⟩

/-! ## Beacons -/

/-- The schedule part of a beacon that is around. -/
structure BeaconOk (d : NodeState) (nbrVersion nbrPackets : ℕ) : Prop where
  version : nbrVersion ≤ 1
  ended : nbrVersion = 1 → d.scheduleVersion = 1 ∧ nbrPackets = d.schedulePackets

/-- A beacon with a newer version: the schedule is complete, or a search begins. -/
theorem masterScheduleDifferenceCallback_ok (h : NodeOk d s) {version packets : ℕ}
    (hb : BeaconOk d version packets) (nbr : NodeId) :
    NodeOk d (masterScheduleDifferenceCallback node env s nbr version packets) ∧
      Effect node heard s (masterScheduleDifferenceCallback node env s nbr version packets) := by
  unfold masterScheduleDifferenceCallback
  split
  · exact ⟨h, .of_eq rfl rfl rfl rfl⟩
  · rename_i hphase
    -- A newer version than the node's own makes it search, if packets are missing.
    split
    · rename_i hnewer
      split
      · exact ⟨h, .of_eq rfl rfl rfl rfl⟩
      · have hv : s.scheduleVersion = 0 := by
          have := hb.version
          omega
        rcases hb.ended (by have := hb.version; omega) with ⟨hended, hpackets⟩
        have hknow : NodeCore d { s with schedulePackets := packets } := by
          refine ⟨h.version, ?_, ?_, fun ho => absurd ho hphase, ?_, ?_⟩
          · intro hv'
            exact absurd (hv'.symm.trans hv) (by decide)
          · intro hp
            have hc := h.phase hp
            have heq : packets = s.schedulePackets := hpackets.trans hc.packets.symm
            exact ⟨hended, hpackets, heq ▸ hc.missing⟩
          · exact fun dest q hq => ⟨(h.queue dest q hq).packet, fun _ => hpackets⟩
          · exact fun x hx => ⟨(h.pending x hx).packet, fun _ => hpackets⟩
        dsimp only
        cases hmissing : NodeState.missingPacket { s with schedulePackets := packets } with
        | none =>
          have hc : Complete d packets s.receivedPackets := ⟨hended, hpackets, hmissing⟩
          have hfin := (hknow.setPhase .scheduleReceived (fun _ => hc)
            (by intro ho; cases ho)).finish node hc hv (by intro ho; cases ho)
          dsimp only
          constructor
          · exact NodeCore.ok hfin (by intro ho; cases ho)
          · exact Effect.after (.finishSchedule hknow.version) rfl rfl rfl rfl
        | some missing =>
          have hsearch : NodeOk d (changeLink (requestPacket node (handleStateChange
              { s with schedulePackets := packets } .scheduleOld) missing) (some nbr)) := by
            refine ⟨(hknow.setPhase .scheduleOld (fun hp => absurd hp (by decide))
              (fun _ => ⟨hended, hpackets, hv⟩)).congr rfl rfl rfl rfl rfl rfl, ?_⟩
            intro _ hnone
            cases hmissing.symm.trans hnone
          have hout := hsearch.output env env.etxLink
            (carries_request hended hpackets hmissing nbr _ rfl rfl)
          dsimp only
          constructor
          · exact ⟨hout.toNodeCore.congr rfl rfl rfl rfl rfl rfl, hout.searching⟩
          · refine Effect.before (t := output env (changeLink (requestPacket node
              (handleStateChange { s with schedulePackets := packets } .scheduleOld) missing)
              (some nbr)) env.etxLink (some nbr)) ?_ rfl rfl rfl rfl
            exact (Effect.output _ _ _).after rfl rfl rfl rfl
    · exact ⟨h, .of_eq rfl rfl rfl rfl⟩

/-- A merged flag is one of the two. -/
theorem mem_mergeReceived {own others : ByteVector} {last i : ℕ}
    (h : isBitSet1Byte (mergeReceived own others last) i = true) :
    isBitSet1Byte own i = true ∨ isBitSet1Byte others i = true := by
  have hI := foldl_prefix
    (I := fun (_ : List ℕ) (v : ByteVector) => isBitSet1Byte v i = true →
      isBitSet1Byte own i = true ∨ isBitSet1Byte others i = true)
    (f := fun v i => if !isBitSet1Byte v i && isBitSet1Byte others i then setBit1Byte v i else v)
    (l := List.range last) (b := own) (fun hi => .inl hi)
    (by
      intro pre j post v _ hv
      split
      · rename_i hj
        intro hi
        rcases testBit_of_insertBit (by decide) hi with rfl | hi
        · exact .inr ((Bool.and_eq_true_iff.1 hj).2)
        · exact hv hi
      · exact hv)
  exact hI h

/-- The check of the flags sets the callback of the installation only. -/
theorem checkReceivedSchedulesByNodes_frame (node : Node) (s : NodeState) :
    (checkReceivedSchedulesByNodes node s).2 = { s with
      receivedCallback := (checkReceivedSchedulesByNodes node s).2.receivedCallback } := by
  unfold checkReceivedSchedulesByNodes
  dsimp only
  split <;> rfl

/-- The flags of a neighbour change the node's flags and this callback only. -/
theorem masterScheduleReceivedCallback_frame (node : Node) (s : NodeState) (others : ByteVector) :
    masterScheduleReceivedCallback node s others = { s with
      scheduleReceived := (masterScheduleReceivedCallback node s others).scheduleReceived
      installTimer := (masterScheduleReceivedCallback node s others).installTimer
      receivedCallback := (masterScheduleReceivedCallback node s others).receivedCallback } := by
  unfold masterScheduleReceivedCallback
  split
  · dsimp only
    split <;> rw [checkReceivedSchedulesByNodes_frame]
  · rfl

/-- The flags of a beacon are merged soundly. -/
theorem masterScheduleReceivedCallback_ok (h : NodeOk d s) :
    NodeOk d (masterScheduleReceivedCallback node s heard) ∧
      Effect node heard s (masterScheduleReceivedCallback node s heard) := by
  have hmerge : ∀ i, isBitSet1Byte
      (masterScheduleReceivedCallback node s heard).scheduleReceived i = true →
      isBitSet1Byte s.scheduleReceived i = true ∨ isBitSet1Byte heard i = true := by
    intro i hi
    unfold masterScheduleReceivedCallback at hi
    split at hi
    · dsimp only at hi
      split at hi <;> rw [checkReceivedSchedulesByNodes_frame] at hi <;> exact mem_mergeReceived hi
    · exact .inl hi
  rw [masterScheduleReceivedCallback_frame] at hmerge ⊢
  refine ⟨⟨h.toNodeCore.congr rfl rfl rfl rfl rfl rfl, h.searching⟩, rfl, fun _ hk => hk, le_rfl,
    ?_, rfl⟩
  intro i hi
  rcases hmerge i hi with hi | hi
  · exact .inl hi
  · exact .inr (.inl hi)

/-- A beacon that says the truth keeps the invariant. -/
theorem tschRxProcessBeacon_ok (h : NodeOk d s) {version packets : ℕ}
    (hb : BeaconOk d version packets) (nbr : NodeId) (fromTimeSource : Bool) :
    NodeOk d (tschRxProcessBeacon node env s nbr fromTimeSource version packets heard) ∧
      Effect node heard s
        (tschRxProcessBeacon node env s nbr fromTimeSource version packets heard) := by
  have hnbr : NodeOk d (s.addNbr (some nbr)) := by
    rw [addNbr_frame]
    exact ⟨h.toNodeCore.congr rfl rfl rfl rfl rfl rfl, h.searching⟩
  have hnbr' : Effect node heard s (s.addNbr (some nbr)) := by
    rw [addNbr_frame]
    exact .of_eq rfl rfl rfl rfl
  obtain ⟨s₁, hs₁, hok, heffect⟩ : ∃ s₁,
      (if (s.addNbr (some nbr)).receivedCallback = true then
        masterScheduleReceivedCallback node (s.addNbr (some nbr)) heard
        else s.addNbr (some nbr)) = s₁ ∧ NodeOk d s₁ ∧ Effect node heard s s₁ := by
    refine ⟨_, rfl, ?_⟩
    split
    · have := masterScheduleReceivedCallback_ok node heard hnbr
      exact ⟨this.1, hnbr'.trans this.2⟩
    · exact ⟨hnbr, hnbr'⟩
  unfold tschRxProcessBeacon
  dsimp only
  rw [hs₁]
  split
  · have := masterScheduleDifferenceCallback_ok node env heard hok hb
      nbr
    exact ⟨this.1, heffect.trans this.2⟩
  · exact ⟨hok, heffect⟩

/-! ## Sent callbacks, timers and transmissions -/

/-- A packet was sent and acknowledged; the distributor's next packet is not
in here. -/
theorem transitionToNewStateAfterCallback_ok (h : NodeOk d s) {p : Packet}
    {dest : Option NodeId} (hp : Carries d s.schedulePackets dest p)
    (hnext : p.command = .schedule → node.nodeId ≠ node.distributor) :
    NodeOk d (transitionToNewStateAfterCallback node env s p dest) ∧
      Effect node heard s (transitionToNewStateAfterCallback node env s p dest) := by
  unfold transitionToNewStateAfterCallback
  split
  · rename_i hcommand
    unfold callbackInputScheduleSend
    rw [if_pos (hnext hcommand)]
    exact ⟨h, .of_eq rfl rfl rfl rfl⟩
  · rename_i hcommand
    split
    · rename_i hmissing
      have hc : IsComplete d s :=
        ⟨hp.packet.ended (by rw [hcommand]; decide), hp.knows hcommand, hmissing⟩
      exact ⟨NodeCore.ok (h.toNodeCore.setPhase .scheduleReceived (fun _ => hc)
        (by intro ho; cases ho)) (by intro ho; cases ho), .of_eq rfl rfl rfl rfl⟩
    · exact ⟨h, .of_eq rfl rfl rfl rfl⟩
  · split
    · split
      · exact requestRetransmitOrFinish_ok node env heard h.toNodeCore _
      · exact ⟨⟨h.toNodeCore.congr rfl rfl rfl rfl rfl rfl, h.searching⟩, .of_eq rfl rfl rfl rfl⟩
    · exact ⟨h, .of_eq rfl rfl rfl rfl⟩
  · split
    · rename_i hphase
      exact ⟨h.handleRetransmit hphase, .handleRetransmit⟩
    · exact ⟨h, .of_eq rfl rfl rfl rfl⟩

/-- In two phases the callback ignores all commands. -/
theorem masterRoutingOutputCallback_ignored {node : Node} {env : Env} {p : Packet}
    {dest : Option NodeId} {status : TxStatus}
    (h : s.currentState = .ignoreCommands ∨ s.currentState = .scheduleInstalled) :
    masterRoutingOutputCallback node env s p dest status = s :=
  if_pos h

/-- The callback of a transmission keeps the invariant. -/
theorem masterRoutingOutputCallback_ok (h : NodeOk d s) {p : Packet} {dest : Option NodeId}
    (hp : Carries d s.schedulePackets dest p) (status : TxStatus)
    (hnext : p.command = .schedule → status ≠ .err → node.nodeId ≠ node.distributor) :
    NodeOk d (masterRoutingOutputCallback node env s p dest status) ∧
      Effect node heard s (masterRoutingOutputCallback node env s p dest status) := by
  unfold masterRoutingOutputCallback
  split
  · exact ⟨h, .of_eq rfl rfl rfl rfl⟩
  · unfold handleCallbackCommandsDivergcast
    cases status with
    | err => exact ⟨h.handleTxErr, .handleTxErr⟩
    | ok =>
      exact transitionToNewStateAfterCallback_ok node env heard h hp
        fun hc => hnext hc (by decide)
    | noAck =>
      dsimp only
      have hback : NodeOk d (NodeState.putBack node s p) :=
        ⟨h.toNodeCore.congr rfl rfl rfl rfl rfl rfl, h.searching⟩
      split
      · split
        · have hreq := requestRetransmitOrFinish_ok node env heard hback.toNodeCore (dest.getD 0)
          exact ⟨hreq.1, hreq.2.after rfl rfl rfl rfl⟩
        · exact ⟨NodeCore.ok ((hback.toNodeCore.openPhase .scheduleDist (by decide)
            (by decide)).congr rfl rfl rfl rfl rfl rfl) (by intro ho; cases ho),
            .of_eq rfl rfl rfl rfl⟩
      · -- the same packet goes out again
        have hlen : NodeOk d { NodeState.putBack node s p with payloadLen := p.payload.length } :=
          ⟨hback.toNodeCore.congr rfl rfl rfl rfl rfl rfl, hback.searching⟩
        constructor
        · exact hlen.output env env.etxLink ⟨hp.packet.congr Iff.rfl rfl rfl, hp.knows⟩
        · exact (Effect.output _ _ _).after rfl rfl rfl rfl
      · have := transitionToNewStateAfterCallback_ok node env heard hback hp
          fun hc => hnext hc (by decide)
        exact ⟨this.1, this.2.after rfl rfl rfl rfl⟩

/-- The first of the callbacks that wait may be taken. -/
theorem NodeOk.pop (h : NodeOk d s) {x : Option NodeId × Packet × TxStatus}
    {rest : List (Option NodeId × Packet × TxStatus)} (hp : s.pending = x :: rest) :
    NodeOk d { s with pending := rest } ∧ Carries d s.schedulePackets x.1 x.2.1 := by
  constructor
  · refine ⟨⟨h.version, h.finished, h.phase, h.old, h.queue, ?_⟩, h.searching⟩
    intro y hy
    exact h.pending y (by rw [hp]; exact List.mem_cons_of_mem _ hy)
  · exact h.pending x (by rw [hp]; exact List.mem_cons_self)

/-- A node that waits in vain for a packet asks again. -/
theorem missingResponse_ok (h : NodeOk d s) :
    NodeOk d (Mote.missingResponse s) ∧ Effect node heard s (Mote.missingResponse s) := by
  have hcore : NodeCore d (changeLink { s with missingResponseTimer := false } none) :=
    h.toNodeCore.congr rfl rfl rfl rfl rfl rfl
  exact ⟨(hcore.openPhase .waitForSchedule (by decide) (by decide)).ok (by intro ho; cases ho),
    .of_eq rfl rfl rfl rfl⟩

/-- The installation, if the node finds itself among the complete ones. -/
theorem installSchedule_ok (h : NodeOk d s)
    (hc : (checkReceivedSchedulesByNodes node { s with installTimer := false }).1 = true →
      IsComplete d s) :
    NodeOk d (installSchedule node s) ∧ Effect node heard s (installSchedule node s) := by
  unfold installSchedule
  dsimp only
  rw [checkReceivedSchedulesByNodes_frame]
  split
  · rename_i hcheck
    constructor
    · refine NodeCore.ok ⟨h.version, h.finished, fun _ => hc hcheck, ?_, ?_, h.pending⟩ ?_
      · intro ho
        cases ho
      · intro dest q hq
        cases hq
      · intro ho
        cases ho
    · exact .of_eq rfl rfl rfl rfl
  · exact ⟨⟨h.toNodeCore.congr rfl rfl rfl rfl rfl rfl, h.searching⟩, .of_eq rfl rfl rfl rfl⟩

/-- A slot gives a packet the node may carry to the radio. -/
theorem txSlot_ok (h : NodeOk d s) {status : TxStatus} {giveUp : Bool} {p : Packet} {t : NodeState}
    (ht : txSlot s status giveUp = some (p, t)) :
    NodeOk d t ∧ Effect node heard s t ∧ PacketOk d s.link p := by
  rcases txSlot_cases ht with ⟨hmem, rfl | ⟨rest, hq, rfl⟩⟩
  · exact ⟨h, .of_eq rfl rfl rfl rfl, (h.queue _ p hmem).packet⟩
  · have hp := h.queue _ p hmem
    refine ⟨⟨⟨h.version, h.finished, h.phase, h.old, ?_, ?_⟩, h.searching⟩, .of_eq rfl rfl rfl rfl,
      hp.packet⟩
    · intro dest q hq'
      dsimp only at hq'
      rw [Function.update_apply] at hq'
      split_ifs at hq' with hdest
      · rw [hdest]
        exact h.queue s.link q (by rw [hq]; exact List.mem_cons_of_mem _ hq')
      · exact h.queue dest q hq'
    · intro x hx
      rcases List.mem_append.1 hx with hx | hx
      · exact h.pending x hx
      · rw [List.mem_singleton.1 hx]
        exact hp

end Handlers

end MasterScheduler.Network
