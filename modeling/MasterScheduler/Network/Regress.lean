import MasterScheduler.Network.Invariant

/-!
# MasterScheduler.Network.Regress — a complete node does not fall back

A node that has the whole schedule stays in the phases of a complete node, and
its timer for missing responses is off, as long as no request for a missing
packet is refused by the MAC layer. A refused request runs the sent callback,
which stops the timer and ends the search, before the timer is started.

- `Keeps`: what a handler does for the phase and the timer of its node.
- `TimersOk.step`: one step; `received_stays`: whole runs.
- `received_regresses`: a run with a refused request.
-/

namespace MasterScheduler.Network

open Lib Mote

/-- The timer for missing responses runs only while the node searches. -/
def TimerOk (s : NodeState) : Prop := s.missingResponseTimer = true → s.currentState = .scheduleOld

/-- What a handler does for the timer and the phase. -/
structure Keeps (s t : NodeState) : Prop where
  timer : TimerOk s → TimerOk t
  phase : s.currentState ∈ completePhases → t.currentState ∈ completePhases

/-- The MAC layer runs the sent callback at once. -/
def Refuses (env : Env) : Prop := maxTx env.etxLink ≠ 0 ∧ env.mac = .refused

instance (env : Env) : Decidable (Refuses env) := inferInstanceAs (Decidable (_ ∧ _))

section Keeps

variable {d s t u : NodeState} {node : Node} {env : Env}

/-- Doing nothing keeps timer and phase. -/
theorem Keeps.refl (s : NodeState) : Keeps s s := ⟨id, id⟩

/-- Two handlers in a row. -/
theorem Keeps.trans (h : Keeps s t) (h' : Keeps t u) : Keeps s u :=
  ⟨fun hs => h'.timer (h.timer hs), fun hs => h'.phase (h.phase hs)⟩

/-- The phase and the timer are the same. -/
theorem Keeps.of_eq (hphase : t.currentState = s.currentState)
    (htimer : t.missingResponseTimer = s.missingResponseTimer) : Keeps s t := by
  constructor
  · unfold TimerOk
    rw [hphase, htimer]
    exact id
  · rw [hphase]
    exact id

/-- A phase of a complete node, with the timer off. -/
theorem Keeps.complete (hphase : t.currentState ∈ completePhases)
    (htimer : TimerOk s → t.missingResponseTimer = false) : Keeps s t := by
  refine ⟨?_, fun _ => hphase⟩
  intro hs ht
  rw [htimer hs] at ht
  cases ht

/-- The timer of a node that does not search is off. -/
theorem TimerOk.off (h : TimerOk s) (hold : s.currentState ≠ .scheduleOld) :
    s.missingResponseTimer = false := by
  by_contra ht
  exact hold (h (by simpa using ht))

/-- A repeated transmission keeps them. -/
theorem Keeps.handleRetransmit (hold : s.currentState = .scheduleRetransmitting) :
    Keeps s (Mote.handleRetransmit s) := by
  unfold Mote.handleRetransmit
  split
  · exact .of_eq rfl rfl
  · refine .complete (by simp [changeLink, handleStateChange, completePhases]) ?_
    intro hs
    exact hs.off (by rw [hold]; decide)

/-- An error keeps them. -/
theorem Keeps.handleTxErr : Keeps s (Mote.handleTxErr s) := by
  unfold Mote.handleTxErr
  split
  · rename_i hold
    refine ⟨fun _ ht => ?_, fun hp => ?_⟩
    · cases ht
    · rw [hold] at hp
      exact absurd hp (by decide)
  · split
    · rename_i hphase
      exact .handleRetransmit hphase
    · exact .refl s

/-- Sending keeps them. -/
theorem Keeps.output (env : Env) (etxLink : ℕ) (dest : Option NodeId) :
    Keeps s (Mote.output env s etxLink dest) := by
  unfold Mote.output
  dsimp only
  split
  · exact .of_eq rfl rfl
  · split
    · rw [tschQueueAddPacket_frame]
      exact .of_eq rfl rfl
    · exact Keeps.trans (t := { s with handed := s.handed ++ [(dest, s.outgoing)] })
        (.of_eq rfl rfl) .handleTxErr

/-- A packet that is not refused leaves the phase alone. -/
theorem output_currentState (h : ¬ Refuses env) (dest : Option NodeId) :
    (Mote.output env s env.etxLink dest).currentState = s.currentState := by
  unfold Mote.output
  dsimp only
  split
  · rfl
  · rename_i hmax
    split
    · rw [tschQueueAddPacket_frame]
    · rename_i hmac
      exact absurd ⟨hmax, hmac⟩ h

/-- The next request of a search, or its end. -/
theorem requestRetransmitOrFinish_keeps (h : s.currentState = .scheduleOld → ¬ Refuses env)
    (dest : NodeId) : Keeps s (requestRetransmitOrFinish node env s dest) := by
  unfold requestRetransmitOrFinish
  split
  · exact .refl s
  · rename_i hphase
    have hold := not_not.1 hphase
    split
    · exact .complete (by simp [changeLink, finishSchedule, handleStateChange, completePhases])
        (fun _ => rfl)
    · split
      · exact .refl s
      · rename_i missing _ _
        -- the timer is started for a node that still searches
        have hstate : (output env (requestPacket node s missing) env.etxLink
            (some dest)).currentState = .scheduleOld :=
          (output_currentState (h hold) (some dest)).trans hold
        refine ⟨fun _ _ => hstate, ?_⟩
        intro hp
        rw [hold] at hp
        exact absurd hp (by decide)

/-- A packet of the schedule keeps them. -/
theorem newPacket_keeps (cfg : Config) (len : ℕ) :
    Keeps s (commandInputScheduleNewPacket cfg env s len) := by
  rw [newPacket_frame]
  exact .of_eq rfl rfl

/-- A node that waits for packets: its timer is off, and it stays off. -/
theorem Keeps.waiting (hphase : s.currentState ∉ completePhases)
    (hold : s.currentState ≠ .scheduleOld)
    (htimer : t.missingResponseTimer = true → s.missingResponseTimer = true) : Keeps s t := by
  refine ⟨?_, fun hp => absurd hp hphase⟩
  intro hs ht
  exact absurd (hs (htimer ht)) hold

/-- Sending starts no timer. -/
theorem output_timer {etxLink : ℕ} {dest : Option NodeId}
    (h : (Mote.output env s etxLink dest).missingResponseTimer = true) :
    s.missingResponseTimer = true := by
  unfold Mote.output at h
  dsimp only at h
  split at h
  · exact h
  · split at h
    · rw [tschQueueAddPacket_frame] at h
      exact h
    · unfold Mote.handleTxErr at h
      split at h
      · cases h
      · split at h
        · rw [handleRetransmit_frame] at h
          exact h
        · exact h

/-- A packet of the schedule leaves the timer. -/
theorem newPacket_timer (cfg : Config) (len : ℕ) :
    (commandInputScheduleNewPacket cfg env s len).missingResponseTimer =
      s.missingResponseTimer := by
  rw [newPacket_frame]

/-- The last packet starts no timer. -/
theorem commandInputScheduleLastPacket_timer {len : ℕ}
    (h : (commandInputScheduleLastPacket node env s len).missingResponseTimer = true) :
    s.missingResponseTimer = true := by
  unfold commandInputScheduleLastPacket forwardBroadcast at h
  have h' := output_timer h
  dsimp only at h'
  rw [← newPacket_timer node.cfg len]
  split at h' <;> exact h'

/-- The distribution starts no timer. -/
theorem handleScheduleDistribution_timer {len : ℕ}
    (h : (handleScheduleDistributionStateChanges node env s len).missingResponseTimer = true) :
    s.missingResponseTimer = true := by
  unfold handleScheduleDistributionStateChanges at h
  split at h
  · exact h
  · split at h
    · unfold commandInputSchedulePacket forwardBroadcast at h
      have h' := output_timer h
      dsimp only at h'
      rw [newPacket_timer] at h'
      exact h'
    · exact commandInputScheduleLastPacket_timer (s := handleStateChange s .scheduleDist) h
    · rw [newPacket_timer] at h
      exact h
    · exact h

/-- A packet that was sent again keeps them when a request is not refused. -/
theorem commandInputScheduleRetransmitt_keeps (hphase : s.currentState = .scheduleOld)
    (h : ¬ Refuses env) (len : ℕ) (src : NodeId) (dest : Option NodeId) :
    Keeps s (commandInputScheduleRetransmitt node env s len src dest) := by
  obtain ⟨s₁, hs₁, hkeeps, hstate⟩ : ∃ s₁,
      (if isBitSet s.receivedPackets s.mrp.number then s
        else commandInputScheduleNewPacket node.cfg env s len) = s₁ ∧ Keeps s s₁ ∧
      s₁.currentState = .scheduleOld := by
    refine ⟨_, rfl, ?_⟩
    split
    · exact ⟨.refl s, hphase⟩
    · refine ⟨newPacket_keeps _ _, ?_⟩
      rw [newPacket_frame]
      exact hphase
  unfold commandInputScheduleRetransmitt
  dsimp only
  rw [hs₁]
  split
  · split
    · refine hkeeps.trans (Keeps.trans (t := tschQueueRemovePacket s₁ (some src))
        (.of_eq rfl rfl) (requestRetransmitOrFinish_keeps (fun _ => h) src))
    · exact hkeeps.trans (requestRetransmitOrFinish_keeps (fun _ => h) src)
  · split
    · exact .complete (by simp [changeLink, finishSchedule, handleStateChange, completePhases])
        (fun _ => rfl)
    · exact hkeeps

/-- A request to a complete node keeps them. -/
theorem commandInputScheduleRetransmittRequest_keeps
    (hphase : s.currentState ∈ completePhases) (src : NodeId) :
    Keeps s (commandInputScheduleRetransmittRequest node env s src) := by
  rcases retransmittRequest_cases node env s src with ⟨-, hres⟩ | ⟨-, t, ht, hres⟩
  · rw [hres]
    exact .refl s
  · have hserve : Keeps s t := by
      rw [ht.frame]
      refine .complete (by simp [completePhases]) ?_
      intro hs
      refine hs.off ?_
      intro hold
      rw [hold] at hphase
      exact absurd hphase (by decide)
    have hout := hserve.trans (.output env env.etxLink (some src))
    rcases hres with ⟨-, hres⟩ | ⟨-, hres⟩
    · rw [hres]
      exact hserve
    · rw [hres]
      split
      · exact hout.trans (.of_eq rfl rfl)
      · exact hout

/-- Every received packet keeps them when a request is not refused. -/
theorem masterRoutingInput_keeps (h : s.currentState = .scheduleOld → ¬ Refuses env) (q : Packet)
    (src : NodeId) (dest : Option NodeId) :
    Keeps s (masterRoutingInput node env s q src dest) := by
  have hcopy : Keeps s (s.copyIn q) := .of_eq rfl rfl
  unfold masterRoutingInput
  split
  · exact .refl s
  · unfold transitionToNewState
    split
    · rename_i hphase
      have hs : s.currentState = .waitForSchedule := hphase
      exact .waiting (by rw [hs]; decide) (by rw [hs]; decide) handleScheduleDistribution_timer
    · rename_i hphase
      have hs : s.currentState = .scheduleDist := hphase
      exact .waiting (by rw [hs]; decide) (by rw [hs]; decide) handleScheduleDistribution_timer
    · rename_i hphase
      split
      · exact hcopy.trans
          (commandInputScheduleRetransmittRequest_keeps (by rw [hphase]; decide) src)
      · exact hcopy
    · rename_i hphase
      split
      · exact hcopy.trans
          (commandInputScheduleRetransmittRequest_keeps (by rw [hphase]; decide) src)
      · exact hcopy
    · rename_i hphase
      split
      · exact hcopy.trans (commandInputScheduleRetransmitt_keeps hphase (h hphase) _ src dest)
      · exact hcopy
    · exact hcopy

end Keeps

/-! ## Beacons -/

/-- A beacon on which a node begins to search for packets. -/
structure StartsSearch (s : NodeState) (b : Beacon) (fromTimeSource : Bool) (env : Env) :
    Prop where
  source : fromTimeSource = false
  phase : s.currentState ≠ .scheduleOld
  newer : s.scheduleVersion < b.scheduleVersion
  link : env.etxLink ≤ 2000
  missing : getMissingPacket s.receivedPackets b.schedulePackets ≠ none

/-- When a beacon makes a node ask. -/
theorem startsSearch_iff {s : NodeState} {b : Beacon} {fromTimeSource : Bool} {env : Env} :
    (fromTimeSource = false ∧ s.currentState ≠ .scheduleOld ∧
      s.scheduleVersion < b.scheduleVersion ∧ env.etxLink ≤ 2000 ∧
      getMissingPacket s.receivedPackets b.schedulePackets ≠ none) ↔
      StartsSearch s b fromTimeSource env :=
  ⟨fun ⟨h1, h2, h3, h4, h5⟩ => ⟨h1, h2, h3, h4, h5⟩, fun ⟨h1, h2, h3, h4, h5⟩ => ⟨h1, h2, h3, h4, h5⟩⟩

instance (s : NodeState) (b : Beacon) (fromTimeSource : Bool) (env : Env) :
    Decidable (StartsSearch s b fromTimeSource env) := decidable_of_iff _ startsSearch_iff

section Beacon

variable {d s : NodeState} {node : Node} {env : Env}

/-- A difference of versions keeps them when the request is not refused. -/
theorem masterScheduleDifferenceCallback_keeps (h : NodeOk d s) {version packets : ℕ}
    (hb : BeaconOk d version packets) (nbr : NodeId)
    (hreq : s.currentState ≠ .scheduleOld → s.scheduleVersion < version → env.etxLink ≤ 2000 →
      getMissingPacket s.receivedPackets packets ≠ none → ¬ Refuses env) :
    Keeps s (masterScheduleDifferenceCallback node env s nbr version packets) := by
  unfold masterScheduleDifferenceCallback
  split
  · exact .refl s
  · rename_i hold
    split
    · rename_i hnewer
      split
      · exact .refl s
      · rename_i hetx
        dsimp only
        cases hmissing : NodeState.missingPacket { s with schedulePackets := packets } with
        | none =>
          dsimp only
          exact .complete (by simp [finishSchedule, handleStateChange, completePhases])
            (fun hs => hs.off hold)
        | some missing =>
          dsimp only
          have hne : getMissingPacket s.receivedPackets packets ≠ none := by
            intro hnone
            cases hmissing.symm.trans hnone
          have hstate := output_currentState (s := changeLink (requestPacket node
            (handleStateChange { s with schedulePackets := packets } .scheduleOld) missing)
            (some nbr)) (hreq hold hnewer (not_lt.1 hetx) hne) (some nbr)
          refine ⟨fun _ _ => hstate, ?_⟩
          -- a complete node misses none of the packets
          intro hp
          have hc := h.phase hp
          have h1 : version = 1 := by
            have := hb.version
            omega
          rw [(hb.ended h1).2, ← hc.packets] at hne
          exact absurd hc.missing hne
    · exact .refl s

/-- So does a beacon. -/
theorem tschRxProcessBeacon_keeps (h : NodeOk d s) {b : Beacon} {fromTimeSource : Bool}
    (hb : BeaconOk d b.scheduleVersion b.schedulePackets)
    (hreq : StartsSearch s b fromTimeSource env → ¬ Refuses env) :
    Keeps s (tschRxProcessBeacon node env s b.src fromTimeSource b.scheduleVersion
      b.schedulePackets b.scheduleReceived) := by
  obtain ⟨s₁, hs₁, hok, hkeeps, hframe⟩ : ∃ s₁,
      (if (s.addNbr (some b.src)).receivedCallback = true then
        masterScheduleReceivedCallback node (s.addNbr (some b.src)) b.scheduleReceived
        else s.addNbr (some b.src)) = s₁ ∧ NodeOk d s₁ ∧ Keeps s s₁ ∧
      s₁.currentState = s.currentState ∧ s₁.scheduleVersion = s.scheduleVersion ∧
      s₁.receivedPackets = s.receivedPackets := by
    refine ⟨_, rfl, ?_⟩
    split
    · rw [masterScheduleReceivedCallback_frame, addNbr_frame]
      exact ⟨⟨h.toNodeCore.congr rfl rfl rfl rfl rfl rfl, h.searching⟩, .of_eq rfl rfl, rfl, rfl,
        rfl⟩
    · rw [addNbr_frame]
      exact ⟨⟨h.toNodeCore.congr rfl rfl rfl rfl rfl rfl, h.searching⟩, .of_eq rfl rfl, rfl, rfl,
        rfl⟩
  rcases hframe with ⟨hstate, hversion, hbits⟩
  unfold tschRxProcessBeacon
  dsimp only
  rw [hs₁]
  split
  · rename_i hdiff
    refine hkeeps.trans (masterScheduleDifferenceCallback_keeps hok hb b.src ?_)
    rw [hstate, hversion, hbits]
    intro hphase hnewer hetx hmissing
    exact hreq ⟨by simpa using (Bool.and_eq_true_iff.1 hdiff).1, hphase, hnewer, hetx, hmissing⟩
  · exact hkeeps

/-! ## Sent callbacks and timers -/

/-- The change of phase after a transmission keeps them. -/
theorem transitionToNewStateAfterCallback_keeps (h : NodeOk d s)
    (hreq : s.currentState = .scheduleOld → ¬ Refuses env) (p : Packet) (dest : Option NodeId) :
    Keeps s (transitionToNewStateAfterCallback node env s p dest) := by
  unfold transitionToNewStateAfterCallback
  split
  · by_cases hd : node.nodeId = node.distributor
    · rcases callbackInputScheduleSend_cases env s hd with ⟨t, ht, -, heq⟩
      rw [heq]
      refine Keeps.trans (t := t) ?_ (.output _ _ _)
      rw [ht.frame]
      exact .of_eq rfl rfl
    · unfold callbackInputScheduleSend
      rw [if_pos hd]
      exact .refl s
  · split
    · rename_i hmissing
      refine .complete (by simp [handleStateChange, completePhases]) ?_
      exact fun hs => hs.off fun hold => h.searching hold hmissing
    · exact .refl s
  · split
    · rename_i hold
      split
      · exact requestRetransmitOrFinish_keeps hreq _
      · refine ⟨fun _ _ => hold, ?_⟩
        intro hp
        rw [hold] at hp
        exact absurd hp (by decide)
    · exact .refl s
  · split
    · rename_i hphase
      exact .handleRetransmit hphase
    · exact .refl s

/-- So does the callback of a transmission. -/
theorem masterRoutingOutputCallback_keeps (h : NodeOk d s)
    (hreq : s.currentState = .scheduleOld → ¬ Refuses env) {p : Packet} {dest : Option NodeId}
    (hp : PacketOk d dest p) (status : TxStatus) :
    Keeps s (masterRoutingOutputCallback node env s p dest status) := by
  unfold masterRoutingOutputCallback
  split
  · exact .refl s
  · unfold handleCallbackCommandsDivergcast
    cases status with
    | err => exact .handleTxErr
    | ok => exact transitionToNewStateAfterCallback_keeps h hreq p dest
    | noAck =>
      dsimp only
      have hback : Keeps s (NodeState.putBack node s p) := .of_eq rfl rfl
      split
      · rename_i hcommand
        split
        · exact hback.trans
            (requestRetransmitOrFinish_keeps (s := NodeState.putBack node s p) hreq _)
        · rename_i hbit
          refine ⟨fun _ ht => ?_, fun hphase => ?_⟩
          · cases ht
          · -- a complete node has the packet it once asked for
            rcases hp.asked hcommand with ⟨h1, hle⟩
            exact absurd ((h.phase hphase).bit h1 hle) hbit
      · exact hback.trans (Keeps.trans (t := { NodeState.putBack node s p with
          payloadLen := p.payload.length }) (.of_eq rfl rfl) (.output _ _ _))
      · have hok : NodeOk d (NodeState.putBack node s p) :=
          ⟨h.toNodeCore.congr rfl rfl rfl rfl rfl rfl, h.searching⟩
        exact hback.trans (transitionToNewStateAfterCallback_keeps hok hreq p dest)

/-- So does the installation. -/
theorem installSchedule_keeps
    (hcheck : (checkReceivedSchedulesByNodes node { s with installTimer := false }).1 = true →
      s.currentState ≠ .scheduleOld) : Keeps s (installSchedule node s) := by
  unfold installSchedule
  dsimp only
  rw [checkReceivedSchedulesByNodes_frame]
  split
  · rename_i hc
    exact .complete (by simp [handleStateChange, completePhases]) (fun hs => hs.off (hcheck hc))
  · exact .of_eq rfl rfl

end Beacon

/-! ## The network -/

/-- No request for a missing packet is refused: not of a node that searches, and
not on a beacon that starts a search. -/
def RequestsAccepted (net : NetState) : Event → Prop
  | .input n _ env | .sent n env => Refuses env → (net.node n).currentState ≠ .scheduleOld
  | .beacon n i fromTimeSource env => Refuses env →
      ∀ b ∈ net.beacons[i]?, ¬ StartsSearch (net.node n) b fromTimeSource env
  | _ => True

instance (net : NetState) : ∀ e, Decidable (RequestsAccepted net e)
  | .input n _ _ | .sent n _ =>
      inferInstanceAs (Decidable (Refuses _ → (net.node n).currentState ≠ _))
  | .beacon n i _ _ => inferInstanceAs (Decidable (Refuses _ →
      ∀ b ∈ net.beacons[i]?, ¬ StartsSearch (net.node n) b _ _))
  | .loaded _ | .transmit .. | .sendBeacon _ | .missingResponse _ | .install _ =>
      inferInstanceAs (Decidable True)

/-- The timers of all nodes. -/
def TimersOk (D : Deployment) (net : NetState) : Prop :=
  ∀ n ∈ D.cfg.nodeIds, TimerOk (net.node n)

section Network

variable {D : Deployment} {net net' : NetState} {e : Event} {n m : NodeId} {t : NodeState}

/-- The other nodes are as they were. -/
theorem Keeps.set (h : Keeps (net.node m) t) (n : NodeId) :
    Keeps (net.node n) ((net.set m t).node n) := by
  by_cases hn : n = m
  · rw [hn, NetState.set_node_self]
    exact h
  · rw [NetState.set_node_of_ne _ _ hn]
    exact .refl _

/-- Before the upload the distributor is not complete. -/
theorem Control.unloaded (h : Control D net) (hl : net.loaded = false) :
    (net.node D.distributor).currentState ∉ completePhases := by
  intro hp
  have hv := (h.dist.fresh hl).1
  have := ((h.nodes _ D.distributor_mem).phase hp).ended
  omega

/-- So does the schedule that is loaded. -/
theorem masterScheduleLoadedCallback_keeps {node : Node} {env : Env} {s : NodeState}
    (hphase : s.currentState ∉ completePhases) (hold : s.currentState ≠ .scheduleOld) :
    Keeps s (masterScheduleLoadedCallback node env s) := by
  rcases masterScheduleLoadedCallback_cases node env s with ⟨t, ht, -, heq⟩
  rw [heq]
  refine .waiting hphase hold ?_
  intro htimer
  have := output_timer htimer
  rw [ht.frame] at this
  exact this

/-- A node that finds all nodes complete is so itself. -/
theorem Control.version_of_check (h : Control D net) (hn : n ∈ D.cfg.nodeIds)
    (hcheck : (checkReceivedSchedulesByNodes (D.node n)
      { net.node n with installTimer := false }).1 = true) :
    (net.node n).scheduleVersion = 1 := by
  have hbits : ∀ i, isBitSet1Byte
      { net.node n with installTimer := false }.scheduleReceived i = true →
      i + 1 ∈ (D.node n).cfg.nodeIds := fun i hi => (h.received n hn i hi).1
  have hv := (h.received n hn _ (all_of_checkReceived (D.node n) hbits hcheck hn)).2
  rwa [show n - 1 + 1 = n from Nat.sub_add_cancel (one_le_of_mem_nodeIds hn)] at hv

/-- A node of whom all are marked as complete is not searching. -/
theorem Control.not_old_of_check (h : Control D net) (hn : n ∈ D.cfg.nodeIds)
    (hcheck : (checkReceivedSchedulesByNodes (D.node n)
      { net.node n with installTimer := false }).1 = true) :
    (net.node n).currentState ≠ .scheduleOld := by
  intro hold
  have hv := h.version_of_check hn hcheck
  have := ((h.nodes n hn).old hold).2.2
  omega

/-- What one step does for the phase and the timer of any node. -/
theorem keeps_of_step (h : Control D net) (htimers : TimersOk D net)
    (hreq : RequestsAccepted net e) (hs : step D net e = some net') (n : NodeId) :
    Keeps (net.node n) (net'.node n) := by
  cases step_cases hs with
  | @loaded env hl =>
    exact Keeps.set (masterScheduleLoadedCallback_keeps (h.unloaded hl)
      (h.nodes _ D.distributor_mem).not_old) n
  | @input m i env f hm hf _ _ =>
    exact Keeps.set (masterRoutingInput_keeps (fun hold hr => hreq hr hold) _ _ _) n
  | @transmit m status giveUp p s hm ht =>
    refine Keeps.set ?_ n
    rcases txSlot_cases ht with ⟨-, rfl | ⟨rest, -, rfl⟩⟩
    · exact .refl _
    · exact .of_eq rfl rfl
  | @sent m env dest p status rest hm hp =>
    rcases (h.nodes m hm).pop hp with ⟨hok, hcarries⟩
    refine Keeps.set (Keeps.trans (t := { net.node m with pending := rest }) (.of_eq rfl rfl) ?_) n
    exact masterRoutingOutputCallback_keeps hok (fun hold hr => hreq hr hold) hcarries.packet status
  | @sendBeacon m hm => exact .refl _
  | @beacon m i fromTimeSource env b hm hb hi _ =>
    exact Keeps.set (tschRxProcessBeacon_keeps (h.nodes m hm) (h.beacons b hb).1
      fun hstart hr => hreq hr b hi hstart) n
  | @missingResponse m hm ht =>
    -- the timer runs, so the node searches and is not complete
    have hold := htimers m hm ht
    refine Keeps.set ⟨fun _ hrun => ?_, fun hp => ?_⟩ n
    · cases hrun
    · rw [hold] at hp
      exact absurd hp (by decide)
  | @install m hm _ =>
    exact Keeps.set (installSchedule_keeps (h.not_old_of_check hm)) n

/-- Packets in bounds, and no refused request. -/
def Steady (D : Deployment) (net : NetState) (e : Event) : Prop :=
  InBounds D net e ∧ RequestsAccepted net e

instance (D : Deployment) (net : NetState) (e : Event) : Decidable (Steady D net e) :=
  inferInstanceAs (Decidable (_ ∧ _))

/-- A steady step keeps the invariant of the timers. -/
theorem TimersOk.step (h : Control D net) (htimers : TimersOk D net)
    (hok : Steady D net e) (hs : Network.step D net e = some net') :
    Control D net' ∧ TimersOk D net' := by
  refine ⟨h.step hok.1 hs, ?_⟩
  intro n hn
  exact (keeps_of_step h htimers hok.2 hs n).timer (htimers n hn)

/-- It holds after every steady run. -/
theorem timersOk_of_run {file : List UInt8} (h : Start D file net)
    (hrun : Run (Network.step D) (Steady D) net net') : Control D net' ∧ TimersOk D net' := by
  refine hrun.invariant (I := fun net => Control D net ∧ TimersOk D net)
    (fun _ _ _ hI hok hs => hI.2.step hI.1 hok hs) ⟨control_of_start h, ?_⟩
  intro n hn ht
  rw [(h.fresh n hn).missingResponseTimer] at ht
  cases ht

/-- A node with a complete schedule whose timer is off. -/
def Settled (s : NodeState) : Prop :=
  s.currentState ∈ completePhases ∧ s.missingResponseTimer = false

/-- Once a node has received the schedule it stays with it. -/
theorem received_stays {net₀ : NetState} {file : List UInt8} (h₀ : Start D file net₀)
    (hrun : Run (Network.step D) (Steady D) net₀ net) (hn : n ∈ D.cfg.nodeIds)
    (hreceived : (net.node n).currentState = .scheduleReceived)
    (hrun' : Run (Network.step D) (Steady D) net net') : Settled (net'.node n) := by
  have hI := hrun'.invariant
    (I := fun net => (Control D net ∧ TimersOk D net) ∧ (net.node n).currentState ∈ completePhases)
    (fun _ _ _ hI hok hs => ⟨hI.1.2.step hI.1.1 hok hs,
      (keeps_of_step hI.1.1 hI.1.2 hok.2 hs n).phase hI.2⟩)
    ⟨timersOk_of_run h₀ hrun, by rw [hreceived]; decide⟩
  refine ⟨hI.2, (hI.1.2 n hn).off ?_⟩
  intro hold
  have := hI.2
  rw [hold] at this
  exact absurd this (by decide)

end Network

/-- The upload, up to the moment in which node 2 has the first packet and the
distributor has announced its schedule and sent the last packet. -/
def announceEvents : List Event :=
  [.loaded faultlessEnv, .transmit 1 .ok false, .input 2 0 faultlessEnv, .sent 1 faultlessEnv,
    .sendBeacon 1, .transmit 1 .ok false]

/-- Node 2 has received the schedule; it passes on its packets and stays with it. -/
theorem received_stays_cooja : ∃ net net',
    (net.node 2).currentState = .scheduleReceived ∧
      Run (step coojaTestbed) (Steady coojaTestbed) net net' ∧ net'.air.length = 4 ∧
      Settled (net'.node 2) := by
  rcases exists_run_of_runEvents (step coojaTestbed) (Steady coojaTestbed)
    (startNet coojaTestbed oneHopFile) (announceEvents ++ [.input 2 1 faultlessEnv])
    (fun net => (net.node 2).currentState = .scheduleReceived ∧
      (runEvents (step coojaTestbed) (Steady coojaTestbed) net [.transmit 2 .ok false,
        .sent 2 faultlessEnv, .transmit 2 .noAck true, .sent 2 faultlessEnv]).any
        (fun net' => net'.air.length = 4) = true)
    (by decide) with ⟨net, hrun, hreceived, hmore⟩
  rcases exists_run_of_runEvents _ _ net _ (fun net' => net'.air.length = 4) hmore
    with ⟨net', hrun', hair⟩
  exact ⟨net, net', hreceived, hrun', hair, received_stays (startNet_start coojaTestbed oneHopFile)
    hrun (by decide) hreceived hrun'⟩

/-- The request for the missing packet is refused, the packet comes by itself, and
the timer throws the node back. -/
theorem received_regresses : ∃ net net',
    Start coojaTestbed oneHopFile (startNet coojaTestbed oneHopFile) ∧
      Run (step coojaTestbed) (InBounds coojaTestbed) (startNet coojaTestbed oneHopFile) net ∧
      (net.node 2).currentState = .scheduleReceived ∧ (net.node 2).missingResponseTimer = true ∧
      Run (step coojaTestbed) (InBounds coojaTestbed) net net' ∧
      (net'.node 2).currentState = .waitForSchedule := by
  rcases exists_run_of_runEvents (step coojaTestbed) (InBounds coojaTestbed)
    (startNet coojaTestbed oneHopFile)
    (announceEvents ++ [.beacon 2 0 false { faultlessEnv with mac := .refused },
      .input 2 1 faultlessEnv])
    (fun net => ((net.node 2).currentState = .scheduleReceived ∧
      (net.node 2).missingResponseTimer = true) ∧
      (runEvents (step coojaTestbed) (InBounds coojaTestbed) net [.missingResponse 2]).any
        (fun net' => (net'.node 2).currentState = .waitForSchedule) = true)
    (by decide) with ⟨net, hrun, hreceived, hmore⟩
  rcases exists_run_of_runEvents _ _ net _
    (fun net' => (net'.node 2).currentState = .waitForSchedule) hmore with ⟨net', hrun', hwait⟩
  exact ⟨net, net', startNet_start _ _, hrun, hreceived.1, hreceived.2, hrun', hwait⟩

end MasterScheduler.Network
