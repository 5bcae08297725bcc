import MasterScheduler.Network.Payload

/-!
# MasterScheduler.Network.Agreement — all nodes end up with the same file

With a flash that reads and writes what it is told to, a node that counts as
complete, at itself, at another node or in a beacon on its way, has the file of
the distributor, and nobody installs before all nodes have it.

- `Faithful`: the accesses to the flash succeed, and packet numbers stay inside
  the bit array.
- `agreement_of_run`: the invariant of whole runs.

A file that the distributor cannot finish under these conditions (shorter than a
packet, or with more packets than a byte can count) completes nobody.
-/

namespace MasterScheduler.Network

open Lib Mote

/-! ## Who installs -/

/-- A handler that does not install. -/
def Stays (s t : NodeState) : Prop :=
  t.currentState = .scheduleInstalled → s.currentState = .scheduleInstalled

section Stays

variable {s t u : NodeState} {node : Node} {env : Env}

/-- Doing nothing does not install. -/
theorem Stays.refl (s : NodeState) : Stays s s := id

/-- Two handlers that do not install, one after the other. -/
theorem Stays.trans (h : Stays s t) (h' : Stays t u) : Stays s u := fun hu => h (h' hu)

/-- The phase is the same. -/
theorem Stays.of_eq (h : t.currentState = s.currentState) : Stays s t := fun ht => h ▸ ht

/-- The phase afterwards is another one. -/
theorem Stays.of_ne (h : t.currentState ≠ .scheduleInstalled) : Stays s t := fun ht => absurd ht h

/-- A repeated transmission does not install. -/
theorem Stays.handleRetransmit : Stays s (Mote.handleRetransmit s) := by
  unfold Mote.handleRetransmit
  split
  · exact .of_eq rfl
  · exact .of_ne (by simp [changeLink, handleStateChange])

/-- An error of the transmission does not install. -/
theorem Stays.handleTxErr : Stays s (Mote.handleTxErr s) := by
  unfold Mote.handleTxErr
  split
  · exact .of_ne (by simp [changeLink, handleStateChange])
  · split
    · exact .handleRetransmit
    · exact .refl s

/-- Sending does not install. -/
theorem Stays.output (env : Env) (etxLink : ℕ) (dest : Option NodeId) :
    Stays s (Mote.output env s etxLink dest) := by
  unfold Mote.output
  dsimp only
  split
  · exact .of_eq rfl
  · split
    · rw [tschQueueAddPacket_frame]
      exact .of_eq rfl
    · exact Stays.handleTxErr (s := { s with handed := s.handed ++ [(dest, s.outgoing)] })

/-- Nor does the request for a missing packet. -/
theorem requestRetransmitOrFinish_stays (dest : NodeId) :
    Stays s (requestRetransmitOrFinish node env s dest) := by
  unfold requestRetransmitOrFinish
  split
  · exact .refl s
  · split
    · exact .of_ne (by simp [changeLink, finishSchedule, handleStateChange])
    · split
      · exact .refl s
      · rename_i missing _ _
        exact Stays.output (s := requestPacket node s missing) env env.etxLink (some dest)

/-- Nor does the answer to such a request. -/
theorem commandInputScheduleRetransmittRequest_stays (src : NodeId) :
    Stays s (commandInputScheduleRetransmittRequest node env s src) := by
  rcases retransmittRequest_cases node env s src with ⟨-, hres⟩ | ⟨-, t, ht, hres⟩
  · rw [hres]
    exact .refl s
  · have hserve : Stays s t := by
      rw [ht.frame]
      exact .of_ne (by simp)
    rcases hres with ⟨-, hres⟩ | ⟨-, hres⟩
    · rw [hres]
      exact hserve
    · rw [hres]
      have hout := hserve.trans (.output env env.etxLink (some src))
      split
      · exact hout.trans (.of_eq rfl)
      · exact hout

/-- Nor does passing a broadcast on. -/
theorem forwardBroadcast_stays (len : ℕ) (h : Stays s t) : Stays s (forwardBroadcast env t len) :=
  h.trans (Stays.output (s := { t with payloadLen := len }) env 10 none)

/-- Nor does the distribution. -/
theorem handleScheduleDistribution_stays (len : ℕ) :
    Stays s (handleScheduleDistributionStateChanges node env s len) := by
  have hnew : Stays s
      (commandInputScheduleNewPacket node.cfg env (handleStateChange s .scheduleDist) len) := by
    rw [newPacket_frame]
    exact .of_ne (by simp [handleStateChange])
  unfold handleScheduleDistributionStateChanges
  split
  · exact .refl s
  · split
    · exact forwardBroadcast_stays len hnew
    · unfold commandInputScheduleLastPacket
      refine forwardBroadcast_stays len ?_
      split
      · exact .of_ne (by simp [finishSchedule, handleStateChange])
      · exact hnew.trans (.of_eq rfl)
    · exact hnew
    · exact .refl s

/-- Nor does a packet that was sent again. -/
theorem commandInputScheduleRetransmitt_stays (len : ℕ) (src : NodeId) (dest : Option NodeId) :
    Stays s (commandInputScheduleRetransmitt node env s len src dest) := by
  obtain ⟨s₁, hs₁, hstays⟩ : ∃ s₁,
      (if isBitSet s.receivedPackets s.mrp.number then s
        else commandInputScheduleNewPacket node.cfg env s len) = s₁ ∧ Stays s s₁ := by
    refine ⟨_, rfl, ?_⟩
    split
    · exact .refl s
    · rw [newPacket_frame]
      exact .of_eq rfl
  unfold commandInputScheduleRetransmitt
  dsimp only
  rw [hs₁]
  split
  · split
    · exact hstays.trans (Stays.trans (t := tschQueueRemovePacket s₁ (some src)) (.of_eq rfl)
        (requestRetransmitOrFinish_stays src))
    · exact hstays.trans (requestRetransmitOrFinish_stays src)
  · split
    · exact .of_ne (by simp [changeLink, finishSchedule, handleStateChange])
    · exact hstays

/-- Nor does any received packet. -/
theorem masterRoutingInput_stays (q : Packet) (src : NodeId) (dest : Option NodeId) :
    Stays s (masterRoutingInput node env s q src dest) := by
  have hcopy : Stays s (s.copyIn q) := .of_eq rfl
  unfold masterRoutingInput
  split
  · exact .refl s
  · unfold transitionToNewState
    split
    · exact hcopy.trans (handleScheduleDistribution_stays _)
    · exact hcopy.trans (handleScheduleDistribution_stays _)
    · split
      · exact hcopy.trans (commandInputScheduleRetransmittRequest_stays src)
      · exact hcopy
    · split
      · exact hcopy.trans (commandInputScheduleRetransmittRequest_stays src)
      · exact hcopy
    · split
      · exact hcopy.trans (commandInputScheduleRetransmitt_stays _ src dest)
      · exact hcopy
    · exact hcopy

/-- Nor does a beacon. -/
theorem tschRxProcessBeacon_stays (nbr : NodeId) (fromTimeSource : Bool) (version packets : ℕ)
    (received : ByteVector) :
    Stays s (tschRxProcessBeacon node env s nbr fromTimeSource version packets received) := by
  -- First the bits of the neighbour, then the comparison of the versions.
  obtain ⟨s₁, hs₁, hstays⟩ : ∃ s₁,
      (if (s.addNbr (some nbr)).receivedCallback = true then
        masterScheduleReceivedCallback node (s.addNbr (some nbr)) received
        else s.addNbr (some nbr)) = s₁ ∧ Stays s s₁ := by
    refine ⟨_, rfl, ?_⟩
    split
    · rw [masterScheduleReceivedCallback_frame, addNbr_frame]
      exact .of_eq rfl
    · rw [addNbr_frame]
      exact .of_eq rfl
  unfold tschRxProcessBeacon
  dsimp only
  rw [hs₁]
  split
  · refine hstays.trans ?_
    unfold masterScheduleDifferenceCallback
    split
    · exact .refl _
    · split
      · split
        · exact .refl _
        · dsimp only
          split
          · exact .of_ne (by simp [finishSchedule, handleStateChange])
          · rename_i missing _
            refine Stays.trans (t := changeLink (requestPacket node (handleStateChange
              { s₁ with schedulePackets := packets } .scheduleOld) missing) (some nbr)) ?_
              (Stays.output env env.etxLink (some nbr))
            exact .of_ne (by simp [changeLink, requestPacket, preparePacket, handleStateChange])
      · exact .refl _
  · exact hstays

/-- Nor does the change of phase after a transmission. -/
theorem transitionToNewStateAfterCallback_stays (p : Packet) (dest : Option NodeId) :
    Stays s (transitionToNewStateAfterCallback node env s p dest) := by
  unfold transitionToNewStateAfterCallback
  split
  · by_cases hd : node.nodeId = node.distributor
    · rcases callbackInputScheduleSend_cases env s hd with ⟨t, ht, -, heq⟩
      rw [heq]
      refine Stays.trans (t := t) ?_ (.output env 10 none)
      rw [ht.frame]
      exact .of_eq rfl
    · unfold callbackInputScheduleSend
      rw [if_pos hd]
      exact .refl s
  · split
    · exact .of_ne (by simp [handleStateChange])
    · exact .refl s
  · split
    · split
      · exact requestRetransmitOrFinish_stays _
      · exact .of_eq rfl
    · exact .refl s
  · split
    · exact .handleRetransmit
    · exact .refl s

/-- Nor does the callback of a transmission. -/
theorem masterRoutingOutputCallback_stays (p : Packet) (dest : Option NodeId)
    (status : TxStatus) : Stays s (masterRoutingOutputCallback node env s p dest status) := by
  unfold masterRoutingOutputCallback
  split
  · exact .refl s
  · unfold handleCallbackCommandsDivergcast
    cases status with
    | err => exact .handleTxErr
    | ok => exact transitionToNewStateAfterCallback_stays p dest
    | noAck =>
      dsimp only
      have hback : Stays s (NodeState.putBack node s p) := .of_eq rfl
      split
      · split
        · exact hback.trans (requestRetransmitOrFinish_stays _)
        · exact .of_ne (by simp [changeLink, handleStateChange])
      · exact hback.trans (Stays.output (s := { NodeState.putBack node s p with
          payloadLen := p.payload.length }) env env.etxLink dest)
      · exact hback.trans (transitionToNewStateAfterCallback_stays p dest)

end Stays

/-- A node installs only when all nodes have a version of the schedule. -/
def InstalledOk (D : Deployment) (net : NetState) : Prop :=
  ∀ n ∈ D.cfg.nodeIds, (net.node n).currentState = .scheduleInstalled →
    ∀ m ∈ D.cfg.nodeIds, (net.node m).scheduleVersion = 1

section Install

variable {D : Deployment} {net net' : NetState} {e : Event} {n : NodeId} {t : NodeState}

/-- The version of every node stays, or grows with that of the node that moves. -/
theorem version_set (h : (net.node n).scheduleVersion ≤ t.scheduleVersion) (m : NodeId) :
    (net.node m).scheduleVersion ≤ ((net.set n t).node m).scheduleVersion := by
  by_cases hm : m = n
  · rw [hm, NetState.set_node_self]
    exact h
  · rw [NetState.set_node_of_ne _ _ hm]

/-- No version goes down. -/
theorem Control.version_le (h : Control D net) (hs : Network.step D net e = some net') (m : NodeId) :
    (net.node m).scheduleVersion ≤ (net'.node m).scheduleVersion := by
  cases step_cases hs with
  | @loaded env hl =>
    refine version_set (t := masterScheduleLoadedCallback _ _ _) ?_ m
    rw [(h.dist.fresh hl).1]
    exact Nat.zero_le _
  | @input n i env f hn hf _ _ =>
    exact version_set (masterRoutingInput_ok (D.node n) env [] (h.nodes n hn) h.hasAll (h.air f hf)
      f.src).2.version m
  | @transmit n status giveUp p s hn ht =>
    exact version_set (txSlot_ok (D.node n) [] (h.nodes n hn) ht).2.1.version m
  | @sent n env dest p status rest hn hp =>
    refine version_set ?_ m
    rcases (h.nodes n hn).pop hp with ⟨hok, hcarries⟩
    by_cases hnext : n = D.distributor ∧ p.command = .schedule
    · -- the distributor has no version while it sends
      rcases hnext with ⟨rfl, hcommand⟩
      have hone : outstanding (net.node D.distributor) ≠ 0 := by
        unfold outstanding
        rw [hp]
        simp [hcommand]
      rw [h.dist.opened hone]
      exact Nat.zero_le _
    · exact (masterRoutingOutputCallback_ok (D.node n) env [] hok hcarries status
        fun hcommand _ hd => hnext ⟨hd, hcommand⟩).2.version
  | @sendBeacon n hn => exact le_rfl
  | @beacon n i fromTimeSource env b hn hb _ _ =>
    exact version_set (tschRxProcessBeacon_ok (D.node n) env b.scheduleReceived (h.nodes n hn)
      (h.beacons b hb).1 b.src fromTimeSource).2.version m
  | @missingResponse n hn _ => exact version_set (t := Mote.missingResponse _) le_rfl m
  | @install n hn _ =>
    exact version_set (installSchedule_ok (D.node n) [] (h.nodes n hn)
      fun hcheck => h.all_complete hn hcheck hn).2.version m

/-- No other node moves. -/
theorem Stays.set (h : Stays (net.node n) t) (m : NodeId) :
    Stays (net.node m) ((net.set n t).node m) := by
  by_cases hm : m = n
  · rw [hm, NetState.set_node_self]
    exact h
  · rw [NetState.set_node_of_ne _ _ hm]
    exact .refl _

/-- Every step but one leaves the phases of installed nodes alone. -/
theorem stays_of_step (hs : Network.step D net e = some net') (hne : ∀ n, e ≠ .install n) (m : NodeId) :
    Stays (net.node m) (net'.node m) := by
  cases step_cases hs with
  | @loaded env hl =>
    rcases masterScheduleLoadedCallback_cases (D.node D.distributor) env (net.node D.distributor)
      with ⟨t, ht, -, heq⟩
    refine Stays.set (t := masterScheduleLoadedCallback _ _ _) ?_ m
    rw [heq]
    refine Stays.trans (t := t) ?_ (.output env 10 none)
    rw [ht.frame]
    exact .of_ne (by simp [handleStateChange])
  | input _ _ _ _ => exact Stays.set (masterRoutingInput_stays _ _ _) m
  | @transmit n status giveUp p s hn ht =>
    refine Stays.set ?_ m
    rcases txSlot_cases ht with ⟨-, rfl | ⟨rest, -, rfl⟩⟩
    · exact .refl _
    · exact .of_eq rfl
  | @sent n env dest p status rest hn hp =>
    exact Stays.set (Stays.trans (t := { net.node n with pending := rest }) (.of_eq rfl)
      (masterRoutingOutputCallback_stays p dest status)) m
  | sendBeacon _ => exact .refl _
  | beacon _ _ _ _ => exact Stays.set (tschRxProcessBeacon_stays _ _ _ _ _) m
  | missingResponse _ _ =>
    exact Stays.set (.of_ne (by simp [Mote.missingResponse, handleStateChange])) m
  | @install n _ _ => exact absurd rfl (hne n)

/-- A node that installs has checked the flags of all others. -/
theorem check_of_installed {node : Node} {s : NodeState}
    (h : (installSchedule node s).currentState = .scheduleInstalled)
    (hne : s.currentState ≠ .scheduleInstalled) :
    (checkReceivedSchedulesByNodes node { s with installTimer := false }).1 = true := by
  by_contra hcheck
  unfold installSchedule at h
  dsimp only at h
  rw [if_neg hcheck, checkReceivedSchedulesByNodes_frame] at h
  exact hne h

/-- No step lets a node install too early. -/
theorem InstalledOk.step (h : InstalledOk D net) (hcontrol : Control D net)
    (hs : Network.step D net e = some net') (hcontrol' : Control D net') : InstalledOk D net' := by
  -- a version stays what it is
  have hkeep : ∀ m ∈ D.cfg.nodeIds, (net.node m).scheduleVersion = 1 →
      (net'.node m).scheduleVersion = 1 := by
    intro m hm hv
    have h1 := hcontrol.version_le hs m
    have h2 := (hcontrol'.nodes m hm).version
    omega
  intro n hn hinstalled m hm
  by_cases hold : (net.node n).currentState = .scheduleInstalled
  · exact hkeep m hm (h n hn hold m hm)
  · by_cases hinstall : ∃ k, e = .install k
    · rcases hinstall with ⟨k, rfl⟩
      cases step_cases hs with
      | install hk _ =>
        by_cases hnk : n = k
        · -- the node has just installed
          subst hnk
          rw [NetState.set_node_self] at hinstalled
          have hcheck := check_of_installed hinstalled hold
          have hbits : ∀ i, isBitSet1Byte
              { net.node n with installTimer := false }.scheduleReceived i = true →
              i + 1 ∈ (D.node n).cfg.nodeIds := fun i hi => (hcontrol.received n hn i hi).1
          have hv := (hcontrol.received n hn _
            (all_of_checkReceived (D.node n) hbits hcheck hm)).2
          rw [show m - 1 + 1 = m from Nat.sub_add_cancel (one_le_of_mem_nodeIds hm)] at hv
          exact hkeep m hm hv
        · rw [NetState.set_node_of_ne _ _ hnk] at hinstalled
          exact absurd hinstalled hold
    · exact absurd (stays_of_step hs (fun k hk => hinstall ⟨k, hk⟩) n hinstalled) hold

end Install

/-! ## A faithful flash -/

/-- The packets of the distributor are below the size of the bit array. -/
def NumbersFit (D : Deployment) (net : NetState) : Event → Prop
  | .loaded _ => 1 < 32 * D.cfg.receivedWords
  | .sent n _ => n = D.distributor →
      ∀ x ∈ (net.node n).pending.head?, x.2.1.command = .schedule →
        nextNumber (net.node n) < 32 * D.cfg.receivedWords
  | _ => True

/-- What is written is stored, and what the distributor asks for is read. -/
def FlashOk (D : Deployment) (net : NetState) : Event → Prop
  | .loaded env => (fillSchedulePacketFromFlash D.cfg (net.node D.distributor)
      (net.node D.distributor).schedulePacketNumber env.read).1 ≠ .failed
  | .input _ _ env => env.write = .completed
  | .sent n env => n = D.distributor →
      ∀ x ∈ (net.node n).pending.head?, x.2.1.command = .schedule →
        (fillSchedulePacketFromFlash D.cfg (net.node n) (nextNumber (net.node n)) env.read).1 ≠
          .failed
  | _ => True

/-- A faithful step. -/
def Faithful (D : Deployment) (net : NetState) (e : Event) : Prop :=
  NumbersFit D net e ∧ FlashOk D net e

instance (D : Deployment) (net : NetState) : ∀ e, Decidable (NumbersFit D net e)
  | .loaded _ => inferInstanceAs (Decidable (_ < _))
  | .sent n _ => inferInstanceAs (Decidable (n = _ →
      ∀ x ∈ (net.node n).pending.head?, x.2.1.command = .schedule → _ < _))
  | .input .. | .transmit .. | .sendBeacon _ | .beacon .. | .missingResponse _ | .install _ =>
      inferInstanceAs (Decidable True)

instance (D : Deployment) (net : NetState) : ∀ e, Decidable (FlashOk D net e)
  | .loaded _ => inferInstanceAs (Decidable (_ ≠ _))
  | .input _ _ _ => inferInstanceAs (Decidable (_ = _))
  | .sent n _ => inferInstanceAs (Decidable (n = _ →
      ∀ x ∈ (net.node n).pending.head?, x.2.1.command = .schedule → _ ≠ _))
  | .transmit .. | .sendBeacon _ | .beacon .. | .missingResponse _ | .install _ =>
      inferInstanceAs (Decidable True)

instance (D : Deployment) (net : NetState) (e : Event) : Decidable (Faithful D net e) :=
  inferInstanceAs (Decidable (_ ∧ _))

section Read

variable {cfg : Config} {s : NodeState} {k : ℕ} {outcome : FlashOutcome}

/-- A read that succeeds starts inside the file and is not as long as the error code. -/
theorem read_of_fill (h : (fillSchedulePacketFromFlash cfg s k outcome).1 ≠ .failed) :
    outcome = .completed ∧ 0 ≤ flashOffset cfg k ∧
      bytesToWrite cfg s.flash.bytesInFlash k ≠ 255 := by
  cases hread : (readFlash s.flash (flashOffset cfg k)
      (bytesToWrite cfg s.flash.bytesInFlash k) outcome).2 with
  | none =>
    unfold fillSchedulePacketFromFlash at h
    dsimp only at h
    rw [hread] at h
    exact absurd rfl h
  | some n =>
    rcases readFlash_eq_some _ hread with ⟨hoff, -, h255⟩
    refine ⟨?_, hoff, h255⟩
    cases outcome with
    | completed => rfl
    | failed m =>
      unfold readFlash at hread
      rw [if_neg (by omega)] at hread
      cases hread

/-- The offset of packet 0 is negative. -/
theorem pos_of_flashOffset (hp : 0 < cfg.schedulePayloadSize) (h : 0 ≤ flashOffset cfg k) :
    1 ≤ k := by
  by_contra hk
  rw [show k = 0 by omega] at h
  unfold flashOffset at h
  omega

end Read

section Agreement

variable {D : Deployment} {file : List UInt8} {net net' : NetState} {e : Event} {n : NodeId}

/-- The distributor stays still when another node moves. -/
theorem Still.set {t : NodeState} (h : n = D.distributor → Still (net.node n) t) :
    Still (net.node D.distributor) ((net.set n t).node D.distributor) := by
  by_cases hd : n = D.distributor
  · subst hd
    rw [NetState.set_node_self]
    exact h rfl
  · rw [NetState.set_node_of_ne _ _ (Ne.symm hd)]
    exact .refl _

/-- All that a step does to the distributor. -/
theorem distributor_cases (h : Control D net) (hs : Network.step D net e = some net') :
    (Still (net.node D.distributor) (net'.node D.distributor) ∧ net'.loaded = net.loaded) ∨
    (∃ env, e = .loaded env ∧ net'.node D.distributor =
      masterScheduleLoadedCallback (D.node D.distributor) env (net.node D.distributor)) ∨
    ∃ env dest p status rest mrp, e = .sent D.distributor env ∧
      (net.node D.distributor).pending = (dest, p, status) :: rest ∧ p.command = .schedule ∧
      net'.loaded = net.loaded ∧ net'.node D.distributor =
        callbackInputScheduleSend (D.node D.distributor) env
          { net.node D.distributor with pending := rest, mrp := mrp } := by
  -- Only the loaded schedule and a callback of the distributor let it send.
  cases step_cases hs with
  | @loaded env hl => exact .inr (.inl ⟨env, rfl, NetState.set_node_self _ _ _⟩)
  | @input n i env f hn hf _ _ =>
    refine .inl ⟨Still.set ?_, rfl⟩
    rintro rfl
    exact masterRoutingInput_still (h.nodes _ hn) (h.air f hf) f.src
  | @transmit n status giveUp p s hn ht =>
    exact .inl ⟨Still.set fun _ => txSlot_still (h.nodes n hn) ht, rfl⟩
  | @sent n env dest p status rest hn hp =>
    by_cases hnext : n = D.distributor ∧ p.command = .schedule ∧ status ≠ .err ∧
        ¬ ((net.node n).currentState = .ignoreCommands ∨
          (net.node n).currentState = .scheduleInstalled)
    · rcases hnext with ⟨rfl, hcommand, hstatus, hphase⟩
      rcases masterRoutingOutputCallback_schedule (D.node D.distributor) env
        (s := { net.node D.distributor with pending := rest }) dest hphase hcommand hstatus
        with ⟨mrp, hcallback⟩
      refine .inr (.inr ⟨env, dest, p, status, rest, mrp, rfl, hp, hcommand, rfl, ?_⟩)
      rw [NetState.set_node_self]
      exact hcallback
    · refine .inl ⟨Still.set ?_, rfl⟩
      rintro rfl
      by_cases hphase : (net.node D.distributor).currentState = .ignoreCommands ∨
          (net.node D.distributor).currentState = .scheduleInstalled
      · rw [masterRoutingOutputCallback_ignored
          (s := { net.node D.distributor with pending := rest }) hphase]
        exact Still.pop hp
      · exact (Still.pop hp).trans (masterRoutingOutputCallback_still
          (s := { net.node D.distributor with pending := rest }) (h.nodes _ hn).not_old
          ((h.nodes _ hn).pop hp).2.packet
          fun hcommand hstatus _ => hnext ⟨rfl, hcommand, hstatus, hphase⟩)
  | sendBeacon _ => exact .inl ⟨.refl _, rfl⟩
  | @beacon n i fromTimeSource env b hn hb _ _ =>
    refine .inl ⟨Still.set ?_, rfl⟩
    rintro rfl
    exact tschRxProcessBeacon_still (h.beacons b hb).1 b.src fromTimeSource b.scheduleReceived
  | missingResponse _ _ =>
    exact .inl ⟨Still.set fun _ => ⟨rfl, rfl, rfl, rfl, rfl, le_rfl, rfl⟩, rfl⟩
  | install _ _ => exact .inl ⟨Still.set fun _ => installSchedule_still, rfl⟩

/-- A distributor that cannot end: the file is too short or too long, or a packet
is as long as the error code of a read. -/
structure Unfinished (D : Deployment) (file : List UInt8) (net : NetState) : Prop where
  flash : (net.node D.distributor).flash = storedFile file
  version : (net.node D.distributor).scheduleVersion = 0
  number : 0 < D.cfg.schedulePayloadSize → 1 ≤ (net.node D.distributor).schedulePacketNumber ∧
    (net.node D.distributor).schedulePacketNumber < 256
  unread : D.cfg.schedulePayloadSize = 255 → 255 ≤ file.length → net.loaded = false

/-- Its next packet is not the last one. -/
theorem Unfinished.not_last (h : Unfinished D file net) (hcontrol : Control D net)
    (hpos : 0 < file.length) (hfits : ¬ Fits D file)
    {dest : Option NodeId} {p : Packet} {status : TxStatus}
    {rest : List (Option NodeId × Packet × TxStatus)}
    (hp : (net.node D.distributor).pending = (dest, p, status) :: rest)
    (hcommand : p.command = .schedule) {env : Env}
    (hbound : nextNumber (net.node D.distributor) < 32 * D.cfg.receivedWords)
    (hread : (fillSchedulePacketFromFlash D.cfg (net.node D.distributor)
      (nextNumber (net.node D.distributor)) env.read).1 ≠ .failed) :
    (fillSchedulePacketFromFlash D.cfg (net.node D.distributor)
      (nextNumber (net.node D.distributor)) env.read).1 ≠ .last := by
  intro hl
  rw [(read_of_fill hread).1] at hl
  have hlast : IsLast D.cfg file (nextNumber (net.node D.distributor)) :=
    (fill_eq_last_iff D.cfg h.flash hpos).1 hl
  -- packet numbers do not come back to one
  have htwo : 2 ≤ nextNumber (net.node D.distributor) := by
    rcases Nat.eq_zero_or_pos D.cfg.schedulePayloadSize with hp0 | hp0
    · have := hlast.2.2.1
      rw [hp0] at this
      omega
    · have h1 := hlast.1
      have hnum := h.number hp0
      unfold nextNumber at h1 ⊢
      omega
  by_cases hends : Ends D.cfg.schedulePayloadSize file.length
  · by_cases h255 : D.cfg.schedulePayloadSize = 255
    · -- nothing was ever sent
      have hl' := h.unread h255 (h255 ▸ hends.2.1)
      have hnone := (hcontrol.dist.fresh hl').2.1
      unfold outstanding at hnone
      rw [hp] at hnone
      simp [hcommand] at hnone
    · refine hfits ⟨hends, h255, lt_of_le_of_lt ?_ hbound⟩
      by_contra hlt
      exact hends.isLast.2.2 _ htwo (not_le.1 hlt) hlast
  · exact not_isLast_of_not_ends hends hpos htwo
      (Nat.le_of_lt_succ (Nat.mod_lt _ (by decide))) hlast

/-- A distributor that cannot end does not end in any step. -/
theorem Unfinished.step (h : Unfinished D file net) (hcontrol : Control D net)
    (hpos : 0 < file.length) (hfits : ¬ Fits D file) (hok : Faithful D net e)
    (hs : Network.step D net e = some net') : Unfinished D file net' := by
  -- The distributor is still, sends its first packet, or sends the next one.
  rcases distributor_cases hcontrol hs with ⟨hstill, hl⟩ | ⟨env, rfl, heq⟩ |
    ⟨env, dest, p, status, rest, mrp, rfl, hp, hcommand, hl, heq⟩
  · refine ⟨hstill.flash.trans h.flash, hstill.version.trans h.version, ?_, ?_⟩
    · rw [hstill.number]
      exact h.number
    · rw [hl]
      exact h.unread
  · rcases masterScheduleLoadedCallback_cases (D.node D.distributor) env
      (net.node D.distributor) with ⟨t, ht, hc, heq'⟩
    have hversion : t.scheduleVersion = (net.node D.distributor).scheduleVersion := by
      rcases ht.command with ⟨-, hv, -⟩ | ⟨hc', -⟩
      · exact hv
      · rw [hc] at hc'
        cases hc'
    rw [heq'] at heq
    refine ⟨?_, ?_, ?_, ?_⟩
    · rw [heq, output_flash, ht.frame]
      exact h.flash
    · rw [heq, output_scheduleVersion, hversion]
      exact h.version
    · rw [heq, output_schedulePacketNumber, ht.frame]
      exact h.number
    · -- the first read would have failed
      intro h255 hlen
      have hread := (read_of_fill hok.2).2.2
      have hnumber : (net.node D.distributor).schedulePacketNumber = 1 := by
        cases step_cases hs with
        | loaded hl => exact (hcontrol.dist.fresh hl).2.2
      rw [hnumber, h.flash] at hread
      simp only [bytesToWrite, flashOffset, storedFile, h255] at hread
      split_ifs at hread with hshort
      · push_cast at hshort
        omega
      · exact absurd rfl hread
  · rcases callbackInputScheduleSend_cases env
      { net.node D.distributor with pending := rest, mrp := mrp }
      (show (D.node D.distributor).nodeId = (D.node D.distributor).distributor from rfl)
      with ⟨t, ht, hend, heq'⟩
    have hhead : (dest, p, status) ∈ (net.node D.distributor).pending.head? := by
      rw [hp]
      rfl
    have hbound := hok.1 rfl _ hhead hcommand
    have hread := hok.2 rfl _ hhead hcommand
    have hnot := h.not_last hcontrol hpos hfits hp hcommand hbound hread
    have hversion : t.scheduleVersion = (net.node D.distributor).scheduleVersion := by
      rcases ht.command with ⟨-, hv, -⟩ | ⟨hc, -⟩
      · exact hv
      · refine absurd ((fill_fst_congr D.cfg _ _ ?_).trans (hend.1 hc)) hnot
        rfl
    rw [heq'] at heq
    refine ⟨?_, ?_, ?_, ?_⟩
    · rw [heq, output_flash, ht.frame]
      exact h.flash
    · rw [heq, output_scheduleVersion, hversion]
      exact h.version
    · intro hp0
      rw [heq, output_schedulePacketNumber, ht.frame]
      exact ⟨pos_of_flashOffset hp0 (read_of_fill hread).2.1, Nat.mod_lt _ (by decide)⟩
    · rw [hl]
      exact h.unread

/-- Faithful steps stay in bounds, if the distributor has the file. -/
theorem inBounds_of_faithful (hflash : (net.node D.distributor).flash = storedFile file)
    (hpos : 0 < file.length) (hok : Faithful D net e) : InBounds D net e := by
  cases e with
  | loaded env => exact hok.1
  | sent n env =>
    rintro rfl x hx hcommand
    refine ⟨hok.1 rfl x hx hcommand, ?_⟩
    intro h0 hl
    have hread := hok.2 rfl x hx hcommand
    rw [(read_of_fill hread).1] at hl
    have := ((fill_eq_last_iff D.cfg hflash hpos).1 hl).1
    omega
  | input => trivial
  | transmit => trivial
  | sendBeacon => trivial
  | beacon => trivial
  | missingResponse => trivial
  | install => trivial

/-- A faithful read gives the bytes of the file. -/
theorem readsOk_of_faithful (hok : Faithful D net e) : ReadsOk D file net e := by
  cases e with
  | loaded env => exact (read_of_fill hok.2).1
  | input n i env => exact hok.2
  | sent n env => exact fun hd x hx hcommand => .inl (read_of_fill (hok.2 hd x hx hcommand)).1
  | transmit => trivial
  | sendBeacon => trivial
  | beacon => trivial
  | missingResponse => trivial
  | install => trivial

/-- The invariant of faithful runs. -/
structure Agrees (D : Deployment) (file : List UInt8) (net : NetState) : Prop where
  control : Control D net
  installed : InstalledOk D net
  content : Fits D file → Content D file net
  unfinished : ¬ Fits D file → Unfinished D file net

/-- The file is in the distributor's flash. -/
theorem Agrees.flash (h : Agrees D file net) :
    (net.node D.distributor).flash = storedFile file := by
  by_cases hfits : Fits D file
  · exact (h.content hfits).dist
  · exact (h.unfinished hfits).flash

/-- A faithful step keeps the invariant. -/
theorem Agrees.step (h : Agrees D file net) (hpos : 0 < file.length) (hok : Faithful D net e)
    (hs : Network.step D net e = some net') : Agrees D file net' := by
  have hcontrol := h.control.step (inBounds_of_faithful h.flash hpos hok) hs
  refine ⟨hcontrol, h.installed.step h.control hs hcontrol, ?_, ?_⟩
  · exact fun hfits => (h.content hfits).step h.control hfits (readsOk_of_faithful hok) hs
  · exact fun hfits => (h.unfinished hfits).step h.control hpos hfits hok hs

/-- The invariant holds at the start. -/
theorem agrees_of_start (h : Start D file net) : Agrees D file net := by
  have hd := h.fresh _ D.distributor_mem
  refine ⟨control_of_start h, ?_, fun _ => content_of_start h, fun _ => ?_⟩
  · intro n hn hinstalled
    have := (h.fresh n hn).phase
    rw [hinstalled] at this
    exact absurd this (by decide)
  · exact ⟨h.distributor, hd.version, fun _ => by rw [hd.number]; decide, fun _ _ => h.loaded⟩

/-- The invariant holds after every faithful run. -/
theorem agrees_of_run (hpos : 0 < file.length) (h : Start D file net)
    (hrun : Run (Network.step D) (Faithful D) net net') : Agrees D file net' :=
  hrun.invariant (fun _ _ _ hI hok hs => hI.step hpos hok hs) (agrees_of_start h)

/-! ## Agreement -/

/-- A node of the testbed that has all packets of the file, and the file in its flash. -/
structure HasFile (D : Deployment) (file : List UInt8) (net : NetState) (n : NodeId) : Prop where
  deployed : n ∈ D.cfg.nodeIds
  packets : ∀ k, 1 ≤ k → k ≤ lastPacket D file → isBitSet (net.node n).receivedPackets k = true
  flash : (net.node n).flash.Stores file

/-- A complete node has the file. -/
theorem Agrees.hasFile (h : Agrees D file net) (hn : n ∈ D.cfg.nodeIds)
    (hc : IsComplete (net.node D.distributor) (net.node n)) : HasFile D file net n := by
  have hfits : Fits D file := by
    by_contra hfits
    have := (h.unfinished hfits).version
    have := hc.ended
    omega
  refine ⟨hn, ?_, (h.content hfits).stores hfits hn hc⟩
  intro k h1 hk
  exact hc.bit h1 ((h.content hfits).ended hc.ended ▸ hk)

/-- A node that is marked as complete has the file. -/
theorem Agrees.hasFile_of_received (h : Agrees D file net) {v : ByteVector}
    (hv : Received D net v) {i : ℕ} (hi : isBitSet1Byte v i = true) :
    HasFile D file net (i + 1) := by
  rcases hv i hi with ⟨hmem, hversion⟩
  exact h.hasFile hmem ((h.control.nodes _ hmem).finished hversion)

/-- Whoever is taken for complete has the file. -/
theorem agreement_of_run {net₀ : NetState} (hpos : 0 < file.length) (h₀ : Start D file net₀)
    (hrun : Run (Network.step D) (Faithful D) net₀ net) :
    (∀ n ∈ D.cfg.nodeIds, ∀ i, isBitSet1Byte (net.node n).scheduleReceived i = true →
        HasFile D file net (i + 1)) ∧
      (∀ b ∈ net.beacons, ∀ i, isBitSet1Byte b.scheduleReceived i = true →
        HasFile D file net (i + 1)) ∧
      (∀ n ∈ D.cfg.nodeIds, 0 < (net.node n).scheduleVersion ∨
          (net.node n).currentState = .scheduleRetransmitting ∨
          (net.node n).currentState = .scheduleReceived →
        ∀ k, 1 ≤ k → k ≤ lastPacket D file → isBitSet (net.node n).receivedPackets k = true) ∧
      ∀ n ∈ D.cfg.nodeIds, (net.node n).currentState = .scheduleInstalled →
        D.cfg.nodeIds.length = D.cfg.deploymentNodeCount ∧
          ∀ m ∈ D.cfg.nodeIds, HasFile D file net m := by
  have h := agrees_of_run hpos h₀ hrun
  refine ⟨?_, ?_, ?_, ?_⟩
  · intro n hn i hi
    exact h.hasFile_of_received (h.control.received n hn) hi
  · intro b hb i hi
    exact h.hasFile_of_received (h.control.beacons b hb).2 hi
  · intro n hn hcase
    have hok := h.control.nodes n hn
    refine (h.hasFile hn ?_).packets
    rcases hcase with hv | hphase | hphase
    · have := hok.version
      exact hok.finished (by omega)
    · exact hok.phase (by rw [hphase]; decide)
    · exact hok.phase (by rw [hphase]; decide)
  · intro n hn hinstalled
    refine ⟨length_nodeIds D.cfg, ?_⟩
    intro m hm
    exact h.hasFile hm ((h.control.nodes m hm).finished (h.installed n hn hinstalled m hm))

end Agreement

/-- Both nodes of a pair that has finished are complete. -/
theorem agreement_of_run_cooja : ∃ net,
    Run (step coojaTestbed) (Faithful coojaTestbed) (startNet coojaTestbed oneHopFile) net ∧
      isBitSet1Byte (net.node 2).scheduleReceived 1 = true ∧
      HasFile coojaTestbed oneHopFile net 2 := by
  rcases exists_run_of_runEvents (step coojaTestbed) (Faithful coojaTestbed)
    (startNet coojaTestbed oneHopFile)
    [.loaded faultlessEnv, .transmit 1 .ok false, .input 2 0 faultlessEnv, .sent 1 faultlessEnv,
      .transmit 1 .ok false, .input 2 1 faultlessEnv]
    (fun net => isBitSet1Byte (net.node 2).scheduleReceived 1 = true)
    (by decide) with ⟨net, hrun, hbit⟩
  exact ⟨net, hrun, hbit, (agreement_of_run (by decide) (startNet_start coojaTestbed oneHopFile)
    hrun).1 2 (by decide) 1 hbit⟩

end MasterScheduler.Network
