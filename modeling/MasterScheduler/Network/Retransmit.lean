import MasterScheduler.Network.Regress

/-!
# MasterScheduler.Network.Retransmit — the link of a node that serves others

The link in the beacon slot points to broadcast while a node is idle, and to a
neighbor with a packet on its way while the node retransmits. This needs a few
handlers to stay away: several of them change the phase without the link, or
the link without a packet.

- `LinkOk`: the invariant of a node.
- `RetransmitsOk`: the steps that keep it.
- `link_of_run`: whole runs, and what a request does then.
-/

namespace MasterScheduler.Network

open Lib Mote

/-- A packet to a neighbor is queued or in transmission. -/
def Busy (s : NodeState) (m : NodeId) : Prop :=
  s.queue (some m) ≠ [] ∨ ∃ x ∈ s.pending, x.1 = some m

instance (s : NodeState) (m : NodeId) : Decidable (Busy s m) := inferInstanceAs (Decidable (_ ∨ _))

/-- The phases in which the link may point to a neighbor. -/
def linkedPhases : List Phase :=
  [.scheduleOld, .scheduleRetransmitting, .scheduleInstalled, .ignoreCommands]

/-- The link of a node that retransmits. -/
def Serving (s : NodeState) : Prop := ∃ m, s.link = some m ∧ Busy s m

/-- The link points to a neighbor with a queued packet. -/
def Turned (s : NodeState) : Prop := ∃ m, s.link = some m ∧ s.queue (some m) ≠ []

/-- A link with a queued packet serves it. -/
theorem Turned.serving {s : NodeState} (h : Turned s) : Serving s := by
  rcases h with ⟨m, hm, hq⟩
  exact ⟨m, hm, .inl hq⟩

/-- The invariant of the link. -/
structure LinkOk (s : NodeState) : Prop where
  idle : s.currentState ∉ linkedPhases → s.link = none
  serving : s.currentState = .scheduleRetransmitting → Serving s
  listening : s.currentState ≠ .ignoreCommands
  installed : s.currentState = .scheduleInstalled → s.scheduleVersion = 1

section Rules

variable {d s t : NodeState} {node : Node} {env : Env}

/-- The link stays while its neighbor is busy. -/
theorem Serving.mono (h : Serving s) (hlink : t.link = s.link)
    (hbusy : ∀ m, Busy s m → Busy t m) : Serving t := by
  rcases h with ⟨m, hm, hb⟩
  exact ⟨m, hlink.trans hm, hbusy m hb⟩

/-- The same phase and link, with no packet less. -/
theorem LinkOk.mono (h : LinkOk s) (hphase : t.currentState = s.currentState)
    (hlink : t.link = s.link)
    (hversion : s.currentState = .scheduleInstalled → t.scheduleVersion = s.scheduleVersion)
    (hbusy : ∀ m, Busy s m → Busy t m) : LinkOk t := by
  refine ⟨?_, ?_, ?_, ?_⟩
  · rw [hphase, hlink]
    exact h.idle
  · rw [hphase]
    exact fun hr => (h.serving hr).mono hlink hbusy
  · rw [hphase]
    exact h.listening
  · rw [hphase]
    exact fun hi => (hversion hi).trans (h.installed hi)

/-- Back to broadcast. -/
theorem LinkOk.broadcast (hlink : t.link = none)
    (hphase : t.currentState ∉ linkedPhases.tail) : LinkOk t := by
  refine ⟨fun _ => hlink, ?_, ?_, ?_⟩
  · intro hr
    rw [hr] at hphase
    exact absurd (by decide) hphase
  · intro hi
    rw [hi] at hphase
    exact absurd (by decide) hphase
  · intro hi
    rw [hi] at hphase
    exact absurd (by decide) hphase

/-- The search for packets uses the link as it likes. -/
theorem LinkOk.search (hphase : t.currentState = .scheduleOld) : LinkOk t := by
  refine ⟨?_, ?_, ?_, ?_⟩
  · rw [hphase]
    exact fun h => absurd (by decide) h
  all_goals
    rw [hphase]
    intro h
    cases h

/-- A node that retransmits has a link. -/
theorem LinkOk.retransmit (hphase : t.currentState = .scheduleRetransmitting) (h : Serving t) :
    LinkOk t := by
  refine ⟨?_, fun _ => h, ?_, ?_⟩
  · rw [hphase]
    exact fun hn => absurd (by decide) hn
  all_goals
    rw [hphase]
    intro hi
    cases hi

/-- The next neighbor with a packet, or back to broadcast. -/
theorem handleRetransmit_link (hphase : s.currentState = .scheduleRetransmitting) :
    LinkOk (handleRetransmit s) := by
  unfold handleRetransmit
  split
  · rename_i m hm
    refine .retransmit hphase ⟨m, rfl, .inl ?_⟩
    have := List.find?_some hm
    intro hnil
    rw [show s.queue (some m) = [] from hnil] at this
    cases this
  · exact .broadcast rfl (by simp [changeLink, handleStateChange, linkedPhases])

/-- An error keeps the link. -/
theorem LinkOk.handleTxErr (h : s.currentState ≠ .scheduleRetransmitting → LinkOk s) :
    LinkOk (Mote.handleTxErr s) := by
  unfold Mote.handleTxErr
  split
  · exact .broadcast rfl (by simp [changeLink, handleStateChange, linkedPhases])
  · split
    · rename_i hphase
      exact handleRetransmit_link hphase
    · rename_i hphase
      exact h hphase

/-- A queue only grows. -/
theorem busy_tschQueueAddPacket {dest : Option NodeId} {q : Packet} {m : NodeId} (h : Busy s m) :
    Busy (tschQueueAddPacket s dest q) m := by
  rw [tschQueueAddPacket_frame]
  rcases h with h | h
  · left
    dsimp only
    rw [Function.update_apply]
    split_ifs with hdest
    · simp
    · exact h
  · exact .inr h

/-- Sending keeps the link. -/
theorem LinkOk.output (h : LinkOk s) (env : Env) (etxLink : ℕ) (dest : Option NodeId) :
    LinkOk (Mote.output env s etxLink dest) := by
  have hs : LinkOk { s with handed := s.handed ++ [(dest, s.outgoing)] } :=
    h.mono rfl rfl (fun _ => rfl) (fun _ hb => hb)
  unfold Mote.output
  dsimp only
  split
  · exact hs
  · split
    · refine hs.mono ?_ ?_ (fun _ => ?_) (fun m hb => busy_tschQueueAddPacket hb)
      all_goals rw [tschQueueAddPacket_frame]
    · exact .handleTxErr fun _ => hs

/-- A search keeps the link. -/
theorem requestRetransmitOrFinish_link (h : LinkOk s) (dest : NodeId) :
    LinkOk (requestRetransmitOrFinish node env s dest) := by
  unfold requestRetransmitOrFinish
  split
  · exact h
  · rename_i hphase
    have hold := not_not.1 hphase
    split
    · exact .broadcast rfl
        (by simp [changeLink, finishSchedule, handleStateChange, linkedPhases])
    · split
      · exact h
      · rename_i missing _ _
        have hreq : LinkOk (requestPacket node s missing) := .search hold
        exact (hreq.output env env.etxLink (some dest)).mono rfl rfl (fun _ => rfl) (fun _ hb => hb)

/-! ## Packets -/

/-- A packet of the schedule for a node whose link points to broadcast. -/
theorem handleScheduleDistribution_link (h : LinkOk s) (hlink : s.link = none) (len : ℕ) :
    LinkOk (handleScheduleDistributionStateChanges node env s len) := by
  have hnew : LinkOk
      (commandInputScheduleNewPacket node.cfg env (handleStateChange s .scheduleDist) len) := by
    rw [newPacket_frame]
    exact .broadcast hlink (by simp [handleStateChange, linkedPhases])
  unfold handleScheduleDistributionStateChanges
  split
  · exact h
  · split
    · exact LinkOk.output (s := { commandInputScheduleNewPacket node.cfg env
        (handleStateChange s .scheduleDist) len with payloadLen := len })
        (hnew.mono rfl rfl (fun _ => rfl) (fun _ hb => hb)) env 10 none
    · unfold commandInputScheduleLastPacket forwardBroadcast
      refine LinkOk.output ?_ env 10 none
      rw [newPacket_frame]
      dsimp only
      split
      · exact .broadcast hlink (by simp [finishSchedule, handleStateChange, linkedPhases])
      · exact .broadcast hlink (by simp [handleStateChange, linkedPhases])
    · exact hnew
    · exact h

/-- A packet that was sent again keeps the link. -/
theorem commandInputScheduleRetransmitt_link (hphase : s.currentState = .scheduleOld) (len : ℕ)
    (src : NodeId) (dest : Option NodeId) :
    LinkOk (commandInputScheduleRetransmitt node env s len src dest) := by
  obtain ⟨s₁, hs₁, hstate⟩ : ∃ s₁,
      (if isBitSet s.receivedPackets s.mrp.number then s
        else commandInputScheduleNewPacket node.cfg env s len) = s₁ ∧
      s₁.currentState = .scheduleOld := by
    refine ⟨_, rfl, ?_⟩
    split
    · exact hphase
    · rw [newPacket_frame]
      exact hphase
  unfold commandInputScheduleRetransmitt
  dsimp only
  rw [hs₁]
  split
  · split
    · exact requestRetransmitOrFinish_link
        (LinkOk.search (t := tschQueueRemovePacket s₁ (some src)) hstate) src
    · exact requestRetransmitOrFinish_link (LinkOk.search hstate) src
  · split
    · exact .broadcast rfl
        (by simp [changeLink, finishSchedule, handleStateChange, linkedPhases])
    · exact .search hstate

/-- What has to hold for a request to be served: an idle node must not have the
same packet queued for the neighbor already, must be able to read the packet and
to send it at least once, and a packet that is refused must not be the only one. -/
structure RequestOk (node : Node) (env : Env) (s : NodeState) (q : Packet) (src : NodeId) :
    Prop where
  fresh : s.currentState = .scheduleReceived →
    tschQueueIsPacketInNbrQueue s src q.number = false
  readable : s.currentState = .scheduleReceived → Readable node env (s.copyIn q)
  sendable : s.currentState = .scheduleReceived → maxTx env.etxLink = 0 →
    s.queue (some src) ≠ []
  refused : Refuses env → ∃ m ∈ s.nbrs, s.queue (some m) ≠ []

/-- What a request needs. -/
theorem requestOk_iff {q : Packet} {src : NodeId} :
    ((s.currentState = .scheduleReceived →
        tschQueueIsPacketInNbrQueue s src q.number = false ∧ Readable node env (s.copyIn q) ∧
          (maxTx env.etxLink = 0 → s.queue (some src) ≠ [])) ∧
      (Refuses env → ∃ m ∈ s.nbrs, s.queue (some m) ≠ [])) ↔ RequestOk node env s q src := by
  constructor
  · rintro ⟨h, hrefused⟩
    exact ⟨fun hr => (h hr).1, fun hr => (h hr).2.1, fun hr => (h hr).2.2, hrefused⟩
  · rintro ⟨h1, h2, h3, hrefused⟩
    exact ⟨fun hr => ⟨h1 hr, h2 hr, h3 hr⟩, hrefused⟩

instance (node : Node) (env : Env) (s : NodeState) (q : Packet) (src : NodeId) :
    Decidable (RequestOk node env s q src) := decidable_of_iff _ requestOk_iff

/-- The answer to a request is handed over, and the link is turned if it has to be. -/
theorem output_serving (env : Env) (src : NodeId) (hphase : t.currentState = .scheduleRetransmitting)
    (hserving : t.link ≠ none → Serving t)
    (hsend : t.link = none → maxTx env.etxLink = 0 → t.queue (some src) ≠ [])
    (hrefused : Refuses env → ∃ m ∈ t.nbrs, t.queue (some m) ≠ []) :
    let u := output env t env.etxLink (some src)
    let r := if u.link = none then changeLink u (some src) else u
    r.currentState = .scheduleRetransmitting ∧ Serving r ∧ (t.link = none → Turned r) := by
  dsimp only
  by_cases hmax : maxTx env.etxLink = 0
  · have hout : output env t env.etxLink (some src) =
        { t with handed := t.handed ++ [(some src, t.outgoing)] } := by
      unfold output
      exact if_pos hmax
    rw [hout]
    split
    · rename_i hlink
      have hturned : Turned (changeLink
          { t with handed := t.handed ++ [(some src, t.outgoing)] } (some src)) :=
        ⟨src, rfl, hsend hlink hmax⟩
      exact ⟨hphase, hturned.serving, fun _ => hturned⟩
    · rename_i hlink
      exact ⟨hphase, hserving hlink, fun hnone => absurd hnone hlink⟩
  · cases hmac : env.mac with
    | queued =>
      have hout : output env t env.etxLink (some src) =
          tschQueueAddPacket { t with handed := t.handed ++ [(some src, t.outgoing)] } (some src)
            t.outgoing := by
        unfold output
        dsimp only
        rw [if_neg hmax, hmac]
      have hqueue : (output env t env.etxLink (some src)).queue (some src) ≠ [] := by
        rw [hout, tschQueueAddPacket_frame]
        simp
      have hstate : (output env t env.etxLink (some src)).currentState =
          .scheduleRetransmitting := by
        rw [hout, tschQueueAddPacket_frame]
        exact hphase
      have hlink' : (output env t env.etxLink (some src)).link = t.link := by
        rw [hout, tschQueueAddPacket_frame]
      split
      · have hturned : Turned (changeLink (output env t env.etxLink (some src)) (some src)) :=
          ⟨src, rfl, hqueue⟩
        exact ⟨hstate, hturned.serving, fun _ => hturned⟩
      · rename_i hlink
        rw [hlink'] at hlink
        refine ⟨hstate, (hserving hlink).mono hlink' ?_, fun hnone => absurd hnone hlink⟩
        rw [hout]
        exact fun m hb => busy_tschQueueAddPacket hb
    | refused =>
      have hout : output env t env.etxLink (some src) =
          handleRetransmit { t with handed := t.handed ++ [(some src, t.outgoing)] } := by
        unfold output
        dsimp only
        rw [if_neg hmax, hmac]
        dsimp only
        unfold handleTxErr
        rw [if_neg (by rw [show ({ t with
          handed := t.handed ++ [(some src, t.outgoing)] } : NodeState).currentState =
            .scheduleRetransmitting from hphase]; decide), if_pos hphase]
      -- another neighbor waits for a packet, so the link goes there
      have hfound : ∃ m, t.nbrs.find? (fun n => !(t.queue (some n)).isEmpty) = some m := by
        rcases hrefused ⟨hmax, hmac⟩ with ⟨m, hm, hq⟩
        refine Option.isSome_iff_exists.1 (List.find?_isSome.2 ⟨m, hm, ?_⟩)
        simpa using hq
      rcases hfound with ⟨m, hm⟩
      have hturn : output env t env.etxLink (some src) =
          changeLink { t with handed := t.handed ++ [(some src, t.outgoing)] } (some m) := by
        rw [hout]
        unfold handleRetransmit
        dsimp only
        rw [hm]
      have hqueue : t.queue (some m) ≠ [] := by
        have := List.find?_some hm
        intro hnil
        rw [hnil] at this
        cases this
      rw [hturn, if_neg (by simp [changeLink])]
      have hturned : Turned (changeLink
          { t with handed := t.handed ++ [(some src, t.outgoing)] } (some m)) := ⟨m, rfl, hqueue⟩
      exact ⟨hphase, hturned.serving, fun _ => hturned⟩

/-- After a request the link points to a neighbor with a packet. -/
theorem commandInputScheduleRetransmittRequest_link {q : Packet} {src : NodeId} (h : LinkOk s)
    (hphase : s.currentState = .scheduleReceived ∨ s.currentState = .scheduleRetransmitting)
    (hok : RequestOk node env s q src) :
    (commandInputScheduleRetransmittRequest node env (s.copyIn q) src).currentState =
        .scheduleRetransmitting ∧
      Serving (commandInputScheduleRetransmittRequest node env (s.copyIn q) src) ∧
      (s.currentState = .scheduleReceived →
        Turned (commandInputScheduleRetransmittRequest node env (s.copyIn q) src)) := by
  rcases retransmittRequest_cases node env (s.copyIn q) src with ⟨hdrop, hres⟩ | ⟨-, t, ht, hres⟩
  · -- dropped: the node retransmits already
    rw [hres]
    rcases hphase with hphase | hphase
    · rw [show tschQueueIsPacketInNbrQueue (s.copyIn q) src (s.copyIn q).mrp.number = false from
        hok.fresh hphase] at hdrop
      cases hdrop
    · refine ⟨hphase, h.serving hphase, ?_⟩
      intro hreceived
      cases hphase.symm.trans hreceived
  · have hstate : t.currentState = .scheduleRetransmitting := by rw [ht.frame]
    have hlink : t.link = s.link := by
      rw [ht.frame]
      rfl
    have hbusy : ∀ m, Busy s m → Busy t m := by
      rw [ht.frame]
      exact fun _ hb => hb
    -- a node that retransmits already goes on with its neighbor
    have hserving : s.currentState = .scheduleRetransmitting → Serving t :=
      fun hr => (h.serving hr).mono hlink hbusy
    rcases hres with ⟨hread, hres⟩ | ⟨-, hres⟩
    · rw [hres]
      rcases hphase with hphase | hphase
      · exact absurd (hok.readable hphase) hread
      · refine ⟨hstate, hserving hphase, ?_⟩
        intro hreceived
        cases hphase.symm.trans hreceived
    · rw [hres]
      have hout := output_serving env src hstate ?_ ?_ ?_
      · refine ⟨hout.1, hout.2.1, ?_⟩
        intro hreceived
        exact hout.2.2 (hlink.trans (h.idle (by rw [hreceived]; decide)))
      · intro hne
        rcases hphase with hphase | hphase
        · exact absurd (hlink.trans (h.idle (by rw [hphase]; decide))) hne
        · exact hserving hphase
      · intro hnone hmax
        rcases hphase with hphase | hphase
        · rw [ht.frame]
          exact hok.sendable hphase hmax
        · rcases h.serving hphase with ⟨m, hm, -⟩
          rw [hlink, hm] at hnone
          cases hnone
      · rw [ht.frame]
        exact hok.refused

/-- A request for a packet reaches a node that can serve it. -/
def Requests (node : Node) (s : NodeState) (q : Packet) : Prop :=
  q.payload.length + 2 ≤ node.cfg.msgLength ∧ q.command = .scheduleRetransmitReq ∧
    (s.currentState = .scheduleReceived ∨ s.currentState = .scheduleRetransmitting)

instance (node : Node) (s : NodeState) (q : Packet) : Decidable (Requests node s q) :=
  inferInstanceAs (Decidable (_ ∧ _ ∧ (_ ∨ _)))

/-- A request that can be served is served. -/
theorem masterRoutingInput_request {q : Packet} {src : NodeId} (h : LinkOk s)
    (hreq : Requests node s q) (hok : RequestOk node env s q src) (dest : Option NodeId) :
    (masterRoutingInput node env s q src dest).currentState = .scheduleRetransmitting ∧
      Serving (masterRoutingInput node env s q src dest) ∧
      (s.currentState = .scheduleReceived →
        Turned (masterRoutingInput node env s q src dest)) := by
  rcases hreq with ⟨hlen, hcommand, hphase⟩
  have heq : masterRoutingInput node env s q src dest =
      commandInputScheduleRetransmittRequest node env (s.copyIn q) src := by
    unfold masterRoutingInput
    rw [if_neg (by omega)]
    unfold transitionToNewState
    rcases hphase with hphase | hphase
    · rw [show (s.copyIn q).currentState = .scheduleReceived from hphase]
      exact if_pos hcommand
    · rw [show (s.copyIn q).currentState = .scheduleRetransmitting from hphase]
      exact if_pos hcommand
  rw [heq]
  exact commandInputScheduleRetransmittRequest_link h hphase hok

/-- Every received packet keeps the link. -/
theorem masterRoutingInput_link (h : LinkOk s) {q : Packet} {src : NodeId} {dest : Option NodeId}
    (hok : Requests node s q → RequestOk node env s q src) :
    LinkOk (masterRoutingInput node env s q src dest) := by
  by_cases hreq : Requests node s q
  · have hin := masterRoutingInput_request h hreq (hok hreq) dest
    exact .retransmit hin.1 hin.2.1
  · have hcopy : LinkOk (s.copyIn q) := h.mono rfl rfl (fun _ => rfl) (fun _ hb => hb)
    unfold masterRoutingInput
    split
    · exact h
    · rename_i hlen
      unfold transitionToNewState
      split
      · rename_i hphase
        exact handleScheduleDistribution_link hcopy (hcopy.idle (by rw [hphase]; decide)) _
      · rename_i hphase
        exact handleScheduleDistribution_link hcopy (hcopy.idle (by rw [hphase]; decide)) _
      · rename_i hphase
        split
        · rename_i hcommand
          exact absurd ⟨by omega, hcommand, .inl hphase⟩ hreq
        · exact hcopy
      · rename_i hphase
        split
        · rename_i hcommand
          exact absurd ⟨by omega, hcommand, .inr hphase⟩ hreq
        · exact hcopy
      · rename_i hphase
        split
        · exact commandInputScheduleRetransmitt_link hphase _ src dest
        · exact hcopy
      · exact hcopy

/-! ## Beacons -/

/-- A beacon that completes the schedule turns the phase, not the link. -/
theorem masterScheduleDifferenceCallback_link (h : LinkOk s) {version packets : ℕ}
    (hversion : version ≤ 1) (nbr : NodeId)
    (hok : s.currentState = .scheduleRetransmitting → s.scheduleVersion < version →
      2000 < env.etxLink) :
    LinkOk (masterScheduleDifferenceCallback node env s nbr version packets) := by
  unfold masterScheduleDifferenceCallback
  split
  · exact h
  · rename_i hold
    -- A search starts in a phase in which the link is free.
    split
    · rename_i hnewer
      split
      · exact h
      · rename_i hetx
        have hlink : s.link = none := by
          refine h.idle ?_
          intro hmem
          have hinstalled : s.currentState ≠ .scheduleInstalled := by
            intro hi
            have := h.installed hi
            omega
          have hserving : s.currentState ≠ .scheduleRetransmitting :=
            fun hr => hetx (hok hr hnewer)
          have hlistening := h.listening
          simp only [linkedPhases, List.mem_cons, List.not_mem_nil, or_false] at hmem
          tauto
        dsimp only
        split
        · exact .broadcast hlink (by simp [finishSchedule, handleStateChange, linkedPhases])
        · rename_i missing _
          have hsearch : LinkOk (changeLink (requestPacket node (handleStateChange
              { s with schedulePackets := packets } .scheduleOld) missing) (some nbr)) :=
            .search rfl
          exact (hsearch.output env env.etxLink (some nbr)).mono rfl rfl (fun _ => rfl) (fun _ hb => hb)
    · exact h

/-- A beacon keeps the link. -/
theorem tschRxProcessBeacon_link (h : LinkOk s) {b : Beacon} {fromTimeSource : Bool}
    (hversion : b.scheduleVersion ≤ 1)
    (hok : s.currentState = .scheduleRetransmitting → fromTimeSource = false →
      s.scheduleVersion < b.scheduleVersion → 2000 < env.etxLink) :
    LinkOk (tschRxProcessBeacon node env s b.src fromTimeSource b.scheduleVersion
      b.schedulePackets b.scheduleReceived) := by
  obtain ⟨s₁, hs₁, hlink, hstate, hv⟩ : ∃ s₁,
      (if (s.addNbr (some b.src)).receivedCallback = true then
        masterScheduleReceivedCallback node (s.addNbr (some b.src)) b.scheduleReceived
        else s.addNbr (some b.src)) = s₁ ∧ LinkOk s₁ ∧
      s₁.currentState = s.currentState ∧ s₁.scheduleVersion = s.scheduleVersion := by
    refine ⟨_, rfl, ?_⟩
    split
    · rw [masterScheduleReceivedCallback_frame, addNbr_frame]
      exact ⟨h.mono rfl rfl (fun _ => rfl) (fun _ hb => hb), rfl, rfl⟩
    · rw [addNbr_frame]
      exact ⟨h.mono rfl rfl (fun _ => rfl) (fun _ hb => hb), rfl, rfl⟩
  unfold tschRxProcessBeacon
  dsimp only
  rw [hs₁]
  split
  · rename_i hdiff
    refine masterScheduleDifferenceCallback_link hlink hversion b.src ?_
    rw [hstate, hv]
    exact fun hr => hok hr (by simpa using (Bool.and_eq_true_iff.1 hdiff).1)
  · exact hlink

/-! ## Sent callbacks -/

/-- What has to hold for a sent callback in a node that retransmits: it is not the
one of the end packet, and if the neighbor of the link has no other packet, it is
the one of a retransmission, which is sent again if it did not get through. -/
structure CallbackOk (env : Env) (s : NodeState) (p : Packet) (dest : Option NodeId)
    (status : TxStatus) : Prop where
  ended : p.command ≠ .scheduleEnd
  last : ∀ m ∈ dest, s.link = some m → Busy s m ∨ p.command = .scheduleRetransmit ∧
    (status = .noAck → maxTx env.etxLink ≠ 0)

/-- What a callback needs. -/
theorem callbackOk_iff {env : Env} {s : NodeState} {p : Packet} {dest : Option NodeId}
    {status : TxStatus} :
    (p.command ≠ .scheduleEnd ∧ ∀ m ∈ dest, s.link = some m → Busy s m ∨
      p.command = .scheduleRetransmit ∧ (status = .noAck → maxTx env.etxLink ≠ 0)) ↔
      CallbackOk env s p dest status :=
  ⟨fun ⟨h1, h2⟩ => ⟨h1, h2⟩, fun ⟨h1, h2⟩ => ⟨h1, h2⟩⟩

instance (env : Env) (s : NodeState) (p : Packet) (dest : Option NodeId) (status : TxStatus) :
    Decidable (CallbackOk env s p dest status) := decidable_of_iff _ callbackOk_iff

/-- A retransmission that did not get through goes out again. -/
theorem resend_link {m : NodeId} (hphase : s.currentState = .scheduleRetransmitting)
    (hlink : ∃ k, s.link = some k ∧ (Busy s k ∨ k = m ∧ maxTx env.etxLink ≠ 0)) :
    LinkOk (output env s env.etxLink (some m)) := by
  rcases hlink with ⟨k, hk, hbusy⟩
  unfold output
  dsimp only
  split
  · rename_i hmax
    rcases hbusy with hbusy | ⟨-, hne⟩
    · exact .retransmit hphase ⟨k, hk, hbusy⟩
    · exact absurd hmax hne
  · split
    · refine .retransmit ?_ ⟨k, ?_, ?_⟩
      · rw [tschQueueAddPacket_frame]
        exact hphase
      · rw [tschQueueAddPacket_frame]
        exact hk
      · rcases hbusy with hbusy | ⟨rfl, -⟩
        · exact busy_tschQueueAddPacket
            (s := { s with handed := s.handed ++ [(some m, s.outgoing)] }) hbusy
        · left
          rw [tschQueueAddPacket_frame]
          simp
    · refine .handleTxErr fun hne => ?_
      exact absurd hphase hne

/-- The change of phase keeps the link. -/
theorem transitionToNewStateAfterCallback_link {p : Packet} (dest : Option NodeId)
    (hsearching : s.currentState = .scheduleOld → s.missingPacket ≠ none)
    (hlisten : s.currentState ≠ .scheduleInstalled)
    (hend : s.currentState = .scheduleRetransmitting → p.command ≠ .scheduleEnd)
    (h : s.currentState ≠ .scheduleRetransmitting ∨ p.command ≠ .scheduleRetransmit → LinkOk s) :
    LinkOk (transitionToNewStateAfterCallback node env s p dest) := by
  unfold transitionToNewStateAfterCallback
  split
  · rename_i hcommand
    have hs : LinkOk s := h (.inr (by rw [hcommand]; decide))
    by_cases hd : node.nodeId = node.distributor
    · rcases callbackInputScheduleSend_cases env s hd with ⟨t, ht, -, heq⟩
      rw [heq]
      refine LinkOk.output ?_ env 10 none
      rw [ht.frame]
      exact hs.mono rfl rfl (fun hi => absurd hi hlisten) (fun _ hb => hb)
    · unfold callbackInputScheduleSend
      rw [if_pos hd]
      exact hs
  · rename_i hcommand
    have hs : LinkOk s := h (.inr (by rw [hcommand]; decide))
    split
    · rename_i hmissing
      -- the phase of an idle node, so its link points to broadcast
      have hphase : s.currentState ∉ linkedPhases := by
        intro hmem
        have hold : s.currentState ≠ .scheduleOld := fun ho => hsearching ho hmissing
        have hserving : s.currentState ≠ .scheduleRetransmitting := fun hr => hend hr hcommand
        have hlistening := hs.listening
        simp only [linkedPhases, List.mem_cons, List.not_mem_nil, or_false] at hmem
        tauto
      exact .broadcast (hs.idle hphase) (by simp [handleStateChange, linkedPhases])
    · exact hs
  · rename_i hcommand
    have hs : LinkOk s := h (.inr (by rw [hcommand]; decide))
    split
    · split
      · exact requestRetransmitOrFinish_link hs _
      · exact hs.mono rfl rfl (fun _ => rfl) (fun _ hb => hb)
    · exact hs
  · split
    · rename_i hphase
      exact handleRetransmit_link hphase
    · rename_i hphase
      exact h (.inl hphase)

/-- The packet of a callback was not the only one of another neighbor. -/
theorem busy_pop {x : Option NodeId × Packet × TxStatus}
    {rest : List (Option NodeId × Packet × TxStatus)} (hp : s.pending = x :: rest) {m : NodeId}
    (hne : x.1 ≠ some m) (h : Busy s m) : Busy { s with pending := rest } m := by
  rcases h with h | ⟨y, hy, hm⟩
  · exact .inl h
  · rw [hp] at hy
    rcases List.mem_cons.1 hy with rfl | hy
    · exact absurd hm hne
    · exact .inr ⟨y, hy, hm⟩

/-- The callback keeps the link. -/
theorem masterRoutingOutputCallback_link {p : Packet} {dest : Option NodeId} {status : TxStatus}
    {rest : List (Option NodeId × Packet × TxStatus)} (hok : NodeOk d s) (h : LinkOk s)
    (hp : s.pending = (dest, p, status) :: rest)
    (hcallback : s.currentState = .scheduleRetransmitting → status ≠ .err →
      CallbackOk env { s with pending := rest } p dest status) :
    LinkOk (masterRoutingOutputCallback node env { s with pending := rest } p dest status) := by
  rcases hok.pop hp with ⟨-, hcarries⟩
  have hidle : s.currentState ≠ .scheduleRetransmitting → LinkOk { s with pending := rest } :=
    fun hne => ⟨h.idle, fun hr => absurd hr hne, h.listening, h.installed⟩
  -- the neighbor of the link has another packet, or this was its retransmission
  have hlast : s.currentState = .scheduleRetransmitting → status ≠ .err →
      ∃ m, s.link = some m ∧ (Busy { s with pending := rest } m ∨
        dest = some m ∧ p.command = .scheduleRetransmit ∧
          (status = .noAck → maxTx env.etxLink ≠ 0)) := by
    intro hr hstatus
    rcases h.serving hr with ⟨m, hm, hbusy⟩
    refine ⟨m, hm, ?_⟩
    by_cases hdest : dest = some m
    · rcases (hcallback hr hstatus).last m hdest hm with hb | hretransmit
      · exact .inl hb
      · exact .inr ⟨hdest, hretransmit⟩
    · exact .inl (busy_pop hp hdest hbusy)
  have hpop : status ≠ .err → s.currentState ≠ .scheduleRetransmitting ∨
      p.command ≠ .scheduleRetransmit → LinkOk { s with pending := rest } := by
    intro hstatus hor
    by_cases hr : s.currentState = .scheduleRetransmitting
    · rcases hlast hr hstatus with ⟨m, hm, hb | ⟨-, hretransmit, -⟩⟩
      · exact .retransmit hr ⟨m, hm, hb⟩
      · rcases hor with hne | hne
        · exact absurd hr hne
        · exact absurd hretransmit hne
    · exact hidle hr
  unfold masterRoutingOutputCallback
  split
  · rename_i hignore
    refine hidle ?_
    rintro hr
    rw [show ({ s with pending := rest } : NodeState).currentState = .scheduleRetransmitting from
      hr] at hignore
    rcases hignore with hi | hi <;> cases hi
  · rename_i hlisten
    unfold handleCallbackCommandsDivergcast
    cases status with
    | err => exact .handleTxErr hidle
    | ok =>
      exact transitionToNewStateAfterCallback_link dest hok.searching
        (fun hi => hlisten (.inr hi)) (fun hr => (hcallback hr (by decide)).ended)
        (hpop (by decide))
    | noAck =>
      dsimp only
      split
      · rename_i hcommand
        have hs : LinkOk (NodeState.putBack node { s with pending := rest } p) :=
          (hpop (by decide) (.inr (by rw [hcommand]; decide))).mono rfl rfl (fun _ => rfl)
            (fun _ hb => hb)
        split
        · exact requestRetransmitOrFinish_link hs _
        · exact .broadcast rfl (by simp [changeLink, handleStateChange, linkedPhases])
      · rename_i hcommand
        by_cases hr : s.currentState = .scheduleRetransmitting
        · -- a retransmission has a destination
          cases hdest : dest with
          | none =>
            have := hcarries.packet.broadcast.1 hdest
            rw [show ((dest, p, TxStatus.noAck).2.1).command = .scheduleRetransmit from
              hcommand] at this
            rcases this with hc | hc <;> cases hc
          | some m =>
            rcases hlast hr (by decide) with ⟨k, hk, hb⟩
            refine resend_link hr ⟨k, hk, ?_⟩
            rcases hb with hb | ⟨hkm, -, hmax⟩
            · exact .inl hb
            · rw [hdest] at hkm
              cases hkm
              exact .inr ⟨rfl, hmax rfl⟩
        · exact LinkOk.output (s := { NodeState.putBack node { s with pending := rest } p with
            payloadLen := p.payload.length })
            ((hidle hr).mono rfl rfl (fun _ => rfl) (fun _ hb => hb)) env _ dest
      · exact transitionToNewStateAfterCallback_link
          (s := NodeState.putBack node { s with pending := rest } p) dest hok.searching
          (fun hi => hlisten (.inr hi)) (fun hr => (hcallback hr (by decide)).ended)
          fun hor => (hpop (by decide) hor).mono rfl rfl (fun _ => rfl) (fun _ hb => hb)

/-! ## The other handlers -/

/-- The loaded schedule keeps the link. -/
theorem masterScheduleLoadedCallback_link (hlink : s.link = none) :
    LinkOk (masterScheduleLoadedCallback node env s) := by
  rcases masterScheduleLoadedCallback_cases node env s with ⟨t, ht, -, heq⟩
  rw [heq]
  refine LinkOk.output ?_ env 10 none
  rw [ht.frame]
  exact .broadcast hlink (by simp [handleStateChange, linkedPhases])

/-- The installation keeps the link. -/
theorem installSchedule_link (h : LinkOk s)
    (hcheck : (checkReceivedSchedulesByNodes node { s with installTimer := false }).1 = true →
      s.scheduleVersion = 1) : LinkOk (installSchedule node s) := by
  unfold installSchedule
  dsimp only
  rw [checkReceivedSchedulesByNodes_frame]
  split
  · rename_i hc
    refine ⟨fun hn => absurd (by simp [handleStateChange, linkedPhases]) hn, ?_, ?_,
      fun _ => hcheck hc⟩
    all_goals
      intro hi
      cases hi
  · exact h.mono rfl rfl (fun _ => rfl) (fun _ hb => hb)

/-- A packet that leaves its queue is in transmission. -/
theorem txSlot_link (h : LinkOk s) {status : TxStatus} {giveUp : Bool} {p : Packet}
    (ht : txSlot s status giveUp = some (p, t)) : LinkOk t := by
  rcases txSlot_cases ht with ⟨-, rfl | ⟨rest, -, rfl⟩⟩
  · exact h
  · refine h.mono rfl rfl (fun _ => rfl) ?_
    intro m hb
    by_cases hm : s.link = some m
    · exact .inr ⟨(s.link, p, status), by simp, hm⟩
    · rcases hb with hb | ⟨x, hx, hxm⟩
      · left
        dsimp only
        rw [Function.update_of_ne (Ne.symm hm)]
        exact hb
      · exact .inr ⟨x, List.mem_append_left _ hx, hxm⟩

end Rules

/-! ## The network -/

/-- The steps that keep the links: requests that are served, sent callbacks that
leave a packet for the neighbor of the link, and no beacon that completes a node
while it retransmits. -/
def RetransmitsOk (D : Deployment) (net : NetState) : Event → Prop
  | .input n i env => ∀ f ∈ net.air[i]?, Requests (D.node n) (net.node n) f.packet →
      RequestOk (D.node n) env (net.node n) f.packet f.src
  | .sent n env => ∀ x ∈ (net.node n).pending.head?,
      (net.node n).currentState = .scheduleRetransmitting → x.2.2 ≠ .err →
        CallbackOk env { net.node n with pending := (net.node n).pending.tail } x.2.1 x.1 x.2.2
  | .beacon n i fromTimeSource env => ∀ b ∈ net.beacons[i]?,
      (net.node n).currentState = .scheduleRetransmitting → fromTimeSource = false →
        (net.node n).scheduleVersion < b.scheduleVersion → 2000 < env.etxLink
  | _ => True

/-- Packets in bounds, and retransmissions undisturbed. -/
def Free (D : Deployment) (net : NetState) (e : Event) : Prop :=
  InBounds D net e ∧ RetransmitsOk D net e

instance (D : Deployment) (net : NetState) : ∀ e, Decidable (RetransmitsOk D net e)
  | .input n i env => inferInstanceAs (Decidable (∀ f ∈ net.air[i]?,
      Requests (D.node n) (net.node n) f.packet → RequestOk (D.node n) env _ f.packet f.src))
  | .sent n _ => inferInstanceAs (Decidable (∀ x ∈ (net.node n).pending.head?,
      (net.node n).currentState = _ → x.2.2 ≠ .err → CallbackOk _ _ x.2.1 x.1 x.2.2))
  | .beacon n i _ _ => inferInstanceAs (Decidable (∀ b ∈ net.beacons[i]?,
      (net.node n).currentState = _ → _ = false → _ < b.scheduleVersion → _ < _))
  | .loaded _ | .transmit .. | .sendBeacon _ | .missingResponse _ | .install _ =>
      inferInstanceAs (Decidable True)

instance (D : Deployment) (net : NetState) (e : Event) : Decidable (Free D net e) :=
  inferInstanceAs (Decidable (_ ∧ _))

/-- The links of all nodes. -/
def LinksOk (D : Deployment) (net : NetState) : Prop :=
  ∀ n ∈ D.cfg.nodeIds, LinkOk (net.node n)

section Network

variable {D : Deployment} {net net' : NetState} {e : Event} {n : NodeId} {t : NodeState}

/-- One node changes its link. -/
theorem LinksOk.set (h : LinksOk D net) (ht : LinkOk t) : LinksOk D (net.set n t) := by
  intro m hm
  by_cases hmn : m = n
  · rw [hmn, NetState.set_node_self]
    exact ht
  · rw [NetState.set_node_of_ne _ _ hmn]
    exact h m hm

/-- One step. -/
theorem LinksOk.step (h : LinksOk D net) (hcontrol : Control D net) (hok : RetransmitsOk D net e)
    (hs : Network.step D net e = some net') : LinksOk D net' := by
  cases step_cases hs with
  | @loaded env hl =>
    -- the distributor neither searches nor retransmits before the upload
    have hphase : (net.node D.distributor).currentState ∉ linkedPhases := by
      have hopen := hcontrol.unloaded hl
      have hold := (hcontrol.nodes _ D.distributor_mem).not_old
      simp only [completePhases, linkedPhases, List.mem_cons, List.not_mem_nil, or_false] at hopen ⊢
      tauto
    exact h.set (masterScheduleLoadedCallback_link ((h _ D.distributor_mem).idle hphase))
  | @input n i env f hn hf hi _ => exact h.set (masterRoutingInput_link (h n hn) (hok f hi))
  | @transmit n status giveUp p s hn ht => exact h.set (txSlot_link (h n hn) ht)
  | @sent n env dest p status rest hn hp =>
    refine h.set (masterRoutingOutputCallback_link (hcontrol.nodes n hn) (h n hn) hp ?_)
    have hhead := hok (dest, p, status) (by rw [hp]; rfl)
    rw [hp] at hhead
    exact hhead
  | @sendBeacon n hn => exact h
  | @beacon n i fromTimeSource env b hn hb hi _ =>
    exact h.set (tschRxProcessBeacon_link (h n hn) (hcontrol.beacons b hb).1.version (hok b hi))
  | @missingResponse n hn _ =>
    exact h.set (.broadcast rfl
      (by simp [missingResponse, changeLink, handleStateChange, linkedPhases]))
  | @install n hn _ =>
    exact h.set (installSchedule_link (h n hn) (hcontrol.version_of_check hn))

/-- The links are right after every run. -/
theorem linksOk_of_run {file : List UInt8} (h : Start D file net)
    (hrun : Run (Network.step D) (Free D) net net') : Control D net' ∧ LinksOk D net' := by
  refine hrun.invariant (I := fun net => Control D net ∧ LinksOk D net)
    (fun _ _ _ hI hok hs => ⟨hI.1.step hok.1 hs, hI.2.step hI.1 hok.2 hs⟩)
    ⟨control_of_start h, ?_⟩
  intro n hn
  have hfresh := h.fresh n hn
  refine .broadcast hfresh.link ?_
  have := hfresh.phase
  revert this
  generalize (net.node n).currentState = st
  revert st
  decide

/-- An idle node listens to broadcast, a node that retransmits points to a neighbor
with a packet, and a request turns the link to one. -/
theorem link_of_run {net₀ : NetState} {file : List UInt8} (h₀ : Start D file net₀)
    (hrun : Run (Network.step D) (Free D) net₀ net) (hn : n ∈ D.cfg.nodeIds) :
    ((net.node n).currentState = .scheduleReceived → (net.node n).link = none) ∧
      (∀ m, (net.node n).currentState = .scheduleRetransmitting → (net.node n).link = some m →
        Busy (net.node n) m) ∧
      ∀ i env f net', net.air[i]? = some f → Requests (D.node n) (net.node n) f.packet →
        Free D net (.input n i env) → Network.step D net (.input n i env) = some net' →
        Serving (net'.node n) ∧
          ((net.node n).currentState = .scheduleReceived → Turned (net'.node n)) := by
  rcases linksOk_of_run h₀ hrun with ⟨-, hlinks⟩
  refine ⟨fun hr => (hlinks n hn).idle (by rw [hr]; decide), ?_, ?_⟩
  · intro m hr hm
    rcases (hlinks n hn).serving hr with ⟨k, hk, hbusy⟩
    rw [hm] at hk
    cases hk
    exact hbusy
  · intro i env f net' hi hreq hfree hs
    cases step_cases hs with
    | input _ _ hi' _ =>
      cases hi.symm.trans hi'
      rw [NetState.set_node_self]
      exact (masterRoutingInput_request (hlinks n hn) hreq (hfree.2 f hi hreq) f.dest).2

end Network

/-- Node 2 has the schedule and passes on the end packet, while node 3 hears of
the schedule from node 2 and asks it for a packet. -/
def requestEvents : List Event :=
  announceEvents ++ [.input 2 1 faultlessEnv, .transmit 2 .ok false, .sent 2 faultlessEnv,
    .transmit 2 .ok false, .sendBeacon 2, .beacon 3 1 false faultlessEnv, .transmit 3 .ok false]

/-- The callback of the end packet comes first: the request finds an idle node. -/
theorem link_of_run_cooja : ∃ net net',
    (net.node 2).currentState = .scheduleReceived ∧ (net.node 2).link = none ∧
      step coojaTestbed net (.input 2 4 faultlessEnv) = some net' ∧ Turned (net'.node 2) := by
  rcases exists_run_of_runEvents (step coojaTestbed) (Free coojaTestbed)
    (startNet coojaTestbed oneHopFile) (requestEvents ++ [.sent 2 faultlessEnv])
    (fun net => (net.node 2).currentState = .scheduleReceived ∧
      Free coojaTestbed net (.input 2 4 faultlessEnv) ∧
      (net.air[4]?).any (fun f => Requests (coojaTestbed.node 2) (net.node 2) f.packet) = true ∧
      (step coojaTestbed net (.input 2 4 faultlessEnv)).isSome = true)
    (by decide) with ⟨net, hrun, hreceived, hfree, hreq, hstep⟩
  rcases (Option.any_eq_true _ _).1 hreq with ⟨f, hf, hr⟩
  rcases Option.isSome_iff_exists.1 hstep with ⟨net', hnet'⟩
  rcases link_of_run (startNet_start coojaTestbed oneHopFile) hrun
    (show (2 : NodeId) ∈ coojaTestbed.cfg.nodeIds by decide) with ⟨hidle, -, hserve⟩
  exact ⟨net, net', hreceived, hidle hreceived, hnet',
    (hserve 4 faultlessEnv f net' hf (of_decide_eq_true hr) hfree hnet').2 hreceived⟩

/-- The callback of the end packet comes after the request: the node takes itself
for idle with its link at node 3. -/
theorem received_with_unicast_link : ∃ net,
    Start coojaTestbed oneHopFile (startNet coojaTestbed oneHopFile) ∧
      Run (step coojaTestbed) (InBounds coojaTestbed) (startNet coojaTestbed oneHopFile) net ∧
      (net.node 2).currentState = .scheduleReceived ∧ (net.node 2).link = some 3 := by
  rcases exists_run_of_runEvents (step coojaTestbed) (InBounds coojaTestbed)
    (startNet coojaTestbed oneHopFile)
    (requestEvents ++ [.input 2 4 faultlessEnv, .sent 2 faultlessEnv])
    (fun net => (net.node 2).currentState = .scheduleReceived ∧ (net.node 2).link = some 3)
    (by decide) with ⟨net, hrun, hreceived, hlink⟩
  exact ⟨net, startNet_start _ _, hrun, hreceived, hlink⟩

end MasterScheduler.Network
