import MasterScheduler.Mote.Duplicates

/-!
# MasterScheduler.Mote.Polls — which neighbors are polled

`next_dest` walks over the neighbors that have the node as their time source.
It should leave a neighbor only when the poll got through or the metric of the
neighbor is there. The sent callback moves it on in more cases than that.

- `Inv`: at most one poll is open, and it is the poll of `next_dest`.
- `none_skipped`: runs in which no neighbor is skipped.
- `neighbor_skipped`: a run in which one is.
-/

namespace MasterScheduler.Mote.Gather

open Lib

/-- The poll of a neighbor is done with: acknowledged, or its metric is there. -/
def Settled (t : List Trace) (n : NodeId) : Prop := .acknowledged n ∈ t ∨ .metric n ∈ t

/-- The neighbor whose poll has no sent callback yet. -/
def openPoll : List Trace → Option NodeId :=
  List.foldl (fun o e =>
    match e with
    | .polled n => some n
    | .acknowledged _ | .failed _ => none
    | _ => o) none

/-- No poll fails unless the metric of the neighbor is there, and no sent callback
of a metric asks for the next neighbor while a poll is open. -/
def PollsAnswered : List Trace → Prop :=
  Always fun pre e =>
    match e with
    | .failed n => .metric n ∈ pre
    | .forwarded => openPoll pre = none
    | _ => True

/-- `next_dest` leaves a neighbor only when its poll is done with. -/
def PassedSettled : List Trace → Prop :=
  Always fun pre e =>
    match e with
    | .passed n => Settled pre n
    | _ => True

/-- No neighbor is skipped: besides, a poll that failed without a metric of the
neighbor is sent again. -/
def NoneSkipped (t : List Trace) : Prop :=
  PassedSettled t ∧
    ∀ pre n post, t = pre ++ .failed n :: post → .metric n ∈ pre ∨ .polled n ∈ post

/-- The poll that is open behind one more entry. -/
theorem openPoll_concat (t : List Trace) (e : Trace) :
    openPoll (t ++ [e]) =
      match e with
      | .polled n => some n
      | .acknowledged _ | .failed _ => none
      | _ => openPoll t := by
  unfold openPoll
  rw [List.foldl_append]
  rfl

/-- A poll that was settled stays settled. -/
theorem Settled.append {t : List Trace} {n : NodeId} (h : Settled t n) (u : List Trace) :
    Settled (t ++ u) n :=
  h.imp (List.mem_append_left u) (List.mem_append_left u)

/-! ## The invariant -/

def isGet (x : Sent) : Bool := x.command == .etxMetricGet

theorem isGet_iff {x : Sent} : isGet x = true ↔ x.command = .etxMetricGet := by
  simp [isGet]

/-- No poll is in a queue or waits for its callback. -/
structure GetFree (s : State) : Prop where
  queue : ∀ d, ∀ x ∈ s.queue d, x.command ≠ .etxMetricGet
  pending : ∀ x ∈ s.pending, x.1.command ≠ .etxMetricGet

/-- At most one poll is in a queue or waits for its callback: that of `n`. -/
structure OneGet (s : State) (n : NodeId) : Prop where
  queue : ∀ d, ∀ x ∈ s.queue d, x.command = .etxMetricGet → d = some n ∧ x.dest = some n
  pending : ∀ x ∈ s.pending, x.1.command = .etxMetricGet → x.1.dest = some n
  count : (s.queue (some n)).countP isGet + s.pending.countP (fun x => isGet x.1) ≤ 1

/-- Without requests in the queues there is at most one. -/
theorem GetFree.oneGet {s : State} (h : GetFree s) (n : NodeId) : OneGet s n := by
  refine ⟨fun d x hx hget => absurd hget (h.queue d x hx),
    fun x hx hget => absurd hget (h.pending x hx), ?_⟩
  have hq : (s.queue (some n)).countP isGet = 0 :=
    List.countP_eq_zero.2 fun x hx => mt isGet_iff.1 (h.queue _ x hx)
  have hp : s.pending.countP (fun x => isGet x.1) = 0 :=
    List.countP_eq_zero.2 fun x hx => mt isGet_iff.1 (h.pending x hx)
  omega

structure Inv (s : State) : Prop where
  free : openPoll s.trace = none → GetFree s
  opened : ∀ n, openPoll s.trace = some n → s.nextDest = .nbr n ∧ OneGet s n
  dest : ∀ n, s.nextDest = .nbr n → Settled s.trace n ∨ openPoll s.trace = some n
  passed : PassedSettled s.trace

/-- No poll is open. -/
structure Mid (s : State) : Prop where
  closed : openPoll s.trace = none
  free : GetFree s
  passed : PassedSettled s.trace

/-- No poll is open, and that of `next_dest` is done with. -/
structure Idle (s : State) : Prop extends Mid s where
  settled : ∀ n, s.nextDest = .nbr n → Settled s.trace n

/-- The sent callback of the open poll is about to run. -/
structure Closing (s : State) (n : NodeId) : Prop where
  dest : s.nextDest = .nbr n
  free : GetFree s
  passed : PassedSettled s.trace

/-- Between two polls. -/
theorem Idle.inv {s : State} (h : Idle s) : Inv s where
  free _ := h.free
  opened n hn := by
    rw [h.closed] at hn
    cases hn
  dest n hn := .inl (h.settled n hn)
  passed := h.passed

/-- The invariant without an open poll. -/
theorem Inv.idle {s : State} (h : Inv s) (hclosed : openPoll s.trace = none) : Idle s where
  closed := hclosed
  free := h.free hclosed
  passed := h.passed
  settled n hn := by
    rcases h.dest n hn with hsettled | hopen
    · exact hsettled
    · rw [hclosed] at hopen
      cases hopen

/-- What the invariant looks at. -/
structure SameView (s s' : State) : Prop where
  nextDest : s'.nextDest = s.nextDest
  trace : s'.trace = s.trace
  queue : s'.queue = s.queue
  pending : s'.pending = s.pending

/-- What the invariant looks at did not change. -/
theorem GetFree.view {s s' : State} (h : GetFree s) (hv : SameView s s') : GetFree s' :=
  ⟨hv.queue ▸ h.queue, hv.pending ▸ h.pending⟩

theorem OneGet.view {s s' : State} {n : NodeId} (h : OneGet s n) (hv : SameView s s') :
    OneGet s' n :=
  ⟨hv.queue ▸ h.queue, hv.pending ▸ h.pending, by rw [hv.queue, hv.pending]; exact h.count⟩

theorem Inv.view {s s' : State} (h : Inv s) (hv : SameView s s') : Inv s' where
  free hc := (h.free (hv.trace ▸ hc)).view hv
  opened n hn := by
    rw [hv.trace] at hn
    rw [hv.nextDest]
    exact ⟨(h.opened n hn).1, (h.opened n hn).2.view hv⟩
  dest n hn := by
    rw [hv.nextDest] at hn
    rw [hv.trace]
    exact h.dest n hn
  passed := hv.trace ▸ h.passed

theorem Mid.view {s s' : State} (h : Mid s) (hv : SameView s s') : Mid s' :=
  ⟨hv.trace ▸ h.closed, h.free.view hv, hv.trace ▸ h.passed⟩

/-- An entry that is no poll event. -/
theorem Inv.log_metric {s : State} (h : Inv s) (owner : NodeId) :
    Inv (s.log (.metric owner)) := by
  have hopen : openPoll (s.log (.metric owner)).trace = openPoll s.trace := openPoll_concat _ _
  refine ⟨?_, ?_, ?_, always_concat h.passed trivial⟩
  · intro hc
    have hfree := h.free (hopen ▸ hc)
    exact ⟨hfree.queue, hfree.pending⟩
  · intro n hn
    obtain ⟨hdest, hone⟩ := h.opened n (hopen ▸ hn)
    exact ⟨hdest, hone.queue, hone.pending, hone.count⟩
  · intro n hn
    rw [hopen]
    exact (h.dest n hn).imp_left fun hs => hs.append _

/-- Forwarding a metric opens no poll. -/
theorem Idle.log_forwarded {s : State} (h : Idle s) : Idle (s.log .forwarded) where
  closed := (openPoll_concat s.trace .forwarded).trans h.closed
  free := ⟨h.free.queue, h.free.pending⟩
  passed := always_concat h.passed trivial
  settled n hn := (h.settled n hn).append _

/-! ## Handlers -/

/-- What the handlers rely on when they send. -/
structure OutOk (out : Out) : Prop where
  ext : OutExt out
  other : ∀ {s etxLink command dest}, command ≠ .etxMetricGet → Inv s →
    PollsAnswered (out s etxLink command dest).trace → Inv (out s etxLink command dest)
  poll : ∀ {s etxLink n}, Mid s → s.nextDest = .nbr n →
    PollsAnswered (out s etxLink .etxMetricGet (some n)).trace →
    Inv (out s etxLink .etxMetricGet (some n))
  broadcast : ∀ s, out s 0 .etxMetricGet none = s

section

variable {m : Node} {out : Out} {s : State}

/-- Forwarding to the time source keeps the invariant. -/
theorem inv_forward (hout : OutOk out) (hs : Inv s)
    (hans : PollsAnswered (convergcastForwardToTimesource out s).trace) :
    Inv (convergcastForwardToTimesource out s) := by
  unfold convergcastForwardToTimesource at hans ⊢
  cases hts : s.getTimeSource with
  | none => exact hs.view ⟨rfl, rfl, rfl, rfl⟩
  | some n =>
    rw [hts] at hans
    have hsame : SameView s (changeLink s (some n.id)) := ⟨rfl, rfl, rfl, rfl⟩
    exact hout.other (by decide) (hs.view hsame)
      hans

/-- So does convergcast outside the polling state. -/
theorem inv_handleConvergcast (hout : OutOk out) (hs : Inv s)
    (hstate : s.currentState ≠ .pollNeighbour)
    (hans : PollsAnswered (handleConvergcast m out s).trace) :
    Inv (handleConvergcast m out s) := by
  unfold handleConvergcast at hans ⊢
  rw [if_neg hstate] at hans ⊢
  exact inv_forward hout hs hans

/-- Polling `next_dest`. -/
theorem inv_handleConvergcast_poll (hout : OutOk out) (hs : Mid s)
    (hnbr : ∀ n, s.nextDest = .nbr n → ∃ x ∈ s.nbrs, x.id = n)
    (hstate : s.currentState = .pollNeighbour)
    (hans : PollsAnswered (handleConvergcast m out s).trace) :
    Inv (handleConvergcast m out s) := by
  unfold handleConvergcast at hans ⊢
  rw [if_pos hstate] at hans ⊢
  have hidle : ∀ s' : State, SameView s s' → (∀ n, s.nextDest ≠ .nbr n) → Inv s' := by
    intro s' hv hno
    have : Idle s := ⟨hs, fun n hn => absurd hn (hno n)⟩
    exact this.inv.view hv
  cases hnext : s.nextDest with
  | null =>
    exact hidle _ ⟨hnext.symm, rfl, rfl, rfl⟩ (by rw [hnext]; simp)
  | broadcast =>
    dsimp only
    rw [hout.broadcast]
    exact hidle _ ⟨rfl, rfl, rfl, rfl⟩ (by rw [hnext]; simp)
  | nbr id =>
    rw [hnext] at hans
    dsimp only at hans ⊢
    cases hget : s.getNbr id with
    | none =>
      -- the neighbor is in the table
      obtain ⟨x, hx, rfl⟩ := hnbr id hnext
      have := List.find?_eq_none.1 hget x hx
      simp at this
    | some n =>
      have hid : n.id = id := by simpa using List.find?_some hget
      rw [hget] at hans
      refine hout.poll (hs.view ⟨rfl, rfl, rfl, rfl⟩) ?_ hans
      rw [hid]
      exact hnext

/-- Marking a neighbor adds none. -/
theorem mem_of_mem_nbrsAfter {id : NodeId} {n : Nbr} (h : n ∈ s.nbrsAfter id) : n ∈ s.nbrs :=
  (List.dropWhile_sublist _).subset (List.mem_of_mem_tail h)

/-- Moving `next_dest` on, from a neighbor that is done with. -/
theorem mid_hasNextNeighbor (m : Node) (hs : Idle s) : Mid (hasNextNeighbor m s).2 := by
  unfold hasNextNeighbor
  cases hnext : s.nextDest with
  | null => exact hs.toMid
  | broadcast =>
    dsimp only
    split_ifs
    · exact hs.toMid.view ⟨hnext.symm, rfl, rfl, rfl⟩
    · split <;> exact ⟨hs.closed, ⟨hs.free.queue, hs.free.pending⟩, hs.passed⟩
  | nbr id =>
    have hclosed : openPoll (s.log (.passed id)).trace = none :=
      (openPoll_concat s.trace (.passed id)).trans hs.closed
    have hpassed : PassedSettled (s.log (.passed id)).trace :=
      always_concat hs.passed (hs.settled id hnext)
    dsimp only
    split <;> exact ⟨hclosed, ⟨hs.free.queue, hs.free.pending⟩, hpassed⟩

/-- Without a next neighbor `next_dest` is none. -/
theorem nextDest_of_no_next {s' : State} (h : hasNextNeighbor m s = (false, s')) (n : NodeId) :
    s'.nextDest ≠ .nbr n := by
  unfold hasNextNeighbor at h
  cases hnext : s.nextDest with
  | null =>
    rw [hnext] at h
    cases h
    simp [hnext]
  | broadcast =>
    rw [hnext] at h
    dsimp only at h
    split_ifs at h
    · cases h
      simp
    · split at h <;> cases h
      simp
  | nbr id =>
    rw [hnext] at h
    dsimp only at h
    split at h <;> cases h
    simp

/-- The next neighbor is in the table. -/
theorem mem_nbrs_of_next (m : Node) (s : State) (n : NodeId)
    (hn : (hasNextNeighbor m s).2.nextDest = .nbr n) :
    ∃ x ∈ (hasNextNeighbor m s).2.nbrs, x.id = n := by
  rw [(ext_hasNextNeighbor m s).nbrs]
  unfold hasNextNeighbor at hn
  cases hnext : s.nextDest with
  | null => simp [hnext] at hn
  | broadcast =>
    rw [hnext] at hn
    dsimp only at hn
    split_ifs at hn
    split at hn
    · rename_i x hx
      cases hn
      exact ⟨x, List.mem_of_find?_eq_some hx, rfl⟩
    · cases hn
  | nbr id =>
    rw [hnext] at hn
    dsimp only at hn
    split at hn
    · rename_i x hx
      cases hn
      exact ⟨x, mem_of_mem_nbrsAfter (s := s.log (.passed id)) (List.mem_of_find?_eq_some hx), rfl⟩
    · cases hn

/-- Going to `ST_SEND_METRIC` changes nothing that counts. -/
theorem sameView_enterState_sendMetric :
    SameView s (enterState m out s .sendMetric) := by
  unfold enterState callbackConvergcast
  dsimp only
  split <;> exact ⟨rfl, rfl, rfl, rfl⟩

/-- Nor does going to `ST_WAIT_FOR_SCHEDULE`. -/
theorem sameView_enterState_waitForSchedule :
    SameView s (enterState m out s .waitForSchedule) := by
  unfold enterState callbackConvergcast
  dsimp only
  split_ifs <;> exact ⟨rfl, rfl, rfl, rfl⟩

/-- The next neighbor is polled when no poll is open. -/
theorem inv_pollNext (hout : OutOk out) (hs : Idle s)
    (hans : PollsAnswered (pollNext m out s).trace) : Inv (pollNext m out s) := by
  have hmid := mid_hasNextNeighbor m hs
  have hmem := mem_nbrs_of_next m s
  unfold pollNext at hans ⊢
  cases hnext : hasNextNeighbor m s with
  | mk more s' =>
    rw [hnext] at hmid hmem hans
    cases more with
    | false =>
      have hidle : Idle s' := ⟨hmid, fun n hn => absurd hn (nextDest_of_no_next hnext n)⟩
      exact hidle.inv.view sameView_enterState_waitForSchedule
    | true =>
      exact inv_handleConvergcast_poll (s := handleStateChange s' .pollNeighbour) hout
        (hmid.view ⟨rfl, rfl, rfl, rfl⟩) hmem rfl hans

/-- Packets of one destination are counted at most once. -/
theorem countP_flatMap_le {α β : Type} {f : α → List β} {p : β → Bool} {a : α} {ds : List α}
    (hds : ds.Nodup) (hf : ∀ d, d ≠ a → (f d).countP p = 0) :
    (ds.flatMap f).countP p ≤ (f a).countP p := by
  induction ds with
  | nil => simp
  | cons d ds ih =>
    rcases List.nodup_cons.1 hds with ⟨hd, hds⟩
    rw [List.flatMap_cons, List.countP_append]
    by_cases hda : d = a
    · subst hda
      have hrest : (ds.flatMap f).countP p = 0 := by
        refine List.countP_eq_zero.2 fun y hy => ?_
        rcases List.mem_flatMap.1 hy with ⟨e, he, hy⟩
        exact List.countP_eq_zero.1 (hf e (ne_of_mem_of_not_mem he hd)) y hy
      omega
    · rw [hf d hda]
      have := ih hds
      omega

/-- A flush hands every queued packet to its callback. -/
theorem mem_flushed {x : Sent × TxStatus} (h : x ∈ (tschQueueReset s).pending) :
    x ∈ s.pending ∨ ∃ d, x.1 ∈ s.queue d := by
  rcases List.mem_append.1 h with h | h
  · exact .inl h
  · rcases List.mem_flatMap.1 h with ⟨d, _, hx⟩
    rcases List.mem_map.1 hx with ⟨y, hy, rfl⟩
    exact .inr ⟨d, hy⟩

/-- Flushing the queues only moves packets. -/
theorem inv_tschQueueReset (hs : Inv s) : Inv (tschQueueReset s) where
  free hc := by
    refine ⟨fun d x hx => absurd hx List.not_mem_nil, fun x hx => ?_⟩
    rcases mem_flushed hx with hx | ⟨d, hx⟩
    · exact (hs.free hc).pending x hx
    · exact (hs.free hc).queue d x.1 hx
  opened n hn := by
    rcases hs.opened n hn with ⟨hdest, hone⟩
    refine ⟨hdest, fun d x hx => absurd hx List.not_mem_nil, fun x hx hget => ?_, ?_⟩
    · rcases mem_flushed hx with hx | ⟨d, hx⟩
      · exact hone.pending x hx hget
      · exact (hone.queue d x.1 hx hget).2
    · have hflush : ((none :: s.nbrs.map fun n => some n.id).dedup.flatMap fun d =>
          (s.queue d).map fun p => (p, TxStatus.err)).countP (fun x => isGet x.1) ≤
          (s.queue (some n)).countP isGet := by
        refine (countP_flatMap_le (a := some n) (List.nodup_dedup _) fun d hd => ?_).trans ?_
        · refine List.countP_eq_zero.2 fun x hx => ?_
          rcases List.mem_map.1 hx with ⟨y, hy, rfl⟩
          exact fun hget => hd (hone.queue d y hy (isGet_iff.1 hget)).1
        · rw [List.countP_map]
          exact le_of_eq rfl
      have hcount := hone.count
      unfold tschQueueReset
      dsimp only
      rw [List.countP_append, List.countP_nil]
      omega
  dest := hs.dest
  passed := hs.passed

/-- The transition after the sent callback of any packet but a poll. -/
theorem inv_transitionAfterCallback_other (hout : OutOk out) (hs : Inv s) {command : Command}
    (hcommand : command ≠ .etxMetricGet) (more : Bool)
    (hans : PollsAnswered (transitionAfterCallback m out s command more).trace) :
    Inv (transitionAfterCallback m out s command more) := by
  unfold transitionAfterCallback at hans ⊢
  cases command with
  | etxMetricGet => exact absurd rfl hcommand
  | etxMetricSend =>
    dsimp only at hans ⊢
    split_ifs at hans ⊢
    · exact hs.view sameView_enterState_sendMetric
    · -- no poll is open when the next one is due
      have hclosed : openPoll s.trace = none :=
        (hans.of_prefix (ext_pollNext hout.ext _).trace).last
      exact inv_pollNext hout (hs.idle hclosed).log_forwarded hans
  | etxMetricMissing =>
    dsimp only
    split_ifs
    · exact hs.view sameView_enterState_sendMetric
    · exact hs.view sameView_enterState_waitForSchedule
  | startDistCommit =>
    dsimp only
    split_ifs
    · exact inv_tschQueueReset (hs.view ⟨rfl, rfl, rfl, rfl⟩)
    · exact hs

/-- The transition after the sent callback of a poll that is done with. -/
theorem inv_transitionAfterCallback_get (hout : OutOk out) (hs : Idle s) (more : Bool)
    (hans : PollsAnswered (transitionAfterCallback m out s .etxMetricGet more).trace) :
    Inv (transitionAfterCallback m out s .etxMetricGet more) := by
  unfold transitionAfterCallback at hans ⊢
  dsimp only at hans ⊢
  split_ifs at hans ⊢
  · exact hs.inv.view sameView_enterState_sendMetric
  · exact inv_pollNext hout hs hans

/-- What follows a callback. -/
theorem inv_transitionAfterCallback (hout : OutOk out) (hs : Inv s) {command : Command}
    (hget : command = .etxMetricGet → Idle s) (more : Bool)
    (hans : PollsAnswered (transitionAfterCallback m out s command more).trace) :
    Inv (transitionAfterCallback m out s command more) := by
  by_cases hcommand : command = .etxMetricGet
  · subst hcommand
    exact inv_transitionAfterCallback_get hout (hget rfl) more hans
  · exact inv_transitionAfterCallback_other hout hs hcommand more hans

/-- A packet that is sent again is no request. -/
theorem inv_resendPacket (hout : OutOk out) (hs : Inv s) (hstate : s.currentState = .sendMetric)
    (sent : Sent) (hans : PollsAnswered (resendPacket m out s sent).trace) :
    Inv (resendPacket m out s sent) := by
  have hresend : PollsAnswered (handleConvergcast m out (restorePacket m s sent.packet)).trace →
      Inv (handleConvergcast m out (restorePacket m s sent.packet)) := by
    refine inv_handleConvergcast hout (hs.view ⟨rfl, rfl, rfl, rfl⟩) ?_
    show s.currentState ≠ _
    rw [hstate]
    decide
  unfold resendPacket at hans ⊢
  split_ifs at hans ⊢
  · exact hresend hans
  · cases hts : s.getTimeSource with
    | none => exact hs.view ⟨rfl, rfl, rfl, rfl⟩
    | some ts =>
      rw [hts] at hans
      dsimp only at hans ⊢
      split_ifs at hans ⊢
      · exact hs
      · exact hresend hans

/-- A failed request may be followed by the next one only when no poll is open. -/
theorem inv_handleFailedConvergcast (hout : OutOk out) (hs : Inv s) {sent : Sent}
    (hget : sent.command = .etxMetricGet → Idle s)
    (hans : PollsAnswered (handleFailedConvergcast m out s sent).trace) :
    Inv (handleFailedConvergcast m out s sent) := by
  unfold handleFailedConvergcast at hans ⊢
  cases hreceived : s.metricReceivedFrom sent.dest with
  | none => exact hs
  | some received =>
    rw [hreceived] at hans
    dsimp only at hans ⊢
    split_ifs at hans ⊢ with _ _ hstate
    · exact inv_transitionAfterCallback hout hs hget _ hans
    · exact hs
    · exact inv_resendPacket hout hs hstate sent hans
    · exact inv_transitionAfterCallback hout hs hget _ hans

/-- The packet whose sent callback runs has left the queues. -/
def Taken (s : State) (sent : Sent) : Prop :=
  sent.command ≠ .etxMetricGet ∧ Inv s ∨
    ∃ n, sent.command = .etxMetricGet ∧ sent.dest = some n ∧ Closing s n

/-- The record of a callback closes the poll. -/
theorem inv_logCallback {sent : Sent} {ret : TxStatus} (hs : Taken s sent)
    (hans : PollsAnswered (logCallback s sent ret).trace) :
    Inv (logCallback s sent ret) ∧ (sent.command = .etxMetricGet → Idle (logCallback s sent ret)) := by
  rcases hs with ⟨hcommand, hs⟩ | ⟨n, hcommand, hdest, hs⟩
  · have hsame : logCallback s sent ret = s := by
      unfold logCallback
      split
      · contradiction
      · rfl
    rw [hsame]
    exact ⟨hs, fun h => absurd h hcommand⟩
  · have hlog : logCallback s sent ret =
        s.log (if ret = .ok then .acknowledged n else .failed n) := by
      unfold logCallback
      rw [hcommand, hdest]
    rw [hlog] at hans ⊢
    have hidle : Idle (s.log (if ret = .ok then .acknowledged n else .failed n)) := by
      refine ⟨⟨?_, ⟨hs.free.queue, hs.free.pending⟩, always_concat hs.passed ?_⟩, ?_⟩
      · refine (openPoll_concat _ _).trans ?_
        split_ifs <;> rfl
      · split_ifs <;> trivial
      · intro n' hn'
        cases hs.dest.symm.trans hn'
        by_cases hret : ret = .ok
        · rw [if_pos hret]
          exact .inl (List.mem_append_right _ (List.mem_singleton_self _))
        · rw [if_neg hret] at hans ⊢
          exact .inr (List.mem_append_left _ hans.last)
    exact ⟨hidle.inv, fun _ => hidle⟩

/-- The callback of a packet that was taken from its queue. -/
theorem inv_outputCallback (hout : OutOk out) {sent : Sent} {ret : TxStatus} (hs : Taken s sent)
    (hans : PollsAnswered (outputCallback m out s sent ret).trace) :
    Inv (outputCallback m out s sent ret) := by
  have hlog : Ext (logCallback s sent ret) (outputCallback m out s sent ret) :=
    ext_outputCallback_logCallback hout.ext s sent ret
  rcases inv_logCallback hs (hans.of_prefix hlog.trace) with ⟨hinv, hget⟩
  unfold outputCallback at hans ⊢
  dsimp only at hans ⊢
  split_ifs at hans ⊢
  · exact hinv
  · exact inv_transitionAfterCallback_other hout hinv (by decide) _ hans
  · exact hinv
  · cases hnbr : sent.dest.bind (logCallback s sent ret).getNbr with
    | none => exact hinv.view ⟨rfl, rfl, rfl, rfl⟩
    | some n =>
      rw [hnbr] at hans
      refine hout.other (by decide) ?_ hans
      exact hinv.view ⟨rfl, rfl, rfl, rfl⟩
  · exact inv_transitionAfterCallback hout hinv hget _ hans
  · exact inv_handleFailedConvergcast hout hinv hget hans

/-! ## Sending a packet -/

/-- A packet is added to one queue. -/
theorem mem_queue_add {sent x : Sent} {d : Option NodeId}
    (h : x ∈ (tschQueueAddPacket s sent).queue d) :
    x ∈ s.queue d ∨ d = sent.dest ∧ x = sent := by
  unfold tschQueueAddPacket at h
  dsimp only at h
  by_cases hd : d = sent.dest
  · rw [hd, Function.update_self] at h
    rcases List.mem_append.1 h with h | h
    · exact .inl (hd ▸ h)
    · exact .inr ⟨hd, List.mem_singleton.1 h⟩
  · rw [Function.update_of_ne hd] at h
    exact .inl h

/-- A packet that is no poll can be queued at any time. -/
theorem Inv.add {sent : Sent} (hs : Inv s) (hcommand : sent.command ≠ .etxMetricGet) :
    Inv (tschQueueAddPacket s sent) where
  free hc := by
    refine ⟨fun d x hx => ?_, (hs.free hc).pending⟩
    rcases mem_queue_add hx with hx | ⟨_, rfl⟩
    · exact (hs.free hc).queue d x hx
    · exact hcommand
  opened n hn := by
    rcases hs.opened n hn with ⟨hdest, hone⟩
    refine ⟨hdest, fun d x hx hget => ?_, hone.pending, ?_⟩
    · rcases mem_queue_add hx with hx | ⟨_, rfl⟩
      · exact hone.queue d x hx hget
      · exact absurd hget hcommand
    · -- the packet does not count
      have hsame : ((tschQueueAddPacket s sent).queue (some n)).countP isGet =
          (s.queue (some n)).countP isGet := by
        unfold tschQueueAddPacket
        dsimp only
        by_cases hd : some n = sent.dest
        · rw [hd, Function.update_self, List.countP_append,
            List.countP_singleton, if_neg (mt isGet_iff.1 hcommand), Nat.add_zero]
        · rw [Function.update_of_ne hd]
      rw [hsame]
      exact hone.count
  dest := hs.dest
  passed := hs.passed

/-- A poll opens when nothing else is open. -/
theorem Mid.inv_polled {n : NodeId} (hs : Mid s) (hnext : s.nextDest = .nbr n) {s' : State}
    (htrace : s'.trace = s.trace ++ [.polled n]) (hdest : s'.nextDest = s.nextDest)
    (hone : OneGet s' n) : Inv s' := by
  have hopen : openPoll s'.trace = some n := by
    rw [htrace]
    exact openPoll_concat _ _
  refine ⟨fun hc => ?_, fun n' hn' => ?_, fun n' hn' => .inr ?_, ?_⟩
  · rw [hopen] at hc
    cases hc
  · rw [hopen] at hn'
    cases hn'
    exact ⟨hdest.trans hnext, hone⟩
  · cases hnext.symm.trans (hdest.symm.trans hn')
    exact hopen
  · rw [htrace]
    exact always_concat hs.passed trivial

/-- A poll without transmissions stays open. -/
theorem Mid.oneGet_log {n : NodeId} (hs : Mid s) : OneGet (s.log (.polled n)) n :=
  (GetFree.mk (s := s.log (.polled n)) hs.free.queue hs.free.pending).oneGet n

/-- A request that is queued is the one that is open. -/
theorem Mid.oneGet_add {n : NodeId} (hs : Mid s) {sent : Sent} (hdest : sent.dest = some n) :
    OneGet (tschQueueAddPacket (s.log (.polled n)) sent) n := by
  have hone := hs.free.oneGet n
  refine ⟨fun d x hx hget => ?_, hone.pending, ?_⟩
  · rcases mem_queue_add hx with hx | ⟨hd, rfl⟩
    · exact absurd hget (hs.free.queue d x hx)
    · exact ⟨hd.trans hdest, hdest⟩
  · have hq : (s.queue (some n)).countP isGet = 0 :=
      List.countP_eq_zero.2 fun x hx => mt isGet_iff.1 (hs.free.queue _ x hx)
    have hp : s.pending.countP (fun x => isGet x.1) = 0 :=
      List.countP_eq_zero.2 fun x hx => mt isGet_iff.1 (hs.free.pending x hx)
    have hle : [sent].countP isGet ≤ 1 := List.countP_le_length
    show (Function.update s.queue sent.dest (s.queue sent.dest ++ [sent]) (some n)).countP isGet +
      s.pending.countP (fun x => isGet x.1) ≤ 1
    rw [hdest, Function.update_self, List.countP_append]
    omega

end

/-- Other commands than a request leave the trace. -/
theorem logPoll_other {s : State} {command : Command} {dest : Option NodeId}
    (h : command ≠ .etxMetricGet) : logPoll s command dest = s := by
  unfold logPoll
  split
  · contradiction
  · rfl

/-- `output` is safe to call whatever the MAC layer does. -/
theorem outOk_output (m : Node) (macs : List MacOutcome) : OutOk (output m macs) := by
  -- On the outcomes of the MAC layer; a refused packet is called back within the output.
  induction macs with
  | nil =>
    refine ⟨outExt_output m [], ?_, ?_, fun s => rfl⟩
    · intro s etxLink command dest hcommand hs _
      unfold output
      rw [logPoll_other hcommand]
      dsimp only
      split_ifs
      · exact hs
      · exact hs.add hcommand
    · intro s etxLink n hs hnext _
      unfold output
      dsimp only
      split_ifs
      · exact hs.inv_polled hnext rfl rfl hs.oneGet_log
      · exact hs.inv_polled hnext rfl rfl (hs.oneGet_add rfl)
  | cons mac macs ih =>
    refine ⟨outExt_output m (mac :: macs), ?_, ?_, fun s => rfl⟩
    · intro s etxLink command dest hcommand hs hans
      unfold output at hans ⊢
      rw [logPoll_other hcommand] at hans ⊢
      dsimp only at hans ⊢
      split_ifs at hans ⊢
      · exact hs
      · cases mac with
        | queued => exact hs.add hcommand
        | refused => exact inv_outputCallback ih (.inl ⟨hcommand, hs⟩) hans
    · intro s etxLink n hs hnext hans
      unfold output at hans ⊢
      dsimp only at hans ⊢
      split_ifs at hans ⊢
      · exact hs.inv_polled hnext rfl rfl hs.oneGet_log
      · cases mac with
        | queued => exact hs.inv_polled hnext rfl rfl (hs.oneGet_add rfl)
        | refused =>
          refine inv_outputCallback ih (.inr ⟨n, rfl, rfl, ?_⟩) hans
          exact ⟨hnext, ⟨hs.free.queue, hs.free.pending⟩, always_concat hs.passed trivial⟩

/-! ## Steps -/

section

variable {m : Node} {out : Out} {s : State}

/-- A new time source changes nothing that counts. -/
theorem sameView_updateTimeSource (m : Node) (s : State) (id : NodeId) :
    SameView s (updateTimeSource m s id) := by
  unfold updateTimeSource
  split_ifs <;> exact ⟨rfl, rfl, rfl, rfl⟩

theorem currentState_updateTimeSource (m : Node) (s : State) (id : NodeId) :
    (updateTimeSource m s id).currentState = s.currentState := by
  unfold updateTimeSource
  split_ifs <;> rfl

/-- The commands, one by one. -/
theorem inv_commandInputGetMetric (hout : OutOk out) (hs : Inv s)
    (hstate : s.currentState ≠ .pollNeighbour) {etxLinks : List UInt8}
    (hans : PollsAnswered (commandInputGetMetric m out s etxLinks).trace) :
    Inv (commandInputGetMetric m out s etxLinks) :=
  inv_handleConvergcast hout (hs.view ⟨rfl, rfl, rfl, rfl⟩) hstate hans

/-- A metric at the coordinator. -/
theorem inv_commandInputSendMetricCpan (hout : OutOk out) (hs : Inv s)
    (hans : PollsAnswered (commandInputSendMetricCpan m out s).trace) :
    Inv (commandInputSendMetricCpan m out s) := by
  unfold commandInputSendMetricCpan at hans ⊢
  dsimp only at hans ⊢
  split_ifs at hans ⊢
  · exact hs
  · split at hans
    · exact hout.other (by decide) (hs.view ⟨rfl, rfl, rfl, rfl⟩) hans
    · exact hs.view ⟨rfl, rfl, rfl, rfl⟩
  · exact hs.view ⟨rfl, rfl, rfl, rfl⟩
  · exact hs.view ⟨rfl, rfl, rfl, rfl⟩

/-- A metric at another node. -/
theorem inv_commandInputSendMetricNode (hout : OutOk out) (hs : Inv s) {len : ℕ}
    (hans : PollsAnswered (commandInputSendMetricNode m out s len).trace) :
    Inv (commandInputSendMetricNode m out s len) := by
  have hs' : Inv { s with payloadLen := len } := hs.view ⟨rfl, rfl, rfl, rfl⟩
  unfold commandInputSendMetricNode at hans ⊢
  dsimp only at hans ⊢
  split_ifs at hans ⊢ with hwait
  · refine inv_handleConvergcast hout hs' ?_ hans
    show s.currentState ≠ _
    rw [hwait.1]
    decide
  · split at hans
    · exact hout.other (by decide) hs' hans
    · exact hs.view ⟨rfl, rfl, rfl, rfl⟩

/-- A metric that arrives. -/
theorem inv_commandInputSendMetric (hout : OutOk out) (hs : Inv s) {len : ℕ} {src : NodeId}
    (hans : PollsAnswered (commandInputSendMetric m out s len src).2.trace) :
    Inv (commandInputSendMetric m out s len src).2 := by
  have hlog : ∀ s', SameView (s.log (.metric s.mrp.flowNumber)) s' → Inv s' := fun s' =>
    (hs.log_metric _).view
  unfold commandInputSendMetric at hans ⊢
  dsimp only at hans ⊢
  split_ifs at hans ⊢
  · exact hlog _ ⟨rfl, rfl, rfl, rfl⟩
  · refine inv_commandInputSendMetricCpan hout ?_ hans
    exact hlog _ ⟨rfl, rfl, rfl, rfl⟩
  · refine inv_commandInputSendMetricNode hout ?_ hans
    exact hlog _ ⟨rfl, rfl, rfl, rfl⟩

/-- A request for missing metrics. -/
theorem inv_commandInputMissingMetric (hout : OutOk out) (hs : Inv s)
    (hcommand : s.mrp.command ≠ .etxMetricGet) {missing : List NodeId} {len : ℕ}
    (hans : PollsAnswered (commandInputMissingMetric m out s missing len).trace) :
    Inv (commandInputMissingMetric m out s missing len) := by
  unfold commandInputMissingMetric at hans ⊢
  split at hans
  · exact hout.other (by decide) (hs.view ⟨rfl, rfl, rfl, rfl⟩) hans
  · exact hout.other hcommand (hs.view ⟨rfl, rfl, rfl, rfl⟩) hans

/-- The end of the gathering at the coordinator. -/
theorem inv_commandInputPrepareDistributor (hout : OutOk out) (hs : Inv s)
    (hans : PollsAnswered (commandInputPrepareDistributor m out s).trace) :
    Inv (commandInputPrepareDistributor m out s) := by
  unfold commandInputPrepareDistributor at hans ⊢
  dsimp only at hans ⊢
  split at hans
  · exact hout.other (by decide) (hs.view ⟨rfl, rfl, rfl, rfl⟩) hans
  · exact hs.view ⟨rfl, rfl, rfl, rfl⟩

/-- A command that arrives. -/
theorem inv_transitionToNewState (hout : OutOk out) (hs : Inv s) {src : NodeId} {len : ℕ}
    {etxLinks : List UInt8}
    (hans : PollsAnswered (transitionToNewState m out s src len etxLinks).trace) :
    Inv (transitionToNewState m out s src len etxLinks) := by
  have hts : Inv (updateTimeSource m s src) := hs.view (sameView_updateTimeSource m s src)
  unfold transitionToNewState at hans ⊢
  -- One goal for each branch of the source.
  split at hans
  · refine inv_commandInputGetMetric hout ?_ Phase.noConfusion hans
    exact hs.view ⟨rfl, rfl, rfl, rfl⟩
  · split at hans
    · exact hs.view ⟨rfl, rfl, rfl, rfl⟩
    · split_ifs at hans ⊢
      · exact hs
      · refine inv_commandInputGetMetric hout ?_ Phase.noConfusion hans
        exact hts.view ⟨rfl, rfl, rfl, rfl⟩
  · exact inv_commandInputSendMetric hout hs hans
  · exact inv_commandInputSendMetric hout hs hans
  · exact inv_commandInputSendMetric hout hs hans
  · rename_i hstate _
    refine inv_commandInputGetMetric hout hts ?_ hans
    rw [currentState_updateTimeSource, hstate]
    decide
  · exact inv_commandInputPrepareDistributor hout hs hans
  · exact inv_commandInputPrepareDistributor hout hs hans
  · exact inv_commandInputPrepareDistributor hout hs hans
  · exact inv_commandInputPrepareDistributor hout hs hans
  · exact hs.view ⟨rfl, rfl, rfl, rfl⟩
  · dsimp only at hans ⊢
    split_ifs at hans ⊢
    · exact (inv_commandInputSendMetric hout hs hans).view ⟨rfl, rfl, rfl, rfl⟩
    · exact inv_commandInputSendMetric hout hs hans
  · rename_i hstate hcommand
    dsimp only at hans ⊢
    split_ifs at hans ⊢
    · exact hs
    · have hignore : Inv { s with ignoreMissing := true } := hs.view ⟨rfl, rfl, rfl, rfl⟩
      split at hans
      · exact hs.view ⟨rfl, rfl, rfl, rfl⟩
      · split_ifs at hans ⊢
        · refine inv_commandInputGetMetric hout
            (hignore.view (sameView_updateTimeSource m _ src)) ?_ hans
          rw [currentState_updateTimeSource]
          show s.currentState ≠ _
          rw [hstate]
          decide
        · refine inv_commandInputMissingMetric hout hignore ?_ hans
          show s.mrp.command ≠ _
          rw [hcommand]
          decide
  · exact hs

theorem currentState_hasNextNeighbor (m : Node) (s : State) :
    (hasNextNeighbor m s).2.currentState = s.currentState := by
  unfold hasNextNeighbor
  split
  · rfl
  · split_ifs
    · rfl
    · split <;> rfl
  · dsimp only
    split <;> rfl

/-- The first search follows a null pointer only without neighbors. -/
theorem sameView_of_fault (hnext : s.nextDest = .broadcast) (hs : s.fault = false)
    (hfault : (hasNextNeighbor m s).2.fault = true) : SameView s (hasNextNeighbor m s).2 := by
  unfold hasNextNeighbor at hfault ⊢
  rw [hnext] at hfault ⊢
  dsimp only at hfault ⊢
  split_ifs at hfault ⊢
  · exact ⟨hnext.symm, rfl, rfl, rfl⟩
  · split at hfault
    · exact absurd (hs.symm.trans hfault) Bool.false_ne_true
    · exact absurd (hs.symm.trans hfault) Bool.false_ne_true

/-- With a broadcast to come, no poll is open. -/
theorem Inv.idle_of_broadcast (hs : Inv s) (hnext : s.nextDest = .broadcast) : Idle s := by
  refine hs.idle ?_
  cases hopen : openPoll s.trace with
  | none => rfl
  | some n =>
    have := (hs.opened n hopen).1
    rw [hnext] at this
    cases this

/-- The first poll. -/
theorem inv_masterStartMetricGathering (hout : OutOk out) (hs : Inv s)
    (hnext : s.nextDest = .broadcast) (hfault : s.fault = false)
    (hans : PollsAnswered (masterStartMetricGathering m out s).trace) :
    Inv (masterStartMetricGathering m out s) := by
  unfold masterStartMetricGathering at hans ⊢
  dsimp only at hans ⊢
  generalize hs₁ : ({ handleStateChange s .pollNeighbour with
    metricReceived := setBit (handleStateChange s .pollNeighbour).metricReceived
      (m.nodeId - 1) } : State) = s₁ at hans ⊢
  have hview : SameView s s₁ := by
    subst hs₁
    exact ⟨rfl, rfl, rfl, rfl⟩
  have hnext₁ : s₁.nextDest = .broadcast := hview.nextDest.trans hnext
  have hidle : Idle s₁ := (hs.view hview).idle_of_broadcast hnext₁
  split_ifs at hans ⊢ with hf
  · refine hidle.inv.view (sameView_of_fault hnext₁ ?_ hf)
    subst hs₁
    exact hfault
  · refine inv_handleConvergcast_poll hout (mid_hasNextNeighbor m hidle)
      (mem_nbrs_of_next m s₁) ?_ hans
    rw [currentState_hasNextNeighbor]
    subst hs₁
    rfl

/-- A beacon changes nothing that counts. -/
theorem sameView_ebInput (m : Node) (s : State) (src : NodeId) (etxLink rank timeSource : ℕ)
    (switch : Bool) : SameView s (ebInput m s src etxLink rank timeSource switch) := by
  unfold ebInput updateTimeSource
  dsimp only
  split_ifs <;> exact ⟨rfl, rfl, rfl, rfl⟩

end

/-- The MAC layer is done with a packet. -/
theorem Inv.done {s : State} (hs : Inv s) {dest : Option NodeId} {p : Sent} {rest : List Sent}
    (hq : s.queue dest = p :: rest) (status : TxStatus) :
    Inv { s with queue := Function.update s.queue dest rest
                 pending := s.pending ++ [(p, status)] } := by
  have hp : p ∈ s.queue dest := hq ▸ List.mem_cons_self
  -- A packet leaves a queue, so there are no more than before.
  have hqueue : ∀ d, ∀ x ∈ Function.update s.queue dest rest d, x ∈ s.queue d := by
    intro d x hx
    by_cases hd : d = dest
    · rw [hd, Function.update_self] at hx
      rw [hd, hq]
      exact List.mem_cons_of_mem _ hx
    · rwa [Function.update_of_ne hd] at hx
  refine ⟨fun hc => ⟨fun d x hx => (hs.free hc).queue d x (hqueue d x hx), fun x hx => ?_⟩,
    fun n hn => ?_, hs.dest, hs.passed⟩
  · rcases List.mem_append.1 hx with hx | hx
    · exact (hs.free hc).pending x hx
    · rw [List.mem_singleton.1 hx]
      exact (hs.free hc).queue dest p hp
  · rcases hs.opened n hn with ⟨hdest, hone⟩
    refine ⟨hdest, fun d x hx => hone.queue d x (hqueue d x hx), fun x hx hget => ?_, ?_⟩
    · rcases List.mem_append.1 hx with hx | hx
      · exact hone.pending x hx hget
      · rw [List.mem_singleton.1 hx] at hget ⊢
        exact (hone.queue dest p hp hget).2
    · have hcount := hone.count
      dsimp only
      rw [List.countP_append, List.countP_singleton]
      by_cases hd : some n = dest
      · -- the poll moves from the queue to the callbacks
        rw [hd, hq, List.countP_cons] at hcount
        rw [hd, Function.update_self]
        dsimp only
        omega
      · rw [Function.update_of_ne hd, if_neg ?_]
        · omega
        · intro hget
          exact hd (hone.queue dest p hp (isGet_iff.1 hget)).1.symm

/-- The packet whose sent callback runs next. -/
theorem Inv.taken {s : State} (hs : Inv s) {p : Sent} {status : TxStatus}
    {rest : List (Sent × TxStatus)} (hpend : s.pending = (p, status) :: rest) :
    Taken { s with pending := rest } p := by
  have hmem : (p, status) ∈ s.pending := hpend ▸ List.mem_cons_self
  have hrest : ∀ x ∈ rest, x ∈ s.pending := fun x hx => hpend ▸ List.mem_cons_of_mem _ hx
  by_cases hget : p.command = .etxMetricGet
  · cases hopen : openPoll s.trace with
    | none => exact absurd hget ((hs.free hopen).pending _ hmem)
    | some n =>
      rcases hs.opened n hopen with ⟨hdest, hone⟩
      -- it was the only one
      have hcount := hone.count
      rw [hpend, List.countP_cons, if_pos (isGet_iff.2 hget)] at hcount
      have hq : (s.queue (some n)).countP isGet = 0 := by omega
      have hp : rest.countP (fun x => isGet x.1) = 0 := by omega
      refine .inr ⟨n, hget, hone.pending _ hmem hget, hdest, ⟨?_, ?_⟩, hs.passed⟩
      · intro d x hx hx'
        have hd := (hone.queue d x hx hx').1
        subst hd
        exact List.countP_eq_zero.1 hq x hx (isGet_iff.2 hx')
      · intro x hx hx'
        exact List.countP_eq_zero.1 hp x hx (isGet_iff.2 hx')
  · refine .inl ⟨hget, ⟨fun hc => ⟨(hs.free hc).queue, fun x hx => (hs.free hc).pending x
      (hrest x hx)⟩, fun n hn => ?_, hs.dest, hs.passed⟩⟩
    rcases hs.opened n hn with ⟨hdest, hone⟩
    refine ⟨hdest, hone.queue, fun x hx => hone.pending x (hrest x hx), ?_⟩
    have hcount := hone.count
    rw [hpend, List.countP_cons] at hcount
    dsimp only
    omega

/-! The record only grows. -/

/-- The trace only grows. -/
theorem Ext.grows {s t u : State} (h : Ext t u) (ht : t.trace = s.trace) :
    s.trace <+: u.trace := ht ▸ h.trace

/-- Also while a metric is handled. -/
theorem grows_commandInputSendMetric {m : Node} {out : Out} (hout : OutExt out) (s : State)
    (len : ℕ) (src : NodeId) : s.trace <+: (commandInputSendMetric m out s len src).2.trace := by
  have hlog := (ext_log s (.metric s.mrp.flowNumber)).trace
  unfold commandInputSendMetric
  dsimp only
  split_ifs
  · exact hlog
  · exact hlog.trans (Ext.grows (ext_commandInputSendMetricCpan hout _) rfl)
  · exact hlog.trans (Ext.grows (ext_commandInputSendMetricNode hout _ len) rfl)

/-- And in every transition. -/
theorem grows_transitionToNewState {m : Node} {out : Out} (hout : OutExt out) (s : State)
    (src : NodeId) (len : ℕ) (etxLinks : List UInt8) :
    s.trace <+: (transitionToNewState m out s src len etxLinks).trace := by
  have hget : ∀ s', s'.trace = s.trace →
      s.trace <+: (commandInputGetMetric m out s' etxLinks).trace := fun s' h =>
    h ▸ (ext_commandInputGetMetric hout s' etxLinks).trace
  unfold transitionToNewState
  -- Every command adds to the trace or leaves it.
  split
  · exact hget _ rfl
  · split
    · exact List.prefix_rfl
    · split_ifs
      · exact List.prefix_rfl
      · exact hget _ (sameView_updateTimeSource m s src).trace
  · exact grows_commandInputSendMetric hout s len src
  · exact grows_commandInputSendMetric hout s len src
  · exact grows_commandInputSendMetric hout s len src
  · exact hget _ (sameView_updateTimeSource m s src).trace
  · exact (ext_commandInputPrepareDistributor hout s).trace
  · exact (ext_commandInputPrepareDistributor hout s).trace
  · exact (ext_commandInputPrepareDistributor hout s).trace
  · exact (ext_commandInputPrepareDistributor hout s).trace
  · exact List.prefix_rfl
  · dsimp only
    split_ifs
    · exact grows_commandInputSendMetric hout s len src
    · exact grows_commandInputSendMetric hout s len src
  · split_ifs
    · exact List.prefix_rfl
    · dsimp only
      split
      · exact List.prefix_rfl
      · split_ifs
        · exact hget _ (sameView_updateTimeSource m _ src).trace
        · exact (ext_commandInputMissingMetric hout _ _ _).grows rfl
  · exact List.prefix_rfl

/-- And in every step. -/
theorem grows_step {m : Node} {s t : State} {e : Event} (h : Gather.step m s e = some t) :
    s.trace <+: t.trace := by
  replace h := act_of_step h
  unfold act at h
  -- Every event adds to the trace.
  cases e with
  | start macs =>
    dsimp only at h
    split_ifs at h
    cases h
    exact (ext_masterStartMetricGathering (outExt_output m macs) s).trace
  | input src p etxLinks macs =>
    dsimp only at h
    split_ifs at h
    cases h
    exact grows_transitionToNewState (outExt_output m macs)
      { s with mrp := { p with data := p.data ++ s.mrp.data.drop p.data.length } } _ _ _
  | done dest status =>
    dsimp only at h
    split at h <;> cases h
    exact List.prefix_rfl
  | sent macs =>
    dsimp only at h
    split at h <;> cases h
    exact (ext_outputCallback (outExt_output m macs) _ _ _).grows rfl
  | beacon src etxLink rank timeSource switch =>
    cases h
    exact (sameView_ebInput m s _ _ _ _ _).trace ▸ List.prefix_rfl
  | missingMetricTimeout macs =>
    dsimp only at h
    split_ifs at h
    cases h
    exact (outExt_output m macs _ _ _ _).grows rfl
  | activateMissingMetricRequests =>
    cases h
    exact List.prefix_rfl
  | disseminate phase =>
    dsimp only at h
    split_ifs at h <;> cases h <;> exact List.prefix_rfl

/-- One step, as long as the polls of the trace were answered. -/
theorem Inv.step {m : Node} {s t : State} {e : Event} (h : Inv s)
    (hstep : Gather.step m s e = some t) (hans : PollsAnswered t.trace) : Inv t := by
  -- Without a fault so far there is none before this step.
  have hfault : s.fault = false := by
    unfold Gather.step at hstep
    split_ifs at hstep with hfault
    exact Bool.eq_false_iff.2 hfault
  replace hstep := act_of_step hstep
  unfold act at hstep
  -- One case for each event; only the callback of a poll needs its answer.
  cases e with
  | start macs =>
    dsimp only at hstep
    split_ifs at hstep with hguard
    cases hstep
    exact inv_masterStartMetricGathering (outOk_output m macs) h hguard.2.2 hfault hans
  | input src p etxLinks macs =>
    dsimp only at hstep
    split_ifs at hstep
    cases hstep
    refine inv_transitionToNewState (outOk_output m macs) ?_ hans
    exact h.view ⟨rfl, rfl, rfl, rfl⟩
  | done dest status =>
    dsimp only at hstep
    split at hstep
    · cases hstep
    · rename_i hq
      cases hstep
      exact h.done hq status
  | sent macs =>
    dsimp only at hstep
    split at hstep
    · cases hstep
    · rename_i hpend
      cases hstep
      exact inv_outputCallback (outOk_output m macs) (h.taken hpend) hans
  | beacon src etxLink rank timeSource switch =>
    cases hstep
    exact h.view (sameView_ebInput m s _ _ _ _ _)
  | missingMetricTimeout macs =>
    dsimp only at hstep
    split_ifs at hstep
    cases hstep
    refine (outOk_output m macs).other Command.noConfusion ?_ hans
    exact h.view ⟨rfl, rfl, rfl, rfl⟩
  | activateMissingMetricRequests =>
    cases hstep
    exact h.view ⟨rfl, rfl, rfl, rfl⟩
  | disseminate phase =>
    dsimp only at hstep
    split_ifs at hstep <;> cases hstep <;> exact h.view ⟨rfl, rfl, rfl, rfl⟩

/-- At first no poll is open. -/
theorem inv_initState (cfg : Config) : Inv (initState cfg) where
  free _ := ⟨fun _ _ h => absurd h List.not_mem_nil, fun _ h => absurd h List.not_mem_nil⟩
  opened n h := by cases h
  dest n h := by cases h
  passed := always_nil

/-! ## Runs -/

/-- In every run in which the polls are answered, no neighbor is skipped. -/
theorem none_skipped (m : Node) (s : State)
    (hrun : Run (Gather.step m) (fun _ _ => True) (initState m.cfg) s)
    (hans : PollsAnswered s.trace) : NoneSkipped s.trace := by
  have h : PollsAnswered s.trace → Inv s := by
    refine hrun.invariant (I := fun s => PollsAnswered s.trace → Inv s) ?_ ?_
    · intro s e t ih _ hstep hans
      exact (ih (hans.of_prefix (grows_step hstep))).step hstep hans
    · exact fun _ => inv_initState m.cfg
  exact ⟨(h hans).passed, fun pre n post hsplit => .inl (hans pre _ post hsplit)⟩

/-- The coordinator, with two neighbors that have it as their time source. -/
def cpan : Node := ⟨defaultConfig .cooja, 1, true, 2, 26⟩

/-- It polls the first of them. -/
def cpanEvents : List Event :=
  [.beacon 2 1500 1 1 false, .beacon 3 1500 1 1 false, .start []]

/-- The first poll is acknowledged. -/
theorem none_skipped_acknowledged :
    ∃ s, Run (Gather.step cpan) (fun _ _ => True) (initState cpan.cfg) s ∧
      s.trace = [.polled 2, .acknowledged 2, .passed 2, .polled 3] ∧ PollsAnswered s.trace ∧
      NoneSkipped s.trace := by
  obtain ⟨s, hrun, hs⟩ := exists_run_of_runEvents (Gather.step cpan) (fun _ _ => True)
    (initState cpan.cfg) (cpanEvents ++ [.done (some 2) .ok, .sent []])
    (fun s => s.trace = [.polled 2, .acknowledged 2, .passed 2, .polled 3]) (by decide)
  have hans : PollsAnswered s.trace := by
    rw [hs]
    have hacknowledged : PollsAnswered [.polled 2, .acknowledged 2] :=
      always_concat (l := [Trace.polled 2]) (always_concat (l := []) always_nil trivial) trivial
    exact always_concat (l := [Trace.polled 2, .acknowledged 2, .passed 2])
      (always_concat (l := [Trace.polled 2, .acknowledged 2]) hacknowledged trivial) trivial
  exact ⟨s, hrun, hs, hans, none_skipped cpan s hrun hans⟩

/-- The poll of node 2 fails, and node 3 is polled next. -/
theorem neighbor_skipped :
    ∃ s, Run (Gather.step cpan) (fun _ _ => True) (initState cpan.cfg) s ∧
      ¬ NoneSkipped s.trace := by
  obtain ⟨s, hrun, hs⟩ := exists_run_of_runEvents (Gather.step cpan) (fun _ _ => True)
    (initState cpan.cfg) (cpanEvents ++ [.done (some 2) .noAck, .sent []])
    (fun s => s.trace = [.polled 2, .failed 2, .passed 2, .polled 3]) (by decide)
  refine ⟨s, hrun, ?_⟩
  intro h
  rcases h.1 [.polled 2, .failed 2] (.passed 2) [.polled 3] hs with h | h <;> simp at h

end MasterScheduler.Mote.Gather
