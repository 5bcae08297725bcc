import MasterScheduler.Mote.Gather

/-!
# MasterScheduler.Mote.Duplicates — metrics dropped as received before

`command_input_send_metric` drops a metric that a neighbor sends of itself once
the flag `etx_metric_received` of the neighbor is set. The flag is set by the
first metric packet from the neighbor, whatever it carries, and stays until a
schedule is installed.

- `Heard`: what the flags say about the packets that came in.
- `discards_are_duplicates`: runs in which only duplicates are dropped.
- `fresh_metric_discarded`: a run in which a new metric is dropped.
-/

namespace MasterScheduler.Mote.Gather

open Lib

/-- The first metric packet a neighbor delivered. -/
def firstFrom (ds : List Delivery) (src : NodeId) : Option Delivery := ds.find? (·.src == src)

/-- Whenever a neighbor delivers its own metric, the first metric packet it ever
delivered has the same flow number and packet number. -/
def OwnMetricFirst : List Delivery → Prop :=
  Always fun pre d => d.flowNumber = d.src →
    ∀ d₀, firstFrom pre d.src = some d₀ →
      d₀.flowNumber = d.flowNumber ∧ d₀.packetNumber = d.packetNumber

/-- A metric packet is discarded only if one with the same numbers from the same
neighbor was accepted before. -/
def DiscardsAreDuplicates : List Delivery → Prop :=
  Always fun pre d => d.accepted = false →
    ∃ d' ∈ pre, d'.accepted = true ∧ d'.src = d.src ∧ d'.flowNumber = d.flowNumber ∧
      d'.packetNumber = d.packetNumber

/-- The first delivery stays the first. -/
theorem firstFrom_append {ds : List Delivery} {src : NodeId} {d : Delivery}
    (h : firstFrom ds src = some d) (ds' : List Delivery) :
    firstFrom (ds ++ ds') src = some d := by
  unfold firstFrom at h ⊢
  rw [List.find?_append, h, Option.some_or]

/-- There is a first delivery. -/
theorem exists_firstFrom {ds : List Delivery} {src : NodeId} (h : ∃ d ∈ ds, d.src = src) :
    ∃ d, firstFrom ds src = some d := by
  obtain ⟨d, hd, hsrc⟩ := h
  refine Option.isSome_iff_exists.1 (List.find?_isSome.2 ⟨d, hd, ?_⟩)
  simpa using hsrc

/-- What the flags and the record of deliveries have in common. -/
structure Heard (s : State) : Prop where
  /-- A flag stands for a delivery. -/
  flag : ∀ n ∈ s.nbrs, n.etxMetricReceived = true → ∃ d ∈ s.deliveries, d.src = n.id
  /-- The first packet of a neighbor is never discarded. -/
  first : ∀ src d, firstFrom s.deliveries src = some d → d.accepted = true
  /-- Only a neighbor's own metric is discarded, and not as its first packet. -/
  discarded : Always (fun pre d => d.accepted = false →
    d.flowNumber = d.src ∧ ∃ d₀, firstFrom pre d.src = some d₀) s.deliveries

/-- No flag is set that was not set before. -/
def NoNewFlag (s s' : State) : Prop :=
  ∀ n' ∈ s'.nbrs, n'.etxMetricReceived = true →
    ∃ n ∈ s.nbrs, n.id = n'.id ∧ n.etxMetricReceived = true

/-- The same neighbors have the same flags. -/
theorem NoNewFlag.of_eq {s s' : State} (h : s'.nbrs = s.nbrs) : NoNewFlag s s' := by
  intro n' hn' hflag
  exact ⟨n', h ▸ hn', rfl, hflag⟩

/-- A step without delivery that sets no flag. -/
theorem Heard.quiet {s s' : State} (h : Heard s) (hd : s'.deliveries = s.deliveries)
    (hn : NoNewFlag s s') : Heard s' := by
  refine ⟨?_, hd ▸ h.first, hd ▸ h.discarded⟩
  intro n' hn' hflag
  obtain ⟨n, hmem, hid, hflag'⟩ := hn n' hn' hflag
  obtain ⟨d, hdel, hsrc⟩ := h.flag n hmem hflag'
  exact ⟨d, hd ▸ hdel, hsrc.trans hid⟩

/-- More deliveries. -/
theorem Heard.ext {s s' : State} (h : Heard s) (he : Ext s s') : Heard s' :=
  h.quiet he.deliveries (.of_eq he.nbrs)

/-! ## Steps -/

/-- A new neighbor has no flag. -/
theorem mem_of_mem_addNbr {nbrs : List Nbr} {id : NodeId} {n : Nbr} (h : n ∈ addNbr nbrs id)
    (hflag : n.etxMetricReceived = true) : n ∈ nbrs := by
  unfold addNbr at h
  split_ifs at h
  · exact h
  · rcases List.mem_append.1 h with h | h
    · exact h
    · rw [List.mem_singleton] at h
      subst h
      cases hflag

/-- Changing neighbors one by one, without touching their flags. -/
theorem noNewFlag_map {s s' : State} {id : NodeId} {f : Nbr → Nbr}
    (hf : ∀ n, (f n).id = n.id ∧ (f n).etxMetricReceived = n.etxMetricReceived)
    (h : s'.nbrs = (addNbr s.nbrs id).map f) : NoNewFlag s s' := by
  intro n' hn' hflag
  rw [h] at hn'
  obtain ⟨n, hn, rfl⟩ := List.mem_map.1 hn'
  rw [(hf n).2] at hflag
  exact ⟨n, mem_of_mem_addNbr hn hflag, (hf n).1.symm, hflag⟩

/-- A time source sets no flag. -/
theorem noNewFlag_updateTimeSource (m : Node) (s : State) (id : NodeId) :
    NoNewFlag s (updateTimeSource m s id) := by
  unfold updateTimeSource
  split_ifs
  · exact .of_eq rfl
  · exact noNewFlag_map (f := fun n => { n with isTimeSource := n.id == id })
      (fun n => ⟨rfl, rfl⟩) rfl

/-- It delivers nothing. -/
theorem deliveries_updateTimeSource (m : Node) (s : State) (id : NodeId) :
    (updateTimeSource m s id).deliveries = s.deliveries := by
  unfold updateTimeSource
  split_ifs <;> rfl

/-- It keeps the invariant. -/
theorem heard_updateTimeSource {s : State} (h : Heard s) (m : Node) (id : NodeId) :
    Heard (updateTimeSource m s id) :=
  h.quiet (deliveries_updateTimeSource m s id) (noNewFlag_updateTimeSource m s id)

/-- The state after the flag of the sender was set and the delivery recorded. -/
theorem heard_accepted {s s' : State} {src : NodeId} (h : Heard s)
    (hd : s'.deliveries = s.deliveries ++ [⟨src, s.mrp.flowNumber, s.mrp.packetNumber, true⟩])
    (hn : s'.nbrs = (setMetricReceived s src).nbrs) : Heard s' := by
  refine ⟨?_, ?_, ?_⟩
  · intro n' hn' hflag
    rw [hn] at hn'
    obtain ⟨n, hmem, rfl⟩ := List.mem_map.1 hn'
    rw [hd]
    by_cases hid : n.id = src
    · refine ⟨_, List.mem_append_right _ (List.mem_singleton_self _), ?_⟩
      rw [if_pos hid]
      exact hid.symm
    · rw [if_neg hid] at hflag ⊢
      obtain ⟨d, hdel, hsrc⟩ := h.flag n hmem hflag
      exact ⟨d, List.mem_append_left _ hdel, hsrc⟩
  · intro src' d hfirst
    rw [hd, firstFrom, List.find?_append] at hfirst
    rcases Option.or_eq_some_iff.1 hfirst with hfirst | ⟨_, hfirst⟩
    · exact h.first src' d hfirst
    · rw [List.mem_singleton.1 (List.mem_of_find?_eq_some hfirst)]
  · rw [hd]
    refine always_concat h.discarded ?_
    intro hfalse
    cases hfalse

/-- The state after a packet was discarded. -/
theorem heard_discarded {s s' : State} {src : NodeId} (h : Heard s)
    (hdup : isDuplicate s src = true)
    (hd : s'.deliveries = s.deliveries ++ [⟨src, s.mrp.flowNumber, s.mrp.packetNumber, false⟩])
    (hn : s'.nbrs = s.nbrs) : Heard s' := by
  -- the flag is set, so there was a packet before
  rw [isDuplicate, Bool.and_eq_true, beq_iff_eq, Option.any_eq_true_iff_get] at hdup
  obtain ⟨hown, hsome, hflag⟩ := hdup
  have hfind : s.getNbr src = some ((s.getNbr src).get hsome) := (Option.some_get hsome).symm
  have hsrc : ((s.getNbr src).get hsome).id = src := by
    simpa using List.find?_some hfind
  obtain ⟨d₀, hd₀⟩ : ∃ d, firstFrom s.deliveries src = some d := by
    refine exists_firstFrom ?_
    rw [← hsrc]
    exact h.flag _ (List.mem_of_find?_eq_some hfind) hflag
  refine ⟨?_, ?_, ?_⟩
  · intro n hmem hflag'
    rw [hn] at hmem
    obtain ⟨d, hdel, hdsrc⟩ := h.flag n hmem hflag'
    exact ⟨d, hd ▸ List.mem_append_left _ hdel, hdsrc⟩
  · intro src' d hfirst
    rw [hd, firstFrom, List.find?_append] at hfirst
    rcases Option.or_eq_some_iff.1 hfirst with hfirst | ⟨hnone, hfirst⟩
    · exact h.first src' d hfirst
    · -- the discarded packet is not the first of its neighbor
      have hmem := List.mem_singleton.1 (List.mem_of_find?_eq_some hfirst)
      have hsrc' := List.find?_some hfirst
      rw [hmem, beq_iff_eq] at hsrc'
      dsimp only at hsrc'
      subst hsrc'
      rw [firstFrom, hnone] at hd₀
      cases hd₀
  · rw [hd]
    exact always_concat h.discarded fun _ => ⟨hown, d₀, hd₀⟩

section

variable {m : Node} {out : Out} {s : State}

/-- A request for the metric delivers nothing new. -/
theorem ext_commandInputGetMetric (hout : OutExt out) (s : State) (etxLinks : List UInt8) :
    Ext s (commandInputGetMetric m out s etxLinks) :=
  (ext_handleConvergcast hout _).after rfl rfl rfl

/-- Nor does the metric of the distributor. -/
theorem ext_commandInputSendMetricCpan (hout : OutExt out) (s : State) :
    Ext s (commandInputSendMetricCpan m out s) := by
  unfold commandInputSendMetricCpan
  dsimp only
  split_ifs
  · exact .refl s
  · split
    · exact (hout _ _ _ _).after rfl rfl rfl
    · exact .of_eq rfl rfl rfl
  · exact .of_eq rfl rfl rfl
  · exact .of_eq rfl rfl rfl

/-- Nor does the metric of a node. -/
theorem ext_commandInputSendMetricNode (hout : OutExt out) (s : State) (len : ℕ) :
    Ext s (commandInputSendMetricNode m out s len) := by
  unfold commandInputSendMetricNode
  dsimp only
  split_ifs
  · exact (ext_handleConvergcast hout _).after rfl rfl rfl
  · split
    · exact (hout _ _ _ _).after rfl rfl rfl
    · exact .of_eq rfl rfl rfl

/-- Nor does the end of the gathering. -/
theorem ext_commandInputPrepareDistributor (hout : OutExt out) (s : State) :
    Ext s (commandInputPrepareDistributor m out s) := by
  unfold commandInputPrepareDistributor
  dsimp only
  split
  · exact (hout _ _ _ _).after rfl rfl rfl
  · exact .of_eq rfl rfl rfl

/-- Nor does a request for missing metrics. -/
theorem ext_commandInputMissingMetric (hout : OutExt out) (s : State) (missing : List NodeId)
    (len : ℕ) : Ext s (commandInputMissingMetric m out s missing len) := by
  unfold commandInputMissingMetric
  split
  · exact (hout _ _ _ _).after rfl rfl rfl
  · exact (hout _ _ _ _).after rfl rfl rfl

/-- A metric packet is a delivery, and sets the flag of its sender. -/
theorem heard_commandInputSendMetric (hout : OutExt out) (h : Heard s) (len : ℕ) (src : NodeId) :
    Heard (commandInputSendMetric m out s len src).2 := by
  unfold commandInputSendMetric
  cases hdup : isDuplicate s src with
  | true => exact heard_discarded h hdup rfl rfl
  | false =>
    have hkept : ∀ s', s'.deliveries = s.deliveries ++
        [⟨src, s.mrp.flowNumber, s.mrp.packetNumber, true⟩] →
        s'.nbrs = (setMetricReceived s src).nbrs → Heard s' := fun s' => heard_accepted h
    dsimp only
    rw [if_neg Bool.false_ne_true]
    dsimp only
    split_ifs
    · refine Heard.ext ?_ (ext_commandInputSendMetricCpan hout _)
      exact hkept _ rfl rfl
    · refine Heard.ext ?_ (ext_commandInputSendMetricNode hout _ _)
      exact hkept _ rfl rfl

/-- Every command keeps the invariant. -/
theorem heard_transitionToNewState (hout : OutExt out) (h : Heard s) (src : NodeId) (len : ℕ)
    (etxLinks : List UInt8) : Heard (transitionToNewState m out s src len etxLinks) := by
  have hget : ∀ s', Heard s' → Heard (commandInputGetMetric m out s' etxLinks) := fun s' h' =>
    h'.ext (ext_commandInputGetMetric hout s' etxLinks)
  have hstate : ∀ s' p, Heard s' → Heard (handleStateChange s' p) := fun s' p h' =>
    h'.ext (.of_eq rfl rfl rfl)
  -- Only two commands bring a metric; the others deliver nothing.
  unfold transitionToNewState
  split
  · exact hget _ (hstate s _ h)
  · split
    · exact h.ext (.of_eq rfl rfl rfl)
    · split_ifs
      · exact h
      · exact hget _ (hstate _ _ (heard_updateTimeSource h m src))
  · exact heard_commandInputSendMetric hout h len src
  · exact heard_commandInputSendMetric hout h len src
  · exact heard_commandInputSendMetric hout h len src
  · exact hget _ (heard_updateTimeSource h m src)
  · exact h.ext (ext_commandInputPrepareDistributor hout s)
  · exact h.ext (ext_commandInputPrepareDistributor hout s)
  · exact h.ext (ext_commandInputPrepareDistributor hout s)
  · exact h.ext (ext_commandInputPrepareDistributor hout s)
  · exact h.ext (.of_eq rfl rfl rfl)
  · dsimp only
    split_ifs
    · exact hstate _ _ (heard_commandInputSendMetric hout h len src)
    · exact heard_commandInputSendMetric hout h len src
  · split_ifs
    · exact h
    · have hignore : Heard { s with ignoreMissing := true } := h.ext (.of_eq rfl rfl rfl)
      dsimp only
      split
      · exact hignore.ext (.of_eq rfl rfl rfl)
      · split_ifs
        · exact hget _ (heard_updateTimeSource hignore m src)
        · exact hignore.ext (ext_commandInputMissingMetric hout _ _ _)
  · exact h

end

/-- The start of the gathering delivers nothing new. -/
theorem ext_masterStartMetricGathering {m : Node} {out : Out} (hout : OutExt out) (s : State) :
    Ext s (masterStartMetricGathering m out s) := by
  unfold masterStartMetricGathering
  dsimp only
  have hnext := (ext_hasNextNeighbor m { handleStateChange s .pollNeighbour with
    metricReceived := setBit s.metricReceived (m.nodeId - 1) }).after (s := s) rfl rfl rfl
  split_ifs
  · exact hnext
  · exact hnext.trans (ext_handleConvergcast hout _)

/-- A beacon keeps the invariant. -/
theorem heard_ebInput {m : Node} {s : State} (h : Heard s) (src : NodeId)
    (etxLink rank timeSource : ℕ) (switch : Bool) :
    Heard (ebInput m s src etxLink rank timeSource switch) := by
  unfold ebInput
  have htable : Heard { s with
      nbrs := (addNbr s.nbrs src).map fun n =>
        if n.id = src then { n with etxLink := etxLink, rank := rank, timeSource := timeSource }
        else n } := by
    refine h.quiet rfl (noNewFlag_map (fun n => ?_) rfl)
    split_ifs <;> exact ⟨rfl, rfl⟩
  dsimp only
  split_ifs
  · exact heard_updateTimeSource htable m src
  · exact htable

/-- Clearing the flags sets none. -/
theorem noNewFlag_resetNbrMetricReceived (s : State) :
    NoNewFlag s (resetNbrMetricReceived s) := by
  intro n' hn' hflag
  obtain ⟨n, _, rfl⟩ := List.mem_map.1 hn'
  cases hflag

/-- Every event keeps the invariant. -/
theorem Heard.step {m : Node} {s t : State} {e : Event} (h : Heard s)
    (hstep : Gather.step m s e = some t) : Heard t := by
  replace hstep := act_of_step hstep
  -- Only an input delivers, and only its sender is flagged.
  unfold act at hstep
  cases e with
  | start macs =>
    dsimp only at hstep
    split_ifs at hstep
    cases hstep
    exact h.ext (ext_masterStartMetricGathering (outExt_output m macs) s)
  | input src p etxLinks macs =>
    dsimp only at hstep
    split_ifs at hstep
    cases hstep
    refine heard_transitionToNewState (outExt_output m macs) ?_ _ _ _
    exact h.ext (.of_eq rfl rfl rfl)
  | done dest status =>
    dsimp only at hstep
    split at hstep
    · cases hstep
    · cases hstep
      exact h.ext (.of_eq rfl rfl rfl)
  | sent macs =>
    dsimp only at hstep
    split at hstep
    · cases hstep
    · cases hstep
      exact h.ext ((ext_outputCallback (outExt_output m macs) _ _ _).after rfl rfl rfl)
  | beacon src etxLink rank timeSource switch =>
    cases hstep
    exact heard_ebInput h _ _ _ _ _
  | missingMetricTimeout macs =>
    dsimp only at hstep
    split_ifs at hstep
    cases hstep
    exact h.ext ((outExt_output m macs _ _ _ _).after rfl rfl rfl)
  | activateMissingMetricRequests =>
    cases hstep
    exact h.ext (.of_eq rfl rfl rfl)
  | disseminate phase =>
    dsimp only at hstep
    split_ifs at hstep
    · cases hstep
      have hsame : Ext s (handleStateChange s phase) := .of_eq rfl rfl rfl
      exact (h.ext hsame).quiet rfl
        (noNewFlag_resetNbrMetricReceived _)
    · cases hstep
      exact h.ext (.of_eq rfl rfl rfl)

/-- Nothing was delivered at first. -/
theorem heard_initState (cfg : Config) : Heard (initState cfg) := by
  refine ⟨?_, ?_, always_nil⟩
  · intro n hn
    cases hn
  · intro src d h
    cases h

/-! ## Runs -/

/-- In every run in which the own metrics of a neighbor repeat its first packet,
only duplicates are discarded. -/
theorem discards_are_duplicates (m : Node) (s : State)
    (hrun : Run (Gather.step m) (fun _ _ => True) (initState m.cfg) s)
    (hown : OwnMetricFirst s.deliveries) : DiscardsAreDuplicates s.deliveries := by
  have h : Heard s :=
    hrun.invariant (fun _ _ _ h _ hstep => h.step hstep) (heard_initState m.cfg)
  intro pre d post hsplit hdiscarded
  obtain ⟨hflow, d₀, hd₀⟩ := h.discarded pre d post hsplit hdiscarded
  have hsame := hown pre d post hsplit hflow d₀ hd₀
  refine ⟨d₀, List.mem_of_find?_eq_some hd₀, ?_, ?_, hsame.1, hsame.2⟩
  · refine h.first d.src d₀ ?_
    rw [hsplit]
    exact firstFrom_append hd₀ _
  · simpa using List.find?_some hd₀

/-- Node 5 between the coordinator 1 and node 6. -/
def relay : Node := ⟨defaultConfig .cooja, 5, false, 2, 26⟩

/-- Node 5 is polled, polls node 6 and gets its metric, with packet number 1. -/
def relayEvents : List Event :=
  [.beacon 1 1500 0 0 true, .beacon 6 1500 2 5 false, .input 1 ⟨1, 1, .etxMetricGet, []⟩ [1] [],
    .done (some 1) .ok, .sent [], .done (some 6) .ok, .sent [],
    .input 6 ⟨6, 1, .etxMetricSend, [5]⟩ [] [], .done (some 1) .ok, .sent []]

/-- Node 6 did not get the acknowledgement and repeats its metric. -/
theorem discards_are_duplicates_repeated :
    ∃ s, Run (Gather.step relay) (fun _ _ => True) (initState relay.cfg) s ∧
      s.deliveries = [⟨6, 6, 1, true⟩, ⟨6, 6, 1, false⟩] ∧ OwnMetricFirst s.deliveries ∧
      DiscardsAreDuplicates s.deliveries := by
  obtain ⟨s, hrun, hs⟩ := exists_run_of_runEvents (Gather.step relay) (fun _ _ => True)
    (initState relay.cfg) (relayEvents ++ [.input 6 ⟨6, 1, .etxMetricSend, [5]⟩ [] []])
    (fun s => s.deliveries = [⟨6, 6, 1, true⟩, ⟨6, 6, 1, false⟩]) (by decide)
  have hown : OwnMetricFirst s.deliveries := by
    rw [hs]
    refine always_concat (l := [(⟨6, 6, 1, true⟩ : Delivery)])
      (always_concat (l := []) always_nil ?_) ?_
    · intro _ d₀ hd₀
      cases hd₀
    · intro _ d₀ hd₀
      cases hd₀
      exact ⟨rfl, rfl⟩
  exact ⟨s, hrun, hs, hown, discards_are_duplicates relay s hrun hown⟩

/-- The metric of node 6 got lost further up. The coordinator asks for it, node 5
asks node 6, and drops the new metric, with packet number 2. -/
theorem fresh_metric_discarded :
    ∃ s, Run (Gather.step relay) (fun _ _ => True) (initState relay.cfg) s ∧
      ¬ DiscardsAreDuplicates s.deliveries := by
  obtain ⟨s, hrun, hs⟩ := exists_run_of_runEvents (Gather.step relay) (fun _ _ => True)
    (initState relay.cfg)
    (relayEvents ++ [.input 1 ⟨1, 2, .etxMetricMissing, [1, 6]⟩ [] [], .done (some 6) .ok, .sent [],
      .input 6 ⟨6, 2, .etxMetricSend, [5]⟩ [] []])
    (fun s => s.deliveries = [⟨6, 6, 1, true⟩, ⟨6, 6, 2, false⟩]) (by decide)
  refine ⟨s, hrun, ?_⟩
  intro h
  obtain ⟨d, hd, _, _, _, hnumber⟩ := h [⟨6, 6, 1, true⟩] ⟨6, 6, 2, false⟩ [] hs rfl
  rw [List.mem_singleton] at hd
  subst hd
  cases hnumber

end MasterScheduler.Mote.Gather
