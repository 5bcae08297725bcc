import MasterScheduler.Lib.Ranked
import MasterScheduler.Lib.Transition
import MasterScheduler.Mote.Routing

/-!
# MasterScheduler.Network.TimeSource — the tree of time sources

Every node but the coordinator follows a time source. It takes the sender of the
first beacon it hears in `tsch_associate`, and another one in `eb_input` when a
beacon tells of a better rank, or of the same rank over a better link.

- A beacon carries the rank its sender had when `tsch_packet_create_eb` ran. It
  may wait in a queue and be received late, by some nodes and not by others.
- The slot numbers of beacons agree, so nobody leaves the network. Joining may
  fail for other reasons, which is no step here.
- `Inv`: a node has a greater rank than its time source.
- `acyclic_of_run`: runs in which the time sources lead to the coordinator.
- `siblings_follow_each_other`: a run in which they do not.
-/

namespace MasterScheduler.Network.TimeSource

open Lib Mote

/-- The constants of the build, and the nodes besides the coordinator. -/
structure Net where
  /-- `MASTER_TSCH_COORDINATOR`. -/
  coordinator : NodeId
  /-- `MASTER_TSCH_DISTRIBUTOR`. -/
  distributor : NodeId
  nodes : List NodeId
  coordinator_notMem : coordinator ∉ nodes

/-- What is used of `struct tsch_neighbor`; `memset` clears a new one. -/
structure Entry where
  rank : ℕ
  etxLink : ℕ
deriving DecidableEq, Repr

/-- One node; without a time source it has not joined yet. -/
structure NodeState where
  timeSource : Option NodeId
  /-- `tsch_rank`, a byte. -/
  rank : ℕ
  nbrs : NodeId → Entry

/-- A beacon, as far as ranks are concerned. -/
structure Beacon where
  src : NodeId
  rank : ℕ
deriving DecidableEq, Repr

structure State where
  nodes : NodeId → NodeState
  /-- All beacons that were ever created. -/
  beacons : List Beacon

/-- `tsch_set_rank(0)` at the coordinator, `tsch_rank = 255` elsewhere. -/
def initState (net : Net) : State where
  nodes := fun v => ⟨none, if v = net.coordinator then 0 else 255, fun _ => ⟨0, 0⟩⟩
  beacons := []

/-- The node is part of the network. -/
def State.Joined (net : Net) (s : State) (v : NodeId) : Prop :=
  v = net.coordinator ∨ (s.nodes v).timeSource ≠ none

instance (net : Net) (s : State) (v : NodeId) : Decidable (s.Joined net v) :=
  inferInstanceAs (Decidable (_ ∨ _))

/-- The end of `tsch_associate`; `etxLink` is what `neighbor_discovery_input` computes. -/
def associate (node : NodeState) (b : Beacon) (etxLink : ℕ) : NodeState where
  timeSource := some b.src
  rank := (b.rank + 1) % 256
  nbrs := Function.update node.nbrs b.src ⟨b.rank, etxLink⟩

/-- The neighbor in `eb_input` after its link quality and rank were updated. -/
def heard (b : Beacon) (etxLink : ℕ) : Entry := ⟨b.rank, etxLink⟩

/-- `nbr_closer_to_cpan`. -/
def nbrCloserToCpan (n ts : Entry) : Bool := n.rank < ts.rank && n.etxLink < 2000

/-- `nbr_is_better`. -/
def nbrIsBetter (rank : ℕ) (n ts : Entry) : Bool :=
  n.rank == rank && n.etxLink < ts.etxLink && 2000 < ts.etxLink

/-- The node may follow the sender of the beacon at all. -/
def eligible (net : Net) (v : NodeId) (b : Beacon) (etxLink : ℕ) : Bool :=
  v != net.coordinator && v != net.distributor && etxLink != 0 && b.src != net.distributor

/-- The conditions for a change of the time source, while `tsch_change_time_source_active`. -/
def switches (net : Net) (v : NodeId) (node : NodeState) (ts : NodeId) (b : Beacon)
    (etxLink : ℕ) : Bool :=
  eligible net v b etxLink &&
    (nbrCloserToCpan (heard b etxLink) (node.nbrs ts) ||
      nbrIsBetter node.rank (heard b etxLink) (node.nbrs ts))

/-- `eb_input`, for a node with a time source. -/
def ebInput (net : Net) (v : NodeId) (node : NodeState) (ts : NodeId) (b : Beacon) (etxLink : ℕ) :
    NodeState :=
  if b.src = ts then
    -- the rank of the time source is not updated
    { node with nbrs := Function.update node.nbrs ts ⟨(node.nbrs ts).rank, etxLink⟩ }
  else
    let node := { node with nbrs := Function.update node.nbrs b.src (heard b etxLink) }
    if switches net v node ts b etxLink then
      { node with timeSource := some b.src, rank := (b.rank + 1) % 256 }
    else node

inductive Event where
  /-- `tsch_packet_create_eb`. -/
  | createEb (v : NodeId)
  | associate (v : NodeId) (b : Beacon) (etxLink : ℕ)
  | ebInput (v : NodeId) (b : Beacon) (etxLink : ℕ)
deriving DecidableEq, Repr

def setNode (s : State) (v : NodeId) (node : NodeState) : State :=
  { s with nodes := Function.update s.nodes v node }

/-- What an event does, if it can happen. -/
def step (net : Net) (s : State) : Event → Option State
  | .createEb v =>
      if s.Joined net v then some { s with beacons := ⟨v, (s.nodes v).rank⟩ :: s.beacons } else none
  | .associate v b etxLink =>
      -- nobody joins at the distributor, which itself joins at the coordinator only
      if v ∈ net.nodes ∧ (s.nodes v).timeSource = none ∧ b ∈ s.beacons ∧
          b.src ≠ net.distributor ∧ (v = net.distributor → b.src = net.coordinator) then
        some (setNode s v (associate (s.nodes v) b etxLink))
      else none
  | .ebInput v b etxLink =>
      match (s.nodes v).timeSource with
      | none => none
      | some ts =>
          if b ∈ s.beacons ∧ b.src ≠ v then
            some (setNode s v (ebInput net v (s.nodes v) ts b etxLink))
          else none

/-! ## Time sources lead to the coordinator -/

/-- The time source, or the node itself if it has none. -/
def follow (s : State) (v : NodeId) : NodeId := (s.nodes v).timeSource.getD v

/-- Following the time sources meets no node twice and ends at the coordinator. -/
def Acyclic (net : Net) (s : State) : Prop :=
  ∀ v, (s.nodes v).timeSource ≠ none →
    (∀ k > 0, (follow s)^[k] v ≠ v) ∧ ∃ k, (follow s)^[k] v = net.coordinator

/-- The beacon tells of no smaller rank than its sender has by now, and the rank of a
follower still fits a byte. -/
def UpToDate (s : State) (b : Beacon) : Prop := (s.nodes b.src).rank ≤ b.rank ∧ b.rank < 255

/-- Nobody has the node as its time source. -/
def Childless (net : Net) (s : State) (v : NodeId) : Prop :=
  ∀ w ∈ net.nodes, (s.nodes w).timeSource ≠ some v

/-- Nodes act on beacons that are up to date only, and a node that others follow does not
change to a neighbor of its own rank. -/
def Orderly (net : Net) (s : State) : Event → Prop
  | .createEb _ => True
  | .associate _ b _ => UpToDate s b
  | .ebInput v b etxLink =>
      ∀ ts ∈ (s.nodes v).timeSource, b.src ≠ ts →
        switches net v (s.nodes v) ts b etxLink = true →
        UpToDate s b ∧
          (nbrIsBetter (s.nodes v).rank (heard b etxLink) ((s.nodes v).nbrs ts) = true →
            Childless net s v)

/-! ## The invariant -/

structure Inv (net : Net) (s : State) : Prop where
  coordinator : (s.nodes net.coordinator).timeSource = none
  mem : ∀ v, (s.nodes v).timeSource ≠ none → v ∈ net.nodes
  /-- A node has a greater rank than its time source, by one than it had at first. -/
  source : ∀ v u, (s.nodes v).timeSource = some u →
    s.Joined net u ∧ (s.nodes u).rank < (s.nodes v).rank ∧
      ((s.nodes v).nbrs u).rank + 1 = (s.nodes v).rank
  beacon : ∀ b ∈ s.beacons, s.Joined net b.src

section

variable {net : Net} {s : State}

theorem Inv.ranked (h : Inv net s) :
    Ranked (follow s) net.coordinator (fun v => (s.nodes v).rank) (s.Joined net) := by
  have hfollow : ∀ v, s.Joined net v → v ≠ net.coordinator →
      ∃ u, (s.nodes v).timeSource = some u ∧ follow s v = u := by
    intro v hv hne
    rcases Option.ne_none_iff_exists'.1 (hv.resolve_left hne) with ⟨u, hu⟩
    exact ⟨u, hu, by rw [follow, hu, Option.getD_some]⟩
  refine ⟨fun v hv hne => ?_, fun v hv hne => ?_, ?_⟩
  · rcases hfollow v hv hne with ⟨u, hu, heq⟩
    rw [heq]
    exact (h.source v u hu).1
  · rcases hfollow v hv hne with ⟨u, hu, heq⟩
    rw [heq]
    exact (h.source v u hu).2.1
  · rw [follow, h.coordinator, Option.getD_none]

theorem Inv.acyclic (h : Inv net s) : Acyclic net s := by
  intro v hv
  have hne : v ≠ net.coordinator := by
    rintro rfl
    exact hv h.coordinator
  exact ⟨fun k hk => iterate_ne_self h.ranked hk (.inr hv) hne,
    exists_iterate_eq_root h.ranked (.inr hv)⟩

theorem nodes_setNode_self (v : NodeId) (x : NodeState) : (setNode s v x).nodes v = x :=
  Function.update_self _ _ _

theorem nodes_setNode_of_ne {v w : NodeId} (h : w ≠ v) (x : NodeState) :
    (setNode s v x).nodes w = s.nodes w :=
  Function.update_of_ne h _ _

/-- A node gets a time source, of a smaller rank than its own, which in turn stays below
the ranks of those that follow the node. -/
theorem Inv.setNode (h : Inv net s) {v u : NodeId} {x : NodeState} (hv : v ∈ net.nodes)
    (hts : x.timeSource = some u) (hu : s.Joined net u) (hne : u ≠ v)
    (hrank : (s.nodes u).rank < x.rank) (htable : (x.nbrs u).rank + 1 = x.rank)
    (hchildren : ∀ w, (s.nodes w).timeSource = some v → x.rank < (s.nodes w).rank) :
    Inv net (setNode s v x) := by
  have hcoord : net.coordinator ≠ v := fun heq => net.coordinator_notMem (heq ▸ hv)
  -- A node that has joined stays joined.
  have hjoined : ∀ w, s.Joined net w → (TimeSource.setNode s v x).Joined net w := by
    intro w hw
    by_cases hwv : w = v
    · right
      rw [hwv, nodes_setNode_self, hts]
      exact Option.some_ne_none u
    · refine hw.imp_right fun hne => ?_
      rwa [nodes_setNode_of_ne hwv]
  refine ⟨?_, fun w hw => ?_, fun w t hw => ?_, fun b hb => hjoined _ (h.beacon b hb)⟩
  · rw [nodes_setNode_of_ne hcoord]
    exact h.coordinator
  · by_cases hwv : w = v
    · exact hwv ▸ hv
    · rw [nodes_setNode_of_ne hwv] at hw
      exact h.mem w hw
  -- The node itself is ranked behind its new time source, by assumption.
  · by_cases hwv : w = v
    · subst hwv
      rw [nodes_setNode_self, hts] at hw
      cases hw
      rw [nodes_setNode_self, nodes_setNode_of_ne hne]
      exact ⟨hjoined u hu, hrank, htable⟩
    · rw [nodes_setNode_of_ne hwv] at hw ⊢
      rcases h.source w t hw with ⟨ht, hlt, htab⟩
      refine ⟨hjoined t ht, ?_, htab⟩
      by_cases htv : t = v
      · subst htv
        rw [nodes_setNode_self]
        exact hchildren w hw
      · rw [nodes_setNode_of_ne htv]
        exact hlt

/-- Nobody follows a node that has not joined. -/
theorem Inv.no_child (h : Inv net s) {v w : NodeId} (hv : v ∈ net.nodes)
    (hnone : (s.nodes v).timeSource = none) : (s.nodes w).timeSource ≠ some v := by
  intro hw
  rcases (h.source w v hw).1 with rfl | hne
  · exact net.coordinator_notMem hv
  · exact hne hnone

theorem Inv.associate (h : Inv net s) {v : NodeId} {b : Beacon} {etxLink : ℕ} (hv : v ∈ net.nodes)
    (hnone : (s.nodes v).timeSource = none) (hb : b ∈ s.beacons) (hdate : UpToDate s b) :
    Inv net (TimeSource.setNode s v (associate (s.nodes v) b etxLink)) := by
  have hrank : (b.rank + 1) % 256 = b.rank + 1 := Nat.mod_eq_of_lt (by have := hdate.2; omega)
  have hjoined := h.beacon b hb
  have hne : b.src ≠ v := by
    rintro rfl
    rcases hjoined with heq | hsome
    · exact net.coordinator_notMem (heq ▸ hv)
    · exact hsome hnone
  refine h.setNode hv rfl hjoined hne ?_ ?_ fun w hw => absurd hw (h.no_child hv hnone)
  · show (s.nodes b.src).rank < (b.rank + 1) % 256
    rw [hrank]
    exact Nat.lt_succ_of_le hdate.1
  · show ((Function.update (s.nodes v).nbrs b.src ⟨b.rank, etxLink⟩) b.src).rank + 1 =
      (b.rank + 1) % 256
    rw [Function.update_self, hrank]

/-- The entry of another neighbor does not matter. -/
theorem switches_update {v ts : NodeId} {node : NodeState} {b : Beacon} {etxLink : ℕ}
    (hne : b.src ≠ ts) (e : Entry) :
    switches net v { node with nbrs := Function.update node.nbrs b.src e } ts b etxLink =
      switches net v node ts b etxLink := by
  unfold switches
  dsimp only
  rw [Function.update_of_ne hne.symm]

/-- A change to a time source nearer to the coordinator makes the rank smaller, and one
to a neighbor of the same rank has no followers to care for. -/
theorem Inv.rank_lt_children (h : Inv net s) {v ts : NodeId} {b : Beacon} {etxLink : ℕ}
    (hts : (s.nodes v).timeSource = some ts)
    (hswitch : switches net v (s.nodes v) ts b etxLink = true)
    (hchildless : nbrIsBetter (s.nodes v).rank (heard b etxLink) ((s.nodes v).nbrs ts) = true →
      Childless net s v) (w : NodeId) (hw : (s.nodes w).timeSource = some v) :
    b.rank + 1 < (s.nodes w).rank := by
  unfold switches at hswitch
  rw [Bool.and_eq_true, Bool.or_eq_true] at hswitch
  rcases hswitch.2 with hcloser | hbetter
  · have hlt : b.rank < ((s.nodes v).nbrs ts).rank := by
      unfold nbrCloserToCpan at hcloser
      rw [Bool.and_eq_true, decide_eq_true_iff] at hcloser
      exact hcloser.1
    have htable := (h.source v ts hts).2.2
    have hchild := (h.source w v hw).2.1
    omega
  · exact absurd hw (hchildless hbetter w (h.mem w (hw ▸ Option.some_ne_none v)))

theorem Inv.ebInput (h : Inv net s) {v ts : NodeId} {b : Beacon} {etxLink : ℕ}
    (hts : (s.nodes v).timeSource = some ts) (hb : b ∈ s.beacons) (hne : b.src ≠ v)
    (hok : Orderly net s (.ebInput v b etxLink)) :
    Inv net (TimeSource.setNode s v (ebInput net v (s.nodes v) ts b etxLink)) := by
  have hv : v ∈ net.nodes := h.mem v (hts ▸ Option.some_ne_none ts)
  rcases h.source v ts hts with ⟨hjoined, hlt, htable⟩
  have htsv : ts ≠ v := by
    rintro rfl
    exact Nat.lt_irrefl _ hlt
  have hsame : ∀ x : NodeState, x.timeSource = some ts → x.rank = (s.nodes v).rank →
      (x.nbrs ts).rank = ((s.nodes v).nbrs ts).rank → Inv net (TimeSource.setNode s v x) := by
    intro x hx hrank hentry
    refine h.setNode hv hx hjoined htsv (hrank ▸ hlt) (by rw [hentry, hrank, htable]) ?_
    intro w hw
    rw [hrank]
    exact (h.source w v hw).2.1
  unfold TimeSource.ebInput
  -- A beacon of the time source is noted in the table; another sender may take its place.
  by_cases hsrc : b.src = ts
  · rw [if_pos hsrc]
    refine hsame _ hts rfl ?_
    dsimp only
    rw [Function.update_self]
  rw [if_neg hsrc]
  dsimp only
  rw [switches_update hsrc]
  split_ifs with hswitch
  · rcases hok ts hts hsrc hswitch with ⟨hdate, hchildless⟩
    have hrank : (b.rank + 1) % 256 = b.rank + 1 := Nat.mod_eq_of_lt (by have := hdate.2; omega)
    refine h.setNode hv rfl (h.beacon b hb) hne ?_ ?_ ?_
    · dsimp only
      rw [hrank]
      exact Nat.lt_succ_of_le hdate.1
    · dsimp only
      rw [Function.update_self, hrank]
      rfl
    · intro w hw
      dsimp only
      rw [hrank]
      exact h.rank_lt_children hts hswitch hchildless w hw
  · refine hsame _ hts rfl ?_
    dsimp only
    rw [Function.update_of_ne (Ne.symm hsrc)]

theorem Inv.step (h : Inv net s) {t : State} {e : Event} (hok : Orderly net s e)
    (hstep : TimeSource.step net s e = some t) : Inv net t := by
  unfold TimeSource.step at hstep
  cases e with
  | createEb v =>
    dsimp only at hstep
    split_ifs at hstep with hv
    cases hstep
    refine ⟨h.coordinator, h.mem, h.source, fun b hb => ?_⟩
    rcases List.mem_cons.1 hb with rfl | hb
    · exact hv
    · exact h.beacon b hb
  | associate v b etxLink =>
    dsimp only at hstep
    split_ifs at hstep with hguard
    cases hstep
    exact h.associate hguard.1 hguard.2.1 hguard.2.2.1 hok
  | ebInput v b etxLink =>
    dsimp only at hstep
    split at hstep
    · cases hstep
    · rename_i ts hts
      split_ifs at hstep with hguard
      cases hstep
      exact h.ebInput hts hguard.1 hguard.2 hok

theorem inv_initState (net : Net) : Inv net (initState net) where
  coordinator := rfl
  mem v hv := absurd rfl hv
  source v u h := by cases h
  beacon b hb := by cases hb

end

/-! ## Runs -/

/-- In every orderly run the time sources lead to the coordinator. -/
theorem acyclic_of_run (net : Net) (s : State)
    (hrun : Run (TimeSource.step net) (Orderly net) (initState net) s) : Acyclic net s :=
  (hrun.invariant (fun _ _ _ h hok hstep => h.step hok hstep) (inv_initState net)).acyclic

/-- The coordinator 1, the distributor 2, and two nodes near the coordinator. -/
def siblings : Net := ⟨1, 2, [3, 4], by decide⟩

/-- Both nodes join at the coordinator over a bad link, and send a beacon. -/
def siblingEvents : List Event :=
  [.createEb 1, .associate 3 ⟨1, 0⟩ 3000, .associate 4 ⟨1, 0⟩ 3000, .createEb 3, .createEb 4]

instance (s : State) (b : Beacon) : Decidable (UpToDate s b) := inferInstanceAs (Decidable (_ ∧ _))

instance (net : Net) (s : State) (v : NodeId) : Decidable (Childless net s v) :=
  inferInstanceAs (Decidable (∀ w ∈ net.nodes, _))

instance (net : Net) (s : State) : ∀ e, Decidable (Orderly net s e)
  | .createEb _ => isTrue trivial
  | .associate _ b _ => inferInstanceAs (Decidable (UpToDate s b))
  | .ebInput v _ _ => inferInstanceAs (Decidable (∀ ts ∈ (s.nodes v).timeSource, _))

/-- Node 3 hears a beacon of its sibling, and changes to it. -/
theorem acyclic_of_run_sibling :
    ∃ s, Run (TimeSource.step siblings) (Orderly siblings) (initState siblings) s ∧
      (s.nodes 3).timeSource = some 4 ∧ Acyclic siblings s := by
  obtain ⟨s, hrun, hs⟩ := exists_run_of_runEvents (TimeSource.step siblings) (Orderly siblings)
    (initState siblings) (siblingEvents ++ [.ebInput 3 ⟨4, 1⟩ 1000])
    (fun s => (s.nodes 3).timeSource = some 4) (by decide)
  exact ⟨s, hrun, hs, acyclic_of_run siblings s hrun⟩

/-- Then node 4 hears the beacon that node 3 sent before, and changes to node 3. -/
theorem siblings_follow_each_other :
    ∃ s, Run (TimeSource.step siblings) (fun _ _ => True) (initState siblings) s ∧
      ¬ Acyclic siblings s := by
  obtain ⟨s, hrun, h3, h4⟩ := exists_run_of_runEvents (TimeSource.step siblings)
    (fun _ _ => True) (initState siblings)
    (siblingEvents ++ [.ebInput 3 ⟨4, 1⟩ 1000, .ebInput 4 ⟨3, 1⟩ 1000])
    (fun s => (s.nodes 3).timeSource = some 4 ∧ (s.nodes 4).timeSource = some 3)
    (by decide)
  refine ⟨s, hrun, fun h => ?_⟩
  refine (h 3 (by rw [h3]; exact Option.some_ne_none 4)).1 2 (by decide) ?_
  show follow s (follow s 3) = 3
  unfold follow
  rw [h3, Option.getD_some, h4, Option.getD_some]

end MasterScheduler.Network.TimeSource
