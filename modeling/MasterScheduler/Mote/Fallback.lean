import MasterScheduler.Lib.Transition
import MasterScheduler.Mote.Associate

/-!
# MasterScheduler.Mote.Fallback — the neighbor to resynchronize on

A node keeps the sender and the join priority of a beacon in
`last_eb_nbr_addr` and `last_eb_nbr_jp`, to switch to that neighbor when the
keep-alives to its time source fail. Whether a beacon is kept depends on the
address that was kept before, where its own sender was meant.

1. **Model**: `eb_input`, `keepalive_packet_sent` and the changes of the time
   source by the routing layer, on one node since it joined.
2. **Step**: `step_kept_iff`, the beacons for which the guard is right.
3. **Runs**: `kept_of_run`.

The schedule callbacks of `eb_input` are left to the events of the routing
layer. `neighbor_discovery_input` computes the link quality; its result is part
of an event.
-/

namespace MasterScheduler.Mote.Fallback

open Lib Frame802154 Elements Hopping RxPending Associate

/-! ## Model -/

/-- The fields of `struct tsch_neighbor` that are used. -/
structure Nbr where
  addr : Linkaddr
  isTimeSource : Bool
  rank : UInt8
  timeSource : UInt8
  etxLink : ℕ
deriving DecidableEq, Repr

structure Node where
  lastEbNbrAddr : Linkaddr
  lastEbNbrJp : UInt8
  nbrs : List Nbr
  tschRank : UInt8
  tschJoinPriority : UInt8
  tschIsAssociated : Bool
  tschIsCoordinator : Bool
  tschChangeTimeSourceActive : Bool
  syncCount : ℕ
deriving DecidableEq, Repr

/-- `tsch_queue_get_time_source`. -/
def tschQueueGetTimeSource (nbrs : List Nbr) : Option Nbr := nbrs.find? (·.isTimeSource)

/-- The address of the time source. -/
def Node.ts (node : Node) : Option Linkaddr := (tschQueueGetTimeSource node.nbrs).map Nbr.addr

/-- `tsch_queue_add_nbr`: none without room for a new neighbor. -/
def tschQueueAddNbr (maxNbrs : ℕ) (nbrs : List Nbr) (addr : Linkaddr) : Option (List Nbr) :=
  if nbrs.any (·.addr == addr) then some nbrs
  else if nbrs.length < maxNbrs then some (nbrs ++ [⟨addr, false, 0, 0, 0⟩])
  else none

/-- An assignment to the entry with an address. -/
def modifyNbr (nbrs : List Nbr) (addr : Linkaddr) (f : Nbr → Nbr) : List Nbr :=
  nbrs.map fun n => if n.addr = addr then f n else n

/-- `tsch_queue_update_time_source` with an address. -/
def tschQueueUpdateTimeSource (maxNbrs : ℕ) (node : Node) (newAddr : Linkaddr) : Node :=
  if node.tschIsCoordinator then node
  else
    match tschQueueAddNbr maxNbrs node.nbrs newAddr with
    | none => node
    | some nbrs =>
        match node.ts with
        | none => { node with
            nbrs := modifyNbr nbrs newAddr fun n => { n with isTimeSource := true } }
        | some old =>
            if newAddr = old then { node with nbrs := nbrs }
            else { node with
              nbrs := modifyNbr (modifyNbr nbrs newAddr fun n => { n with isTimeSource := true })
                old fun n => { n with isTimeSource := false } }

/-- The guard of `eb_input`, which compares the address kept so far with the time source. -/
def keeps (node : Node) : Bool :=
  match node.ts with
  | none => true
  | some ts => node.lastEbNbrAddr != ts

/-- The first part of `eb_input`. -/
def keepEb (node : Node) (frame : Frame802154.Frame) (ies : Ies) : Node :=
  if keeps node then
    { node with lastEbNbrAddr := frame.srcAddr, lastEbNbrJp := ies.ieJoinPriority }
  else node

/-- The part of `eb_input` on a beacon of the time source. -/
def followEb (node : Node) (rxAsn : Asn) (ies : Ies) : Node :=
  if rxAsn.ls4b - ies.ieAsn.ls4b ≠ 0 ∨ tschMaxJoinPriority ≤ ies.ieJoinPriority then
    { node with tschIsAssociated := false }
  else node

/-- The part of `eb_input` on a beacon of another neighbor; none for a read through the null
pointer of a missing time source. -/
def compareEb (cfg : Associate.Config) (maxNbrs : ℕ) (node : Node) (frame : Frame802154.Frame) (ies : Ies)
    (etxLink : ℕ) : Option Node :=
  let id (addr : Linkaddr) := addr.u8.getD cfg.nodeIdIndex 0
  let node := { node with
    nbrs := modifyNbr node.nbrs frame.srcAddr fun n =>
      { n with rank := ies.ieRank, timeSource := ies.ieTimeSource } }
  if node.tschIsCoordinator ∨ id cfg.linkaddrNodeAddr = cfg.distributor ∨ etxLink = 0 ∨
      id frame.srcAddr = cfg.distributor then some node
  else
    match tschQueueGetTimeSource node.nbrs with
    | none => none
    | some ts =>
        let nbrCloserToCpan := ies.ieRank < ts.rank && etxLink < 2000
        let nbrIsBetter := ies.ieRank == node.tschRank && etxLink < ts.etxLink && 2000 < ts.etxLink
        if frame.srcAddr ≠ ts.addr ∧ node.tschChangeTimeSourceActive ∧
            (nbrCloserToCpan || nbrIsBetter) then
          some { tschQueueUpdateTimeSource maxNbrs node frame.srcAddr with
            tschRank := ies.ieRank + 1 }
        else some node

/-- `eb_input` behind `tsch_packet_parse_eb`; the link quality is what
`neighbor_discovery_input` leaves. -/
def ebInput (cfg : Associate.Config) (maxNbrs : ℕ) (node : Node) (rxAsn : Asn) (frame : Frame802154.Frame)
    (ies : Ies) (etxLink : ℕ) : Option Node :=
  let ts := node.ts
  let node := keepEb node frame ies
  let added := tschQueueAddNbr maxNbrs node.nbrs frame.srcAddr
  let node :=
    match added with
    | none => node
    | some nbrs => { node with
        nbrs := modifyNbr nbrs frame.srcAddr fun n => { n with etxLink := etxLink } }
  if ts = some frame.srcAddr then some (followEb node rxAsn ies)
  else if added = none then some node
  else compareEb cfg maxNbrs node frame ies etxLink

/-- `keepalive_packet_sent`: the node behind it, and the neighbor it resynchronizes on. -/
def keepalivePacketSent (maxNbrs : ℕ) (node : Node) (ok : Bool) : Option (Node × Option Linkaddr) :=
  if ok then some (node, none)
  else if node.lastEbNbrAddr = linkaddrNull then
    some (if node.syncCount = 0 then { node with tschIsAssociated := false } else node, none)
  else
    let node := tschQueueUpdateTimeSource maxNbrs node node.lastEbNbrAddr
    match tschQueueGetTimeSource node.nbrs with
    | none => none
    | some ts =>
        some ({ node with
          tschRank := ts.rank + 1, tschJoinPriority := node.lastEbNbrJp + 1 },
          some node.lastEbNbrAddr)

/-- A change to another neighbor because of failing keep-alives. -/
structure Resync where
  failed : Option Linkaddr
  chosen : Linkaddr
deriving DecidableEq

structure State where
  node : Node
  /-- Sender and join priority of the most recent beacon since the node has joined that was not
  from its time source at that moment. -/
  recent : Option (Linkaddr × UInt8)
  resyncs : List Resync
deriving DecidableEq

inductive Event where
  | ebInput (c : InputPacket) (etxLink : ℕ)
  | keepalivePacketSent (ok : Bool)
  /-- `tsch_queue_update_time_source` by the routing layer. -/
  | updateTimeSource (addr : Linkaddr)
  /-- `tsch_change_time_source_active`. -/
  | setChangeTimeSource (active : Bool)
  /-- `sync_count`. -/
  | synchronized

/-- The beacon of a frame, if it can be parsed. -/
def beaconOf (cfg : Associate.Config) (c : InputPacket) : Option (Frame802154.Frame × Ies) :=
  (tschPacketParseEb cfg.sixtop c).map fun r => (r.1, r.2.1)

/-- A beacon in the history of a node. -/
def remember (node : Node) (recent : Option (Linkaddr × UInt8)) (frame : Frame802154.Frame)
    (ies : Ies) : Option (Linkaddr × UInt8) :=
  if node.ts = some frame.srcAddr then recent else some (frame.srcAddr, ies.ieJoinPriority)

def step (cfg : Associate.Config) (maxNbrs : ℕ) (s : State) : Event → Option State
  | .ebInput c etxLink =>
      match beaconOf cfg c with
      | none => some s
      | some (frame, ies) =>
          (ebInput cfg maxNbrs s.node c.rxAsn frame ies etxLink).map fun node =>
            { s with node := node, recent := remember s.node s.recent frame ies }
  | .keepalivePacketSent ok =>
      (keepalivePacketSent maxNbrs s.node ok).map fun r =>
        { s with
          node := r.1
          resyncs := s.resyncs ++ (r.2.map fun chosen => ⟨s.node.ts, chosen⟩).toList }
  | .updateTimeSource addr =>
      some { s with node := tschQueueUpdateTimeSource maxNbrs s.node addr }
  | .setChangeTimeSource active =>
      some { s with node := { s.node with tschChangeTimeSourceActive := active } }
  | .synchronized => some { s with node := { s.node with syncCount := s.node.syncCount + 1 } }

/-- A node that has just joined. -/
def Joined (s : State) : Prop :=
  s.node.lastEbNbrAddr = linkaddrNull ∧ s.recent = none ∧ s.resyncs = []

/-! ## What is asked of a state -/

/-- What is kept is the most recent beacon of another neighbor than the time source. -/
def Kept (s : State) : Prop :=
  match s.recent with
  | none => s.node.lastEbNbrAddr = linkaddrNull
  | some (addr, jp) => s.node.lastEbNbrAddr = addr ∧ s.node.lastEbNbrJp = jp

/-- No change was to the time source that had failed. -/
def Escaped (s : State) : Prop := ∀ r ∈ s.resyncs, r.failed ≠ some r.chosen

/-- For a beacon, its sender is the time source exactly if the address kept is; when a
keep-alive fails, the address kept is not the time source. -/
def Sound (cfg : Associate.Config) (s : State) : Event → Prop
  | .ebInput c _ => ∀ frame ies, beaconOf cfg c = some (frame, ies) →
      ∀ ts, s.node.ts = some ts → (frame.srcAddr = ts ↔ s.node.lastEbNbrAddr = ts)
  | .keepalivePacketSent ok => ok = false → s.node.lastEbNbrAddr ≠ linkaddrNull →
      s.node.ts ≠ some s.node.lastEbNbrAddr
  | _ => True

/-! ## Step -/

section

variable {cfg : Associate.Config} {maxNbrs : ℕ} {s s' : State} {node node' : Node} {e : Event}

/-- Address and join priority are assigned in `keepEb` only. -/
def SameKept (node node' : Node) : Prop :=
  node'.lastEbNbrAddr = node.lastEbNbrAddr ∧ node'.lastEbNbrJp = node.lastEbNbrJp

theorem tschQueueUpdateTimeSource_sameKept (maxNbrs : ℕ) (node : Node) (addr : Linkaddr) :
    SameKept node (tschQueueUpdateTimeSource maxNbrs node addr) := by
  unfold tschQueueUpdateTimeSource
  split
  · exact ⟨rfl, rfl⟩
  split
  · exact ⟨rfl, rfl⟩
  split
  · exact ⟨rfl, rfl⟩
  · split <;> exact ⟨rfl, rfl⟩

theorem compareEb_sameKept {frame : Frame802154.Frame} {ies : Ies} {etxLink : ℕ}
    (h : compareEb cfg maxNbrs node frame ies etxLink = some node') : SameKept node node' := by
  unfold compareEb at h
  dsimp only at h
  split at h
  · cases h
    exact ⟨rfl, rfl⟩
  split at h
  · cases h
  split at h
  · cases h
    exact tschQueueUpdateTimeSource_sameKept maxNbrs _ frame.srcAddr
  · cases h
    exact ⟨rfl, rfl⟩

theorem ebInput_sameKept {rxAsn : Asn} {frame : Frame802154.Frame} {ies : Ies} {etxLink : ℕ}
    (h : ebInput cfg maxNbrs node rxAsn frame ies etxLink = some node') :
    SameKept (keepEb node frame ies) node' := by
  unfold ebInput at h
  dsimp only at h
  have hadded : SameKept (keepEb node frame ies)
      (match tschQueueAddNbr maxNbrs (keepEb node frame ies).nbrs frame.srcAddr with
        | none => keepEb node frame ies
        | some nbrs => { keepEb node frame ies with
            nbrs := modifyNbr nbrs frame.srcAddr fun n => { n with etxLink := etxLink } }) := by
    split <;> exact ⟨rfl, rfl⟩
  split at h
  · cases h
    unfold followEb
    split <;> exact hadded
  split at h
  · cases h
    exact hadded
  · obtain ⟨haddr, hjp⟩ := compareEb_sameKept h
    exact ⟨haddr.trans hadded.1, hjp.trans hadded.2⟩

theorem keepalivePacketSent_sameKept {ok : Bool} {chosen : Option Linkaddr}
    (h : keepalivePacketSent maxNbrs node ok = some (node', chosen)) :
    SameKept node node' ∧ ∀ addr, chosen = some addr →
      ok = false ∧ node.lastEbNbrAddr ≠ linkaddrNull ∧ addr = node.lastEbNbrAddr := by
  unfold keepalivePacketSent at h
  split at h
  case isTrue =>
    cases h
    exact ⟨⟨rfl, rfl⟩, nofun⟩
  case isFalse hok =>
    split at h
    case isTrue =>
      cases h
      refine ⟨?_, nofun⟩
      split <;> exact ⟨rfl, rfl⟩
    case isFalse hnull =>
      have hsame := tschQueueUpdateTimeSource_sameKept maxNbrs node node.lastEbNbrAddr
      dsimp only at h
      split at h
      · cases h
      · cases h
        refine ⟨hsame, fun addr haddr => ?_⟩
        cases haddr
        exact ⟨by simpa using hok, hnull, hsame.1⟩

theorem kept_congr {recent : Option (Linkaddr × UInt8)} {resyncs resyncs' : List Resync}
    (h : SameKept node node') : Kept ⟨node', recent, resyncs'⟩ ↔ Kept ⟨node, recent, resyncs⟩ := by
  obtain ⟨haddr, hjp⟩ := h
  unfold Kept
  dsimp only
  rw [haddr, hjp]

/-- The guard agrees with the sender, or what is kept becomes wrong. -/
theorem keepEb_kept_iff (hs : Kept s) (frame : Frame802154.Frame) (ies : Ies) :
    Kept ⟨keepEb s.node frame ies, remember s.node s.recent frame ies, s.resyncs⟩ ↔
      ∀ ts, s.node.ts = some ts → (frame.srcAddr = ts ↔ s.node.lastEbNbrAddr = ts) := by
  -- To store another neighbor than the one that is kept is wrong.
  have hchanged (h : s.node.lastEbNbrAddr ≠ frame.srcAddr) :
      ¬ Kept ⟨{ s.node with lastEbNbrAddr := frame.srcAddr, lastEbNbrJp := ies.ieJoinPriority },
        s.recent, s.resyncs⟩ := by
    intro hkept
    unfold Kept at hs hkept
    dsimp only at hkept
    cases hrecent : s.recent with
    | none =>
        rw [hrecent] at hs hkept
        exact h (hs.trans hkept.symm)
    | some r =>
        rw [hrecent] at hs hkept
        exact h (hs.1.trans hkept.1.symm)
  unfold keepEb keeps remember
  cases hts : s.node.ts with
  | none => exact ⟨nofun, fun _ => ⟨rfl, rfl⟩⟩
  | some ts =>
      by_cases hsrc : frame.srcAddr = ts <;> by_cases hlast : s.node.lastEbNbrAddr = ts
      · -- A beacon of the time source, which is kept already.
        simp only [hsrc, hlast, bne_self_eq_false, Bool.false_eq_true, if_false, if_true]
        exact ⟨fun _ _ _ => trivial, fun _ => hs⟩
      · -- A beacon of the time source replaces what is kept.
        have hne : s.node.lastEbNbrAddr ≠ frame.srcAddr := hsrc ▸ hlast
        simp only [bne_iff_ne.mpr hlast, if_true, if_pos (congrArg some hsrc.symm)]
        refine ⟨fun h => absurd h (hchanged hne), fun h => ?_⟩
        exact absurd ((h ts rfl).mp hsrc) hlast
      · -- A beacon of another neighbor is passed over.
        have hother : some ts ≠ some frame.srcAddr := fun h => hsrc (Option.some.inj h).symm
        simp only [hlast, bne_self_eq_false, Bool.false_eq_true, if_false, if_neg hother]
        constructor
        · intro h
          exact absurd (h.1.symm.trans hlast) hsrc
        · intro h
          exact absurd ((h ts rfl).mpr rfl) hsrc
      · have hother : some ts ≠ some frame.srcAddr := fun h => hsrc (Option.some.inj h).symm
        simp only [bne_iff_ne.mpr hlast, if_true, if_neg hother]
        refine ⟨fun _ ts' heq => ?_, fun _ => ⟨rfl, rfl⟩⟩
        cases heq
        exact iff_of_false hsrc hlast

/-- After a beacon the right one is kept exactly where the guard decides like the sender. -/
theorem step_kept_iff (hs : Kept s) {c : InputPacket} {etxLink : ℕ}
    (h : step cfg maxNbrs s (.ebInput c etxLink) = some s') :
    Kept s' ↔ Sound cfg s (.ebInput c etxLink) := by
  unfold step at h
  dsimp only at h
  cases hbeacon : beaconOf cfg c with
  | none =>
      rw [hbeacon] at h
      cases h
      refine iff_of_true hs ?_
      intro frame ies hsome
      rw [hbeacon] at hsome
      cases hsome
  | some r =>
      rw [hbeacon] at h
      obtain ⟨node, hnode, rfl⟩ := Option.map_eq_some_iff.1 h
      refine (kept_congr (ebInput_sameKept hnode)).trans ((keepEb_kept_iff hs r.1 r.2).trans ?_)
      constructor
      · intro hguard frame ies hsome
        rw [hbeacon] at hsome
        cases hsome
        exact hguard
      · intro hsound
        exact hsound r.1 r.2 hbeacon

/-! ## Runs -/

theorem step_inv (hs : Kept s ∧ Escaped s) (hsound : Sound cfg s e)
    (h : step cfg maxNbrs s e = some s') : Kept s' ∧ Escaped s' := by
  -- Only the input of a beacon changes what is kept.
  cases e with
  | ebInput c etxLink =>
      refine ⟨(step_kept_iff hs.1 h).mpr hsound, ?_⟩
      unfold step at h
      dsimp only at h
      split at h
      · cases h
        exact hs.2
      · obtain ⟨node, -, rfl⟩ := Option.map_eq_some_iff.1 h
        exact hs.2
  | keepalivePacketSent ok =>
      obtain ⟨⟨node, chosen⟩, hsent, rfl⟩ := Option.map_eq_some_iff.1 h
      obtain ⟨hsame, hchosen⟩ := keepalivePacketSent_sameKept hsent
      refine ⟨(kept_congr hsame).mpr hs.1, ?_⟩
      intro r hr
      rcases List.mem_append.mp hr with hr | hr
      · exact hs.2 r hr
      · -- The one change of this event is to the address kept.
        cases chosen with
        | none => cases hr
        | some addr =>
            obtain ⟨hok, hnull, rfl⟩ := hchosen addr rfl
            rw [List.mem_singleton.mp hr]
            exact hsound hok hnull
  | updateTimeSource addr =>
      cases h
      exact ⟨(kept_congr (tschQueueUpdateTimeSource_sameKept maxNbrs s.node addr)).mpr hs.1, hs.2⟩
  | setChangeTimeSource active =>
      cases h
      exact hs
  | synchronized =>
      cases h
      exact hs

/-- In a run whose steps all meet the condition, the most recent beacon of another neighbor is
kept all along, and no change is to the time source that failed. -/
theorem kept_of_run (cfg : Associate.Config) (maxNbrs : ℕ) (s s' : State) (hs : Joined s)
    (h : Run (step cfg maxNbrs) (Sound cfg) s s') : Kept s' ∧ Escaped s' := by
  obtain ⟨hnull, hrecent, hresyncs⟩ := hs
  refine Run.invariant (I := fun s => Kept s ∧ Escaped s)
    (fun s e t hs hsound hstep => step_inv hs hsound hstep) h ⟨?_, ?_⟩
  · unfold Kept
    rw [hrecent]
    exact hnull
  · intro r hr
    rw [hresyncs] at hr
    cases hr

end

/-! ## Two nodes -/

def coordinatorAddr : Linkaddr := ⟨[1, 0, 0, 0, 0, 0, 0, 0], rfl⟩

/-- A node that has just joined at a neighbor. -/
def followerOf (addr : Linkaddr) : State where
  node :=
    { lastEbNbrAddr := linkaddrNull, lastEbNbrJp := 0, nbrs := [⟨addr, true, 1, 1, 1000⟩]
      tschRank := 2, tschJoinPriority := 1, tschIsAssociated := true, tschIsCoordinator := false
      tschChangeTimeSourceActive := false, syncCount := 0 }
  recent := none
  resyncs := []

/-- A beacon of the coordinator, then a keep-alive that is not acknowledged. -/
def lostTimeSource : List Event := [.ebInput twoChannels 1000, .keepalivePacketSent false]

/-- A node that follows the coordinator keeps it as its fallback, and changes to it when it
fails. -/
theorem lostTimeSource_not_kept :
    Joined (followerOf coordinatorAddr) ∧
      ∃ s, lostTimeSource.foldlM (step simulated 16) (followerOf coordinatorAddr) = some s ∧
        ¬ Kept s ∧ ¬ Escaped s := by
  refine ⟨⟨rfl, rfl, rfl⟩, ?_⟩
  have hrun : (lostTimeSource.foldlM (step simulated 16) (followerOf coordinatorAddr)).any
      (fun s => s.recent = none ∧ s.node.lastEbNbrAddr ≠ linkaddrNull ∧
        s.resyncs = [⟨some coordinatorAddr, coordinatorAddr⟩]) = true := by
    decide
  cases hs : lostTimeSource.foldlM (step simulated 16) (followerOf coordinatorAddr) with
  | none =>
      rw [hs] at hrun
      cases hrun
  | some s =>
      rw [hs] at hrun
      obtain ⟨hrecent, haddr, hresyncs⟩ := of_decide_eq_true hrun
      refine ⟨s, rfl, fun hkept => ?_, fun hescaped => ?_⟩
      · unfold Kept at hkept
        rw [hrecent] at hkept
        exact haddr hkept
      · exact hescaped ⟨some coordinatorAddr, coordinatorAddr⟩ (by rw [hresyncs]; simp) rfl

/-- A neighbor of the coordinator that follows another node. -/
def followerOfOther : State := followerOf ⟨[2, 0, 0, 0, 0, 0, 0, 0], rfl⟩

theorem sound_otherBeacon : Sound simulated followerOfOther (.ebInput twoChannels 1000) := by
  have hsrc : (beaconOf simulated twoChannels).map (fun r => r.1.srcAddr) = some coordinatorAddr := by
    decide
  intro frame ies hbeacon ts hts
  rw [hbeacon] at hsrc
  have hcoordinator : frame.srcAddr = coordinatorAddr := Option.some.inj hsrc
  cases hts
  refine iff_of_false ?_ (by decide)
  rw [hcoordinator]
  decide

theorem kept_of_run_otherBeacon :
    ∃ s, Joined followerOfOther ∧ Run (step simulated 16) (Sound simulated) followerOfOther s ∧
      Kept s ∧ Escaped s := by
  have hsome : (step simulated 16 followerOfOther (.ebInput twoChannels 1000)).isSome = true := by
    decide
  have hrun : Run (step simulated 16) (Sound simulated) followerOfOther
      ((step simulated 16 followerOfOther (.ebInput twoChannels 1000)).get hsome) :=
    .tail (.refl _) sound_otherBeacon (Option.some_get hsome).symm
  exact ⟨_, ⟨rfl, rfl, rfl⟩, hrun, kept_of_run simulated 16 _ _ ⟨rfl, rfl, rfl⟩ hrun⟩

end MasterScheduler.Mote.Fallback
