import MasterScheduler.Lib.Transition
import MasterScheduler.Mote.Decode
import MasterScheduler.Mote.Routing

/-!
# MasterScheduler.Network.Model — the nodes and what is in the air

The dissemination as a state machine of the whole network. One step is one
handler of one node, one transmission, or one beacon.

- A transmitted frame stays in `air` and may be received by any other node,
  never, once or several times, and in any order: loss, duplication,
  reordering and overhearing.
- A beacon carries what its sender knew when it was sent, and may be received
  late.
- Timers expire at any time while they run.
-/

namespace MasterScheduler.Network

open Lib Mote

/-- A testbed and its distributor. The vector `schedule_received` has three bytes, and every node
has a bit in it. -/
structure Deployment where
  cfg : Config
  distributor : NodeId
  distributor_mem : distributor ∈ cfg.nodeIds
  nodeIds_le : ∀ n ∈ cfg.nodeIds, n ≤ 8 * 3

def Deployment.node (D : Deployment) (n : NodeId) : Node := ⟨D.cfg, n, D.distributor⟩

/-- A schedule packet on the air. -/
structure Frame where
  src : NodeId
  dest : Option NodeId
  packet : Packet
deriving DecidableEq, Repr

/-- The schedule part of an enhanced beacon. -/
structure Beacon where
  src : NodeId
  scheduleVersion : ℕ
  schedulePackets : ℕ
  scheduleReceived : ByteVector

structure NetState where
  node : NodeId → NodeState
  /-- Whether the file was uploaded to the distributor. -/
  loaded : Bool
  air : List Frame
  beacons : List Beacon

def NetState.set (net : NetState) (n : NodeId) (s : NodeState) : NetState :=
  { net with node := Function.update net.node n s }

inductive Event where
  /-- The upload to the distributor is finished. -/
  | loaded (env : Env)
  /-- A node receives a frame. -/
  | input (n : NodeId) (frame : ℕ) (env : Env)
  /-- The beacon slot of a node, with the status of the transmission and
  whether the MAC layer gives up on a packet that did not get through. -/
  | transmit (n : NodeId) (status : TxStatus) (giveUp : Bool)
  /-- The sent callback for the oldest packet that has left its queue. -/
  | sent (n : NodeId) (env : Env)
  | sendBeacon (n : NodeId)
  | beacon (n : NodeId) (beacon : ℕ) (fromTimeSource : Bool) (env : Env)
  | missingResponse (n : NodeId)
  | install (n : NodeId)
deriving DecidableEq, Repr

/-- One transmission: the head of the queue that the link points to. -/
def txSlot (s : NodeState) (status : TxStatus) (giveUp : Bool) : Option (Packet × NodeState) :=
  match s.queue s.link with
  | [] => none
  | p :: rest =>
      if status = .ok ∨ giveUp = true then
        some (p, { s with
          queue := Function.update s.queue s.link rest
          pending := s.pending ++ [(s.link, p, status)] })
      else some (p, s)

/-- The sent callback for the oldest packet. -/
def sentCallback (node : Node) (env : Env) (s : NodeState) : Option NodeState :=
  match s.pending with
  | [] => none
  | (dest, p, status) :: rest =>
      some (masterRoutingOutputCallback node env { s with pending := rest } p dest status)

def beaconOf (n : NodeId) (s : NodeState) : Beacon :=
  ⟨n, s.scheduleVersion, s.schedulePackets, s.scheduleReceived⟩

/-- The frame a transmission puts on the air, unless the radio could not send. -/
def sentFrames (n : NodeId) (dest : Option NodeId) (p : Packet) (status : TxStatus) : List Frame :=
  if status = .err then [] else [⟨n, dest, p⟩]

/-- The node that an event is about. -/
def Event.nodeId (D : Deployment) : Event → NodeId
  | .loaded _ => D.distributor
  | .input n _ _ | .transmit n _ _ | .sent n _ | .sendBeacon n | .beacon n _ _ _
  | .missingResponse n | .install n => n

/-- One step of the network, if the event can happen. -/
def step (D : Deployment) (net : NetState) (e : Event) : Option NetState :=
  if e.nodeId D ∉ D.cfg.nodeIds then none
  else
    match e with
    | .loaded env =>
        if net.loaded then none
        else some { net.set D.distributor (masterScheduleLoadedCallback (D.node D.distributor) env
          (net.node D.distributor)) with loaded := true }
    | .input n i env =>
        net.air[i]?.bind fun f =>
          if f.src = n then none
          else some (net.set n (masterRoutingInput (D.node n) env (net.node n) f.packet f.src f.dest))
    | .transmit n status giveUp =>
        (txSlot (net.node n) status giveUp).map fun r =>
          { net.set n r.2 with air := net.air ++ sentFrames n (net.node n).link r.1 status }
    | .sent n env => (sentCallback (D.node n) env (net.node n)).map (net.set n)
    | .sendBeacon n => some { net with beacons := net.beacons ++ [beaconOf n (net.node n)] }
    | .beacon n i fromTimeSource env =>
        net.beacons[i]?.bind fun b =>
          if b.src = n then none
          else some (net.set n (tschRxProcessBeacon (D.node n) env (net.node n) b.src
            fromTimeSource b.scheduleVersion b.schedulePackets b.scheduleReceived))
    | .missingResponse n =>
        if (net.node n).missingResponseTimer then
          some (net.set n (Mote.missingResponse (net.node n)))
        else none
    | .install n =>
        if (net.node n).installTimer then some (net.set n (installSchedule (D.node n) (net.node n)))
        else none

/-! ## The cases of a step -/

/-- All that a step can do. -/
inductive Step (D : Deployment) (net : NetState) : Event → NetState → Prop
  | loaded {env : Env} : net.loaded = false →
      Step D net (.loaded env) { net.set D.distributor (masterScheduleLoadedCallback
        (D.node D.distributor) env (net.node D.distributor)) with loaded := true }
  | input {n : NodeId} {i : ℕ} {env : Env} {f : Frame} : n ∈ D.cfg.nodeIds → f ∈ net.air →
      net.air[i]? = some f → f.src ≠ n →
      Step D net (.input n i env)
        (net.set n (masterRoutingInput (D.node n) env (net.node n) f.packet f.src f.dest))
  | transmit {n : NodeId} {status : TxStatus} {giveUp : Bool} {p : Packet} {s : NodeState} :
      n ∈ D.cfg.nodeIds → txSlot (net.node n) status giveUp = some (p, s) →
      Step D net (.transmit n status giveUp)
        { net.set n s with air := net.air ++ sentFrames n (net.node n).link p status }
  | sent {n : NodeId} {env : Env} {dest : Option NodeId} {p : Packet} {status : TxStatus}
      {rest : List (Option NodeId × Packet × TxStatus)} : n ∈ D.cfg.nodeIds →
      (net.node n).pending = (dest, p, status) :: rest →
      Step D net (.sent n env) (net.set n (masterRoutingOutputCallback (D.node n) env
        { net.node n with pending := rest } p dest status))
  | sendBeacon {n : NodeId} : n ∈ D.cfg.nodeIds →
      Step D net (.sendBeacon n) { net with beacons := net.beacons ++ [beaconOf n (net.node n)] }
  | beacon {n : NodeId} {i : ℕ} {fromTimeSource : Bool} {env : Env} {b : Beacon} :
      n ∈ D.cfg.nodeIds → b ∈ net.beacons → net.beacons[i]? = some b → b.src ≠ n →
      Step D net (.beacon n i fromTimeSource env) (net.set n (tschRxProcessBeacon (D.node n) env
        (net.node n) b.src fromTimeSource b.scheduleVersion b.schedulePackets b.scheduleReceived))
  | missingResponse {n : NodeId} : n ∈ D.cfg.nodeIds →
      (net.node n).missingResponseTimer = true →
      Step D net (.missingResponse n) (net.set n (Mote.missingResponse (net.node n)))
  | install {n : NodeId} : n ∈ D.cfg.nodeIds → (net.node n).installTimer = true →
      Step D net (.install n) (net.set n (installSchedule (D.node n) (net.node n)))

theorem step_cases {D : Deployment} {net net' : NetState} {e : Event}
    (h : step D net e = some net') : Step D net e net' := by
  -- Every event asks for its guards, and then runs one handler.
  unfold step at h
  split at h
  · cases h
  · rename_i hmem
    rw [not_not] at hmem
    cases e with
    | loaded env =>
      dsimp only at h
      split at h
      · cases h
      · rename_i hl
        cases h
        exact .loaded (by simpa using hl)
    | input n i env =>
      rcases Option.bind_eq_some_iff.1 h with ⟨f, hf, hs⟩
      split at hs
      · cases hs
      · rename_i hsrc
        cases hs
        exact .input hmem (List.mem_of_getElem? hf) hf hsrc
    | transmit n status giveUp =>
      rcases Option.map_eq_some_iff.1 h with ⟨⟨p, s⟩, hr, hs⟩
      cases hs
      exact .transmit hmem hr
    | sent n env =>
      rcases Option.map_eq_some_iff.1 h with ⟨s, hs, hn⟩
      cases hn
      unfold sentCallback at hs
      split at hs
      · cases hs
      · rename_i dest p status rest hpend
        cases hs
        exact .sent hmem hpend
    | sendBeacon n =>
      cases h
      exact .sendBeacon hmem
    | beacon n i fromTimeSource env =>
      rcases Option.bind_eq_some_iff.1 h with ⟨b, hb, hs⟩
      split at hs
      · cases hs
      · rename_i hsrc
        cases hs
        exact .beacon hmem (List.mem_of_getElem? hb) hb hsrc
    | missingResponse n =>
      dsimp only at h
      split at h
      · rename_i ht
        cases h
        exact .missingResponse hmem ht
      · cases h
    | install n =>
      dsimp only at h
      split at h
      · rename_i ht
        cases h
        exact .install hmem ht
      · cases h

/-- A transmission either leaves the packet in its queue or moves it on. -/
theorem txSlot_cases {s t : NodeState} {status : TxStatus} {giveUp : Bool} {p : Packet}
    (h : txSlot s status giveUp = some (p, t)) :
    p ∈ s.queue s.link ∧ (t = s ∨ ∃ rest, s.queue s.link = p :: rest ∧ t = { s with
      queue := Function.update s.queue s.link rest
      pending := s.pending ++ [(s.link, p, status)] }) := by
  unfold txSlot at h
  split at h
  · cases h
  · rename_i q rest hq
    split at h
    · cases h
      exact ⟨by rw [hq]; exact List.mem_cons_self, .inr ⟨rest, hq, rfl⟩⟩
    · cases h
      exact ⟨by rw [hq]; exact List.mem_cons_self, .inl rfl⟩

@[simp] theorem NetState.set_node_self (net : NetState) (n : NodeId) (s : NodeState) :
    (net.set n s).node n = s := by
  simp [NetState.set]

theorem NetState.set_node_of_ne (net : NetState) {n m : NodeId} (s : NodeState) (h : m ≠ n) :
    (net.set n s).node m = net.node m := by
  simp [NetState.set, h]

/-! ## The start -/

/-- The phases before a node hears of the schedule. -/
def beforeSchedule : List Phase :=
  [.eb, .beginGatherMetric, .pollNeighbour, .sendMetric, .pollMissingMetric, .searchMissingMetric,
    .waitForSchedule, .waitForDistCommit]

/-- A node that knows nothing of a schedule yet. No packet is left in its queues, of the metric
phase for instance. -/
structure Fresh (cfg : Config) (s : NodeState) : Prop where
  phase : s.currentState ∈ beforeSchedule
  version : s.scheduleVersion = 0
  packets : s.schedulePackets = 0
  bits : s.receivedPackets = List.replicate cfg.receivedWords 0
  received : s.scheduleReceived = List.replicate 3 0
  number : s.schedulePacketNumber = 1
  link : s.link = none
  queue : ∀ dest, s.queue dest = []
  pending : s.pending = []
  missingResponseTimer : s.missingResponseTimer = false
  installTimer : s.installTimer = false
  handed : s.handed = []

/-- Before the upload: the file is in the flash of the distributor only. -/
structure Start (D : Deployment) (file : List UInt8) (net : NetState) : Prop where
  fresh : ∀ n ∈ D.cfg.nodeIds, Fresh D.cfg (net.node n)
  distributor : (net.node D.distributor).flash = storedFile file
  others : ∀ n ∈ D.cfg.nodeIds, n ≠ D.distributor → (net.node n).flash.bytesInFlash = 0
  loaded : net.loaded = false
  air : net.air = []
  beacons : net.beacons = []

/-- All nodes wait for the schedule. -/
def startNet (D : Deployment) (file : List UInt8) : NetState where
  node n := { initMasterRouting D.cfg (storedFile (if n = D.distributor then file else [])) with
    currentState := .waitForSchedule }
  loaded := false
  air := []
  beacons := []

theorem startNet_start (D : Deployment) (file : List UInt8) : Start D file (startNet D file) where
  fresh := fun _ _ => ⟨by simp [startNet, beforeSchedule], rfl, rfl, rfl, rfl, rfl, rfl,
    fun _ => rfl, rfl, rfl, rfl, rfl⟩
  distributor := by simp [startNet, initMasterRouting]
  others := by
    intro n _ hn
    simp [startNet, initMasterRouting, storedFile, hn]
  loaded := rfl
  air := rfl
  beacons := rfl

/-- The defaults on Cooja, with node 1 as the distributor. -/
def coojaTestbed : Deployment where
  cfg := defaultConfig .cooja
  distributor := 1
  distributor_mem := by decide
  nodeIds_le := defaultConfig_nodeIds_le .cooja

end MasterScheduler.Network
