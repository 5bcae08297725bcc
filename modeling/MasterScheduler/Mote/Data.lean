import Mathlib.Algebra.Order.Ring.Nat
import Mathlib.Data.List.Chain
import Mathlib.Data.List.Count
import MasterScheduler.Mote.Config

/-!
# MasterScheduler.Mote.Data — data packets of the flows

What a node with an installed schedule does with `CM_DATA` packets: it delivers
those of the flows it is the receiver of and relays the others, and filters
out packets it has had before.

- `receiveAll_trace`: packets of different flows do not disturb each other.
- `once_iff`: exactly when no packet number goes through twice and no new one is
  taken for a duplicate. The number of the last packet is kept in a byte.
-/

namespace MasterScheduler.Mote

/-! ## Model -/

/-- `TSCH_SLOTNUM_DIFF16`: the difference as a signed 16 bit number. -/
def tschSlotnumDiff16 (slotnum1 slotnum2 : ℤ) : ℤ := Int.bmod (slotnum1 - slotnum2) (2 ^ 16)

/-- `TSCH_SLOTNUM_LT`. -/
def tschSlotnumLt (slotnum1 slotnum2 : ℤ) : Bool := tschSlotnumDiff16 slotnum1 slotnum2 < 0

/-- A data packet; `data` is what follows the command. -/
structure DataPacket where
  flowNumber : ℕ
  packetNumber : ℕ
  ttlSlotNumber : ℕ
  data : List UInt8
deriving DecidableEq, Repr

/-- A packet that comes in, and `tsch_current_asn.ls4b` at that time. -/
structure Reception where
  packet : DataPacket
  asn : ℕ
deriving DecidableEq, Repr

/-- The part of the installed schedule that decides about data packets. -/
structure DataNode where
  nodeId : ℕ
  senderOfFlow : List ℕ
  receiverOfFlow : List ℕ
  flowForwards : List ℕ

/-- What happens to a packet: `current_callback` is called, or
`NETSTACK_NETWORK.output`, or neither. -/
inductive DataResult where
  | noRoutingInfo
  | duplicate
  | timedOut
  | delivered (data : List UInt8) (sender receiver : ℕ)
  | relayed (dest : ℕ) (maxTx : ℤ)
deriving DecidableEq, Repr

/-- `last_received_relayed_packet_of_flow`, an array of bytes. -/
abbrev LastPackets := List ℕ

def LastPackets.get (last : LastPackets) (flow : ℕ) : ℕ := last.getD (flow - 1) 0

/-- A packet number, cut to a byte. -/
def LastPackets.store (last : LastPackets) (flow packetNumber : ℕ) : LastPackets :=
  last.set (flow - 1) (packetNumber % 256)

def commandInputDataReceived (node : DataNode) (last : LastPackets) (p : DataPacket) :
    DataResult × LastPackets :=
  if tschSlotnumLt (last.get p.flowNumber) p.packetNumber then
    (.delivered p.data (node.senderOfFlow.getD (p.flowNumber - 1) 0)
        (node.receiverOfFlow.getD (p.flowNumber - 1) 0),
      last.store p.flowNumber p.packetNumber)
  else (.duplicate, last)

/-- Time is left for sending. -/
def timeLeft (r : Reception) : Bool :=
  tschSlotnumLt (r.asn % 2 ^ 16) (r.packet.ttlSlotNumber + 1)

def commandInputDataForwarding (node : DataNode) (last : LastPackets) (r : Reception) :
    DataResult × LastPackets :=
  let nextReceiver := node.flowForwards.getD (r.packet.flowNumber - 1) 0
  if nextReceiver ≠ 0 then
    if tschSlotnumLt (last.get r.packet.flowNumber) r.packet.packetNumber then
      let last := last.store r.packet.flowNumber r.packet.packetNumber
      if timeLeft r then
        let asnBefore := ((r.asn : ℤ) - 1) % 2 ^ 16
        (.relayed nextReceiver (tschSlotnumDiff16 r.packet.ttlSlotNumber asnBefore % 2 ^ 16), last)
      else (.timedOut, last)
    else (.duplicate, last)
  else (.noRoutingInfo, last)

/-- A data packet in state `ST_SCHEDULE_INSTALLED`. -/
def inputData (node : DataNode) (last : LastPackets) (r : Reception) : DataResult × LastPackets :=
  if node.nodeId = node.receiverOfFlow.getD (r.packet.flowNumber - 1) 0 then
    commandInputDataReceived node last r.packet
  else commandInputDataForwarding node last r

/-- A whole run: what happens to each packet of a sequence. -/
def receiveAll (node : DataNode) : LastPackets → List Reception → List (Reception × DataResult)
  | _, [] => []
  | last, r :: rx => (r, (inputData node last r).1) :: receiveAll node (inputData node last r).2 rx

/-! ## What is asked of a run -/

/-- The packet is taken for a new one. -/
def DataResult.accepted : DataResult → Bool
  | .noRoutingInfo | .duplicate => false
  | _ => true

/-- The packet goes up to the application or out to the next hop. -/
def DataResult.invokes : DataResult → Bool
  | .delivered .. | .relayed .. => true
  | _ => false

/-- No packet number goes through twice. -/
def AtMostOnce (run : List (Reception × DataResult)) : Prop :=
  ∀ n, run.countP (fun x => x.1.packet.packetNumber == n && x.2.invokes) ≤ 1

/-- Every number newer than the last accepted one is accepted. -/
def NewerAccepted : ℕ → List (Reception × DataResult) → Prop
  | _, [] => True
  | last, (r, res) :: run =>
      (last < r.packet.packetNumber → res.accepted = true) ∧
        NewerAccepted (if res.accepted then r.packet.packetNumber else last) run

/-- The part of a run that is about one flow. -/
def flowRun (flow : ℕ) (run : List (Reception × DataResult)) : List (Reception × DataResult) :=
  run.filter fun x => x.1.packet.flowNumber == flow

def ofFlow (flow : ℕ) (rx : List Reception) : List Reception :=
  rx.filter fun r => r.packet.flowNumber == flow

/-- The node is the receiver of the flow or relays it. -/
def DataNode.Serves (node : DataNode) (flow : ℕ) : Prop :=
  node.nodeId = node.receiverOfFlow.getD (flow - 1) 0 ∨ node.flowForwards.getD (flow - 1) 0 ≠ 0

/-- A packet that would go through if it is new: at a relay, time must be left. -/
def DataNode.passes (node : DataNode) (flow : ℕ) (r : Reception) : Bool :=
  node.nodeId = node.receiverOfFlow.getD (flow - 1) 0 || timeLeft r

/-! ## One flow at a time -/

theorem tschSlotnumLt_iff {a b : ℕ} (ha : a < 2 ^ 16) (hb : b < 2 ^ 16) :
    tschSlotnumLt a b = true ↔ a < b ∧ b ≤ a + 2 ^ 15 ∨ b + 2 ^ 15 ≤ a := by
  unfold tschSlotnumLt tschSlotnumDiff16
  rw [decide_eq_true_eq, Int.bmod_def]
  split_ifs <;> omega

/-- What the run says about one flow, from the byte stored for it on. -/
def Traces (node : DataNode) (flow : ℕ) : ℕ → List (Reception × DataResult) → Prop
  | _, [] => True
  | last, (r, res) :: run =>
      res.accepted = tschSlotnumLt last r.packet.packetNumber ∧
        res.invokes = (res.accepted && node.passes flow r) ∧
        Traces node flow (if res.accepted then r.packet.packetNumber % 256 else last) run

theorem get_store (last : LastPackets) {flow flow' n : ℕ} (hf : 1 ≤ flow) (hf' : 1 ≤ flow')
    (hlen : flow ≤ last.length) :
    (last.store flow n).get flow' = if flow = flow' then n % 256 else last.get flow' := by
  unfold LastPackets.store LastPackets.get
  rw [List.getD_eq_getElem?_getD, List.getD_eq_getElem?_getD, List.getElem?_set]
  by_cases h : flow = flow'
  · subst h
    rw [if_pos rfl, if_pos rfl, if_pos (by omega), Option.getD_some]
  · rw [if_neg (by omega), if_neg h]

/-- One packet of a flow the node serves. -/
theorem inputData_spec {node : DataNode} (last : LastPackets) {r : Reception}
    (hserves : node.Serves r.packet.flowNumber) :
    (inputData node last r).1.accepted =
        tschSlotnumLt (last.get r.packet.flowNumber) r.packet.packetNumber ∧
      (inputData node last r).1.invokes =
        ((inputData node last r).1.accepted && node.passes r.packet.flowNumber r) ∧
      (inputData node last r).2 = if (inputData node last r).1.accepted then
        last.store r.packet.flowNumber r.packet.packetNumber else last := by
  unfold inputData DataNode.passes
  by_cases hrec : node.nodeId = node.receiverOfFlow.getD (r.packet.flowNumber - 1) 0
  · simp only [if_pos hrec, commandInputDataReceived]
    split
    · simp_all [DataResult.accepted, DataResult.invokes]
    · simp_all [DataResult.accepted, DataResult.invokes]
  · have hnext := hserves.resolve_left hrec
    simp only [if_neg hrec, commandInputDataForwarding, if_pos hnext]
    split
    · split
      · simp_all [DataResult.accepted, DataResult.invokes]
      · simp_all [DataResult.accepted, DataResult.invokes]
    · simp_all [DataResult.accepted, DataResult.invokes]

/-- A packet touches the entry of its own flow at most. -/
theorem inputData_store (node : DataNode) (last : LastPackets) (r : Reception) :
    (inputData node last r).2 = last ∨
      (inputData node last r).2 = last.store r.packet.flowNumber r.packet.packetNumber := by
  unfold inputData commandInputDataReceived commandInputDataForwarding
  dsimp only
  split_ifs <;> simp

theorem flowRun_cons (flow : ℕ) (x : Reception × DataResult) (run : List (Reception × DataResult)) :
    flowRun flow (x :: run) =
      if x.1.packet.flowNumber = flow then x :: flowRun flow run else flowRun flow run := by
  unfold flowRun
  rw [List.filter_cons]
  simp only [beq_iff_eq]

/-- Packets of the other flows leave no trace. -/
theorem receiveAll_trace (node : DataNode) {flow : ℕ} (hflow : 1 ≤ flow ∧ flow ≤ 8)
    (hserves : node.Serves flow) (rx : List Reception)
    (hrx : ∀ r ∈ rx, 1 ≤ r.packet.flowNumber ∧ r.packet.flowNumber ≤ 8) :
    ∀ last : LastPackets, last.length = 8 →
      Traces node flow (last.get flow) (flowRun flow (receiveAll node last rx)) := by
  induction rx with
  | nil => exact fun _ _ => trivial
  | cons r rx ih =>
    intro last hlen
    obtain ⟨hr, hrx⟩ := List.forall_mem_cons.1 hrx
    rw [receiveAll, flowRun_cons]
    have hlen' : (inputData node last r).2.length = 8 := by
      rcases inputData_store node last r with h | h <;> rw [h]
      · exact hlen
      · rw [LastPackets.store, List.length_set, hlen]
    by_cases hf : r.packet.flowNumber = flow
    · subst hf
      obtain ⟨hacc, hinv, hlast⟩ := inputData_spec last hserves
      rw [if_pos rfl]
      refine ⟨hacc, hinv, ?_⟩
      have htrace := ih hrx _ hlen'
      rw [hlast] at htrace ⊢
      split_ifs at htrace ⊢ with h
      · rwa [get_store last hr.1 hr.1 (by omega), if_pos rfl] at htrace
      · exact htrace
    · rw [if_neg hf]
      have hkeep : (inputData node last r).2.get flow = last.get flow := by
        rcases inputData_store node last r with h | h <;> rw [h]
        rw [get_store last hr.1 hflow.1 (by omega), if_neg hf]
      rw [← hkeep]
      exact ih hrx _ hlen'

theorem map_fst_flowRun (node : DataNode) (flow : ℕ) (rx : List Reception) :
    ∀ last, (flowRun flow (receiveAll node last rx)).map Prod.fst = ofFlow flow rx := by
  induction rx with
  | nil => exact fun _ => rfl
  | cons r rx ih =>
    intro last
    rw [receiveAll, flowRun_cons]
    unfold ofFlow
    rw [List.filter_cons]
    simp only [beq_iff_eq]
    split_ifs
    · rw [List.map_cons, ih]
      rfl
    · exact ih _

/-! ## The stored byte -/

/-- The next new number is not out of reach from the low byte of the one before. -/
def Reaches (prev next : ℕ) : Prop := prev < next → next ≤ prev % 256 + 2 ^ 15

instance : DecidableRel Reaches := fun _ _ => inferInstanceAs (Decidable (_ → _))

/-- The packet numbers of a run. -/
def numbers (rx : List Reception) : List ℕ := rx.map (·.packet.packetNumber)

section Byte

variable {node : DataNode} {flow : ℕ}

theorem accepts_new_iff {m n : ℕ} (hmn : m < n) (hn : n < 2 ^ 16) :
    tschSlotnumLt (m % 256 : ℕ) n = true ↔ n ≤ m % 256 + 2 ^ 15 := by
  have := Nat.mod_lt m (show 0 < 256 by decide)
  have := Nat.mod_le m 256
  rw [tschSlotnumLt_iff (by omega) hn]
  omega

theorem accepts_same_iff {m : ℕ} (hm : m ≤ 2 ^ 15 + 255) :
    tschSlotnumLt (m % 256 : ℕ) m = true ↔ 256 ≤ m := by
  have := Nat.mod_lt m (show 0 < 256 by decide)
  rw [tschSlotnumLt_iff (by omega) (by omega)]
  omega

/-- New numbers are accepted as long as each reaches the next. -/
theorem newerAccepted_iff (run : List (Reception × DataResult)) :
    ∀ m, Traces node flow (m % 256) run →
      (m :: numbers (run.map Prod.fst)).IsChain (· ≤ ·) →
      (∀ n ∈ numbers (run.map Prod.fst), n < 2 ^ 16) →
      (NewerAccepted m run ↔ (m :: numbers (run.map Prod.fst)).IsChain Reaches) := by
  induction run with
  | nil => simp [NewerAccepted, numbers]
  | cons x run ih =>
    obtain ⟨r, res⟩ := x
    rintro m ⟨hacc, -, htrace⟩ hsorted hlt
    simp only [numbers, List.map_cons, List.isChain_cons_cons, List.forall_mem_cons] at hsorted hlt ⊢
    have ih' := ih r.packet.packetNumber
    simp only [numbers] at ih'
    rw [NewerAccepted]
    rcases Nat.lt_or_ge m r.packet.packetNumber with hnew | hold
    · have hiff := accepts_new_iff hnew hlt.1
      by_cases h : res.accepted = true
      · rw [if_pos h] at htrace ⊢
        rw [ih' htrace hsorted.2 hlt.2]
        have : Reaches m r.packet.packetNumber := fun _ => hiff.1 (by rw [← hacc, h])
        tauto
      · have : ¬ Reaches m r.packet.packetNumber := fun hr => h (by rw [hacc, hiff.2 (hr hnew)])
        tauto
    · -- a repeated number changes nothing, accepted or not
      obtain heq : r.packet.packetNumber = m := le_antisymm hold hsorted.1
      rw [heq] at htrace hsorted hlt ih' ⊢
      rw [ite_self] at htrace ⊢
      have : Reaches m m := fun h => absurd h (lt_irrefl m)
      rw [ih' htrace hsorted.2 hlt.2]
      simp [this]

/-- One packet of a run in which each number reaches the next. -/
theorem Traces.step {m : ℕ} {r : Reception} {res : DataResult}
    {run : List (Reception × DataResult)} (h : Traces node flow (m % 256) ((r, res) :: run))
    (hm : m ≤ 2 ^ 15 + 255) (hle : m ≤ r.packet.packetNumber)
    (hreach : Reaches m r.packet.packetNumber) (hlt : r.packet.packetNumber < 2 ^ 16) :
    (res.accepted = true ↔ m < r.packet.packetNumber ∨ 256 ≤ r.packet.packetNumber) ∧
      res.invokes = (res.accepted && node.passes flow r) ∧
      Traces node flow (r.packet.packetNumber % 256) run ∧
      r.packet.packetNumber ≤ 2 ^ 15 + 255 := by
  obtain ⟨hacc, hinv, htrace⟩ := h
  rcases Nat.lt_or_ge m r.packet.packetNumber with hnew | hold
  · have h := (accepts_new_iff hnew hlt).2 (hreach hnew)
    rw [← hacc] at h
    rw [if_pos h] at htrace
    have hbound := hreach hnew
    have := Nat.mod_lt m (show 0 < 256 by decide)
    exact ⟨by simp [h, hnew], hinv, htrace, by omega⟩
  · obtain heq : r.packet.packetNumber = m := le_antisymm hold hle
    rw [heq] at hacc htrace ⊢
    rw [ite_self] at htrace
    have hsame := accepts_same_iff hm
    rw [← hacc] at hsame
    exact ⟨by simpa using hsame, hinv, htrace, hm⟩

/-- A number that fits the byte is accepted once at most. -/
theorem countP_small_le (run : List (Reception × DataResult)) {k : ℕ} (hk : k < 256) :
    ∀ m, m ≤ 2 ^ 15 + 255 → Traces node flow (m % 256) run →
      (m :: numbers (run.map Prod.fst)).IsChain (· ≤ ·) →
      (m :: numbers (run.map Prod.fst)).IsChain Reaches →
      (∀ n ∈ numbers (run.map Prod.fst), n < 2 ^ 16) →
      run.countP (fun x => x.1.packet.packetNumber == k && x.2.invokes) ≤
        if k ≤ m then 0 else 1 := by
  induction run with
  | nil => simp
  | cons x run ih =>
    obtain ⟨r, res⟩ := x
    intro m hm htrace hsorted hchain hlt
    simp only [numbers, List.map_cons, List.isChain_cons_cons, List.forall_mem_cons]
      at hsorted hchain hlt
    obtain ⟨hacc, hinv, htrace, hbound⟩ := htrace.step hm hsorted.1 hchain.1 hlt.1
    have ih' := ih _ hbound htrace hsorted.2 hchain.2 hlt.2
    rw [List.countP_cons]
    by_cases hnum : r.packet.packetNumber = k
    · rw [hnum] at ih' hacc hsorted
      rw [if_pos (le_refl k)] at ih'
      by_cases hkm : k ≤ m
      · -- the number was there before
        have hno : res.invokes = false := by
          rw [hinv, Bool.and_eq_false_iff]
          exact .inl (Bool.eq_false_iff.2 fun h => by have := hacc.1 h; omega)
        simp [hno, hkm, Nat.le_zero.1 ih']
      · rw [if_neg hkm]
        split <;> omega
    · have hskip : (r.packet.packetNumber == k && res.invokes) = false := by simp [hnum]
      rw [if_neg (by simp [hskip])]
      have := hsorted.1
      split_ifs at ih' ⊢ <;> omega

/-- A number that does not fit is accepted whenever it comes. -/
theorem countP_large_eq (run : List (Reception × DataResult)) {k : ℕ} (hk : 256 ≤ k) :
    ∀ m, m ≤ 2 ^ 15 + 255 → Traces node flow (m % 256) run →
      (m :: numbers (run.map Prod.fst)).IsChain (· ≤ ·) →
      (m :: numbers (run.map Prod.fst)).IsChain Reaches →
      (∀ n ∈ numbers (run.map Prod.fst), n < 2 ^ 16) →
      run.countP (fun x => x.1.packet.packetNumber == k && x.2.invokes) =
        (run.map Prod.fst).countP (fun r => r.packet.packetNumber == k && node.passes flow r) := by
  induction run with
  | nil => simp
  | cons x run ih =>
    obtain ⟨r, res⟩ := x
    intro m hm htrace hsorted hchain hlt
    simp only [numbers, List.map_cons, List.isChain_cons_cons, List.forall_mem_cons]
      at hsorted hchain hlt
    obtain ⟨hacc, hinv, htrace, hbound⟩ := htrace.step hm hsorted.1 hchain.1 hlt.1
    rw [List.map_cons, List.countP_cons, List.countP_cons,
      ih _ hbound htrace hsorted.2 hchain.2 hlt.2]
    by_cases hnum : r.packet.packetNumber = k
    · rw [hinv, hacc.2 (.inr (by omega)), Bool.true_and]
    · simp [hnum]

end Byte

/-! ## Whole runs -/

/-- A source counts its packets upwards and a packet may come again at once, so
the numbers of a flow never go down. Then no number goes through twice and no
new one is refused, exactly if each new number is within half the range of the
low byte of the one before and no number above 255 comes twice while it can
still go through. -/
theorem once_iff (node : DataNode) (flow : ℕ) (rx : List Reception)
    (hflow : 1 ≤ flow ∧ flow ≤ 8) (hserves : node.Serves flow)
    (hrx : ∀ r ∈ rx, (1 ≤ r.packet.flowNumber ∧ r.packet.flowNumber ≤ 8) ∧
      r.packet.packetNumber < 2 ^ 16)
    (hsorted : (0 :: numbers (ofFlow flow rx)).IsChain (· ≤ ·)) :
    (AtMostOnce (flowRun flow (receiveAll node (List.replicate 8 0) rx)) ∧
      NewerAccepted 0 (flowRun flow (receiveAll node (List.replicate 8 0) rx))) ↔
    ((0 :: numbers (ofFlow flow rx)).IsChain Reaches ∧
      ∀ k, 256 ≤ k → (ofFlow flow rx).countP
        (fun r => r.packet.packetNumber == k && node.passes flow r) ≤ 1) := by
  have htrace := receiveAll_trace node hflow hserves rx (fun r hr => (hrx r hr).1)
    (List.replicate 8 0) rfl
  -- The bookkeeping starts at 0 for every flow, as if a packet 0 had come.
  have hlast : LastPackets.get (List.replicate 8 0) flow = 0 % 256 := by
    unfold LastPackets.get
    rw [List.getD_eq_getElem?_getD, List.getElem?_replicate_of_lt (by omega), Option.getD_some]
  rw [hlast] at htrace
  have hmap := map_fst_flowRun node flow rx (List.replicate 8 0)
  -- Packet numbers have 16 bits, so they do not wrap here.
  have hlt : ∀ n ∈ numbers (ofFlow flow rx), n < 2 ^ 16 := by
    intro n hn
    obtain ⟨r, hr, rfl⟩ := List.mem_map.1 hn
    exact (hrx r (List.mem_of_mem_filter hr)).2
  generalize flowRun flow (receiveAll node (List.replicate 8 0) rx) = run at *
  rw [← hmap] at hsorted hlt ⊢
  rw [newerAccepted_iff run 0 htrace hsorted hlt, and_comm]
  refine and_congr_right fun hchain => ?_
  -- From 256 on, a packet is delivered as often as it comes, below at most once.
  have hlarge := fun k hk => countP_large_eq run (k := k) hk 0 (by omega) htrace hsorted hchain hlt
  constructor
  · intro h k hk
    rw [← hlarge k hk]
    exact h k
  · intro h k
    rcases Nat.lt_or_ge k 256 with hk | hk
    · have := countP_small_le run hk 0 (by omega) htrace hsorted hchain hlt
      split_ifs at this <;> omega
    · rw [hlarge k hk]
      exact h k hk

/-- The receiver of flow 1. -/
def flowReceiver : DataNode where
  nodeId := 2
  senderOfFlow := [1, 0, 0, 0, 0, 0, 0, 0]
  receiverOfFlow := [2, 0, 0, 0, 0, 0, 0, 0]
  flowForwards := [0, 0, 0, 0, 0, 0, 0, 0]

/-- A packet of flow 1, and the same packet again. -/
def repeated (packetNumber : ℕ) : List Reception :=
  [⟨⟨1, packetNumber, 10, []⟩, 5⟩, ⟨⟨1, packetNumber, 10, []⟩, 6⟩]

theorem once_repeated_255 :
    (0 :: numbers (ofFlow 1 (repeated 255))).IsChain (· ≤ ·) ∧
      AtMostOnce (flowRun 1 (receiveAll flowReceiver (List.replicate 8 0) (repeated 255))) := by
  have hsorted : (0 :: numbers (ofFlow 1 (repeated 255))).IsChain (· ≤ ·) := by decide
  refine ⟨hsorted, ((once_iff flowReceiver 1 (repeated 255) (by decide) (.inl (by decide))
    (by decide) hsorted).2 ⟨by decide, fun k hk => ?_⟩).1⟩
  have hk' : (255 == k) = false := by simp; omega
  simp [ofFlow, repeated, hk']

/-- Packet 256 is delivered twice, although it follows the last accepted number
closely and comes again at once. -/
theorem not_once_repeated_256 :
    (0 :: numbers (ofFlow 1 (repeated 256))).IsChain (fun m n => m ≤ n ∧ n ≤ m + 2 ^ 15) ∧
      ¬ AtMostOnce (flowRun 1 (receiveAll flowReceiver (List.replicate 8 0) (repeated 256))) := by
  refine ⟨by decide, fun h => ?_⟩
  exact absurd (h 256) (by decide)

end MasterScheduler.Mote
