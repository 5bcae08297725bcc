import MasterScheduler.Lib.Transition
import MasterScheduler.Mote.Data
import MasterScheduler.Mote.Install
import MasterScheduler.Mote.NextLink

/-!
# MasterScheduler.Mote.SendGate — how often a flow may send

`master_routing_send` gives a packet the slots of the flow in the next cycle of
its slotframe, and refuses it if the earliest slot is less than a cycle after
that of the packet before. The slots are compared by their low 16 bits.

1. **Call**: what one call does (`masterRoutingSend_eq`).
2. **Step**: the gate is right about a call exactly if the slots it compares are
   less than half of 16 bits apart (`gateRight_iff`).
3. **Runs**: `gate_of_run`, any calls at ASNs that do not go back. What is
   accepted has its slots and no others.

Before the first packet the slot of the packet before is zero.
-/

namespace MasterScheduler.Mote.SendGate

open Lib Hopping NextLink

/-! ## Model -/

/-- `master_routing_packet_t`. -/
structure RoutingPacket where
  flowNumber : UInt8
  packetNumber : UInt16
  ttlSlotNumber : UInt16
  earliestTxSlot : UInt16
  data : List UInt8
deriving DecidableEq, Repr

/-- `master_packetbuf_config_t`. -/
structure PacketbufConfig where
  ttlSlotNumber : UInt16
  earliestTxSlot : UInt16
  flowNumber : UInt16
  maxTx : UInt16
  command : UInt8
  packetNbr : UInt8
  overhearingActive : UInt8
  sendToNbr : UInt8
deriving DecidableEq, Repr

/-- The variables of `master-routing.c` that sending a data packet changes. -/
structure Variables where
  mrp : RoutingPacket
  ownPacketNumber : UInt16
  lastSentPacketAsn : UInt16
  sentPacketConfiguration : PacketbufConfig
deriving DecidableEq, Repr

/-- A call of `NETSTACK_NETWORK.output`: the destination and `masternet_len`. -/
structure Output where
  destination : UInt8
  masternetLen : ℕ
deriving DecidableEq, Repr

/-- `CM_DATA`. -/
def cmData : UInt8 := 9

/-- `minimal_routing_packet_size`. -/
def minimalRoutingPacketSize : ℕ := 7

/-- `COMMAND_END`. -/
def commandEnd : ℕ := 1

/-- Conversion to `uint16_t`. -/
def toUint16 (x : ℤ) : UInt16 := UInt16.ofNat (x % 2 ^ 16).toNat

/-- `get_forward_dest`. -/
def getForwardDest (schedule : MasterTschSchedule) (flow : UInt8) : UInt8 :=
  schedule.flowForwards.getD (flow.toNat - 1) 0

/-- `master_routing_send`: the return value, the variables, and the packet that goes to the network
layer. A slotframe that does not exist is used all the same: `none`. -/
def masterRoutingSend (configured : Bool) (schedule : MasterTschSchedule)
    (scheduleConfig : UniversalConfig) (t : SlotframeList) (asn : Asn) (data : List UInt8)
    (v : Variables) : Option (Bool × Variables × Option Output) :=
  if configured = false then some (false, v, none)
  else if schedule.ownTransmissionFlow = 0 then some (false, v, none)
  else
    let flow := schedule.ownTransmissionFlow
    let v := { v with ownPacketNumber := v.ownPacketNumber + 1 }
    (t.get? flow.toNat).map fun sf =>
      let currentSfSlot := asnMod asn (asnDivisorInit sf.size)
      -- the slots are in the next round of the slotframe
      let next : ℤ := (asn.ls4b.toNat % 2 ^ 16 : ℕ) + sf.size - currentSfSlot
      let ttl := toUint16 (next + (scheduleConfig.lastTxSlotInFlow.getD (flow.toNat - 1) 0).toNat)
      let earliest :=
        toUint16 (next + (scheduleConfig.firstTxSlotInFlow.getD (flow.toNat - 1) 0).toNat)
      let v := { v with mrp := ⟨flow, v.ownPacketNumber, ttl, earliest, cmData :: data⟩ }
      if tschSlotnumLt earliest.toNat
          (v.lastSentPacketAsn.toNat + scheduleConfig.scheduleLength.toNat) then
        -- sending again too early
        (false, { v with ownPacketNumber := v.ownPacketNumber - 1 }, none)
      else
        let v := { v with lastSentPacketAsn := earliest }
        let nextReceiver := getForwardDest schedule flow
        if nextReceiver ≠ 0 then
          let asnBefore := ((asn.ls4b.toNat : ℤ) - 1) % 2 ^ 16
          (true,
            { v with sentPacketConfiguration :=
                { ttlSlotNumber := ttl
                  earliestTxSlot := earliest
                  flowNumber := flow.toUInt16
                  maxTx := toUint16 (tschSlotnumDiff16 ttl.toNat asnBefore)
                  command := cmData
                  packetNbr := v.mrp.packetNumber.toUInt8
                  overhearingActive := 0
                  sendToNbr := 0 } },
            some ⟨nextReceiver, minimalRoutingPacketSize + commandEnd + data.length⟩)
        else (true, v, none)

/-- A node with a flow of its own in an installed schedule. -/
structure Source where
  schedule : MasterTschSchedule
  config : UniversalConfig
  slotframes : SlotframeList
  flow_ne : schedule.ownTransmissionFlow ≠ 0
  length_ne : config.scheduleLength ≠ 0
  slotframe : ∃ links, slotframes.get? schedule.ownTransmissionFlow.toNat =
    some ⟨schedule.ownTransmissionFlow.toNat, config.scheduleLength.toNat, links⟩

/-- A call, the variables before it, and what came of it. -/
structure Call where
  asn : Asn
  before : Variables
  accepted : Bool
  mrp : RoutingPacket

structure State where
  vars : Variables
  /-- The ASN of the last call. -/
  now : ℕ
  log : List Call

def initState (v : Variables) : State := ⟨v, 0, []⟩

/-- A call at an ASN that is not before the last one. -/
def step (src : Source) (s : State) (e : Asn × List UInt8) : Option State :=
  if s.now ≤ asnNat e.1 then
    (masterRoutingSend true src.schedule src.config src.slotframes e.1 e.2 s.vars).map fun r =>
      ⟨r.2.1, asnNat e.1, s.log ++ [⟨e.1, s.vars, r.1, r.2.1.mrp⟩]⟩
  else none

/-! ## Meaning -/

namespace Source

variable (src : Source)

/-- The length of a cycle. -/
def len : ℕ := src.config.scheduleLength.toNat

/-- The cycle of the slotframe at an ASN. -/
def cycle (asn : Asn) : ℕ := asnNat asn / src.len

/-- The first slot of the flow, within a cycle. -/
def first : ℕ :=
  (src.config.firstTxSlotInFlow.getD (src.schedule.ownTransmissionFlow.toNat - 1) 0).toNat

/-- The last slot of the flow, within a cycle. -/
def last : ℕ :=
  (src.config.lastTxSlotInFlow.getD (src.schedule.ownTransmissionFlow.toNat - 1) 0).toNat

/-- The first slot of the flow in the cycle after an ASN. -/
def firstSlot (asn : Asn) : ℕ := (src.cycle asn + 1) * src.len + src.first

/-- The last slot of the flow in the cycle after an ASN. -/
def lastSlot (asn : Asn) : ℕ := (src.cycle asn + 1) * src.len + src.last

/-- The cycle after that of a call carries a packet that was accepted before. -/
def Carried (pre : List Call) (c : Call) : Prop :=
  ∃ b ∈ pre, b.accepted = true ∧ src.cycle b.asn + 1 = src.cycle c.asn + 1

/-- A call is rejected if and only if the next cycle carries a packet. -/
def GateRight (pre : List Call) (c : Call) : Prop := c.accepted = false ↔ src.Carried pre c

/-- The next cycle carries a packet, or its slot is less than `2 ^ 15` slots after the one that the
last packet allows. -/
def Comparable (pre : List Call) (c : Call) : Prop :=
  src.Carried pre c ∨
    ((src.firstSlot c.asn : ℤ) - c.before.lastSentPacketAsn.toNat - src.len) % 2 ^ 16 < 2 ^ 15

/-- The slots of an accepted packet are those of the flow in the next cycle, which are after all
that were given out before. -/
structure SlotsRight (pre : List Call) (c : Call) : Prop where
  earliest : c.mrp.earliestTxSlot.toNat = src.firstSlot c.asn % 2 ^ 16
  ttl : c.mrp.ttlSlotNumber.toNat = src.lastSlot c.asn % 2 ^ 16
  distinct : ∀ b ∈ pre, b.accepted = true → src.firstSlot b.asn < src.firstSlot c.asn

/-- What is known after some calls. -/
structure Inv (s : State) : Prop where
  gate : Always (fun pre c => src.GateRight pre c ↔ src.Comparable pre c) s.log
  slots : Always (fun pre c => c.accepted = true → src.SlotsRight pre c) s.log
  past : ∀ c ∈ s.log, asnNat c.asn ≤ s.now
  /-- The last accepted packet, if there is one, has the slot that is kept. -/
  kept : ∀ b ∈ s.log, b.accepted = true → ∃ c ∈ s.log, c.accepted = true ∧
    src.cycle b.asn ≤ src.cycle c.asn ∧ s.vars.lastSentPacketAsn.toNat = src.firstSlot c.asn % 2 ^ 16 ∧
    ∀ d ∈ s.log, d.accepted = true → src.cycle d.asn ≤ src.cycle c.asn

end Source

/-! ## Call -/

theorem toNat_toUint16 {x : ℤ} {n : ℕ} (h : x % 2 ^ 16 = n % 2 ^ 16) :
    (toUint16 x).toNat = n % 2 ^ 16 := by
  unfold toUint16
  rw [h]
  have hcast : ((n : ℤ) % 2 ^ 16).toNat = n % 2 ^ 16 := by omega
  rw [hcast]
  exact Nat.mod_eq_of_lt (Nat.mod_lt _ (by norm_num))

section

variable (src : Source) (asn : Asn) (data : List UInt8) (v : Variables)

theorem len_pos : 0 < src.len := by
  rcases Nat.eq_zero_or_pos src.len with h | h
  · exact absurd (UInt8.toNat_inj.1 (show _ = (0 : UInt8).toNat from h)) src.length_ne
  · exact h

/-- The slots that a call computes are slots of the next cycle. -/
theorem next_slot (k : ℕ) :
    (((asn.ls4b.toNat % 2 ^ 16 : ℕ) : ℤ) + src.len - asnMod asn (asnDivisorInit src.len) + k)
      % 2 ^ 16 = (((src.cycle asn + 1) * src.len + k : ℕ) : ℤ) % 2 ^ 16 := by
  have hdiv := Nat.div_add_mod (asnNat asn) src.len
  have hlow : asn.ls4b.toNat % 2 ^ 16 = asnNat asn % 2 ^ 16 := by
    unfold asnNat
    rw [show (2 : ℕ) ^ 32 = 2 ^ 16 * 2 ^ 16 by norm_num, ← Nat.mul_assoc, Nat.mul_add_mod']
  have hcycle : (src.cycle asn + 1) * src.len = src.len * (asnNat asn / src.len) + src.len := by
    rw [Nat.add_one_mul, Nat.mul_comm]
    rfl
  rw [asnMod_eq, hcycle, hlow]
  generalize src.len * (asnNat asn / src.len) = base at hdiv
  generalize asnNat asn % src.len = rest at hdiv
  omega

/-- What a call does, with the slots it is about. -/
theorem masterRoutingSend_eq :
    ∃ v' out, masterRoutingSend true src.schedule src.config src.slotframes asn data v =
        some (!tschSlotnumLt (src.firstSlot asn % 2 ^ 16 : ℕ)
          (v.lastSentPacketAsn.toNat + src.len), v', out) ∧
      v'.mrp.earliestTxSlot.toNat = src.firstSlot asn % 2 ^ 16 ∧
      v'.mrp.ttlSlotNumber.toNat = src.lastSlot asn % 2 ^ 16 ∧
      v'.lastSentPacketAsn.toNat =
        if tschSlotnumLt (src.firstSlot asn % 2 ^ 16 : ℕ) (v.lastSentPacketAsn.toNat + src.len)
        then v.lastSentPacketAsn.toNat else src.firstSlot asn % 2 ^ 16 := by
  rcases src.slotframe with ⟨links, hsf⟩
  have hearliest := toNat_toUint16 (next_slot src asn src.first)
  have httl := toNat_toUint16 (next_slot src asn src.last)
  unfold masterRoutingSend
  rw [if_neg (by decide), if_neg src.flow_ne]
  dsimp only
  rw [hsf]
  dsimp only [Option.map_some]
  change (toUint16 (((asn.ls4b.toNat % 2 ^ 16 : ℕ) : ℤ) + src.len -
    asnMod asn (asnDivisorInit src.len) + src.first)).toNat = src.firstSlot asn % 2 ^ 16 at hearliest
  change (toUint16 (((asn.ls4b.toNat % 2 ^ 16 : ℕ) : ℤ) + src.len -
    asnMod asn (asnDivisorInit src.len) + src.last)).toNat = src.lastSlot asn % 2 ^ 16 at httl
  unfold Source.len Source.first at hearliest
  unfold Source.len Source.last at httl
  rw [hearliest]
  unfold Source.len
  by_cases hlt : tschSlotnumLt (src.firstSlot asn % 2 ^ 16 : ℕ)
      (v.lastSentPacketAsn.toNat + src.config.scheduleLength.toNat) = true
  · -- too early
    rw [if_pos hlt, if_pos hlt, hlt]
    exact ⟨_, _, rfl, hearliest, httl, rfl⟩
  · rw [if_neg hlt, if_neg hlt, Bool.eq_false_iff.2 hlt]
    split_ifs
    · exact ⟨_, _, rfl, hearliest, httl, hearliest⟩
    · exact ⟨_, _, rfl, hearliest, httl, hearliest⟩

end

/-! ## Step -/

/-- The comparison of slots by their low 16 bits. -/
theorem tschSlotnumLt_mod_iff (n : ℕ) (x : ℤ) :
    tschSlotnumLt (n % 2 ^ 16 : ℕ) x = true ↔ 2 ^ 15 ≤ ((n : ℤ) - x) % 2 ^ 16 := by
  unfold tschSlotnumLt tschSlotnumDiff16
  rw [decide_eq_true_eq, Int.bmod_def]
  split_ifs <;> omega

section

variable {src : Source} {s : State} {asn : Asn} {c : Call}

theorem cycle_le {asn' : Asn} (h : asnNat asn ≤ asnNat asn') : src.cycle asn ≤ src.cycle asn' :=
  Nat.div_le_div_right h

theorem firstSlot_lt {asn' : Asn} (h : src.cycle asn < src.cycle asn') :
    src.firstSlot asn < src.firstSlot asn' := by
  have hmul := Nat.mul_lt_mul_of_pos_right (Nat.succ_lt_succ h) (len_pos src)
  unfold Source.firstSlot
  exact Nat.add_lt_add_right hmul _

/-- A second packet for one cycle is rejected. -/
theorem tooEarly_of_carried (h : src.Inv s) (hnow : s.now ≤ asnNat asn) (hc : c.asn = asn)
    (hcar : src.Carried s.log c) :
    tschSlotnumLt (src.firstSlot asn % 2 ^ 16 : ℕ) (s.vars.lastSentPacketAsn.toNat + src.len)
      = true := by
  rcases hcar with ⟨b, hb, hacc, hcycle⟩
  rcases h.kept b hb hacc with ⟨d, hd, _, hle, hlast, _⟩
  have hpos := len_pos src
  have hlt : src.len < 256 := UInt8.toNat_lt src.config.scheduleLength
  -- the packet that is kept is for this cycle too
  have hge : src.cycle d.asn ≤ src.cycle asn := cycle_le ((h.past d hd).trans hnow)
  have heq : src.cycle d.asn = src.cycle asn := by
    rw [hc] at hcycle
    omega
  have hslot : src.firstSlot d.asn = src.firstSlot asn := by
    unfold Source.firstSlot
    rw [heq]
  rw [tschSlotnumLt_mod_iff, hlast, hslot]
  generalize src.firstSlot asn = n
  omega

/-- The gate is right about a call exactly if the next cycle carries a packet or the slots can be
compared. -/
theorem gateRight_iff {pre : List Call} (hcar : src.Carried pre c → c.accepted = false)
    (hacc : c.accepted = !tschSlotnumLt (src.firstSlot c.asn % 2 ^ 16 : ℕ)
      (c.before.lastSentPacketAsn.toNat + src.len)) :
    src.GateRight pre c ↔ src.Comparable pre c := by
  have hiff := tschSlotnumLt_mod_iff (src.firstSlot c.asn)
    (c.before.lastSentPacketAsn.toNat + src.len)
  unfold Source.GateRight Source.Comparable
  by_cases h : src.Carried pre c
  · -- rejected, and rightly so
    exact ⟨fun _ => .inl h, fun _ => ⟨fun _ => h, hcar⟩⟩
  · have hrej : c.accepted = false ↔ 2 ^ 15 ≤ ((src.firstSlot c.asn : ℤ) -
        (c.before.lastSentPacketAsn.toNat + src.len)) % 2 ^ 16 := by
      rw [hacc, ← hiff]
      simp
    constructor
    · intro hright
      right
      have hnot : ¬ c.accepted = false := fun hfalse => h (hright.1 hfalse)
      rw [hrej] at hnot
      omega
    · rintro (hc | hnear)
      · exact absurd hc h
      · constructor
        · intro hfalse
          rw [hrej] at hfalse
          omega
        · intro hc
          exact absurd hc h

theorem Source.Inv.step {t : State} {e : Asn × List UInt8} (h : src.Inv s)
    (hs : step src s e = some t) : src.Inv t := by
  rcases e with ⟨asn, data⟩
  unfold SendGate.step at hs
  dsimp only at hs
  split_ifs at hs with hnow
  rcases masterRoutingSend_eq src asn data s.vars with ⟨v, out, hsend, hearliest, httl, hlast⟩
  rw [hsend, Option.map_some] at hs
  cases hs
  set c : Call := ⟨asn, s.vars, !tschSlotnumLt (src.firstSlot asn % 2 ^ 16 : ℕ)
    (s.vars.lastSentPacketAsn.toNat + src.len), v.mrp⟩ with hc
  -- what is carried is rejected
  have hcar : src.Carried s.log c → c.accepted = false := by
    intro hcar
    have htoo := tooEarly_of_carried h hnow rfl hcar
    rw [hc]
    dsimp only
    rw [htoo]
    rfl
  have hpast : ∀ b ∈ s.log, src.cycle b.asn ≤ src.cycle asn := by
    intro b hb
    exact cycle_le ((h.past b hb).trans hnow)
  constructor
  · exact always_concat h.gate (gateRight_iff hcar rfl)
  · refine always_concat h.slots ?_
    intro hacc
    refine ⟨hearliest, httl, ?_⟩
    intro b hb hbacc
    refine firstSlot_lt (lt_of_le_of_ne (hpast b hb) ?_)
    intro heq
    -- two packets for one cycle
    have hfalse := hcar ⟨b, hb, hbacc, congrArg (· + 1) heq⟩
    rw [hfalse] at hacc
    cases hacc
  · intro b hb
    rcases List.mem_append.1 hb with hb | hb
    · exact (h.past b hb).trans hnow
    · rw [List.mem_singleton.1 hb]
  · intro b hb hbacc
    by_cases htoo : tschSlotnumLt (src.firstSlot asn % 2 ^ 16 : ℕ)
        (s.vars.lastSentPacketAsn.toNat + src.len) = true
    · -- the call is rejected, and the slot that is kept stays
      have hrej : c.accepted = false := by
        rw [hc]
        dsimp only
        rw [htoo]
        rfl
      have hold : ∀ d ∈ s.log ++ [c], d.accepted = true → d ∈ s.log := by
        intro d hd hdacc
        rcases List.mem_append.1 hd with hd | hd
        · exact hd
        · rw [List.mem_singleton.1 hd, hrej] at hdacc
          cases hdacc
      rcases h.kept b (hold b hb hbacc) hbacc with ⟨d, hd, hdacc, hle, hslot, hall⟩
      rw [if_pos htoo] at hlast
      refine ⟨d, List.mem_append_left _ hd, hdacc, hle, hlast.trans hslot, ?_⟩
      intro d' hd' hacc'
      exact hall d' (hold d' hd' hacc') hacc'
    · -- the call is accepted, and its slot is kept
      rw [if_neg htoo] at hlast
      have hle : ∀ d ∈ s.log ++ [c], src.cycle d.asn ≤ src.cycle c.asn := by
        intro d hd
        rcases List.mem_append.1 hd with hd | hd
        · exact hpast d hd
        · rw [List.mem_singleton.1 hd]
      refine ⟨c, by simp, ?_, hle b hb, hlast, fun d hd _ => hle d hd⟩
      rw [hc]
      dsimp only
      rw [Bool.eq_false_iff.2 htoo]
      rfl

theorem inv_initState (v : Variables) : src.Inv (initState v) := by
  constructor
  · exact always_nil
  · exact always_nil
  · intro c hc
    cases hc
  · intro b hb
    cases hb

end

/-! ## Runs -/

/-- In every run the gate is right about all calls exactly if the slots can be compared at each of
them; and what is accepted has its slots. -/
theorem gate_of_run (src : Source) (v : Variables) (s : State)
    (hrun : Run (step src) (fun _ _ => True) (initState v) s) :
    (Always src.GateRight s.log ↔ Always src.Comparable s.log) ∧
      Always (fun pre c => c.accepted = true → src.SlotsRight pre c) s.log := by
  have hinv := hrun.invariant (fun _ _ _ h _ hs => h.step hs) (inv_initState v)
  refine ⟨?_, hinv.slots⟩
  constructor
  · intro h pre c post hl
    exact (hinv.gate pre c post hl).1 (h pre c post hl)
  · intro h pre c post hl
    exact (hinv.gate pre c post hl).2 (h pre c post hl)

/-- An installed slotframe is there for every flow of the schedule. -/
theorem slotframe_of_install {maxLinks n len h : ℕ} {config : UniversalConfig} {r : Host.NodeRecord}
    {s : MasterTschSchedule} {t : SlotframeList} (hs : Decodes r s)
    (hlen : config.scheduleLength.toNat = len) (hpos : len ≠ 0)
    (hflows : config.slotFrames.toNat = n + 1) (hn : n + 1 ≤ masterNumFlows)
    (ht : ∀ sf ∈ t.entries, sf.handle ≤ 1)
    (hh : ∀ l ∈ r.links, 1 ≤ l.flowNumber ∧ l.flowNumber ≤ n + 1)
    (hslot : ∀ l ∈ r.links, l.timeslot ≤ len - 1) (hpool : r.links.length + 2 ≤ maxLinks)
    (h1 : 1 ≤ h) (hle : h ≤ n + 1) :
    ∃ links, (installSlotframes maxLinks config s t).get? h = some ⟨h, len, links⟩ := by
  rcases installSlotframes_spec hs hlen hpos hflows hn ht hh hslot hpool with
    ⟨t₁, hlinks, hother, links, _, _, hget, _⟩
  by_cases hone : h = 1
  · rw [hone]
    exact ⟨links, hget⟩
  · rcases hlinks.slotframe h h1 hle with ⟨links', hget', _⟩
    exact ⟨links', by rw [hother h hone, hget']⟩

/-- A flow with its first slot 3 and its last slot 7 in cycles of 100 slots. -/
def hundredSlots : Source where
  schedule := ⟨1, 2, [2, 0, 0, 0, 0, 0, 0, 0], [], 0, []⟩
  config := ⟨100, 1, [], [], [3], [7]⟩
  slotframes := (Keyed.empty : SlotframeList).put ⟨1, 100, Keyed.empty⟩
  flow_ne := by decide
  length_ne := by decide
  slotframe := ⟨Keyed.empty, rfl⟩

def noVariables : Variables := ⟨⟨0, 0, 0, 0, []⟩, 0, 0, ⟨0, 0, 0, 0, 0, 0, 0, 0⟩⟩

/-- Three calls, of which the second is in the cycle of the first. -/
theorem gate_of_run_three :
    ∃ s, Run (step hundredSlots) (fun _ _ => True) (initState noVariables) s ∧
      s.log.map (fun c => (c.accepted, c.mrp.earliestTxSlot)) =
        [(true, 203), (false, 203), (true, 303)] ∧
      (Always hundredSlots.GateRight s.log ↔ Always hundredSlots.Comparable s.log) := by
  obtain ⟨s, hrun, hs⟩ := exists_run_of_runEvents (step hundredSlots) (fun _ _ => True)
    (initState noVariables) [(⟨150, 0⟩, []), (⟨190, 0⟩, []), (⟨200, 0⟩, [])]
    (fun s => s.log.map (fun c => (c.accepted, c.mrp.earliestTxSlot)) =
      [(true, 203), (false, 203), (true, 303)]) (by decide)
  exact ⟨s, hrun, hs, (gate_of_run hundredSlots noVariables s hrun).1⟩

/-- The first call is at an ASN in the upper half of 16 bits, and it is rejected. -/
theorem first_rejected :
    ∃ s, Run (step hundredSlots) (fun _ _ => True) (initState noVariables) s ∧
      ¬ Always hundredSlots.GateRight s.log := by
  obtain ⟨s, hrun, hs⟩ := exists_run_of_runEvents (step hundredSlots) (fun _ _ => True)
    (initState noVariables) [(⟨40000, 0⟩, [])]
    (fun s => s.log.map Call.accepted = [false]) (by decide)
  refine ⟨s, hrun, ?_⟩
  intro h
  rcases List.map_eq_cons_iff.1 hs with ⟨c, rest, hl, hacc, _⟩
  have hright := h [] c rest hl
  rcases hright.1 hacc with ⟨b, hb, _⟩
  cases hb

end MasterScheduler.Mote.SendGate
