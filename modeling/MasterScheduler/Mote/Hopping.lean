import Mathlib.Data.Nat.ModEq
import MasterScheduler.Host.Validity

/-!
# MasterScheduler.Mote.Hopping — from channel offsets to channels

`tsch_calculate_channel` maps a channel offset through the hopping sequence,
which the build sets to four channels. The scheduler hands out as many
channel offsets as it is told to.

- `calculateChannel_eq_iff`: offsets meet on the air when they agree modulo the
  length of the sequence.
- `channels_distinct_iff`: the schedules in which no two cells of a timeslot
  are on one channel, and the numbers of channels for which all schedules are
  of this kind.
-/

namespace MasterScheduler.Mote.Hopping

open Host Lib

/-- `struct tsch_asn_t`. -/
structure Asn where
  ls4b : UInt32
  ms1b : UInt8
deriving DecidableEq, Repr

/-- `struct tsch_asn_divisor_t`. -/
structure AsnDivisor where
  val : ℕ
  asnMs1bRemainder : ℕ

/-- `TSCH_ASN_DIVISOR_INIT`. -/
def asnDivisorInit (val : ℕ) : AsnDivisor := ⟨val, (0xffffffff % val + 1) % val⟩

/-- `TSCH_ASN_MOD`. A sequence has at most 16 entries, so nothing overflows. -/
def asnMod (asn : Asn) (div : AsnDivisor) : ℕ :=
  (asn.ls4b.toNat % div.val + asn.ms1b.toNat * div.asnMs1bRemainder % div.val) % div.val

/-- `TSCH_HOPPING_SEQUENCE_4_4`, the default of `master-project-conf.h`. -/
def defaultHoppingSequence : List ℕ := [15, 25, 26, 20]

/-- `tsch_calculate_channel` on a hopping sequence. -/
def calculateChannel (hoppingSequence : List ℕ) (asn : Asn) (channelOffset : UInt8) : ℕ :=
  let hoppingSequenceLength := asnDivisorInit hoppingSequence.length
  let indexOf0 := asnMod asn hoppingSequenceLength
  let indexOfOffset := (indexOf0 + channelOffset.toNat) % hoppingSequenceLength.val
  hoppingSequence.getD indexOfOffset 0

/-- Two cells of one timeslot are on different channels, whatever the ASN. -/
def NoCollision (S : Schedule) : Prop :=
  ∀ (asn : Asn) (t ch ch' : ℕ) (c c' : Cell), cellAt S.schedule ch t = some c →
    cellAt S.schedule ch' t = some c' → ch ≠ ch' →
    calculateChannel defaultHoppingSequence asn (UInt8.ofNat ch) ≠
      calculateChannel defaultHoppingSequence asn (UInt8.ofNat ch')

/-- No two cells of one timeslot have channel offsets that agree modulo the length of the
sequence. -/
def OffsetsApart (S : Schedule) : Prop :=
  ∀ (t ch ch' : ℕ) (c c' : Cell), cellAt S.schedule ch t = some c →
    cellAt S.schedule ch' t = some c' → ch ≠ ch' → ch % 4 ≠ ch' % 4

/-- The ASN moves all offsets alike, so only their difference counts. -/
theorem calculateChannel_eq_iff {seq : List ℕ} (hne : seq ≠ []) (hnd : seq.Nodup) (asn : Asn)
    (a b : UInt8) :
    calculateChannel seq asn a = calculateChannel seq asn b ↔
      a.toNat % seq.length = b.toNat % seq.length := by
  have hpos : 0 < seq.length := List.length_pos_of_ne_nil hne
  unfold calculateChannel
  dsimp only [asnDivisorInit]
  rw [List.getD_eq_getElem?_getD, List.getD_eq_getElem?_getD,
    List.getElem?_eq_getElem (Nat.mod_lt _ hpos), List.getElem?_eq_getElem (Nat.mod_lt _ hpos),
    Option.getD_some, Option.getD_some, hnd.getElem_inj_iff]
  -- the ASN shifts both offsets by the same amount
  exact ⟨Nat.ModEq.add_left_cancel' _, Nat.ModEq.add_left _⟩

/-! ## The offsets of a schedule -/

theorem length_placeCell {acc acc' : SlotState × ℕ} {cell : Cell}
    (h : placeCell acc cell = .ok acc') : acc'.1.schedule.length = acc.1.schedule.length := by
  unfold placeCell at h
  rcases bind_eq_ok.1 h with ⟨slot, _, h⟩
  rcases bind_eq_ok.1 h with ⟨channel, _, h⟩
  cases h
  exact List.length_modify ..

theorem length_placeFlow {st st' : SlotState} {flow : PlannedFlow}
    (h : placeFlow st flow = .ok st') : st'.schedule.length = st.schedule.length := by
  unfold placeFlow at h
  rcases bind_eq_ok.1 h with ⟨acc, hacc, h⟩
  cases h
  exact foldlM_invariant (I := fun acc => acc.1.schedule.length = st.schedule.length)
    (fun b c b' hb hstep => (length_placeCell hstep).trans hb) rfl hacc

/-- A schedule has as many rows as channels were asked for. -/
theorem length_schedule {add : ℚ → ℚ → ℚ}
    {shortestPath : Graph → Host.Node → Host.Node → Except PyError (List Host.Node)}
    {flows : List Flow} {etxPower numChannels : ℕ} {strategy : SchedulingStrategy}
    {alg : Option WindowSizeAlgorithm} {fixedWindowSize : Option ℤ} {S : Schedule}
    (h : createBy add shortestPath flows etxPower numChannels strategy alg fixedWindowSize =
      .ok S) :
    S.schedule.length = numChannels := by
  unfold createBy at h
  rcases bind_eq_ok.1 h with ⟨routed, _, h⟩
  rcases bind_eq_ok.1 h with ⟨planned, _, h⟩
  unfold placeFlows at h
  rcases bind_eq_ok.1 h with ⟨st, hst, h⟩
  cases h
  have hlen : st.schedule.length = numChannels := by
    refine foldlM_invariant (I := fun st : SlotState => st.schedule.length = numChannels)
      (fun b f b' hb hstep => (length_placeFlow hstep).trans hb) ?_ hst
    exact List.length_replicate
  rw [List.length_map, hlen]

theorem channel_lt_of_cellAt {g : Grid} {ch t : ℕ} {c : Cell} (h : cellAt g ch t = some c) :
    ch < g.length := by
  by_contra hch
  unfold cellAt at h
  rw [List.getElem?_eq_none (Nat.not_lt.1 hch)] at h
  cases h

/-- The channel offset of a cell fits `channel_offset`, which has 8 bits. -/
theorem noCollision_iff {S : Schedule} (h : S.schedule.length ≤ 256) :
    NoCollision S ↔ OffsetsApart S := by
  have hmeet : ∀ (asn : Asn) (t ch ch' : ℕ) (c c' : Cell), cellAt S.schedule ch t = some c →
      cellAt S.schedule ch' t = some c' →
      (calculateChannel defaultHoppingSequence asn (UInt8.ofNat ch) =
        calculateChannel defaultHoppingSequence asn (UInt8.ofNat ch') ↔ ch % 4 = ch' % 4) := by
    intro asn t ch ch' c c' hc hc'
    have hlt := channel_lt_of_cellAt hc
    have hlt' := channel_lt_of_cellAt hc'
    have hsize : UInt8.size = 256 := rfl
    have hlen : defaultHoppingSequence.length = 4 := rfl
    rw [calculateChannel_eq_iff (by decide) (by decide), UInt8.toNat_ofNat_of_lt' (by omega),
      UInt8.toNat_ofNat_of_lt' (by omega), hlen]
  constructor
  · intro hS t ch ch' c c' hc hc' hne heq
    exact hS ⟨0, 0⟩ t ch ch' c c' hc hc' hne ((hmeet _ t ch ch' c c' hc hc').mpr heq)
  · intro hS asn t ch ch' c c' hc hc' hne heq
    exact hS t ch ch' c c' hc hc' hne ((hmeet asn t ch ch' c c' hc hc').mp heq)

theorem offsetsApart_of_le {S : Schedule} (h : S.schedule.length ≤ 4) : OffsetsApart S := by
  intro t ch ch' c c' hc hc' hne
  have hlt := channel_lt_of_cellAt hc
  have hlt' := channel_lt_of_cellAt hc'
  omega

/-- A schedule with the first and the fifth offset in one timeslot. -/
theorem not_offsetsApart {S : Schedule} {t : ℕ} (h : (cellAt S.schedule 0 t).isSome)
    (h' : (cellAt S.schedule 4 t).isSome) : ¬ OffsetsApart S := by
  intro hS
  rcases Option.isSome_iff_exists.1 h with ⟨c, hc⟩
  rcases Option.isSome_iff_exists.1 h' with ⟨c', hc'⟩
  exact hS t 0 4 c c' hc hc' (by decide) rfl

/-! ## Five flows at once -/

/-- Five pairs of nodes, each with a link of its own. -/
def pairGraph : Graph :=
  [(1, [(2, 1)]), (2, []), (3, [(4, 1)]), (4, []), (5, [(6, 1)]), (6, []), (7, [(8, 1)]), (8, []),
    (9, [(10, 1)]), (10, [])]

/-- The flow of one pair. -/
def pairFlow (k : ℕ) : Flow where
  graph := pairGraph
  flowNumber := k
  source := 2 * k - 1
  destination := 2 * k

/-- The flows of the first pairs. -/
def pairFlows (pairs : ℕ) : List Flow := (List.range' 1 pairs).map pairFlow

/-- The only path there is. -/
def pairPath : Graph → Host.Node → Host.Node → Except PyError (List Host.Node) :=
  fun _ source destination => .ok [source, destination]

/-- The flows with their cells. -/
def pairPlan (pairs : ℕ) : List PlannedFlow :=
  (List.range' 1 pairs).map fun k =>
    { pairFlow k with
      path := [[2 * k - 1, 2 * k]]
      cost := [pyAdd 0 1]
      cells := mkCells (k - 1) k [[2 * k - 1, 2 * k]]
      maxTransmissions := Function.update (fun _ => none) (2 * k - 1) (some 1) }

theorem create_fivePairs_eq (n : ℕ) : createBy pyAdd pairPath (pairFlows 5) 1 n
    .noRetransmissions none none = placeFlows (pairPlan 5) n := by
  rfl

/-- All five flows are as long, so they stay in order. -/
theorem orderFlowsDecreasing_fivePairs : orderFlowsDecreasing (pairPlan 5) = pairPlan 5 := by
  refine List.mergeSort_of_pairwise ?_
  decide

/-- With five channels or more all cells go to the first timeslot. -/
theorem create_fivePairs {n : ℕ} (hn : n ∈ List.range' 5 12) :
    ∃ S, createBy pyAdd pairPath (pairFlows 5) 1 n .noRetransmissions none none = .ok S ∧
      (cellAt S.schedule 0 0).isSome ∧ (cellAt S.schedule 4 0).isSome := by
  rw [create_fivePairs_eq]
  have hcheck : ∀ n ∈ List.range' 5 12, ((placeFlows (pairPlan 5) n).toOption.any fun S =>
      (cellAt S.schedule 0 0).isSome && (cellAt S.schedule 4 0).isSome) = true := by
    simp only [placeFlows, orderFlowsDecreasing_fivePairs]
    decide
  have hcells := hcheck n hn
  cases hplace : placeFlows (pairPlan 5) n with
  | error e =>
    rw [hplace] at hcells
    cases hcells
  | ok S =>
    rw [hplace] at hcells
    exact ⟨S, rfl, (Bool.and_eq_true _ _).mp hcells⟩

/-- A schedule that the scheduler returns, whatever it is given. -/
def Produces (numChannels : ℕ) (S : Schedule) : Prop :=
  ∃ shortestPath flows etxPower strategy alg fixedWindowSize,
    createBy pyAdd shortestPath flows etxPower numChannels strategy alg fixedWindowSize = .ok S

theorem Produces.length {numChannels : ℕ} {S : Schedule} (h : Produces numChannels S) :
    S.schedule.length = numChannels := by
  rcases h with ⟨_, _, _, _, _, _, hS⟩
  exact length_schedule hS

/-- The cells of a timeslot are on different channels exactly in the schedules whose offsets are
apart; these are all schedules for up to as many channels as the hopping sequence has, and not
all of them for more. -/
theorem channels_distinct_iff (numChannels : ℕ) (hmin : 1 ≤ numChannels) (hmax : numChannels ≤ 16) :
    (∀ S, Produces numChannels S → (NoCollision S ↔ OffsetsApart S)) ∧
      ((∀ S, Produces numChannels S → NoCollision S) ↔ numChannels ≤ 4) := by
  have hiff : ∀ S, Produces numChannels S → (NoCollision S ↔ OffsetsApart S) := by
    intro S hS
    exact noCollision_iff (by rw [hS.length]; omega)
  refine ⟨hiff, ?_, ?_⟩
  · intro h
    by_contra hgt
    rcases create_fivePairs (n := numChannels) (List.mem_range'_1.2 (by omega)) with ⟨S, hS, h0, h4⟩
    have hprod : Produces numChannels S := ⟨_, _, _, _, _, _, hS⟩
    exact not_offsetsApart h0 h4 ((hiff S hprod).mp (h S hprod))
  · intro hle S hS
    exact (hiff S hS).mpr (offsetsApart_of_le (by rw [hS.length]; exact hle))

/-- All four flows are as long, so they stay in order. -/
theorem orderFlowsDecreasing_fourPairs : orderFlowsDecreasing (pairPlan 4) = pairPlan 4 := by
  refine List.mergeSort_of_pairwise ?_
  decide

/-- Four pairs leave the fifth channel free. -/
theorem create_fourPairs :
    ∃ S, createBy pyAdd pairPath (pairFlows 4) 1 5 .noRetransmissions none none = .ok S ∧
      (cellAt S.schedule 0 0).isSome ∧ (cellAt S.schedule 3 0).isSome ∧
      ∀ t, cellAt S.schedule 4 t = none := by
  have hplan : createBy pyAdd pairPath (pairFlows 4) 1 5 .noRetransmissions none none =
      placeFlows (pairPlan 4) 5 := rfl
  have hcheck : ((placeFlows (pairPlan 4) 5).toOption.any fun S =>
      (cellAt S.schedule 0 0).isSome && (cellAt S.schedule 3 0).isSome &&
        decide (S.schedule[4]? = some [none])) = true := by
    simp only [placeFlows, orderFlowsDecreasing_fourPairs]
    decide
  rw [hplan]
  cases hplace : placeFlows (pairPlan 4) 5 with
  | error e =>
    rw [hplace] at hcheck
    cases hcheck
  | ok S =>
    rw [hplace] at hcheck
    have hS : ((cellAt S.schedule 0 0).isSome && (cellAt S.schedule 3 0).isSome &&
        decide (S.schedule[4]? = some [none])) = true := hcheck
    rw [Bool.and_eq_true, Bool.and_eq_true, decide_eq_true_eq] at hS
    refine ⟨S, rfl, hS.1.1, hS.1.2, fun t => ?_⟩
    rw [cellAt, hS.2]
    cases t with
    | zero => rfl
    | succ t => rfl

/-- Five channels are not too many for a schedule that uses four of them. -/
theorem channels_distinct_iff_fourPairs :
    ∃ S, createBy pyAdd pairPath (pairFlows 4) 1 5 .noRetransmissions none none = .ok S ∧
      (cellAt S.schedule 0 0).isSome ∧ (cellAt S.schedule 3 0).isSome ∧ NoCollision S := by
  rcases create_fourPairs with ⟨S, hS, h0, h3, h4⟩
  have hprod : Produces 5 S := ⟨_, _, _, _, _, _, hS⟩
  refine ⟨S, hS, h0, h3,
    ((channels_distinct_iff 5 (by decide) (by decide)).1 S hprod).mpr ?_⟩
  intro t ch ch' c c' hc hc' hne
  have hlen := hprod.length
  have hlt := channel_lt_of_cellAt hc
  have hlt' := channel_lt_of_cellAt hc'
  have hch : ch ≠ 4 := by
    rintro rfl
    rw [h4] at hc
    cases hc
  have hch' : ch' ≠ 4 := by
    rintro rfl
    rw [h4] at hc'
    cases hc'
  omega

/-- With five channels the five pairs send at once, the first and the last on one channel. -/
theorem fifth_channel_collides :
    ∃ S, createBy pyAdd pairPath (pairFlows 5) 1 5 .noRetransmissions none none = .ok S ∧
      ¬ NoCollision S := by
  rcases create_fivePairs (n := 5) (by decide) with ⟨S, hS, h0, h4⟩
  have hlen : S.schedule.length = 5 := length_schedule hS
  exact ⟨S, hS, fun h => not_offsetsApart h0 h4 ((noCollision_iff (by omega)).mp h)⟩

end MasterScheduler.Mote.Hopping
