import Mathlib.Algebra.Order.Floor.Semifield
import MasterScheduler.Mote.SendOutcome

/-!
# MasterScheduler.Mote.BeaconEtx — the link estimate of the beacons

A node numbers its enhanced beacons, and each neighbour estimates the link from
the numbers that it hears: the newest number over how many it has counted.

1. **Model**: the sender and the neighbour entry.
2. **Sender**: which number each beacon carries.
3. **Estimate**: one beacon.
4. **Result**: every run is estimated right as long as the entry has counted
   less than the number that arrives, which fails once the number wraps.

The quotients of floating-point numbers are read as exact rationals.
-/

namespace MasterScheduler.Mote.BeaconEtx

/-! ## Model -/

/-- The globals that number the beacons. -/
structure Sender where
  sequenceNumber : UInt16
  dontIncFirstBeacons : UInt8

/-- Their values after a start. -/
def Sender.init : Sender := ⟨0, 10⟩

/-- What a round of `tsch_send_eb_process` meets. -/
inductive Round
  /-- Nothing is sent: not associated, no beacon period, or a beacon still in the queue. -/
  | idle
  /-- A beacon is created and cannot be enqueued. -/
  | notQueued
  /-- A beacon is created and enqueued. -/
  | queued

/-- A round of `tsch_send_eb_process`, with the number of the beacon that was enqueued.
`tsch_packet_create_eb` increments the number. -/
def sendEb (s : Sender) : Round → Sender × Option UInt16
  | .idle => (s, none)
  | .notQueued =>
      let ieSequenceNumber := s.sequenceNumber + 1
      -- The number is taken back.
      ({ s with sequenceNumber := ieSequenceNumber - 1 }, none)
  | .queued =>
      let ieSequenceNumber := s.sequenceNumber + 1
      -- The first ten beacons all carry the same number.
      if 0 < s.dontIncFirstBeacons then
        (⟨ieSequenceNumber - 1, s.dontIncFirstBeacons - 1⟩, some ieSequenceNumber)
      else ({ s with sequenceNumber := ieSequenceNumber }, some ieSequenceNumber)

/-- The numbers of the beacons that are sent. -/
def sent : Sender → List Round → List UInt16
  | _, [] => []
  | s, r :: rounds => (sendEb s r).2.toList ++ sent (sendEb s r).1 rounds

/-- The fields of `struct tsch_neighbor` that the estimate uses. -/
structure Nbr where
  lastEb : UInt16
  count : UInt16
  missedEbs : UInt16
  etxLink : UInt16
deriving DecidableEq

/-- A new entry. -/
def Nbr.fresh : Nbr := ⟨0, 0, 0, 0⟩

/-- `current_etx`. A quotient by 0 is infinite and its inverse is 0, as for rationals. If `count`
is 0, infinity or no number is left, which has no value as an integer. -/
def currentEtx (count lastEb : UInt16) : Option ℕ :=
  if count = 0 then none else some ⌊1000 * (1 / ((count.toNat : ℚ) / lastEb.toNat))⌋₊

/-- `neighbor_discovery_input`. -/
def neighborDiscoveryInput (data : UInt16) (nbr : Nbr) : Option Nbr :=
  -- A beacon that was heard already is not counted twice.
  if data = nbr.lastEb then some nbr
  else
    -- All arithmetic is in 16 bits; a number below the last one counts as a wrap.
    let nbr := { nbr with
      missedEbs := nbr.missedEbs + (data - (nbr.lastEb + 1))
      lastEb := data
      count := nbr.count + 1 }
    (currentEtx nbr.count nbr.lastEb).map fun currentEtx =>
      { nbr with etxLink := UInt16.ofNat (if 30000 < currentEtx then 25555 else currentEtx) }

/-! ## Sender -/

section

variable {k : ℕ} {rounds : List Round}

/-- The number of a beacon, were it wider than 16 bits: the first ten do not advance it. -/
def beaconNumber (k : ℕ) : ℕ := k - 10 + 1

/-- How many numbers were used up to a beacon. -/
def used (k : ℕ) : ℕ := ((Finset.range (k + 1)).image beaconNumber).card

theorem used_eq (k : ℕ) : used k = beaconNumber k := by
  have himage : (Finset.range (k + 1)).image beaconNumber = Finset.Icc 1 (beaconNumber k) := by
    ext a
    simp only [Finset.mem_image, Finset.mem_range, Finset.mem_Icc, beaconNumber]
    constructor
    · rintro ⟨i, hi, rfl⟩
      omega
    · rintro ⟨hlow, hhigh⟩
      -- The number 1 is that of the first ten beacons, any other that of one.
      by_cases ha : a = 1
      · exact ⟨0, by omega, by omega⟩
      · exact ⟨a + 9, by omega, by omega⟩
  rw [used, himage, Nat.card_Icc, Nat.add_sub_cancel]

theorem beaconNumber_mono {i : ℕ} (h : i ≤ k) : beaconNumber i ≤ beaconNumber k := by
  unfold beaconNumber
  omega

/-- The sender behind `k` beacons. -/
def Sender.after (k : ℕ) : Sender := ⟨UInt16.ofNat (k - 10), UInt8.ofNat (10 - k)⟩

/-- A round without a beacon changes nothing, also where a beacon was created. -/
theorem sendEb_of_not_queued (s : Sender) {r : Round} (h : r ≠ .queued) :
    sendEb s r = (s, none) := by
  cases r with
  | idle => rfl
  | notQueued => simp [sendEb]
  | queued => exact absurd rfl h

theorem sendEb_queued (k : ℕ) : sendEb (.after k) .queued =
    (.after (k + 1), some (UInt16.ofNat (beaconNumber k))) := by
  have hnext : UInt16.ofNat (k - 10) + 1 = UInt16.ofNat (beaconNumber k) :=
    (UInt16.ofNat_add (k - 10) 1).symm
  simp only [sendEb, Sender.after, hnext]
  -- Among the first ten the countdown moves, afterwards the number.
  by_cases hk : k < 10
  · have hleft : UInt8.ofNat (10 - k) = UInt8.ofNat (10 - (k + 1)) + 1 := by
      rw [show 10 - k = 10 - (k + 1) + 1 by omega]
      exact UInt8.ofNat_add _ 1
    have hzero : k - 10 = 0 ∧ k + 1 - 10 = 0 := by omega
    have hpos : 0 < UInt8.ofNat (10 - k) := by
      rw [UInt8.lt_iff_toNat_lt, UInt8.toNat_ofNat']
      change 0 < _
      omega
    rw [if_pos hpos, hleft, UInt8.add_sub_cancel, beaconNumber, hzero.1, hzero.2]
    rfl
  · have hzero : 10 - k = 0 ∧ 10 - (k + 1) = 0 := by omega
    have hstep : k + 1 - 10 = beaconNumber k := by
      unfold beaconNumber
      omega
    rw [hzero.1, hzero.2, hstep]
    rfl

/-- Every beacon carries its number, modulo 2^16. -/
theorem sent_getElem? {i : ℕ} {number : UInt16}
    (h : (sent (.after k) rounds)[i]? = some number) :
    number = UInt16.ofNat (beaconNumber (k + i)) := by
  induction rounds generalizing k i with
  | nil => simp [sent] at h
  | cons r rounds ih =>
    -- Only a queued beacon is sent, so the other rounds leave the positions as they are.
    cases r with
    | queued =>
      rw [sent, sendEb_queued] at h
      cases i with
      | zero => exact (Option.some.inj h).symm
      | succ i =>
        have hnext := ih (k := k + 1) (i := i) h
        rwa [Nat.add_right_comm] at hnext
    | _ =>
      rw [sent, sendEb_of_not_queued _ (by simp)] at h
      exact ih h

end

/-! ## Estimate -/

section

variable {nbr nbr' : Nbr} {data : UInt16} {count lastEb : UInt16}

/-- The quotients are one division. -/
theorem currentEtx_eq (h : count ≠ 0) :
    currentEtx count lastEb = some (1000 * lastEb.toNat / count.toNat) := by
  have hfloor : ⌊1000 * (1 / ((count.toNat : ℚ) / lastEb.toNat))⌋₊ =
      1000 * lastEb.toNat / count.toNat := by
    rw [one_div_div, ← mul_div_assoc, ← Nat.cast_ofNat, ← Nat.cast_mul, Nat.floor_div_eq_div]
  rw [currentEtx, if_neg h, hfloor]

/-- What a beacon does to an entry, apart from the estimate. -/
structure Counted (data : UInt16) (nbr nbr' : Nbr) : Prop where
  lastEb : nbr'.lastEb = data
  count : nbr'.count = nbr.count + 1
  sum : nbr.count + nbr.missedEbs = nbr.lastEb → nbr'.count + nbr'.missedEbs = data
  etxLink : nbr'.etxLink ≤ 30000

theorem neighborDiscoveryInput_counted (hne : data ≠ nbr.lastEb)
    (h : neighborDiscoveryInput data nbr = some nbr') : Counted data nbr nbr' := by
  rw [neighborDiscoveryInput, if_neg hne, Option.map_eq_some_iff] at h
  obtain ⟨etx, -, rfl⟩ := h
  refine ⟨rfl, rfl, ?_, ?_⟩
  · intro hsum
    have hdiff : nbr.count + 1 + (nbr.missedEbs + (data - (nbr.lastEb + 1))) =
        nbr.count + nbr.missedEbs + 1 + (data - (nbr.lastEb + 1)) := by
      ac_rfl
    exact hdiff.trans (by rw [hsum, UInt16.add_comm, UInt16.sub_add_cancel])
  · rw [UInt16.le_iff_toNat_le, UInt16.toNat_ofNat']
    change _ ≤ 30000
    split <;> omega

/-- A beacon is estimated at 1000 or more exactly if fewer were counted before than its number
says. -/
theorem le_etxLink_iff (hne : data ≠ nbr.lastEb) :
    (∃ nbr', neighborDiscoveryInput data nbr = some nbr' ∧ 1000 ≤ nbr'.etxLink) ↔
      nbr.count < data := by
  have hdata := data.toNat_lt
  have hcount := nbr.count.toNat_lt
  have hnext : (nbr.count + 1).toNat = (nbr.count.toNat + 1) % 65536 := by
    rw [UInt16.toNat_add]
    rfl
  have hlow : (1000 : UInt16).toNat = 1000 := rfl
  rw [neighborDiscoveryInput, if_neg hne, UInt16.lt_iff_toNat_lt]
  -- A count that wraps is a division by zero, and 2^16 - 1 is not below any number.
  by_cases hzero : nbr.count + 1 = 0
  · have hwrap : (nbr.count.toNat + 1) % 65536 = 0 := by
      rw [← hnext, hzero]
      rfl
    constructor
    · rintro ⟨nbr', h, -⟩
      simp [currentEtx, hzero] at h
    · omega
  · have hpos : (nbr.count + 1).toNat ≠ 0 := fun h => hzero (UInt16.toNat_inj.mp h)
    have hsmall : (nbr.count + 1).toNat = nbr.count.toNat + 1 := by omega
    simp only [currentEtx_eq hzero, Option.map_some, Option.some.injEq, exists_eq_left', hsmall]
    rw [UInt16.le_iff_toNat_le, hlow, UInt16.toNat_ofNat']
    have hetx : 1000 ≤ 1000 * data.toNat / (nbr.count.toNat + 1) ↔
        nbr.count.toNat < data.toNat := by
      rw [Nat.le_div_iff_mul_le (Nat.succ_pos _)]
      omega
    generalize 1000 * data.toNat / (nbr.count.toNat + 1) = etx at hetx ⊢
    split
    · omega
    · omega

end

/-! ## Result -/

/-- A neighbour hears some of the beacons, in order, each one or more times; `heard` are the
positions of what it hears. -/
structure Heard (sent : List UInt16) (heard : List ℕ) : Prop where
  inOrder : heard.Pairwise (· ≤ ·)
  lt : ∀ k ∈ heard, k < sent.length

/-- The entry behind what was heard. -/
def discover (sent : List UInt16) (heard : List ℕ) : Option Nbr :=
  heard.foldlM (fun nbr k => neighborDiscoveryInput (sent.getD k 0) nbr) .fresh

/-- What the estimate promises of a beacon behind others: its number is counted only once, and if
it is counted, then all numbers used so far are accounted for and the estimate is in range. -/
structure Estimates (sent : List UInt16) (heard : List ℕ) (k : ℕ) (nbr nbr' : Nbr) : Prop where
  once : beaconNumber k ∈ heard.map beaconNumber → nbr' = nbr
  sum : sent.getD k 0 ≠ nbr.lastEb → nbr'.count + nbr'.missedEbs = UInt16.ofNat (used k)
  etxLink : sent.getD k 0 ≠ nbr.lastEb → 1000 ≤ nbr'.etxLink ∧ nbr'.etxLink ≤ 30000

/-- Every beacon of a run is taken and keeps the promise. -/
def Sound (sent : List UInt16) (heard : List ℕ) : Prop :=
  ∀ pre k, pre ++ [k] <+: heard → ∃ nbr nbr', discover sent pre = some nbr ∧
    neighborDiscoveryInput (sent.getD k 0) nbr = some nbr' ∧ Estimates sent pre k nbr nbr'

/-- Whenever a beacon is counted, the entry has counted fewer than its number. -/
def Below (sent : List UInt16) (heard : List ℕ) : Prop :=
  ∀ pre k nbr, pre ++ [k] <+: heard → discover sent pre = some nbr →
    sent.getD k 0 ≠ nbr.lastEb → nbr.count < sent.getD k 0

/-- The newest number that was heard. -/
def newest (heard : List ℕ) : ℕ := (heard.getLast?.map beaconNumber).getD 0

@[simp] theorem newest_append (heard : List ℕ) (k : ℕ) : newest (heard ++ [k]) = beaconNumber k := by
  simp [newest]

/-- The entry accounts for all numbers up to the newest. -/
structure Inv (heard : List ℕ) (nbr : Nbr) : Prop where
  lastEb : nbr.lastEb = UInt16.ofNat (newest heard)
  sum : nbr.count + nbr.missedEbs = nbr.lastEb

section

variable {rounds : List Round} {sentEbs : List UInt16} {heard pre : List ℕ} {k : ℕ} {nbr nbr' : Nbr}

theorem discover_append (sentEbs : List UInt16) (pre : List ℕ) (k : ℕ) :
    discover sentEbs (pre ++ [k]) =
      (discover sentEbs pre).bind (neighborDiscoveryInput (sentEbs.getD k 0)) := by
  simp [discover, List.foldlM_append]

theorem Heard.of_prefix (h : Heard sentEbs heard) (hpre : pre <+: heard) : Heard sentEbs pre :=
  ⟨h.inOrder.sublist hpre.sublist, fun k hk => h.lt k (hpre.subset hk)⟩

theorem Heard.number (h : Heard (sent .init rounds) (pre ++ [k])) :
    (sent .init rounds).getD k 0 = UInt16.ofNat (beaconNumber k) := by
  have hlt := h.lt k (by simp)
  have hnumber := sent_getElem? (k := 0) (List.getElem?_eq_getElem hlt)
  rw [List.getD_eq_getElem?_getD, List.getElem?_eq_getElem hlt, Option.getD_some, hnumber,
    Nat.zero_add]

theorem Heard.newest_le (h : Heard sentEbs (pre ++ [k])) : newest pre ≤ beaconNumber k := by
  rcases List.eq_nil_or_concat' pre with rfl | ⟨init, l, rfl⟩
  · exact Nat.zero_le _
  · rw [newest_append]
    exact beaconNumber_mono ((List.pairwise_append.mp h.inOrder).2.2 l (by simp) k (by simp))

theorem Heard.le_newest {j : ℕ} (h : Heard sentEbs pre) (hj : j ∈ pre) :
    beaconNumber j ≤ newest pre := by
  rcases List.eq_nil_or_concat' pre with rfl | ⟨init, l, rfl⟩
  · simp at hj
  · rw [newest_append]
    apply beaconNumber_mono
    rcases List.mem_append.mp hj with hj | hj
    · exact (List.pairwise_append.mp h.inOrder).2.2 j hj l (by simp)
    · rw [List.mem_singleton.mp hj]

/-- A number that was heard before is the newest one. -/
theorem Inv.lastEb_of_heard (h : Inv pre nbr) (hheard : Heard sentEbs (pre ++ [k]))
    (hk : beaconNumber k ∈ pre.map beaconNumber) :
    nbr.lastEb = UInt16.ofNat (beaconNumber k) := by
  obtain ⟨j, hj, hnumber⟩ := List.mem_map.mp hk
  have hle := (hheard.of_prefix (List.prefix_append _ _)).le_newest hj
  rw [h.lastEb, le_antisymm hheard.newest_le (hnumber ▸ hle)]

/-- One beacon. -/
theorem Inv.step (h : Inv pre nbr) (hheard : Heard (sent .init rounds) (pre ++ [k]))
    (hbelow : (sent .init rounds).getD k 0 ≠ nbr.lastEb →
      nbr.count < (sent .init rounds).getD k 0) :
    ∃ nbr', neighborDiscoveryInput ((sent .init rounds).getD k 0) nbr = some nbr' ∧
      Estimates (sent .init rounds) pre k nbr nbr' ∧ Inv (pre ++ [k]) nbr' := by
  rw [hheard.number] at hbelow ⊢
  by_cases hsame : UInt16.ofNat (beaconNumber k) = nbr.lastEb
  · refine ⟨nbr, by rw [neighborDiscoveryInput, if_pos hsame], ⟨fun _ => rfl, ?_, ?_⟩, ?_, h.sum⟩
    · rw [hheard.number]
      exact fun hne => absurd hsame hne
    · rw [hheard.number]
      exact fun hne => absurd hsame hne
    · rw [← hsame]
      simp
  · obtain ⟨nbr', hinput, hlow⟩ := (le_etxLink_iff hsame).mpr (hbelow hsame)
    have hcounted := neighborDiscoveryInput_counted hsame hinput
    refine ⟨nbr', hinput, ⟨?_, ?_, fun _ => ⟨hlow, hcounted.etxLink⟩⟩, ?_, ?_⟩
    · intro hbefore
      exact absurd (h.lastEb_of_heard hheard hbefore).symm hsame
    · intro _
      rw [hcounted.sum h.sum, used_eq]
    · rw [hcounted.lastEb]
      simp
    · rw [hcounted.sum h.sum, hcounted.lastEb]

/-- A run. -/
theorem inv_discover (hheard : Heard (sent .init rounds) heard)
    (hbelow : Below (sent .init rounds) heard) (hpre : pre <+: heard) :
    ∃ nbr, discover (sent .init rounds) pre = some nbr ∧ Inv pre nbr := by
  induction pre using List.reverseRecOn with
  | nil => exact ⟨.fresh, rfl, rfl, rfl⟩
  | append_singleton pre k ih =>
    obtain ⟨nbr, hrun, hinv⟩ := ih ((List.prefix_append _ _).trans hpre)
    obtain ⟨nbr', hinput, -, hinv'⟩ := hinv.step (hheard.of_prefix hpre) (hbelow pre k nbr hpre hrun)
    exact ⟨nbr', by rw [discover_append, hrun, Option.bind_some, hinput], hinv'⟩

/-- Until the number wraps, an entry counts at most the numbers there are. -/
theorem count_le_newest (hheard : Heard (sent .init rounds) heard)
    (h : ∀ k ∈ heard, beaconNumber k < 65536)
    (hrun : discover (sent .init rounds) heard = some nbr) :
    nbr.lastEb = UInt16.ofNat (newest heard) ∧ nbr.count.toNat ≤ newest heard := by
  induction heard using List.reverseRecOn generalizing nbr with
  | nil =>
    cases hrun
    exact ⟨rfl, le_rfl⟩
  | append_singleton pre k ih =>
    rw [discover_append, hheard.number] at hrun
    obtain ⟨old, hold, hinput⟩ := Option.bind_eq_some_iff.mp hrun
    obtain ⟨hlast, hcount⟩ := ih (hheard.of_prefix (List.prefix_append _ _))
      (fun j hj => h j (List.mem_append_left _ hj)) hold
    have hle := hheard.newest_le
    rw [newest_append]
    by_cases hsame : UInt16.ofNat (beaconNumber k) = old.lastEb
    · rw [neighborDiscoveryInput, if_pos hsame] at hinput
      obtain rfl := Option.some.inj hinput
      exact ⟨hsame.symm, hcount.trans hle⟩
    · have hcounted := neighborDiscoveryInput_counted hsame hinput
      have hne : newest pre ≠ beaconNumber k := by
        intro heq
        rw [hlast, heq] at hsame
        exact hsame rfl
      have hk := h k (by simp)
      refine ⟨hcounted.lastEb, ?_⟩
      rw [hcounted.count, UInt16.toNat_add]
      change (old.count.toNat + 1) % 65536 ≤ _
      omega

theorem below_of_unwrapped (hheard : Heard (sent .init rounds) heard)
    (h : ∀ k ∈ heard, beaconNumber k < 65536) : Below (sent .init rounds) heard := by
  intro pre k nbr hpre hrun hne
  have hheard' := hheard.of_prefix hpre
  have hk := h k (hpre.subset (by simp))
  obtain ⟨hlast, hcount⟩ := count_le_newest (hheard'.of_prefix (List.prefix_append _ _))
    (fun j hj => h j (hpre.subset (List.mem_append_left _ hj))) hrun
  have hle := hheard'.newest_le
  rw [hheard'.number] at hne ⊢
  have hne' : newest pre ≠ beaconNumber k := by
    intro heq
    rw [hlast, heq] at hne
    exact hne rfl
  rw [UInt16.lt_iff_toNat_lt, UInt16.toNat_ofNat', Nat.mod_eq_of_lt hk]
  omega

/-- A packet over a link that was estimated is sent at least once, and at most 30 times. -/
theorem Estimates.maxTx (h : Estimates sentEbs pre k nbr nbr')
    (hne : sentEbs.getD k 0 ≠ nbr.lastEb) :
    1 ≤ (SendOutcome.setupMaxTx nbr'.etxLink).toNat ∧
      (SendOutcome.setupMaxTx nbr'.etxLink).toNat ≤ 30 := by
  obtain ⟨hlow, hhigh⟩ := h.etxLink hne
  rw [UInt16.le_iff_toNat_le] at hlow hhigh
  have hlow : 1000 ≤ nbr'.etxLink.toNat := hlow
  have hhigh : nbr'.etxLink.toNat ≤ 30000 := hhigh
  rw [SendOutcome.toNat_setupMaxTx]
  omega

theorem length_sent_replicate (n k : ℕ) :
    (sent (.after k) (List.replicate n .queued)).length = n := by
  induction n generalizing k with
  | zero => rfl
  | succ n ih =>
    rw [List.replicate_succ, sent, sendEb_queued, List.length_append, ih, Nat.add_comm]
    rfl

end

end MasterScheduler.Mote.BeaconEtx
