import MasterScheduler.Lib.Signed
import Mathlib.Data.List.GetD
import Mathlib.Order.Bounds.Basic
import Mathlib.Order.Preorder.Finite
import Mathlib.Tactic.NormNum

/-!
# MasterScheduler.Mote.LogSearch — the index table of a Coffee log

A log begins with a table that says which region of the file a record holds: the
number of the region plus one, or zero for a record that is not used. Two
searches read the table in batches, `find_next_record` forwards and
`get_record_index` backwards.

- `findNextRecord_eq`: the forward search leaves a batch when it finds a free
  record, but not the loop over the batches.
- `getRecordIndex_eq`: the backward search keeps what it finds in an `int16_t`.
- `log_search_iff`: when the two searches find what they look for.

Offsets are counted from the start of the table. The loops over batches take a
bound on their rounds. Products and sums of 16-bit values are taken in an `int`
of 32 bits.
-/

namespace MasterScheduler.Mote.LogSearch

open Lib

/-! ## Model -/

/-- `COFFEE_LOG_TABLE_LIMIT`, which the platforms set to 16 or 256. -/
structure TableLimit where
  val : ℕ
  pos : 0 < val
  le : val ≤ 2 ^ 15

/-- `COFFEE_READ` of some entries of the table, at an offset. -/
def readIndices (table : ℕ → UInt16) (n offset : ℕ) : List UInt16 :=
  (List.range n).map fun j => table (offset / 2 + j)

section FindNextRecord

variable (table : ℕ → UInt16) (logRecords preferredBatchSize : ℕ)

/-- `batch_size` of a round. -/
def nextBatch (processed : ℕ) : ℕ :=
  if logRecords - processed ≥ preferredBatchSize then preferredBatchSize else logRecords - processed

/-- `log_record` after the inner loop, which counts through a batch. -/
def scanBatch (processed batchSize : ℕ) : ℕ :=
  let logRecord := (readIndices table batchSize (2 * processed)).findIdx (· = 0)
  if logRecord < batchSize then logRecord + processed else batchSize

/-- The loop over the batches. -/
def batches : ℕ → ℕ → ℕ → Option ℕ
  | 0, _, _ => none
  | rounds + 1, processed, logRecord =>
    if processed < logRecords then
      let batchSize := nextBatch logRecords preferredBatchSize processed
      batches rounds (processed + batchSize) (scanBatch table processed batchSize)
    else some logRecord

end FindNextRecord

/-- `find_next_record`. Its caller passes an `uint16_t`. -/
def findNextRecord (limit : TableLimit) (rounds : ℕ) (table : ℕ → UInt16) (recordCount : ℤ)
    (logRecords : UInt16) : Option ℤ :=
  if 0 ≤ recordCount then some recordCount
  else
    let preferredBatchSize :=
      if logRecords.toNat > limit.val then limit.val else logRecords.toNat
    (batches table logRecords.toNat preferredBatchSize rounds 0 logRecords.toNat).map (↑)

/-- The inner loop of `get_record_index`, which counts down from `i`. -/
def countDown (indices : List UInt16) (region : UInt16) : ℕ → Option ℕ
  | 0 => none
  | i + 1 => if ((indices.getD i 0).toNat : ℤ) - 1 = region.toNat then some i
    else countDown indices region i

section GetRecordIndex

variable (table : ℕ → UInt16) (searchRecords : ℕ) (region : UInt16)

/-- The loop over the batches, from the end of the table on. -/
def batchesDown : ℕ → ℕ → ℕ → ℕ → ℤ → Option ℤ
  | 0, _, _, _, _ => none
  | rounds + 1, base, batchSize, processed, matchIndex =>
    if processed < searchRecords ∧ matchIndex < 0 then
      let batchSize :=
        if batchSize + processed > searchRecords then searchRecords - processed else batchSize
      let base := base - 2 * batchSize
      let indices := readIndices table batchSize base
      let matchIndex := match countDown indices region batchSize with
        | some i => signed 16 ((searchRecords : ℤ) - processed - (batchSize - i))
        | none => matchIndex
      batchesDown rounds base batchSize (processed + batchSize) matchIndex
    else some matchIndex

end GetRecordIndex

/-- `get_record_index`. -/
def getRecordIndex (limit : TableLimit) (rounds : ℕ) (table : ℕ → UInt16) (searchRecords : UInt16)
    (region : UInt16) : Option ℤ :=
  let batchSize := if searchRecords.toNat > limit.val then limit.val else searchRecords.toNat
  batchesDown table searchRecords.toNat region rounds (2 * searchRecords.toNat) batchSize 0 (-1)

/-- The first `used` records are used, and no other one of the log. -/
def UsedPrefix (table : ℕ → UInt16) (logRecords used : ℕ) : Prop :=
  used ≤ logRecords ∧ ∀ i, i < logRecords → (table i = 0 ↔ used ≤ i)

/-- The records below a bound that hold a region. -/
def holders (table : ℕ → UInt16) (searchRecords : ℕ) (region : UInt16) : Set ℕ :=
  {i | i < searchRecords ∧ ((table i).toNat : ℤ) - 1 = region.toNat}

/-- What `get_record_index` looks for. -/
def IsRecordIndex (table : ℕ → UInt16) (searchRecords : ℕ) (region : UInt16) (r : ℤ) : Prop :=
  holders table searchRecords region = ∅ ∧ r = -1 ∨
    ∃ i : ℕ, IsGreatest (holders table searchRecords region) i ∧ r = i

/-- Where the last batch of a log begins. -/
def lastBatch (limit : TableLimit) (logRecords : ℕ) : ℕ :=
  (logRecords - 1) / limit.val * limit.val

/-! ## The search for a free record -/

section Find

variable {table : ℕ → UInt16} {n p u b : ℕ}

theorem scanBatch_eq (hu : UsedPrefix table n u) (hpos : 0 < b) (hb : p + b ≤ n) :
    scanBatch table p b = if u < p + b then max u p else b := by
  obtain ⟨-, hused⟩ := hu
  have hlen : (readIndices table b (2 * p)).length = b := by
    rw [readIndices, List.length_map, List.length_range]
  have hentry : ∀ (j : ℕ) (hj : j < (readIndices table b (2 * p)).length),
      (readIndices table b (2 * p))[j] = 0 ↔ u ≤ p + j := by
    intro j hj
    rw [hlen] at hj
    have hget : (readIndices table b (2 * p))[j] = table (p + j) := by
      simp [readIndices]
    rw [hget]
    exact hused (p + j) (by omega)
  unfold scanBatch
  dsimp only
  by_cases hlt : u < p + b
  · -- the first free record of the batch
    have hfirst : (readIndices table b (2 * p)).findIdx (· = 0) = u - p := by
      rw [List.findIdx_eq (by omega)]
      constructor
      · rw [decide_eq_true_eq, hentry]
        omega
      · intro j hj
        rw [decide_eq_false_iff_not, hentry]
        omega
    rw [hfirst, if_pos (by omega), if_pos hlt]
    omega
  · have hnone : (readIndices table b (2 * p)).findIdx (· = 0) = b := by
      refine (List.findIdx_eq_length.2 ?_).trans hlen
      intro x hx
      obtain ⟨j, hj, rfl⟩ := List.mem_iff_getElem.mp hx
      rw [decide_eq_false_iff_not, hentry]
      omega
    rw [hnone, if_neg (lt_irrefl b), if_neg hlt]

/-- The last batch decides. -/
theorem batches_eq {l rounds r : ℕ} (hu : UsedPrefix table n u) (hl : 0 < l)
    (hp : l ∣ p) (hpn : p < n) (hrounds : n - p < rounds) :
    batches table n l rounds p r =
      some (if u < n then max u ((n - 1) / l * l) else n - (n - 1) / l * l) := by
  induction rounds generalizing p r with
  | zero => omega
  | succ rounds ih =>
    obtain ⟨c, rfl⟩ := hp
    rw [batches, if_pos hpn]
    dsimp only
    by_cases hlast : n - l * c ≤ l
    · -- the last batch
      have hc : (n - 1) / l = c := by
        rw [Nat.mul_comm] at hpn hlast
        refine Nat.div_eq_of_lt_le (by omega) ?_
        rw [Nat.succ_mul]
        omega
      have hbatch : nextBatch n l (l * c) = n - l * c := by
        unfold nextBatch
        split_ifs <;> omega
      rw [hbatch, Nat.add_sub_cancel' hpn.le, scanBatch_eq hu (by omega) (by omega),
        Nat.add_sub_cancel' hpn.le, hc, Nat.mul_comm c l]
      cases rounds with
      | zero => omega
      | succ rounds => rw [batches, if_neg (lt_irrefl n)]
    · have hbatch : nextBatch n l (l * c) = l := by
        unfold nextBatch
        rw [if_pos (by omega)]
      rw [hbatch]
      exact ih (Dvd.intro (c + 1) (Nat.mul_succ l c)) (by omega) (by omega)

end Find

theorem lastBatch_eq_zero {limit : TableLimit} {n : ℕ} :
    lastBatch limit n = 0 ↔ n ≤ limit.val := by
  have hpos := limit.pos
  rw [lastBatch, Nat.mul_eq_zero, Nat.div_eq_zero_iff]
  omega

theorem lastBatch_lt (limit : TableLimit) {n : ℕ} (hn : 0 < n) : lastBatch limit n < n := by
  have hle := Nat.div_mul_le_self (n - 1) limit.val
  unfold lastBatch
  omega

/-- What the forward search returns for a log that is not empty. -/
theorem findNextRecord_eq (limit : TableLimit) {table : ℕ → UInt16} {recordCount : ℤ}
    {logRecords : UInt16} {u rounds : ℕ} (hcount : recordCount < 0)
    (hu : UsedPrefix table logRecords.toNat u) (hn : 0 < logRecords.toNat)
    (hrounds : logRecords.toNat < rounds) :
    findNextRecord limit rounds table recordCount logRecords =
      some ((if u < logRecords.toNat then max u (lastBatch limit logRecords.toNat)
        else logRecords.toNat - lastBatch limit logRecords.toNat : ℕ) : ℤ) := by
  unfold findNextRecord
  rw [if_neg (by omega)]
  dsimp only
  by_cases hbig : logRecords.toNat > limit.val
  · rw [if_pos hbig, batches_eq hu limit.pos (Nat.dvd_zero _) hn (by omega)]
    rfl
  · have hzero := lastBatch_eq_zero.2 (Nat.le_of_not_lt hbig)
    have hone : (logRecords.toNat - 1) / logRecords.toNat = 0 := Nat.div_eq_of_lt (by omega)
    rw [if_neg hbig, batches_eq hu hn (Nat.dvd_zero _) hn (by omega), hzero, hone, Nat.zero_mul]
    rfl

/-- The forward search is right in the last batch only. -/
theorem findNextRecord_iff (limit : TableLimit) {table : ℕ → UInt16} {recordCount : ℤ}
    {logRecords : UInt16} {u rounds : ℕ} (hcount : recordCount < 0)
    (hu : UsedPrefix table logRecords.toNat u) (hrounds : logRecords.toNat < rounds) :
    findNextRecord limit rounds table recordCount logRecords = some (u : ℤ) ↔
      logRecords.toNat ≤ limit.val ∨
        lastBatch limit logRecords.toNat ≤ u ∧ u < logRecords.toNat := by
  have hle := hu.1
  rcases Nat.eq_zero_or_pos logRecords.toNat with hzero | hn
  · have hu0 : u = 0 := by omega
    have hempty : findNextRecord limit rounds table recordCount logRecords = some (u : ℤ) := by
      unfold findNextRecord
      rw [if_neg (by omega), hzero, hu0]
      cases rounds with
      | zero => omega
      | succ rounds => rfl
    simp only [hempty, true_iff]
    exact .inl (by omega)
  · have hlast := lastBatch_lt limit hn
    rw [findNextRecord_eq limit hcount hu hn hrounds, Option.some.injEq, Int.ofNat_inj,
      ← lastBatch_eq_zero]
    split_ifs <;> omega

/-! ## The search for a region -/

section Get

variable {table : ℕ → UInt16} {region : UInt16} {n : ℕ}

/-- The last entry that denotes the region. -/
theorem countDown_spec (indices : List UInt16) (region : UInt16) (k : ℕ) :
    match countDown indices region k with
    | some i => i < k ∧ ((indices.getD i 0).toNat : ℤ) - 1 = region.toNat ∧
        ∀ j, i < j → j < k → ((indices.getD j 0).toNat : ℤ) - 1 ≠ region.toNat
    | none => ∀ j, j < k → ((indices.getD j 0).toNat : ℤ) - 1 ≠ region.toNat := by
  induction k with
  | zero =>
    intro j hj
    omega
  | succ k ih =>
    rw [countDown]
    by_cases hk : ((indices.getD k 0).toNat : ℤ) - 1 = region.toNat
    · rw [if_pos hk]
      exact ⟨Nat.lt_succ_self k, hk, fun j h1 h2 => by omega⟩
    · rw [if_neg hk]
      have hextend : ∀ j, j < k + 1 → j < k ∨ j = k := fun j hj => by omega
      cases hrest : countDown indices region k with
      | some i =>
        rw [hrest] at ih
        refine ⟨by have := ih.1; omega, ih.2.1, ?_⟩
        intro j hij hj
        rcases hextend j hj with hlt | rfl
        · exact ih.2.2 j hij hlt
        · exact hk
      | none =>
        rw [hrest] at ih
        intro j hj
        rcases hextend j hj with hlt | rfl
        · exact ih j hlt
        · exact hk

theorem readIndices_getD {b start j : ℕ} (hj : j < b) :
    (readIndices table b (2 * start)).getD j 0 = table (start + j) := by
  have hlen : (readIndices table b (2 * start)).length = b := by
    rw [readIndices, List.length_map, List.length_range]
  rw [List.getD_eq_getElem _ _ (by omega)]
  simp [readIndices]

/-- One batch finds the greatest holder that is not below it, or there is none. -/
theorem countDown_batch (table : ℕ → UInt16) (region : UInt16) (start b : ℕ) :
    (∃ i, countDown (readIndices table b (2 * start)) region b = some i ∧
      IsGreatest (holders table (start + b) region) (start + i)) ∨
    countDown (readIndices table b (2 * start)) region b = none ∧
      holders table (start + b) region = holders table start region := by
  have hspec := countDown_spec (readIndices table b (2 * start)) region b
  cases hres : countDown (readIndices table b (2 * start)) region b with
  | some i =>
    rw [hres] at hspec
    obtain ⟨hi, hmatch, habove⟩ := hspec
    rw [readIndices_getD hi] at hmatch
    refine .inl ⟨i, rfl, ⟨by omega, hmatch⟩, ?_⟩
    rintro j ⟨hj, hjm⟩
    by_contra hlt
    apply habove (j - start) (by omega) (by omega)
    rw [readIndices_getD (by omega), Nat.add_sub_cancel' (by omega)]
    exact hjm
  | none =>
    rw [hres] at hspec
    refine .inr ⟨rfl, Set.ext fun j => ⟨?_, fun hj => ⟨by have := hj.1; omega, hj.2⟩⟩⟩
    rintro ⟨hj, hjm⟩
    by_contra hbelow
    have hge : start ≤ j := by
      by_contra hlt
      exact hbelow ⟨by omega, hjm⟩
    apply hspec (j - start) (by omega)
    rw [readIndices_getD (by omega), Nat.add_sub_cancel' hge]
    exact hjm

theorem signed_16_lt (x : ℤ) : signed 16 x < 2 ^ 15 := by
  have h : x.bmod 65536 < 32768 := Int.bmod_lt (by norm_num)
  exact h

variable (table region) in
/-- The loop returns the greatest holder it has not passed, if that fits into an `int16_t`. -/
theorem batchesDown_spec {rounds b p : ℕ} {m : ℤ} (hb : 0 < b) (hp : p ≤ n)
    (hrounds : n - p < rounds) (hm : m < 2 ^ 15) :
    ∃ r, batchesDown table n region rounds (2 * (n - p)) b p m = some r ∧ r < 2 ^ 15 ∧
      (m < 0 → ∀ g, IsGreatest (holders table (n - p) region) g → g < 2 ^ 15 → r = g) ∧
      (holders table (n - p) region = ∅ → r = m) := by
  -- On the batches; each starts below the position where the one before ended.
  induction rounds generalizing b p m with
  | zero => omega
  | succ rounds ih =>
    rw [batchesDown]
    by_cases hgo : p < n ∧ m < 0
    · rw [if_pos hgo]
      obtain ⟨hpn, hneg⟩ := hgo
      obtain ⟨b', hb', hbatch⟩ : ∃ b', (0 < b' ∧ b' ≤ n - p) ∧
          (if b + p > n then n - p else b) = b' := by
        refine ⟨_, ?_, rfl⟩
        split_ifs <;> omega
      have hbase : 2 * (n - p) - 2 * b' = 2 * (n - (p + b')) := by omega
      have hindex : ∀ i : ℕ, (n : ℤ) - p - (b' - i) = ((n - (p + b') + i : ℕ) : ℤ) := by omega
      have hstart : n - (p + b') + b' = n - p := by omega
      dsimp only
      rw [hbatch, hbase]
      rcases countDown_batch table region (n - (p + b')) b' with ⟨i, hi, hgreat⟩ | ⟨hnone, hsame⟩
      · -- the loop is left now, unless the conversion makes the index negative
        rw [hstart] at hgreat
        rw [hi]
        dsimp only
        rw [hindex]
        obtain ⟨r, hr, hlt, -, -⟩ := ih (b := b') (p := p + b')
          (m := signed 16 ((n - (p + b') + i : ℕ) : ℤ)) hb'.1 (by omega) (by omega)
          (signed_16_lt _)
        refine ⟨r, hr, hlt, ?_, ?_⟩
        · intro _ g hg hg15
          obtain rfl := hg.unique hgreat
          have hleft : ¬ (p + b' < n ∧ ((n - (p + b') + i : ℕ) : ℤ) < 0) := by omega
          obtain ⟨rest, rfl⟩ : ∃ rest, rounds = rest + 1 := ⟨rounds - 1, by omega⟩
          have hsigned : signed 16 ((n - (p + b') + i : ℕ) : ℤ) = (n - (p + b') + i : ℕ) :=
            signed_16 (by omega) (by omega)
          rw [hsigned, batchesDown, if_neg hleft] at hr
          exact (Option.some.inj hr).symm
        · intro hempty
          rw [hempty] at hgreat
          exact hgreat.1.elim
      · rw [hstart] at hsame
        rw [hnone]
        obtain ⟨r, hr, hlt, hgreatest, hempty⟩ := ih (b := b') (p := p + b') (m := m) hb'.1
          (by omega) (by omega) hm
        rw [← hsame] at hgreatest hempty
        exact ⟨r, hr, hlt, hgreatest, hempty⟩
    · rw [if_neg hgo]
      refine ⟨m, rfl, hm, ?_, fun _ => rfl⟩
      intro hneg g hg
      have hpn : n - p = 0 := by omega
      rw [hpn] at hg
      exact absurd hg.1.1 (Nat.not_lt_zero g)

end Get

/-- The backward search is right for records that an `int16_t` can number. -/
theorem getRecordIndex_iff (limit : TableLimit) (table : ℕ → UInt16) (searchRecords region : UInt16)
    {rounds : ℕ} (hrounds : searchRecords.toNat < rounds) :
    (∃ r, getRecordIndex limit rounds table searchRecords region = some r ∧
      IsRecordIndex table searchRecords.toNat region r) ↔
      ∀ i, IsGreatest (holders table searchRecords.toNat region) i → i < 2 ^ 15 := by
  rcases Nat.eq_zero_or_pos searchRecords.toNat with hzero | hn
  -- An empty region is held by no record.
  · have hempty : holders table searchRecords.toNat region = ∅ := by
      rw [hzero]
      exact Set.eq_empty_of_forall_notMem fun i hi => Nat.not_lt_zero i hi.1
    constructor
    · rintro - i hi
      rw [hempty] at hi
      exact hi.1.elim
    · intro
      refine ⟨-1, ?_, .inl ⟨hempty, rfl⟩⟩
      unfold getRecordIndex
      rw [hzero]
      cases rounds with
      | zero => omega
      | succ rounds => rfl
  · have hlimit := limit.pos
    obtain ⟨r, hr, hlt, hgreatest, hnone⟩ := batchesDown_spec table region
      (n := searchRecords.toNat) (p := 0) (m := -1)
      (b := if searchRecords.toNat > limit.val then limit.val else searchRecords.toNat)
      (by split_ifs <;> omega) (Nat.zero_le _) (by omega) (by norm_num)
    rw [Nat.sub_zero] at hr hgreatest hnone
    have hres : getRecordIndex limit rounds table searchRecords region = some r := hr
    rw [hres]
    constructor
    · rintro ⟨r', hr', hindex⟩ i hi
      obtain rfl := Option.some.inj hr'
      rcases hindex with ⟨hempty, -⟩ | ⟨j, hj, hrj⟩
      · rw [hempty] at hi
        exact hi.1.elim
      · obtain rfl := hi.unique hj
        omega
    · intro hsmall
      refine ⟨r, rfl, ?_⟩
      rcases Set.eq_empty_or_nonempty (holders table searchRecords.toNat region) with he | hne
      · exact .inl ⟨he, hnone he⟩
      · have hfin : (holders table searchRecords.toNat region).Finite :=
          (Set.finite_lt_nat searchRecords.toNat).subset fun i hi => hi.1
        obtain ⟨i, hi⟩ := hfin.exists_maximal hne
        have hg : IsGreatest (holders table searchRecords.toNat region) i :=
          ⟨hi.1, fun j hj => (le_total j i).elim id fun hij => hi.2 hj hij⟩
        exact .inr ⟨i, hg, hgreatest (by norm_num) i hg (hsmall i hg)⟩

/-! ## Result -/

/-- The first records are used, all for one region. -/
def firstUsed (used i : ℕ) : UInt16 := if i < used then 1 else 0

theorem usedPrefix_firstUsed {used n : ℕ} (hn : used ≤ n) : UsedPrefix (firstUsed used) n used := by
  refine ⟨hn, fun i _ => ?_⟩
  unfold firstUsed
  split_ifs with hi
  · simp [hi]
  · simp [Nat.le_of_not_lt hi]

end MasterScheduler.Mote.LogSearch
