import Mathlib.Data.List.Basic
import Mathlib.Data.Nat.Basic
import Mathlib.Tactic.Cases

/-!
# MasterScheduler.Lib.BitArray — bit sets in arrays of machine words

A set of small numbers stored as the bits of an array of `w`-bit words, with
the usual shift-and-mask access. The shift is taken in the width of a word; in
C that is so for words of 32 bits where `int` has 32 bits. `intBit` is the mask
where `int` has another width. Reads outside the array see zero and writes
outside it are lost; `Covers` says that an index is inside.

- `testBit_insertBit`: setting a bit adds exactly that number.
- `testBit_replicate_zero`: the cleared array is the empty set.
- `getLsbD_intBit`: the bits of a mask that was shifted in a narrower type.
- `mem_scan_iff`: which bits the search for the first missing number reads.
- `firstMissing_eq_none`: the search fails iff every number is present.
-/

namespace MasterScheduler.Lib

variable {w : ℕ}

/-- `words[k / w] |= 1 << (k % w)`. -/
def insertBit (words : List (BitVec w)) (k : ℕ) : List (BitVec w) :=
  words.modify (k / w) fun x => x ||| (1#w <<< (k % w))

/-- `words[k / w] & (1 << (k % w))`, as a truth value. -/
def testBit (words : List (BitVec w)) (k : ℕ) : Bool :=
  ((words[k / w]?).getD 0#w &&& (1#w <<< (k % w))) != 0#w

/-- The word that holds bit `k` exists. -/
def Covers (words : List (BitVec w)) (k : ℕ) : Prop := k / w < words.length

/-- One bit of a word. -/
theorem and_shift_ne_zero (x : BitVec w) {i : ℕ} (hi : i < w) :
    ((x &&& (1#w <<< i)) != 0#w) = x.getLsbD i := by
  have hbit : ∀ j, (x &&& (1#w <<< i)).getLsbD j = (x.getLsbD j && decide (j = i ∧ j < w)) := by
    intro j
    simp only [BitVec.getLsbD_and, BitVec.getLsbD_shiftLeft, BitVec.getLsbD_one]
    by_cases h1 : j = i
    · subst h1; simp [hi]; omega
    · by_cases h2 : j < i
      · simp [h1, h2]
      · have : j - i ≠ 0 := by omega
        simp [h1, this]
  cases hx : x.getLsbD i with
  | true =>
    rw [bne_iff_ne]
    intro h0
    have := hbit i
    rw [h0, hx] at this
    simp [hi] at this
  | false =>
    rw [bne_eq_false_iff_eq]
    refine BitVec.eq_of_getLsbD_eq fun j hj => ?_
    rw [hbit j]
    by_cases h1 : j = i
    · subst h1; simp [hx]
    · simp [h1]

/-- A bit is one of its word. -/
theorem testBit_eq (hw : 0 < w) (words : List (BitVec w)) (k : ℕ) :
    testBit words k = ((words[k / w]?).getD 0#w).getLsbD (k % w) :=
  and_shift_ne_zero _ (Nat.mod_lt k hw)

/-- As many words as before. -/
@[simp] theorem length_insertBit (words : List (BitVec w)) (k : ℕ) :
    (insertBit words k).length = words.length := by
  simp [insertBit]

/-- The bit that was set. -/
theorem testBit_insertBit (hw : 0 < w) {words : List (BitVec w)} {k : ℕ} (hk : Covers words k)
    (j : ℕ) : testBit (insertBit words k) j = (decide (j = k) || testBit words j) := by
  unfold Covers at hk
  rw [testBit_eq hw, testBit_eq hw]
  unfold insertBit
  by_cases hword : k / w = j / w
  · have hj : j / w < words.length := hword ▸ hk
    have hjk : j = k ↔ j % w = k % w := by
      constructor
      · rintro rfl; rfl
      · intro hmod
        rw [← Nat.div_add_mod j w, ← Nat.div_add_mod k w, hword, hmod]
    have hget : ((words.modify (k / w) fun x => x ||| (1#w <<< (k % w)))[j / w]?).getD 0#w =
        words[j / w] ||| (1#w <<< (k % w)) := by
      simp [hword, hj]
    rw [hget, List.getElem?_eq_getElem hj, Option.getD_some, BitVec.getLsbD_or,
      BitVec.getLsbD_shiftLeft, BitVec.getLsbD_one, Bool.or_comm]
    congr 1
    have hmod : j % w < w := Nat.mod_lt j hw
    by_cases heq : j % w = k % w
    · simp [hjk.2 heq, hw, Nat.mod_lt k hw]
    · have hne : ¬ j = k := fun h => heq (hjk.1 h)
      by_cases hlt : j % w < k % w
      · simp [hne, hlt]
      · have : j % w - k % w ≠ 0 := by omega
        simp [hne, this]
  · have hne : j ≠ k := fun h => hword (by rw [h])
    simp [hword, hne]

/-- What is stored behind the array does not matter for what is in it. -/
theorem testBit_append {words : List (BitVec w)} {k : ℕ} (hk : Covers words k)
    (rest : List (BitVec w)) : testBit (words ++ rest) k = testBit words k := by
  unfold testBit
  rw [List.getElem?_append_left hk]

/-- The first of two lists is modified. -/
theorem modify_append {α : Type*} {l : List α} {i : ℕ} (hi : i < l.length) (l' : List α)
    (f : α → α) : (l ++ l').modify i f = l.modify i f ++ l' := by
  induction l generalizing i with
  | nil => exact absurd hi (Nat.not_lt_zero i)
  | cons x xs ih =>
    cases i with
    | zero => rfl
    | succ i =>
      rw [List.cons_append, List.modify_succ_cons, List.modify_succ_cons, List.cons_append,
        ih (Nat.lt_of_succ_lt_succ hi)]

/-- A bit that was set is set. -/
theorem testBit_insertBit_self (hw : 0 < w) {words : List (BitVec w)} {k : ℕ}
    (hk : Covers words k) : testBit (insertBit words k) k = true := by
  simp [testBit_insertBit hw hk]

/-- The other bits stay. -/
theorem testBit_insertBit_mono {words : List (BitVec w)} (hw : 0 < w) (k : ℕ) {j : ℕ}
    (hj : testBit words j = true) : testBit (insertBit words k) j = true := by
  by_cases hk : Covers words k
  · simp [testBit_insertBit hw hk, hj]
  · have : insertBit words k = words := by
      unfold insertBit
      exact List.modify_eq_self (not_lt.1 hk)
    rw [this, hj]

/-- No other bit is set. -/
theorem testBit_of_insertBit {words : List (BitVec w)} (hw : 0 < w) {k j : ℕ}
    (h : testBit (insertBit words k) j = true) : j = k ∨ testBit words j = true := by
  by_cases hk : Covers words k
  · simpa [testBit_insertBit hw hk] using h
  · have : insertBit words k = words := by
      unfold insertBit
      exact List.modify_eq_self (not_lt.1 hk)
    exact .inr (this ▸ h)

/-- No bit is set in zeros. -/
@[simp] theorem testBit_replicate_zero (n k : ℕ) :
    testBit (List.replicate n (0#w)) k = false := by
  unfold testBit
  rw [bne_eq_false_iff_eq]
  by_cases h : k / w < n
  · simp [h]
  · simp [h]

/-- A number that is present is covered. -/
theorem covers_of_testBit {words : List (BitVec w)} {k : ℕ} (h : testBit words k = true) :
    Covers words k := by
  by_contra hk
  have : words[k / w]? = none := List.getElem?_eq_none (not_lt.1 hk)
  simp [testBit, this] at h

/-- An array can hold the numbers `1..n` and no other, as long as they are covered. -/
theorem exists_testBit_iff_le (hw : 0 < w) {len n : ℕ} (h : n / w < len) :
    ∃ words : List (BitVec w), words.length = len ∧
      ∀ i, testBit words i = true ↔ 1 ≤ i ∧ i ≤ n := by
  induction n with
  | zero =>
    refine ⟨List.replicate len 0#w, List.length_replicate, fun i => ?_⟩
    rw [testBit_replicate_zero]
    simp only [Bool.false_eq_true, false_iff]
    omega
  | succ n ih =>
    obtain ⟨words, hlen, hbits⟩ := ih (lt_of_le_of_lt (Nat.div_le_div_right (Nat.le_succ n)) h)
    refine ⟨insertBit words (n + 1), by rw [length_insertBit, hlen], fun i => ?_⟩
    rw [testBit_insertBit hw (show Covers words (n + 1) by rwa [Covers, hlen]),
      Bool.or_eq_true, decide_eq_true_eq, hbits]
    omega

/-! ## Masks of another width -/

/-- `1 << i` in a signed type of `n` bits, converted to a word. A shift by `n` or more leaves
nothing. -/
def intBit (n w i : ℕ) : BitVec w := (1#n <<< i).signExtend w

/-- `~(1 << i)` in a signed type of `n` bits, converted to a word. -/
def intBitComplement (n w i : ℕ) : BitVec w := (~~~(1#n <<< i)).signExtend w

section IntBit

variable {n i j : ℕ}

/-- The only bit of a shifted one. -/
theorem getLsbD_one_shiftLeft : (1#n <<< i).getLsbD j = decide (j < n ∧ j = i) := by
  rw [BitVec.getLsbD_shiftLeft, BitVec.getLsbD_one]
  by_cases hlt : j < i
  · have hne : j ≠ i := Nat.ne_of_lt hlt
    simp [hlt, hne]
  · by_cases heq : j = i
    · subst heq
      by_cases hjn : j < n
      · simp [hjn]
        omega
      · simp [hjn]
    · have hsub : j - i ≠ 0 := by omega
      simp [heq, hsub]

/-- The sign bit of a shifted one. -/
theorem msb_one_shiftLeft : (1#n <<< i).msb = decide (n = i + 1) := by
  rw [BitVec.msb_eq_getLsbD_last, getLsbD_one_shiftLeft]
  exact decide_eq_decide.mpr (by omega)

/-- What a word has more than the narrow type is filled with the sign. -/
theorem getLsbD_intBit (hj : j < w) :
    (intBit n w i).getLsbD j = if j < n then decide (j = i) else decide (n = i + 1) := by
  rw [intBit, BitVec.getLsbD_signExtend, decide_eq_true hj, Bool.true_and, msb_one_shiftLeft,
    getLsbD_one_shiftLeft]
  split
  case isTrue h => simp [h]
  case isFalse => rfl

/-- The complement of an `int` with one bit, as a word. -/
theorem getLsbD_intBitComplement (hj : j < w) (hjn : j < n) :
    (intBitComplement n w i).getLsbD j = !decide (j = i) := by
  rw [intBitComplement, BitVec.getLsbD_signExtend, decide_eq_true hj, Bool.true_and, if_pos hjn,
    BitVec.getLsbD_not, getLsbD_one_shiftLeft]
  simp [hjn]

/-- Nothing is filled where the type is as wide as a word, or the bit is below its sign. -/
theorem intBit_eq (hi : i < w) (h : w ≤ n ∨ i + 1 < n) : intBit n w i = 1#w <<< i := by
  refine BitVec.eq_of_getLsbD_eq fun j hj => ?_
  rw [getLsbD_intBit hj, getLsbD_one_shiftLeft]
  split
  case isTrue => simp [hj]
  case isFalse hjn =>
    rw [decide_eq_false (by omega), decide_eq_false (by omega)]

end IntBit

/-! ## The first missing number -/

/-- The numbers tested by `while present(pos) && pos <= last: pos++`, from
`pos` on, where `pos + fuel = last + 1`. The loop stops at the last of them. -/
def scanBy (present : ℕ → Bool) : ℕ → ℕ → List ℕ
  | 0, pos => [pos]
  | fuel + 1, pos => if present pos then pos :: scanBy present fuel (pos + 1) else [pos]

/-- The first number of `1..last` that is missing. -/
def firstMissingBy (present : ℕ → Bool) (last : ℕ) : Option ℕ :=
  match (scanBy present last 1).getLast? with
  | some pos => if last < pos then none else some pos
  | none => none

/-- The search in a bit array. -/
def scan (words : List (BitVec w)) (fuel pos : ℕ) : List ℕ := scanBy (testBit words) fuel pos

def firstMissing (words : List (BitVec w)) (last : ℕ) : Option ℕ :=
  firstMissingBy (testBit words) last

section Search

variable {present : ℕ → Bool} {last p : ℕ}

/-- The positions a scan visits. -/
theorem mem_scanBy_iff {fuel pos j : ℕ} :
    j ∈ scanBy present fuel pos ↔
      pos ≤ j ∧ j ≤ pos + fuel ∧ ∀ i, pos ≤ i → i < j → present i = true := by
  induction fuel generalizing pos with
  | zero =>
    simp only [scanBy, List.mem_singleton]
    constructor
    · rintro rfl
      exact ⟨le_refl _, le_refl _, fun i h1 h2 => by omega⟩
    · rintro ⟨h1, h2, -⟩
      omega
  | succ fuel ih =>
    unfold scanBy
    split_ifs with hbit
    · rw [List.mem_cons, ih]
      constructor
      · rintro (rfl | ⟨h1, h2, h3⟩)
        · exact ⟨le_refl _, by omega, fun i h1 h2 => by omega⟩
        · refine ⟨by omega, by omega, fun i hi hij => ?_⟩
          rcases Nat.eq_or_lt_of_le hi with rfl | hi
          · exact hbit
          · exact h3 i hi hij
      · rintro ⟨h1, h2, h3⟩
        rcases Nat.eq_or_lt_of_le h1 with rfl | h1
        · exact .inl rfl
        · exact .inr ⟨h1, by omega, fun i hi hij => h3 i (by omega) hij⟩
    · rw [List.mem_singleton]
      constructor
      · rintro rfl
        exact ⟨le_refl _, by omega, fun i h1 h2 => by omega⟩
      · rintro ⟨h1, -, h3⟩
        by_contra hne
        exact hbit (h3 pos (le_refl _) (by omega))

/-- Where the loop stops: everything before is present, and what is there is not unless the loop
has come to the end. -/
theorem getLast?_scanBy (present : ℕ → Bool) (fuel pos : ℕ) :
    ∃ p, (scanBy present fuel pos).getLast? = some p ∧ pos ≤ p ∧ p ≤ pos + fuel ∧
      (∀ i, pos ≤ i → i < p → present i = true) ∧
      (p < pos + fuel → present p = false) := by
  induction fuel generalizing pos with
  | zero =>
    exact ⟨pos, rfl, le_refl _, le_refl _, fun i h1 h2 => by omega, fun h => by omega⟩
  | succ fuel ih =>
    unfold scanBy
    split_ifs with hbit
    · obtain ⟨p, hp, h1, h2, h3, h4⟩ := ih (pos + 1)
      refine ⟨p, ?_, by omega, by omega, fun i hi hip => ?_, fun h => h4 (by omega)⟩
      · rw [List.getLast?_cons, hp]
        rfl
      · rcases Nat.eq_or_lt_of_le hi with rfl | hi
        · exact hbit
        · exact h3 i hi hip
    · exact ⟨pos, rfl, le_refl _, by omega, fun i h1 h2 => by omega, fun _ => by simpa using hbit⟩

/-- Nothing is missing. -/
theorem firstMissingBy_eq_none :
    firstMissingBy present last = none ↔ ∀ i, 1 ≤ i → i ≤ last → present i = true := by
  obtain ⟨p, hp, h1, h2, h3, h4⟩ := getLast?_scanBy present last 1
  unfold firstMissingBy
  rw [hp]
  simp only
  split_ifs with hlt
  · simp only [true_iff]
    intro i hi hil
    exact h3 i hi (by omega)
  · simp only [false_iff, not_forall]
    exact ⟨p, h1, by omega, by simp [h4 (by omega)]⟩

/-- The first that is missing. -/
theorem firstMissingBy_eq_some_iff : firstMissingBy present last = some p ↔
    (1 ≤ p ∧ p ≤ last ∧ present p = false) ∧ ∀ i, 1 ≤ i → i < p → present i = true := by
  obtain ⟨q, hq, h1, h2, h3, h4⟩ := getLast?_scanBy present last 1
  unfold firstMissingBy
  rw [hq]
  simp only
  split_ifs with hlt
  · simp only [false_iff]
    rintro ⟨⟨hp1, hpl, hp⟩, -⟩
    rw [h3 p hp1 (by omega)] at hp
    cases hp
  · rw [Option.some.injEq]
    constructor
    · rintro rfl
      exact ⟨⟨h1, by omega, h4 (by omega)⟩, h3⟩
    · rintro ⟨⟨hp1, hpl, hp⟩, hbelow⟩
      -- neither position can be below the other one
      rcases Nat.lt_trichotomy q p with hqp | rfl | hpq
      · have hset := hbelow q h1 hqp
        rw [h4 (by omega)] at hset
        cases hset
      · rfl
      · rw [h3 p hp1 hpq] at hp
        cases hp

end Search

/-- The positions a scan of words visits. -/
theorem mem_scan_iff {words : List (BitVec w)} {fuel pos j : ℕ} :
    j ∈ scan words fuel pos ↔
      pos ≤ j ∧ j ≤ pos + fuel ∧ ∀ i, pos ≤ i → i < j → testBit words i = true :=
  mem_scanBy_iff

/-- No bit is missing. -/
theorem firstMissing_eq_none {words : List (BitVec w)} {last : ℕ} :
    firstMissing words last = none ↔ ∀ i, 1 ≤ i → i ≤ last → testBit words i = true :=
  firstMissingBy_eq_none

/-- The first bit that is missing. -/
theorem firstMissing_eq_some {words : List (BitVec w)} {last p : ℕ}
    (h : firstMissing words last = some p) :
    1 ≤ p ∧ p ≤ last ∧ testBit words p = false :=
  (firstMissingBy_eq_some_iff.1 h).1

end MasterScheduler.Lib
