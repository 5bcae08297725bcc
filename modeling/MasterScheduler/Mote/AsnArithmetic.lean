import MasterScheduler.Mote.NextLink

/-!
# MasterScheduler.Mote.AsnArithmetic — the macros of `tsch-asn.h`

The absolute slot number has 40 bits, in a word and a byte. The macros do
arithmetic on it in the types of C: `uint32_t` wraps, `int` has 32 bits and must
not overflow (`int`), an assignment to a `uint16_t` truncates.

- `asnNat_inc`, `asnNat_dec`: addition and subtraction modulo `2 ^ 40`.
- `asnDiff_eq`: the difference of two numbers that are close.
- `tschAsnMod_eq`: the remainder, for every divisor.
- `asn_arithmetic`: all of this, after any number of increments.
-/

namespace MasterScheduler.Mote.AsnArithmetic

open Lib Hopping NextLink

/-! ## Model -/

/-- The result of an `int` operation on numbers that are not negative. -/
def int (x : ℕ) : Option ℕ := if x < 2 ^ 31 then some x else none

/-- `TSCH_ASN_INC`. -/
def asnInc (asn : Asn) (inc : UInt32) : Asn :=
  let newLs4b := asn.ls4b + inc
  { ls4b := newLs4b, ms1b := if newLs4b < asn.ls4b then asn.ms1b + 1 else asn.ms1b }

/-- `TSCH_ASN_DEC`. -/
def asnDec (asn : Asn) (dec : UInt32) : Asn :=
  let newLs4b := asn.ls4b - dec
  { ls4b := newLs4b, ms1b := if asn.ls4b < newLs4b then asn.ms1b - 1 else asn.ms1b }

/-- `TSCH_ASN_DIFF`, assigned to an `int32_t`. -/
def asnDiff (asn1 asn2 : Asn) : ℤ := (asn1.ls4b - asn2.ls4b).toInt32.toInt

/-- `struct tsch_asn_divisor_t`. -/
structure Divisor where
  val : UInt16
  asnMs1bRemainder : UInt16
deriving DecidableEq, Repr

/-- `TSCH_ASN_DIVISOR_INIT`. The operands are `uint32_t`. -/
def divisorInit (val : UInt16) : Divisor where
  val := val
  asnMs1bRemainder := ((0xffffffff % val.toUInt32 + 1) % val.toUInt32).toUInt16

/-- `TSCH_ASN_MOD`. The operands of the product and of the sum are promoted to `int`. -/
def tschAsnMod (asn : Asn) (div : Divisor) : Option ℕ := do
  let low := (asn.ls4b % div.val.toUInt32).toUInt16
  let product ← int (asn.ms1b.toNat * div.asnMs1bRemainder.toNat)
  let high := UInt16.ofNat (product % div.val.toNat)
  let sum ← int (low.toNat + high.toNat)
  pure (sum % div.val.toNat)

/-- A run of increments. -/
def asnRun (start : Asn) (incs : List UInt32) : Asn := incs.foldl asnInc start

/-! ## Increments and decrements -/

theorem asnNat_lt (asn : Asn) : asnNat asn < 2 ^ 40 := by
  have hms := asn.ms1b.toNat_lt
  have hls := asn.ls4b.toNat_lt
  unfold asnNat
  omega

theorem asnNat_inj {a b : Asn} (h : asnNat a = asnNat b) : a = b := by
  have ha := a.ls4b.toNat_lt
  have hb := b.ls4b.toNat_lt
  unfold asnNat at h
  have hls : a.ls4b = b.ls4b := UInt32.toNat_inj.mp (by omega)
  have hms : a.ms1b = b.ms1b := UInt8.toNat_inj.mp (by omega)
  cases a
  cases b
  simp_all

/-- The word comes around exactly when the new one is below the old one. -/
theorem asnNat_inc (asn : Asn) (inc : UInt32) :
    asnNat (asnInc asn inc) = (asnNat asn + inc.toNat) % 2 ^ 40 := by
  have hls := asn.ls4b.toNat_lt
  have hms := asn.ms1b.toNat_lt
  have hinc := inc.toNat_lt
  have hsum : (asn.ls4b + inc).toNat = (asn.ls4b.toNat + inc.toNat) % 2 ^ 32 :=
    UInt32.toNat_add _ _
  unfold asnNat asnInc
  dsimp only
  split
  · rename_i hlt
    rw [UInt32.lt_iff_toNat_lt] at hlt
    rw [UInt8.toNat_add, show (1 : UInt8).toNat = 1 from rfl]
    omega
  · rename_i hlt
    rw [UInt32.lt_iff_toNat_lt] at hlt
    omega

/-- The word borrows exactly when the new one is above the old one. -/
theorem asnNat_dec (asn : Asn) (dec : UInt32) :
    asnNat (asnDec asn dec) = (asnNat asn + (2 ^ 40 - dec.toNat)) % 2 ^ 40 := by
  have hls := asn.ls4b.toNat_lt
  have hms := asn.ms1b.toNat_lt
  have hdec := dec.toNat_lt
  have hdiff : (asn.ls4b - dec).toNat = (2 ^ 32 - dec.toNat + asn.ls4b.toNat) % 2 ^ 32 :=
    UInt32.toNat_sub _ _
  unfold asnNat asnDec
  dsimp only
  split
  · rename_i hlt
    rw [UInt32.lt_iff_toNat_lt] at hlt
    rw [UInt8.toNat_sub, show (1 : UInt8).toNat = 1 from rfl]
    omega
  · rename_i hlt
    rw [UInt32.lt_iff_toNat_lt] at hlt
    omega

theorem asnDec_inc (asn : Asn) (n : UInt32) : asnDec (asnInc asn n) n = asn := by
  have hlt := asnNat_lt asn
  have hn := n.toNat_lt
  apply asnNat_inj
  rw [asnNat_dec, asnNat_inc]
  omega

theorem asnInc_dec (asn : Asn) (n : UInt32) : asnInc (asnDec asn n) n = asn := by
  have hlt := asnNat_lt asn
  have hn := n.toNat_lt
  apply asnNat_inj
  rw [asnNat_inc, asnNat_dec]
  omega

/-- A run of increments adds their sum. -/
theorem asnNat_run (start : Asn) (incs : List UInt32) :
    asnNat (asnRun start incs) = (asnNat start + (incs.map UInt32.toNat).sum) % 2 ^ 40 := by
  induction incs generalizing start with
  | nil =>
    have hlt := asnNat_lt start
    rw [asnRun, List.foldl_nil, List.map_nil, List.sum_nil]
    omega
  | cons inc incs ih =>
    have hstep := ih (asnInc start inc)
    rw [asnNat_inc] at hstep
    rw [asnRun] at hstep ⊢
    rw [List.foldl_cons, hstep, List.map_cons, List.sum_cons]
    omega

/-! ## Differences -/

/-- The low words tell two numbers apart that are less than `2 ^ 31` away from each other. -/
theorem asnDiff_eq {a b : Asn} (h : |(asnNat a : ℤ) - asnNat b| < 2 ^ 31) :
    asnDiff a b = (asnNat a : ℤ) - asnNat b := by
  have ha := a.ls4b.toNat_lt
  have hb := b.ls4b.toNat_lt
  have hdiff : (a.ls4b - b.ls4b).toNat = (2 ^ 32 - b.ls4b.toNat + a.ls4b.toNat) % 2 ^ 32 :=
    UInt32.toNat_sub _ _
  have hread : asnDiff a b = ((a.ls4b - b.ls4b).toNat : ℤ).bmod (2 ^ 32) := by
    unfold asnDiff
    rw [← Int32.toInt_toBitVec, BitVec.toInt_eq_toNat_bmod]
    rfl
  rw [hread, hdiff]
  rw [abs_lt] at h
  unfold asnNat at h ⊢
  -- both are the representative of the same residue
  rw [Int.bmod_def]
  split <;> omega

/-! ## Remainders -/

theorem divisor_pos {val : UInt16} (hval : val ≠ 0) : 0 < val.toNat := by
  rcases Nat.eq_zero_or_pos val.toNat with h0 | hpos
  · exact absurd (UInt16.toNat_inj.mp h0) hval
  · exact hpos

theorem divisorInit_remainder {val : UInt16} (hval : val ≠ 0) :
    (divisorInit val).asnMs1bRemainder.toNat = 2 ^ 32 % val.toNat := by
  have hlt := val.toNat_lt
  have hpos := divisor_pos hval
  have hword : val.toUInt32.toNat = val.toNat := UInt16.toNat_toUInt32 val
  have hfirst : (0xffffffff % val.toUInt32 : UInt32).toNat = 4294967295 % val.toNat := by
    rw [UInt32.toNat_mod, hword]
    rfl
  have hsmall : 4294967295 % val.toNat < val.toNat := Nat.mod_lt _ hpos
  have hnext : (0xffffffff % val.toUInt32 + 1 : UInt32).toNat = 4294967295 % val.toNat + 1 := by
    rw [UInt32.toNat_add, hfirst, show (1 : UInt32).toNat = 1 from rfl]
    exact Nat.mod_eq_of_lt (by omega)
  have hrem := Nat.mod_lt (4294967295 % val.toNat + 1) hpos
  unfold divisorInit
  dsimp only
  rw [UInt32.toNat_toUInt16, UInt32.toNat_mod, hnext, hword, Nat.mod_eq_of_lt (by omega),
    Nat.mod_add_mod]
  norm_num

/-- No operation overflows, and the result is the one on natural numbers. -/
theorem tschAsnMod_eq {val : UInt16} (hval : val ≠ 0) (asn : Asn) :
    tschAsnMod asn (divisorInit val) = some (asnNat asn % val.toNat) := by
  have hlt := val.toNat_lt
  have hpos := divisor_pos hval
  have hval' : (divisorInit val).val = val := rfl
  have hms := asn.ms1b.toNat_lt
  have hrem := divisorInit_remainder hval
  have hremlt : 2 ^ 32 % val.toNat < val.toNat := Nat.mod_lt _ hpos
  have hproduct : asn.ms1b.toNat * (2 ^ 32 % val.toNat) < 2 ^ 31 := by
    calc asn.ms1b.toNat * (2 ^ 32 % val.toNat) ≤ 256 * 2 ^ 16 :=
          Nat.mul_le_mul (by omega) (by omega)
      _ < 2 ^ 31 := by norm_num
  have hlow : (asn.ls4b % val.toUInt32).toUInt16.toNat = asn.ls4b.toNat % val.toNat := by
    have hmod := Nat.mod_lt asn.ls4b.toNat hpos
    rw [UInt32.toNat_toUInt16, UInt32.toNat_mod, UInt16.toNat_toUInt32]
    exact Nat.mod_eq_of_lt (by omega)
  have hlowlt := Nat.mod_lt asn.ls4b.toNat hpos
  have hhighlt := Nat.mod_lt (asn.ms1b.toNat * (2 ^ 32 % val.toNat)) hpos
  have hhigh : (UInt16.ofNat (asn.ms1b.toNat * (2 ^ 32 % val.toNat) % val.toNat)).toNat =
      asn.ms1b.toNat * (2 ^ 32 % val.toNat) % val.toNat :=
    UInt16.toNat_ofNat_of_lt' (by rw [UInt16.size]; omega)
  unfold tschAsnMod
  rw [hval', hrem]
  simp only [int, if_pos hproduct, Option.bind_eq_bind, Option.bind_some, hlow, hhigh,
    if_pos (show asn.ls4b.toNat % val.toNat +
      asn.ms1b.toNat * (2 ^ 32 % val.toNat) % val.toNat < 2 ^ 31 by omega), Option.pure_def]
  rw [Option.some.injEq, ← Nat.add_mod, asnNat, Nat.add_comm, Nat.add_mod, Nat.mul_mod_mod,
    ← Nat.add_mod]

/-- The widths make no difference for the remainders taken elsewhere. -/
theorem tschAsnMod_eq_asnMod {val : UInt16} (hval : val ≠ 0) (asn : Asn) :
    tschAsnMod asn (divisorInit val) = some (asnMod asn (asnDivisorInit val.toNat)) := by
  rw [tschAsnMod_eq hval, asnMod_eq]

/-! ## Result -/

/-- The macros compute on slot numbers what they are named for, wherever a run of increments has
led to. -/
theorem asn_arithmetic (start : Asn) (incs : List UInt32)
    (hrun : asnNat start + (incs.map UInt32.toNat).sum < 2 ^ 40) :
    asnNat (asnRun start incs) = asnNat start + (incs.map UInt32.toNat).sum ∧
      (∀ val : UInt16, val ≠ 0 →
        tschAsnMod (asnRun start incs) (divisorInit val) =
          some ((asnNat start + (incs.map UInt32.toNat).sum) % val.toNat)) ∧
      (∀ (asn : Asn) (n : UInt32),
        asnNat (asnInc asn n) = (asnNat asn + n.toNat) % 2 ^ 40 ∧
        asnNat (asnDec asn n) = (asnNat asn + (2 ^ 40 - n.toNat)) % 2 ^ 40 ∧
        asnDec (asnInc asn n) n = asn ∧ asnInc (asnDec asn n) n = asn) ∧
      ∀ a b : Asn, |(asnNat a : ℤ) - asnNat b| < 2 ^ 31 →
        asnDiff a b = (asnNat a : ℤ) - asnNat b := by
  have hsum : asnNat (asnRun start incs) = asnNat start + (incs.map UInt32.toNat).sum := by
    rw [asnNat_run]
    exact Nat.mod_eq_of_lt hrun
  refine ⟨hsum, ?_, ?_, ?_⟩
  · intro val hval
    rw [tschAsnMod_eq hval, hsum]
  · intro asn n
    exact ⟨asnNat_inc asn n, asnNat_dec asn n, asnDec_inc asn n, asnInc_dec asn n⟩
  · intro a b h
    exact asnDiff_eq h

/-- From slot 5 over the end of the word to slot `2 ^ 32 + 7`. -/
theorem asn_arithmetic_carry :
    asnNat (asnRun ⟨5, 0⟩ [0xffffffff, 3]) = 2 ^ 32 + 7 ∧
      tschAsnMod (asnRun ⟨5, 0⟩ [0xffffffff, 3]) (divisorInit 65535) = some 8 := by
  have h := asn_arithmetic ⟨5, 0⟩ [0xffffffff, 3] (by decide)
  refine ⟨h.1, ?_⟩
  rw [h.2.1 65535 (by decide)]
  rfl

end MasterScheduler.Mote.AsnArithmetic
