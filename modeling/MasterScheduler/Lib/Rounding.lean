import Mathlib.Algebra.BigOperators.Group.List.Basic
import Mathlib.Algebra.Order.BigOperators.Group.List
import Mathlib.Data.Int.Log
import Mathlib.Data.Rat.Floor
import Mathlib.Tactic.Linarith
import Mathlib.Tactic.Positivity
import Mathlib.Tactic.Ring

/-!
# MasterScheduler.Lib.Rounding — sums in binary floating point

Rationals with `p` binary digits and an exponent of any size. A sum is rounded
to the nearest of them, and to the even one of two that are as near. The range
of the exponent of a real format is left out; at its lower end nothing changes,
because sums of numbers of the format are exact there.

- `abs_roundDigits_sub_le`: the relative error of one rounding is at most
  `2 ^ (-p)`.
- `natCast_le_roundDigits`: rounding does not pass a small natural number.
- `sumRounded_eq_sum`: a sum in which nothing is rounded.
- `abs_sumRounded_sub_le`, `abs_sum_map_sumRounded_sub_le`: the error of a sum
  of nonnegative numbers, and of one that is computed in parts.
-/

namespace MasterScheduler.Lib

/-- The nearest integer, the even one of two. -/
def roundEven (x : ℚ) : ℤ :=
  if 2 * Int.fract x < 1 ∨ 2 * Int.fract x = 1 ∧ ⌊x⌋ % 2 = 0 then ⌊x⌋ else ⌊x⌋ + 1

/-- The exponent of the last of `p` digits. -/
def lastDigit (p : ℕ) (x : ℚ) : ℤ := Int.log 2 |x| + 1 - p

/-- The nearest number with `p` digits. -/
def roundDigits (p : ℕ) (x : ℚ) : ℚ := roundEven (x / 2 ^ lastDigit p x) * 2 ^ lastDigit p x

/-- The sum of two numbers in a format with `p` digits. -/
def addRounded (p : ℕ) (x y : ℚ) : ℚ := roundDigits p (x + y)

/-- The numbers of a list added one after another, from the first. -/
def sumRounded (p : ℕ) (ws : List ℚ) : ℚ := ws.foldl (addRounded p) 0

/-- No addition of the sum is rounded. -/
def Unrounded (p : ℕ) (ws : List ℚ) : Prop :=
  ∀ pre w post, ws = pre ++ w :: post →
    addRounded p (sumRounded p pre) w = sumRounded p pre + w

/-! ## Rounding -/

section Round

variable {x y : ℚ} {p : ℕ}

theorem abs_roundEven_sub_le (x : ℚ) : |roundEven x - x| ≤ 1 / 2 := by
  have hfract := Int.self_sub_floor x
  have hnonneg := Int.fract_nonneg x
  have hlt := Int.fract_lt_one x
  unfold roundEven
  split
  case isTrue h =>
    have hhalf : 2 * Int.fract x ≤ 1 := by
      rcases h with h | h
      · exact h.le
      · exact h.1.le
    rw [abs_sub_comm, hfract, abs_of_nonneg hnonneg]
    linarith
  case isFalse h =>
    have hhalf : 1 ≤ 2 * Int.fract x := not_lt.mp fun hlt => h (.inl hlt)
    rw [Int.cast_add, Int.cast_one, show (⌊x⌋ : ℚ) + 1 - x = 1 - Int.fract x by linarith,
      abs_of_nonneg (by linarith)]
    linarith

/-- Rounding does not pass an integer. -/
theorem le_roundEven {n : ℤ} (h : (n : ℚ) ≤ x) : n ≤ roundEven x := by
  have hfloor : n ≤ ⌊x⌋ := Int.le_floor.mpr h
  unfold roundEven
  split
  · exact hfloor
  · exact hfloor.trans (Int.le_add_one (le_refl _))

theorem roundEven_le {n : ℤ} (h : x ≤ n) : roundEven x ≤ n := by
  rcases h.lt_or_eq with hlt | rfl
  · have hfloor : ⌊x⌋ + 1 ≤ n := Int.floor_lt.mpr hlt
    unfold roundEven
    split
    · omega
    · exact hfloor
  · simp [roundEven]

theorem roundEven_mono (h : x ≤ y) : roundEven x ≤ roundEven y := by
  rcases (Int.floor_mono h).lt_or_eq with hlt | heq
  · have hup : roundEven x ≤ ⌊x⌋ + 1 := by
      refine roundEven_le ?_
      push_cast
      exact (Int.lt_floor_add_one x).le
    exact (hup.trans hlt).trans (le_roundEven (Int.floor_le y))
  · -- with the same integer below, `y` is rounded down only if `x` is
    have hfract : Int.fract x ≤ Int.fract y := by
      rw [← Int.self_sub_floor, ← Int.self_sub_floor, heq]
      linarith
    unfold roundEven
    rw [heq]
    split
    · split <;> omega
    case isFalse hup =>
      rw [if_neg]
      rintro (hlt | ⟨hhalf, heven⟩)
      · exact hup (.inl (by linarith))
      · rcases hfract.lt_or_eq with hlt | hsame
        · exact hup (.inl (by linarith))
        · exact hup (.inr ⟨by rw [hsame, hhalf], heven⟩)

theorem two_zpow_pos (e : ℤ) : (0 : ℚ) < 2 ^ e := zpow_pos two_pos e

theorem zpow_log_le (hx : x ≠ 0) : (2 : ℚ) ^ Int.log 2 |x| ≤ |x| := by
  have h := Int.zpow_log_le_self (b := 2) one_lt_two (abs_pos.mpr hx)
  exact_mod_cast h

/-- The relative error of a rounding. -/
theorem abs_roundDigits_sub_le (p : ℕ) (x : ℚ) : |roundDigits p x - x| ≤ |x| / 2 ^ p := by
  by_cases hx : x = 0
  · rw [hx]
    simp [roundDigits, roundEven]
  have hpos := two_zpow_pos (lastDigit p x)
  have herror := abs_roundEven_sub_le (x / 2 ^ lastDigit p x)
  -- half of the last digit
  have hstep : |roundDigits p x - x| ≤ 1 / 2 * 2 ^ lastDigit p x := by
    have hsplit : roundDigits p x - x =
        (roundEven (x / 2 ^ lastDigit p x) - x / 2 ^ lastDigit p x) * 2 ^ lastDigit p x := by
      rw [sub_mul, div_mul_cancel₀ _ hpos.ne', roundDigits]
    rw [hsplit, abs_mul, abs_of_pos hpos]
    exact mul_le_mul_of_nonneg_right herror hpos.le
  have hdigit : 1 / 2 * (2 : ℚ) ^ lastDigit p x = 2 ^ Int.log 2 |x| / 2 ^ p := by
    rw [lastDigit, zpow_sub₀ two_ne_zero, zpow_add₀ two_ne_zero, zpow_one, zpow_natCast]
    ring
  rw [hdigit] at hstep
  exact hstep.trans (div_le_div_of_nonneg_right (zpow_log_le hx) (by positivity))

/-- Rounding does not pass the first digit. -/
theorem two_zpow_log_le_roundDigits (hp : 0 < p) (hx : 0 < x) :
    (2 : ℚ) ^ Int.log 2 |x| ≤ roundDigits p x := by
  obtain ⟨q, rfl⟩ := Nat.exists_eq_add_one.mpr hp
  have hpos := two_zpow_pos (lastDigit (q + 1) x)
  have hlog : Int.log 2 |x| = q + lastDigit (q + 1) x := by
    rw [lastDigit]
    push_cast
    ring
  have hlow := zpow_log_le hx.ne'
  rw [hlog, zpow_add₀ two_ne_zero, zpow_natCast, abs_of_pos hx, ← le_div_iff₀ hpos] at hlow
  have hround : (2 ^ q : ℤ) ≤ roundEven (x / 2 ^ lastDigit (q + 1) x) := by
    refine le_roundEven ?_
    push_cast
    exact hlow
  have hround' : ((2 ^ q : ℤ) : ℚ) ≤ roundEven (x / 2 ^ lastDigit (q + 1) x) := by
    exact_mod_cast hround
  rw [hlog, zpow_add₀ two_ne_zero, zpow_natCast, roundDigits]
  refine mul_le_mul_of_nonneg_right ?_ hpos.le
  exact_mod_cast hround'

/-- Nor the next power of two. -/
theorem roundDigits_le_two_zpow (hx : 0 < x) : roundDigits p x ≤ 2 ^ (Int.log 2 |x| + 1) := by
  have hpos := two_zpow_pos (lastDigit p x)
  have hnext : (2 : ℚ) ^ (Int.log 2 |x| + 1) = 2 ^ p * 2 ^ lastDigit p x := by
    rw [← zpow_natCast, ← zpow_add₀ two_ne_zero, lastDigit]
    congr 1
    ring
  have hlt := Int.lt_zpow_succ_log_self (R := ℚ) (b := 2) one_lt_two x
  rw [← abs_of_pos hx, Nat.cast_ofNat, hnext, abs_of_pos hx, ← div_lt_iff₀ hpos] at hlt
  have hround : roundEven (x / 2 ^ lastDigit p x) ≤ (2 ^ p : ℤ) := by
    refine roundEven_le ?_
    push_cast
    exact hlt.le
  rw [hnext, roundDigits]
  refine mul_le_mul_of_nonneg_right ?_ hpos.le
  exact_mod_cast hround

/-- Rounding keeps the order. -/
theorem roundDigits_mono (hp : 0 < p) (hx : 0 < x) (h : x ≤ y) :
    roundDigits p x ≤ roundDigits p y := by
  have hy : 0 < y := hx.trans_le h
  have hlog : Int.log 2 |x| ≤ Int.log 2 |y| := by
    rw [abs_of_pos hx, abs_of_pos hy]
    exact Int.log_mono_right hx h
  rcases hlog.lt_or_eq with hlt | heq
  · -- a power of two lies between them
    calc roundDigits p x ≤ 2 ^ (Int.log 2 |x| + 1) := roundDigits_le_two_zpow hx
      _ ≤ 2 ^ Int.log 2 |y| := zpow_le_zpow_right₀ one_le_two hlt
      _ ≤ roundDigits p y := two_zpow_log_le_roundDigits hp hy
  · have hdigit : lastDigit p x = lastDigit p y := by rw [lastDigit, lastDigit, heq]
    have hpos := two_zpow_pos (lastDigit p y)
    have hround := roundEven_mono (div_le_div_of_nonneg_right h hpos.le)
    rw [roundDigits, roundDigits, hdigit]
    refine mul_le_mul_of_nonneg_right ?_ hpos.le
    exact_mod_cast hround

/-- A number that has been rounded is not made smaller by rounding it again. -/
theorem roundDigits_le_roundDigits_roundDigits (hp : 0 < p) (hx : 0 < x) :
    roundDigits p x ≤ roundDigits p (roundDigits p x) := by
  have hlow := two_zpow_log_le_roundDigits hp hx
  have hy : 0 < roundDigits p x := (two_zpow_pos _).trans_le hlow
  rcases (roundDigits_le_two_zpow (p := p) hx).lt_or_eq with hlt | heq
  · -- with the same first digit, it is an integer times the last one
    have hlog : Int.log 2 |roundDigits p x| = Int.log 2 |x| := by
      have hle := (Int.zpow_le_iff_le_log one_lt_two hy).mp (by exact_mod_cast hlow)
      have hge := (Int.lt_zpow_iff_log_lt one_lt_two hy).mp (by exact_mod_cast hlt)
      rw [abs_of_pos hy]
      omega
    have hdigit : lastDigit p (roundDigits p x) = lastDigit p x := by
      rw [lastDigit, lastDigit, hlog]
    have hpos := two_zpow_pos (lastDigit p x)
    have hround : roundEven (x / 2 ^ lastDigit p x) ≤
        roundEven (roundDigits p x / 2 ^ lastDigit p x) := by
      refine le_roundEven ?_
      rw [le_div_iff₀ hpos]
      exact le_rfl
    calc roundDigits p x = roundEven (x / 2 ^ lastDigit p x) * 2 ^ lastDigit p x := rfl
      _ ≤ roundEven (roundDigits p x / 2 ^ lastDigit p x) * 2 ^ lastDigit p x :=
          mul_le_mul_of_nonneg_right (by exact_mod_cast hround) hpos.le
      _ = roundDigits p (roundDigits p x) := by rw [roundDigits.eq_def p (roundDigits p x), hdigit]
  · -- a power of two is its own first digit
    have hlog : Int.log 2 |roundDigits p x| = Int.log 2 |x| + 1 := by
      rw [abs_of_pos hy, heq]
      exact_mod_cast Int.log_zpow (R := ℚ) one_lt_two (Int.log 2 |x| + 1)
    have hfirst := two_zpow_log_le_roundDigits hp hy
    rw [hlog, ← heq] at hfirst
    exact hfirst

/-- A natural number with at most `p` digits is not passed. -/
theorem natCast_le_roundDigits {n : ℕ} (hp : 0 < p) (hn : n ≤ 2 ^ p) (h : (n : ℚ) ≤ x) :
    (n : ℚ) ≤ roundDigits p x := by
  rcases Nat.eq_zero_or_pos n with rfl | hnpos
  · have hdiv : ((0 : ℤ) : ℚ) ≤ x / 2 ^ lastDigit p x := by
      rw [Int.cast_zero]
      exact div_nonneg (by simpa using h) (two_zpow_pos _).le
    have hround : (0 : ℚ) ≤ roundEven (x / 2 ^ lastDigit p x) := by
      exact_mod_cast le_roundEven hdiv
    rw [Nat.cast_zero]
    exact mul_nonneg hround (two_zpow_pos _).le
  have hx : 0 < x := lt_of_lt_of_le (by exact_mod_cast hnpos) h
  have hpos := two_zpow_pos (lastDigit p x)
  rcases le_or_gt (lastDigit p x) 0 with hle | hlt
  · -- `n` is a multiple of the last digit
    obtain ⟨k, hk⟩ := Int.eq_ofNat_of_zero_le (Int.neg_nonneg_of_nonpos hle)
    have hmul : ((n * 2 ^ k : ℤ) : ℚ) = n / 2 ^ lastDigit p x := by
      rw [show lastDigit p x = -(k : ℤ) by omega, zpow_neg, zpow_natCast, div_inv_eq_mul]
      push_cast
      ring
    have hround : (n * 2 ^ k : ℤ) ≤ roundEven (x / 2 ^ lastDigit p x) :=
      le_roundEven (by rw [hmul]; exact div_le_div_of_nonneg_right h hpos.le)
    have hround' : ((n * 2 ^ k : ℤ) : ℚ) ≤ roundEven (x / 2 ^ lastDigit p x) := by
      exact_mod_cast hround
    rw [hmul, div_le_iff₀ hpos] at hround'
    exact hround'
  · -- the first digit of `x` is beyond `n`
    have hlog : (p : ℤ) ≤ Int.log 2 |x| := by
      rw [lastDigit] at hlt
      omega
    calc (n : ℚ) ≤ 2 ^ (p : ℤ) := by
          rw [zpow_natCast]
          exact_mod_cast hn
      _ ≤ 2 ^ Int.log 2 |x| := zpow_le_zpow_right₀ one_le_two hlog
      _ ≤ roundDigits p x := two_zpow_log_le_roundDigits hp hx

/-- A sum of nonnegative numbers is not rounded below zero. -/
theorem addRounded_nonneg (hp : 0 < p) (hx : 0 ≤ x) (hy : 0 ≤ y) : 0 ≤ addRounded p x y := by
  have hsum : ((0 : ℕ) : ℚ) ≤ x + y := by
    rw [Nat.cast_zero]
    exact add_nonneg hx hy
  have hround := natCast_le_roundDigits hp (Nat.zero_le _) hsum
  rw [Nat.cast_zero] at hround
  exact hround

/-- A number that is not too small for the other one makes it larger. -/
theorem lt_addRounded (hx : 0 ≤ x) (hy : 0 < y) (h : x < y * (2 ^ p - 1)) :
    x < addRounded p x y := by
  have hpow : (0 : ℚ) < 2 ^ p := by positivity
  have herror := abs_roundDigits_sub_le p (x + y)
  rw [abs_of_nonneg (add_nonneg hx hy.le)] at herror
  have hlow := neg_le_of_abs_le herror
  have hstep : (x + y) / 2 ^ p < y := by
    rw [div_lt_iff₀ hpow]
    linarith
  rw [addRounded]
  linarith

end Round

/-! ## Sums -/

section Sum

variable {p : ℕ} {ws : List ℚ}

theorem sumRounded_concat (p : ℕ) (ws : List ℚ) (w : ℚ) :
    sumRounded p (ws ++ [w]) = addRounded p (sumRounded p ws) w := by
  rw [sumRounded, List.foldl_append]
  rfl

theorem unrounded_iff : Unrounded p ws ↔ ∀ i, ∀ h : i < ws.length,
    addRounded p (sumRounded p (ws.take i)) ws[i] = sumRounded p (ws.take i) + ws[i] := by
  constructor
  · intro h i hi
    refine h (ws.take i) ws[i] (ws.drop (i + 1)) ?_
    rw [List.cons_getElem_drop_succ, List.take_append_drop]
  · rintro h pre w post rfl
    have hi := h pre.length (by simp)
    simpa using hi

instance : Decidable (Unrounded p ws) := decidable_of_iff _ unrounded_iff.symm

theorem sumRounded_eq_sum (h : Unrounded p ws) : sumRounded p ws = ws.sum := by
  induction ws using List.reverseRecOn with
  | nil => rfl
  | append_singleton ws w ih =>
    have hws : Unrounded p ws := by
      rintro pre v post rfl
      exact h pre v (post ++ [w]) (by rw [List.append_assoc, List.cons_append])
    rw [sumRounded_concat, h ws w [] rfl, ih hws, List.sum_append, List.sum_singleton]

/-- The relative error of a sum of nonnegative numbers. -/
theorem abs_sumRounded_sub_le (p : ℕ) (hws : ∀ w ∈ ws, 0 ≤ w) :
    |sumRounded p ws - ws.sum| ≤ ((1 + 1 / 2 ^ p) ^ ws.length - 1) * ws.sum := by
  induction ws using List.reverseRecOn with
  | nil => simp [sumRounded]
  | append_singleton ws w ih =>
    have hw : 0 ≤ w := hws w (by simp)
    have hrest : ∀ v ∈ ws, 0 ≤ v := fun v hv => hws v (List.mem_append_left _ hv)
    have hsum : 0 ≤ ws.sum := List.sum_nonneg hrest
    have ih := ih hrest
    rw [sumRounded_concat, List.sum_append, List.sum_singleton, List.length_append,
      List.length_singleton, pow_succ]
    generalize hu : (1 : ℚ) / 2 ^ p = u at ih ⊢
    generalize ha : (1 + u) ^ ws.length = a at ih ⊢
    have hu0 : 0 ≤ u := by
      rw [← hu]
      positivity
    have ha1 : 1 ≤ a := by
      rw [← ha]
      exact one_le_pow₀ (by linarith)
    -- the error of the last addition, on top of that of the sum before
    have hlast := abs_roundDigits_sub_le p (sumRounded p ws + w)
    rw [div_eq_mul_one_div, hu] at hlast
    have hbefore : |sumRounded p ws + w - (ws.sum + w)| ≤ (a - 1) * (ws.sum + w) := by
      rw [add_sub_add_right_eq_sub]
      exact ih.trans (mul_le_mul_of_nonneg_left (by linarith) (by linarith))
    have hsize : |sumRounded p ws + w| ≤ a * (ws.sum + w) := by
      have htri := abs_add_le (sumRounded p ws + w - (ws.sum + w)) (ws.sum + w)
      rw [sub_add_cancel, abs_of_nonneg (add_nonneg hsum hw)] at htri
      linarith
    calc |addRounded p (sumRounded p ws) w - (ws.sum + w)|
        ≤ |roundDigits p (sumRounded p ws + w) - (sumRounded p ws + w)| +
            |sumRounded p ws + w - (ws.sum + w)| := abs_sub_le _ _ _
      _ ≤ |sumRounded p ws + w| * u + (a - 1) * (ws.sum + w) := add_le_add hlast hbefore
      _ ≤ a * (ws.sum + w) * u + (a - 1) * (ws.sum + w) := by
          have := mul_le_mul_of_nonneg_right hsize hu0
          linarith
      _ = (a * (1 + u) - 1) * (ws.sum + w) := by ring

/-- The relative error of a sum that is computed in parts, whose sums are added exactly. -/
theorem abs_sum_map_sumRounded_sub_le (p : ℕ) {parts : List (List ℚ)}
    (hparts : ∀ ws ∈ parts, ∀ w ∈ ws, 0 ≤ w) :
    |(parts.map (sumRounded p)).sum - parts.flatten.sum| ≤
      ((1 + 1 / 2 ^ p) ^ parts.flatten.length - 1) * parts.flatten.sum := by
  induction parts with
  | nil => simp
  | cons ws parts ih =>
    have hws : ∀ w ∈ ws, 0 ≤ w := hparts ws List.mem_cons_self
    have hrest : ∀ vs ∈ parts, ∀ w ∈ vs, 0 ≤ w :=
      fun vs hvs => hparts vs (List.mem_cons_of_mem ws hvs)
    have hsum : 0 ≤ ws.sum := List.sum_nonneg hws
    have hsum' : 0 ≤ parts.flatten.sum := by
      refine List.sum_nonneg fun w hw => ?_
      obtain ⟨vs, hvs, hw⟩ := List.mem_flatten.mp hw
      exact hrest vs hvs w hw
    have hfirst := abs_sumRounded_sub_le p hws
    have ih := ih hrest
    rw [List.map_cons, List.sum_cons, List.flatten_cons, List.sum_append, List.length_append,
      pow_add]
    -- Both factors are at most the product, so either error may be charged with it.
    have hbase : (1 : ℚ) ≤ 1 + 1 / 2 ^ p := le_add_of_nonneg_right (by positivity)
    have ha := one_le_pow₀ hbase (n := ws.length)
    have hb := one_le_pow₀ hbase (n := parts.flatten.length)
    generalize (1 + 1 / (2 : ℚ) ^ p) ^ ws.length = a at *
    generalize (1 + 1 / (2 : ℚ) ^ p) ^ parts.flatten.length = b at *
    have hab : a ≤ a * b := le_mul_of_one_le_right (by linarith) hb
    have hba : b ≤ a * b := le_mul_of_one_le_left (by linarith) ha
    calc |sumRounded p ws + (parts.map (sumRounded p)).sum - (ws.sum + parts.flatten.sum)|
        ≤ |sumRounded p ws - ws.sum| + |(parts.map (sumRounded p)).sum - parts.flatten.sum| := by
          rw [add_sub_add_comm]
          exact abs_add_le _ _
      _ ≤ (a - 1) * ws.sum + (b - 1) * parts.flatten.sum := add_le_add hfirst ih
      _ ≤ (a * b - 1) * ws.sum + (a * b - 1) * parts.flatten.sum :=
          add_le_add (mul_le_mul_of_nonneg_right (by linarith) hsum)
            (mul_le_mul_of_nonneg_right (by linarith) hsum')
      _ = (a * b - 1) * (ws.sum + parts.flatten.sum) := by ring

end Sum

end MasterScheduler.Lib
