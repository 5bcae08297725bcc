import Mathlib.Tactic.Linarith
import MasterScheduler.Lib.Signed

/-!
# MasterScheduler.Mote.Timesync — drift compensation

`compensate_internal` turns the time since the last slot and the drift of the
clock into timer ticks. What a call cannot express in ticks is carried to the
next one, in two variables: the remainder of the division by the drift unit,
and the error of the conversion from microseconds to ticks.

1. **Platforms**: the conversion macros, with their 32-bit arithmetic.
2. **Model**: `compensate_internal` and a sequence of calls.
3. **Accuracy**: the conversion there and back, and one call.
4. **Result**: as long as no call has to compensate more than 2^14
   microseconds, nothing is lost.
-/

namespace MasterScheduler.Mote.Timesync

open Lib

/-! ## Platforms -/

/-- The timer of a platform. -/
structure Rtimer where
  /-- `RTIMER_ARCH_SECOND / 128`. -/
  maxTicks : ℤ
  /-- `-RTIMER_ARCH_SECOND / 128`, as `amount_ticks` holds it. -/
  minTicks : ℤ
  /-- `US_TO_RTIMERTICKS`. -/
  usToRtimerticks : ℤ → ℤ
  /-- `RTIMERTICKS_TO_US`, with the width of `long`. -/
  rtimerticksToUs : ℕ → ℤ → ℤ

/-- `US_TO_RTIMERTICKS` for a timer that is slower than a megahertz. The product has 32 bits. -/
def roundToTicks (archSecond us : ℤ) : ℤ :=
  if 0 ≤ us then (signed 32 (us * archSecond + 500000)).tdiv 1000000
  else (signed 32 (us * archSecond - 500000)).tdiv 1000000

/-- `RTIMERTICKS_TO_US` for such a timer. The product is a `long`. -/
def roundToUs (archSecond : ℤ) (longBits : ℕ) (ticks : ℤ) : ℤ :=
  if 0 ≤ ticks then (signed longBits (ticks * 1000000 + archSecond / 2)).tdiv archSecond
  else (signed longBits (ticks * 1000000 - archSecond / 2)).tdiv archSecond

/-- The platforms that define the macros. -/
inductive Platform
  | cc2538
  | cc26xx
  | msp430
  /-- With a crystal. -/
  | jn516xCrystal
  /-- With the internal oscillator. -/
  | jn516xOscillator
  /-- With the clock of the processor. -/
  | jn516xCpu
  | cooja
deriving DecidableEq

/-- `rtimer-arch.h`. On the platforms where `RTIMER_ARCH_SECOND` is unsigned, its negative is a
large number. -/
def Platform.rtimer : Platform → Rtimer
  | cc2538 | jn516xCrystal => ⟨256, -256, roundToTicks 32768, roundToUs 32768⟩
  | msp430 => ⟨256, 256, roundToTicks 32768, roundToUs 32768⟩
  | jn516xOscillator => ⟨250, -250, roundToTicks 32000, roundToUs 32000⟩
  | cc26xx => ⟨512, -512, fun us => 2 * roundToTicks 32768 us, roundToUs 65536⟩
  | jn516xCpu => ⟨125000, 33429432, fun us => us * 16, fun _ ticks => ticks / 16⟩
  | cooja => ⟨7812, -7813, id, fun _ => id⟩

/-- What the code is compiled for. -/
structure Target where
  platform : Platform
  /-- The width of `long`. -/
  longBits : ℕ
  longBits_ge : 32 ≤ longBits

namespace Target

variable (tg : Target)

def usToRtimerticks (us : ℤ) : ℤ := tg.platform.rtimer.usToRtimerticks us

def rtimerticksToUs (ticks : ℤ) : ℤ := tg.platform.rtimer.rtimerticksToUs tg.longBits ticks

end Target

/-! ## Model -/

/-- `TSCH_DRIFT_UNIT`. -/
def tschDriftUnit : ℤ := 256000000

/-- The arguments of a call. -/
structure Call where
  timeDeltaUsec : ℕ
  driftPpm : ℤ
  timeDeltaUsec_lt : timeDeltaUsec < 2 ^ 32
  driftPpm_ge : -2 ^ 31 ≤ driftPpm
  driftPpm_lt : driftPpm < 2 ^ 31

/-- The drift in the time of a call, in drift units of a microsecond. -/
def Call.drift (c : Call) : ℤ := c.timeDeltaUsec * c.driftPpm

/-- What is carried from call to call: `remainder` and `tick_conversion_error`. -/
structure Carry where
  remainder : ℤ
  tickConversionError : ℤ
deriving DecidableEq

/-- The values at the start. -/
def Carry.zero : Carry := ⟨0, 0⟩

/-- `amount` without the tick error of the calls before, and the new remainder. -/
def divide (tg : Target) (c : Call) (s : Carry) : ℤ × ℤ :=
  let d := signed 64 (c.drift + s.remainder)
  let amount := signed 32 (d.tdiv tschDriftUnit)
  (amount, signed 32 (d - signed tg.longBits (amount * tschDriftUnit)))

/-- `compensate_internal` up to the check for compensations that are too big. -/
def convert (tg : Target) (c : Call) (s : Carry) : ℤ × Carry :=
  let (amount, remainder) := divide tg c s
  let amount := signed 32 (amount + s.tickConversionError)
  let amountTicks := signed 32 (tg.usToRtimerticks amount)
  (amountTicks, ⟨remainder, signed 16 (amount - tg.rtimerticksToUs amountTicks)⟩)

/-- The check. -/
def Clamps (tg : Target) (c : Call) (s : Carry) : Prop :=
  tg.platform.rtimer.maxTicks < |(convert tg c s).1|

instance (tg : Target) (c : Call) (s : Carry) : Decidable (Clamps tg c s) :=
  inferInstanceAs (Decidable (_ < _))

/-- `compensate_internal`. -/
def compensateInternal (tg : Target) (c : Call) (s : Carry) : ℤ × Carry :=
  let (amountTicks, s') := convert tg c s
  if Clamps tg c s then
    (if 0 < amountTicks then tg.platform.rtimer.maxTicks else tg.platform.rtimer.minTicks, s')
  else (amountTicks, s')

/-- A sequence of calls, with the tick results. -/
def compensateAll (tg : Target) : List Call → Carry → List ℤ × Carry
  | [], s => ([], s)
  | c :: calls, s =>
    let (ticks, s) := compensateInternal tg c s
    let (rest, s) := compensateAll tg calls s
    (ticks :: rest, s)

/-- No call of a sequence is clamped. -/
def NeverClamps (tg : Target) : List Call → Carry → Prop
  | [], _ => True
  | c :: calls, s => ¬ Clamps tg c s ∧ NeverClamps tg calls (compensateInternal tg c s).2

/-- Nothing is lost: what was returned and what is carried make up the drift. -/
def Exact (tg : Target) (calls : List Call) : Prop :=
  let (ticks, s) := compensateAll tg calls .zero
  tschDriftUnit * ((ticks.map tg.rtimerticksToUs).sum + s.tickConversionError) + s.remainder =
      (calls.map Call.drift).sum ∧
    |s.remainder| < tschDriftUnit

/-! ## Accuracy -/

theorem tdiv_of_neg {a b : ℤ} (ha : a ≤ 0) : a.tdiv b = -(-a / b) := by
  rw [← Int.tdiv_eq_ediv_of_nonneg (by omega), Int.neg_tdiv, neg_neg]

section Rounding

variable {archSecond us ticks : ℤ} {longBits : ℕ}

theorem roundToTicks_of_nonneg (hS : 0 ≤ archSecond) (hS' : archSecond ≤ 32768) (h : 0 ≤ us)
    (h' : us ≤ 16500) : roundToTicks archSecond us = (us * archSecond + 500000) / 1000000 := by
  have hprod : 0 ≤ us * archSecond := mul_nonneg h hS
  have hle : us * archSecond ≤ 16500 * 32768 := mul_le_mul h' hS' hS (by decide)
  rw [roundToTicks, if_pos h, signed_32 (by omega) (by omega),
    Int.tdiv_eq_ediv_of_nonneg (by omega)]

theorem roundToTicks_of_neg (hS : 0 ≤ archSecond) (hS' : archSecond ≤ 32768) (h : us < 0)
    (h' : -16500 ≤ us) :
    roundToTicks archSecond us = -((-(us * archSecond) + 500000) / 1000000) := by
  have hprod : us * archSecond ≤ 0 := mul_nonpos_of_nonpos_of_nonneg h.le hS
  have hle : -us * archSecond ≤ 16500 * 32768 :=
    mul_le_mul (by omega) hS' hS (by decide)
  rw [neg_mul] at hle
  rw [roundToTicks, if_neg (by omega), signed_32 (by omega) (by omega), tdiv_of_neg (by omega),
    neg_sub, sub_eq_add_neg, add_comm]

theorem roundToUs_eq (hlong : 32 ≤ longBits) (hS : 0 ≤ archSecond) (hS' : archSecond ≤ 65536)
    (h : -1100 ≤ ticks) (h' : ticks ≤ 1100) :
    roundToUs archSecond longBits ticks =
      if 0 ≤ ticks then (ticks * 1000000 + archSecond / 2) / archSecond
      else -((-(ticks * 1000000) + archSecond / 2) / archSecond) := by
  rw [roundToUs]
  split
  · rw [signed_wide hlong (by omega) (by omega), Int.tdiv_eq_ediv_of_nonneg (by omega)]
  · rw [signed_wide hlong (by omega) (by omega), tdiv_of_neg (by omega), neg_sub, sub_eq_add_neg,
      add_comm]

end Rounding

/-- To ticks and back, for an amount whose product fits 32 bits. -/
theorem accurate (tg : Target) {us : ℤ} (h : -16500 ≤ us) (h' : us ≤ 16500) :
    -16 ≤ us - tg.rtimerticksToUs (signed 32 (tg.usToRtimerticks us)) ∧
      us - tg.rtimerticksToUs (signed 32 (tg.usToRtimerticks us)) ≤ 16 := by
  obtain ⟨p, longBits, hlong⟩ := tg
  simp only [Target.rtimerticksToUs, Target.usToRtimerticks]
  cases p <;> simp only [Platform.rtimer, id]
  case cooja =>
    rw [signed_32 (by omega) (by omega)]
    omega
  case jn516xCpu =>
    rw [signed_32 (by omega) (by omega)]
    omega
  all_goals
    rcases lt_or_ge us 0 with hneg | hpos
    · rw [roundToTicks_of_neg (by decide) (by decide) hneg h, signed_32 (by omega) (by omega),
        roundToUs_eq hlong (by decide) (by decide) (by omega) (by omega)]
      -- an amount of less than half a tick is rounded to none
      split <;> omega
    · rw [roundToTicks_of_nonneg (by decide) (by decide) hpos h', signed_32 (by omega) (by omega),
        roundToUs_eq hlong (by decide) (by decide) (by omega) (by omega), if_pos (by omega)]
      omega

/-! ## Result -/

section Result

variable {tg : Target} {c : Call} {s : Carry} {calls : List Call}

/-- Not more than 2^14 microseconds of drift. The clamp is at less than half of that on every
platform, so what is above is clamped, or has a product that does not fit 32 bits. -/
def Call.Moderate (c : Call) : Prop := |c.drift| ≤ 2 ^ 14 * tschDriftUnit

instance (c : Call) : Decidable c.Moderate := inferInstanceAs (Decidable (_ ≤ _))

/-- What is carried is less than a microsecond and about half a tick. -/
structure Carry.Small (s : Carry) : Prop where
  remainder : |s.remainder| < tschDriftUnit
  tickError : |s.tickConversionError| ≤ 16

theorem small_zero : Carry.zero.Small := ⟨by decide, by decide⟩

/-- The division is exact, whatever the width of `long`. -/
theorem divide_spec (hc : c.Moderate) (hs : s.Small) :
    (divide tg c s).1 * tschDriftUnit + (divide tg c s).2 = c.drift + s.remainder ∧
      |(divide tg c s).1| ≤ 2 ^ 14 + 1 ∧ |(divide tg c s).2| < tschDriftUnit := by
  have hdrift := abs_le.mp hc
  have hrem := abs_lt.mp hs.remainder
  unfold tschDriftUnit at hdrift hrem
  have hd : signed 64 (c.drift + s.remainder) = c.drift + s.remainder :=
    signed_64 (by omega) (by omega)
  have hdiv := Int.tdiv_mul_add_tmod (c.drift + s.remainder) tschDriftUnit
  have hlo := Int.lt_tmod_of_pos (c.drift + s.remainder) (show 0 < tschDriftUnit by decide)
  have hhi := Int.tmod_lt_of_pos (c.drift + s.remainder) (show 0 < tschDriftUnit by decide)
  simp only [divide, hd]
  generalize (c.drift + s.remainder).tdiv tschDriftUnit = q at *
  generalize (c.drift + s.remainder).tmod tschDriftUnit = r at *
  have hrest : c.drift + s.remainder - q * tschDriftUnit = r := by
    rw [← hdiv, add_sub_cancel_left]
  unfold tschDriftUnit at *
  have hq : signed 32 q = q := signed_32 (by omega) (by omega)
  rw [hq, signed_sub_signed tg.longBits_ge, hrest, signed_32 (by omega) (by omega)]
  refine ⟨hdiv, abs_le.mpr ⟨by omega, by omega⟩, abs_lt.mpr ⟨hlo, hhi⟩⟩

/-- A call accounts for its drift: in ticks or in what it carries. -/
theorem convert_spec (hc : c.Moderate) (hs : s.Small) :
    let r := convert tg c s
    tschDriftUnit * (tg.rtimerticksToUs r.1 + r.2.tickConversionError) + r.2.remainder =
        tschDriftUnit * s.tickConversionError + s.remainder + c.drift ∧ r.2.Small := by
  obtain ⟨hdiv, hamount, hrem⟩ := @divide_spec tg c s hc hs
  have hamount' := abs_le.mp hamount
  have herr := abs_le.mp hs.tickError
  dsimp only [convert]
  generalize divide tg c s = q at *
  obtain ⟨amount, remainder⟩ := q
  dsimp only at *
  have hsum : signed 32 (amount + s.tickConversionError) = amount + s.tickConversionError :=
    signed_32 (by omega) (by omega)
  rw [hsum]
  obtain ⟨hlo, hhi⟩ := accurate tg (show -16500 ≤ amount + s.tickConversionError by omega)
    (by omega)
  generalize signed 32 (tg.usToRtimerticks (amount + s.tickConversionError)) = ticks at *
  rw [signed_16 (by omega) (by omega)]
  refine ⟨?_, hrem, abs_le.mpr ⟨hlo, hhi⟩⟩
  linarith

theorem compensateInternal_eq (h : ¬ Clamps tg c s) :
    compensateInternal tg c s = convert tg c s := if_neg h

/-- The sum over a sequence of calls. -/
theorem compensateAll_spec (hcalls : ∀ c ∈ calls, c.Moderate) (hs : s.Small)
    (h : NeverClamps tg calls s) :
    let r := compensateAll tg calls s
    tschDriftUnit * ((r.1.map tg.rtimerticksToUs).sum + r.2.tickConversionError) + r.2.remainder =
        tschDriftUnit * s.tickConversionError + s.remainder + (calls.map Call.drift).sum ∧
      r.2.Small := by
  induction calls generalizing s with
  | nil => exact ⟨by simp [compensateAll], hs⟩
  | cons c calls ih =>
    obtain ⟨hclamp, hrest⟩ := h
    obtain ⟨hstep, hsmall⟩ := @convert_spec tg c s (hcalls c List.mem_cons_self) hs
    rw [compensateInternal_eq hclamp] at hrest
    obtain ⟨hsum, hsmall'⟩ := ih (fun d hd => hcalls d (List.mem_cons_of_mem c hd)) hsmall hrest
    simp only [compensateAll, compensateInternal_eq hclamp, List.map_cons, List.sum_cons]
    refine ⟨?_, hsmall'⟩
    linarith

/-- Calls that need no more than 2^14 microseconds each, none of them clamped, lose nothing. -/
theorem exact_of_moderate (tg : Target) (calls : List Call) (hcalls : ∀ c ∈ calls, c.Moderate)
    (h : NeverClamps tg calls .zero) : Exact tg calls := by
  obtain ⟨hsum, hsmall⟩ := compensateAll_spec hcalls small_zero h
  refine ⟨?_, hsmall.remainder⟩
  simpa [Carry.zero] using hsum

end Result

/-- A timer of 32768 Hz and a `long` of 64 bits. -/
def cc2538 : Target := ⟨.cc2538, 64, by decide⟩

/-- A second with 40 ppm, and one with the drift the other way. -/
def twoSeconds : List Call :=
  [⟨1000000, 10240, by decide, by decide, by decide⟩,
    ⟨1000000, -10000, by decide, by decide, by decide⟩]

theorem exact_of_moderate_twoSeconds :
    (compensateAll cc2538 twoSeconds .zero).1 = [1, -1] ∧ Exact cc2538 twoSeconds :=
  ⟨by decide, exact_of_moderate cc2538 twoSeconds (by decide) ⟨by decide, by decide, trivial⟩⟩

/-- About 36 minutes with 61 ppm: 131072 microseconds. -/
def halfHour : Call := ⟨2 ^ 31, 15625, by decide, by decide, by decide⟩

/-- The product with the frequency of the timer is a multiple of `2 ^ 32`: no ticks, no clamp,
and no error either. -/
theorem halfHour_lost : halfHour.drift = 131072 * tschDriftUnit ∧
    NeverClamps cc2538 [halfHour] .zero ∧ (divide cc2538 halfHour .zero).1 = 131072 ∧
    compensateAll cc2538 [halfHour] .zero = ([0], .zero) ∧ ¬ Exact cc2538 [halfHour] := by
  refine ⟨by decide, ⟨by decide, trivial⟩, by decide, by decide, ?_⟩
  intro h
  exact absurd h.1 (by decide)

end MasterScheduler.Mote.Timesync
