import Mathlib.Algebra.Order.Ring.Int
import Mathlib.Algebra.Order.GroupWithZero.Basic

/-!
# MasterScheduler.Lib.Signed — signed machine integers

Arithmetic on a signed type of `w` bits is arithmetic on integers followed by
`signed w`, the representative of the result that fits the type.
-/

namespace MasterScheduler.Lib

/-- What remains of a number in a signed type of `w` bits. -/
def signed (w : ℕ) (x : ℤ) : ℤ := x.bmod (2 ^ w)

theorem signed_eq {w : ℕ} {x : ℤ} (h : -2 ^ w ≤ x * 2) (h' : x * 2 < 2 ^ w) : signed w x = x :=
  Int.bmod_eq_of_le_mul_two (by simpa using h) (by simpa using h')

theorem signed_16 {x : ℤ} (h : -32768 ≤ x) (h' : x < 32768) : signed 16 x = x :=
  signed_eq (by omega) (by omega)

theorem signed_32 {x : ℤ} (h : -2147483648 ≤ x) (h' : x < 2147483648) : signed 32 x = x :=
  signed_eq (by omega) (by omega)

theorem signed_64 {x : ℤ} (h : -9223372036854775808 ≤ x) (h' : x < 9223372036854775808) :
    signed 64 x = x :=
  signed_eq (by omega) (by omega)

theorem signed_wide {w : ℕ} {x : ℤ} (hw : 32 ≤ w) (h : -2147483648 ≤ x) (h' : x < 2147483648) :
    signed w x = x := by
  have hpow : (2 : ℤ) ^ 32 ≤ 2 ^ w := pow_le_pow_right₀ (by decide) hw
  exact signed_eq (by omega) (by omega)

/-- A product in a wider type makes no difference for a narrower one. -/
theorem signed_sub_signed {v w : ℕ} (h : v ≤ w) (x y : ℤ) :
    signed v (x - signed w y) = signed v (x - y) := by
  have hdvd : 2 ^ v ∣ 2 ^ w := Nat.pow_dvd_pow 2 h
  unfold signed
  rw [← Int.sub_bmod_bmod, Int.bmod_bmod_of_dvd hdvd, Int.sub_bmod_bmod]

end MasterScheduler.Lib
