import Mathlib.Data.Nat.ModEq
import Mathlib.Tactic.Ring

/-!
# MasterScheduler.Lib.Clock — differences on a clock that wraps

A clock counts modulo some range. The difference of two readings says how many
ticks lead from the one to the other, as long as they are fewer than the range.

- `since_eq_iff`: the ticks from one reading to another.
- `since_succ`: one tick more.
- `since_add_left`, `since_add_right`: two readings seen from a third one.
-/

namespace MasterScheduler.Lib

/-- The ticks from a reading `y` of the clock to a reading `x`, modulo the range. -/
def since (M x y : ℕ) : ℕ := (x + (M - y % M)) % M

section Since

variable {M x x' y y' k n : ℕ}

theorem since_lt (hM : 0 < M) (x y : ℕ) : since M x y < M := Nat.mod_lt _ hM

/-- That many ticks lead from the one reading to the other. -/
theorem add_since (hM : 0 < M) (x y : ℕ) : y + since M x y ≡ x [MOD M] := by
  -- The subtraction is of natural numbers and does not stop at zero.
  have hle : y % M ≤ M := (Nat.mod_lt y hM).le
  have hsum : y % M + (x + (M - y % M)) = x + M := by omega
  calc y + since M x y
      ≡ y % M + (x + (M - y % M)) [MOD M] :=
        (Nat.mod_modEq y M).symm.add (Nat.mod_modEq _ M)
    _ ≡ x + M [MOD M] := by rw [hsum]
    _ ≡ x [MOD M] := Nat.add_modEq_right

theorem since_eq_iff (hk : k < M) : since M x y = k ↔ y + k ≡ x [MOD M] := by
  have hM : 0 < M := Nat.zero_lt_of_lt hk
  constructor
  · intro h
    rw [← h]
    exact add_since hM x y
  · intro h
    have hsame : since M x y ≡ k [MOD M] :=
      Nat.ModEq.add_left_cancel' y ((add_since hM x y).trans h.symm)
    exact Nat.ModEq.eq_of_lt_of_lt hsame (since_lt hM x y) hk

/-- The difference depends on what the clock shows only. -/
theorem since_congr (hx : x ≡ x' [MOD M]) (hy : y ≡ y' [MOD M]) :
    since M x y = since M x' y' := by
  have hmod : y % M = y' % M := hy
  rw [since, since, hmod]
  exact hx.add_right _

@[simp]
theorem since_mod_left (x y : ℕ) : since M (x % M) y = since M x y :=
  since_congr (Nat.mod_modEq x M) rfl

@[simp]
theorem since_mod_right (x y : ℕ) : since M x (y % M) = since M x y :=
  since_congr rfl (Nat.mod_modEq y M)

theorem since_add_self (hk : k < M) (y : ℕ) : since M (y + k) y = k :=
  (since_eq_iff hk).mpr rfl

theorem since_self (hM : 0 < M) (x : ℕ) : since M x x = 0 := since_add_self hM x

/-- One tick more, unless the clock comes around. -/
theorem since_succ (h : since M x y + 1 < M) : since M (x + 1) y = since M x y + 1 := by
  have hM : 0 < M := by omega
  rw [since_eq_iff h, ← Nat.add_assoc]
  exact (add_since hM x y).add_right 1

theorem since_succ_last (hM : 0 < M) (h : since M x y + 1 = M) : since M (x + 1) y = 0 := by
  rw [since_eq_iff hM, Nat.add_zero]
  have hsum : y + since M x y + 1 ≡ x + 1 [MOD M] := (add_since hM x y).add_right 1
  rw [Nat.add_assoc, h] at hsum
  exact Nat.add_modEq_right.symm.trans hsum

/-- A reading is as far ahead of `y` as another one, less the ticks between the two. -/
theorem since_add_right (h : n ≤ since M x y) (hM : 0 < M) :
    since M x (y + n) = since M x y - n := by
  have hlt := since_lt hM x y
  have hsum : y + n + (since M x y - n) = y + since M x y := by omega
  rw [since_eq_iff (by omega), hsum]
  exact add_since hM x y

/-- What is `n` ticks after `y` lies ahead of `x` by what is missing to `n`. -/
theorem since_add_left (h : since M x y ≤ n) (hn : n < M) :
    since M (y + n) x = n - since M x y := by
  have hM : 0 < M := by omega
  have hlt := since_lt hM x y
  rw [since_eq_iff (by omega)]
  calc x + (n - since M x y)
      ≡ y + since M x y + (n - since M x y) [MOD M] := (add_since hM x y).symm.add_right _
    _ ≡ y + n [MOD M] := by
      rw [Nat.add_assoc, Nat.add_sub_cancel' h]

/-- What is `n` ticks after `y` and behind `x` lies ahead of `x` once around. -/
theorem since_add_left_of_lt (h : n < since M x y) (hM : 0 < M) :
    since M (y + n) x = M + n - since M x y := by
  have hlt := since_lt hM x y
  have hsum : since M x y + (M + n - since M x y) = n + M := by omega
  rw [since_eq_iff (by omega)]
  calc x + (M + n - since M x y)
      ≡ y + since M x y + (M + n - since M x y) [MOD M] := (add_since hM x y).symm.add_right _
    _ ≡ y + n + M [MOD M] := by
      rw [Nat.add_assoc, hsum, Nat.add_assoc]
    _ ≡ y + n [MOD M] := Nat.add_modEq_right

/-- No more ticks than really passed. -/
theorem since_le_sub (hM : 0 < M) (h : y ≤ x) : since M x y ≤ x - y := by
  have hmod : since M x y = (x - y) % M := by
    rw [since_eq_iff (Nat.mod_lt _ hM)]
    calc y + (x - y) % M
        ≡ y + (x - y) [MOD M] := (Nat.mod_modEq _ M).add_left y
      _ ≡ x [MOD M] := by rw [Nat.add_sub_cancel' h]
  rw [hmod]
  exact Nat.mod_le _ _

end Since

end MasterScheduler.Lib
