import EnergyMeter.Lib.Numerals
import Mathlib.Algebra.BigOperators.Intervals
import Mathlib.Analysis.Complex.Trigonometric
import Mathlib.Tactic.LinearCombination

/-!
# A resonator and the Fourier transform

The recurrence `s = x + c s' - s''` is a resonator: two real states, and one real
coefficient `c = 2 cos w`. It carries a complex sum. With `z = exp (i w)` the
combination `s' - z⁻¹ s''` of its states obeys a recurrence of first order,
`y = x + z y'`, whose solution is the Fourier sum of the inputs at the angle `w`,
turned by a unit number.

* `resonate` — the states after `n` inputs.
* `fourierSum` — the sum of `x k * exp (- i w k)` over the first `n` inputs.

Main results:

* `resonate_eq_fourierSum` — the complex sum that the states carry.
* `resonate_power` — a quadratic form of the states is its squared modulus.
-/

namespace EnergyMeter.Lib

open Complex

section Recurrence

variable {R : Type*} [CommRing R]

/-- The last two states of the resonator after the inputs `x 0, …, x (n - 1)`, the
newest first. -/
def resonate (c : R) (x : ℕ → R) (n : ℕ) : R × R :=
  (List.range n).foldl (fun s i => (x i + c * s.1 - s.2, s.1)) (0, 0)

theorem resonate_zero (c : R) (x : ℕ → R) : resonate c x 0 = (0, 0) := rfl

theorem resonate_succ (c : R) (x : ℕ → R) (n : ℕ) :
    resonate c x (n + 1) =
      (x n + c * (resonate c x n).1 - (resonate c x n).2, (resonate c x n).1) := by
  rw [resonate, List.range_succ, List.foldl_append]
  rfl

end Recurrence

/-- The Fourier sum of the first `n` inputs at the angle `w`. -/
noncomputable def fourierSum (x : ℕ → ℝ) (w : ℝ) (n : ℕ) : ℂ :=
  ∑ k ∈ Finset.range n, x k * exp (-(I * w * k))

theorem fourierSum_succ (x : ℕ → ℝ) (w : ℝ) (n : ℕ) :
    fourierSum x w (n + 1) = fourierSum x w n + x n * exp (-(I * w * n)) :=
  Finset.sum_range_succ _ _

/-- The coefficient of the resonator is the sum of a unit number and its inverse. -/
theorem two_cos_eq (w : ℝ) : ((2 * Real.cos w : ℝ) : ℂ) = exp (w * I) + exp (-(w * I)) := by
  push_cast
  rw [cos, mul_div_cancel₀ _ (two_ne_zero' ℂ), neg_mul]

/-- **The states carry the Fourier sum**, turned forward by one step for every
input. -/
theorem resonate_eq_fourierSum (x : ℕ → ℝ) (w : ℝ) (n : ℕ) :
    exp (w * I) * ((resonate (2 * Real.cos w) x n).1 -
        exp (-(w * I)) * (resonate (2 * Real.cos w) x n).2) =
      exp (w * I) ^ n * fourierSum x w n := by
  induction n with
  | zero => simp [resonate_zero, fourierSum]
  | succ n ih =>
    set p := (resonate (2 * Real.cos w) x n).1
    set q := (resonate (2 * Real.cos w) x n).2
    have hUnit : exp (w * I) * exp (-(w * I)) = 1 := by
      rw [← exp_add, add_neg_cancel, exp_zero]
    -- the newest input enters unturned
    have hTurn : exp (w * I) ^ n * exp (-(I * w * n)) = 1 := by
      rw [← exp_nat_mul, ← exp_add, show (n : ℂ) * (w * I) + -(I * w * n) = 0 by ring, exp_zero]
    have hCos := two_cos_eq w
    rw [resonate_succ, fourierSum_succ]
    push_cast at hCos ⊢
    -- by the first order recurrence of the combination
    linear_combination exp (w * I) * ih + exp (w * I) * p * hCos +
      exp (w * I) * q * hUnit - exp (w * I) * x n * hTurn

/-- The squared modulus of the combination, by its two parts. -/
theorem normSq_combination (w p q : ℝ) :
    normSq (p - exp (-(w * I)) * q) = q * q + p * p - 2 * Real.cos w * p * q := by
  have hExp : exp (-(w * I)) = Real.cos w - Real.sin w * I := by
    rw [← neg_mul, exp_mul_I, cos_neg, sin_neg, ← ofReal_cos, ← ofReal_sin]
    ring
  have hParts : (p : ℂ) - exp (-(w * I)) * q =
      ((p - Real.cos w * q : ℝ) : ℂ) + ((Real.sin w * q : ℝ) : ℂ) * I := by
    rw [hExp]
    push_cast
    ring
  rw [hParts, normSq_add_mul_I]
  linear_combination q ^ 2 * Real.sin_sq_add_cos_sq w

/-- **A quadratic form of the states is the squared modulus** of the Fourier sum. -/
theorem resonate_power (x : ℕ → ℝ) (w : ℝ) (n : ℕ) :
    (resonate (2 * Real.cos w) x n).2 * (resonate (2 * Real.cos w) x n).2 +
        (resonate (2 * Real.cos w) x n).1 * (resonate (2 * Real.cos w) x n).1 -
        2 * Real.cos w * (resonate (2 * Real.cos w) x n).1 * (resonate (2 * Real.cos w) x n).2 =
      normSq (fourierSum x w n) := by
  have hUnit : normSq (exp (w * I)) = 1 := by
    rw [normSq_eq_norm_sq, norm_exp_ofReal_mul_I, one_pow]
  -- turning by unit numbers keeps the modulus
  have hNorm := congrArg normSq (resonate_eq_fourierSum x w n)
  rw [normSq_mul, normSq_mul, map_pow, hUnit, one_pow, one_mul, one_mul] at hNorm
  rw [← hNorm, normSq_combination]

end EnergyMeter.Lib
