import EnergyMeter.Lib.Resonator
import Mathlib.Algebra.BigOperators.Field
import Mathlib.Analysis.SpecialFunctions.Complex.Log
import Mathlib.Analysis.SpecialFunctions.Trigonometric.Bounds

/-!
# Harmonics and the Fourier sum

A signal that repeats after `N` samples is a sum of harmonics of its period. Over a
whole period the exponentials of two harmonics are orthogonal, so that the Fourier sum
at the angle of a bin sees the harmonic of that bin and none of the others. An angle
that is slightly off costs a term that is linear in the error.

* `binAngle` — the angle of a bin.
* `harmonics` — a sum of harmonics, each with its amplitude and its phase.

Main results:

* `sum_exp_turns` — orthogonality.
* `norm_fourierSum_harmonics` — the modulus of the Fourier sum at a bin.
* `norm_fourierSum_sub_le` — two angles.
-/

namespace EnergyMeter.Lib

open Complex

/-- The angle of bin `j` of a period of `N` samples. -/
noncomputable def binAngle (N j : ℕ) : ℝ := 2 * Real.pi * j / N

/-- Harmonics `0, …, H - 1` of a period of `N` samples. -/
noncomputable def harmonics (N H : ℕ) (A φ : ℕ → ℝ) (n : ℕ) : ℝ :=
  ∑ h ∈ Finset.range H, A h * Real.cos (binAngle N h * n + φ h)

/-! ## Orthogonality -/

section Orthogonality

variable {N : ℕ}

/-- **A whole number of turns** sums to nothing, unless every step is whole. -/
theorem sum_exp_turns (hN : 0 < N) (m : ℤ) :
    ∑ n ∈ Finset.range N, exp (I * (2 * Real.pi * m / N) * n) =
      if (N : ℤ) ∣ m then (N : ℂ) else 0 := by
  have hN' : (N : ℂ) ≠ 0 := Nat.cast_ne_zero.mpr hN.ne'
  -- a geometric sum, of `N` ones or of a root of unity that is not one
  set z := exp (I * (2 * Real.pi * m / N)) with hz
  have hPow : ∀ n ∈ Finset.range N, exp (I * (2 * Real.pi * m / N) * n) = z ^ n := by
    intro n _
    rw [hz, ← exp_nat_mul, mul_comm]
  have hOne : z = 1 ↔ (N : ℤ) ∣ m := by
    rw [hz, exp_eq_one_iff]
    constructor
    · rintro ⟨k, hk⟩
      refine ⟨k, ?_⟩
      have hTurns : (m : ℂ) = N * k := by
        have hUnit : (2 * Real.pi * I : ℂ) ≠ 0 := two_pi_I_ne_zero
        field_simp at hk
        linear_combination hk
      exact_mod_cast hTurns
    · rintro ⟨k, rfl⟩
      refine ⟨k, ?_⟩
      push_cast
      field_simp
  rw [Finset.sum_congr rfl hPow]
  split
  · rename_i hDvd
    rw [hOne.mpr hDvd]
    simp
  · rename_i hDvd
    have hTurn : z ^ N = 1 := by
      rw [hz, ← exp_nat_mul, exp_eq_one_iff]
      refine ⟨m, ?_⟩
      field_simp
    rw [geom_sum_eq (mt hOne.mp hDvd), hTurn, sub_self, zero_div]

/-- A harmonic under the transform: one exponential for the difference of the two bins,
one for their sum. -/
theorem fourierSum_cos (hN : 0 < N) (h j : ℕ) (φ : ℝ) :
    fourierSum (fun n => Real.cos (binAngle N h * n + φ)) (binAngle N j) N =
      (exp (I * φ) * (if (N : ℤ) ∣ (h : ℤ) - j then (N : ℂ) else 0) +
        exp (-(I * φ)) * (if (N : ℤ) ∣ -((h : ℤ) + j) then (N : ℂ) else 0)) / 2 := by
  rw [← sum_exp_turns hN, ← sum_exp_turns hN, fourierSum, Finset.mul_sum, Finset.mul_sum,
    ← Finset.sum_add_distrib, Finset.sum_div]
  refine Finset.sum_congr rfl fun n _ => ?_
  rw [ofReal_cos, cos, div_mul_eq_mul_div, add_mul, ← exp_add, ← exp_add, ← exp_add, ← exp_add]
  push_cast [binAngle]
  congr 3 <;> ring

theorem fourierSum_sum (x : ℕ → ℕ → ℝ) (H : ℕ) (w : ℝ) (n : ℕ) :
    fourierSum (fun k => ∑ h ∈ Finset.range H, x h k) w n =
      ∑ h ∈ Finset.range H, fourierSum (x h) w n := by
  simp only [fourierSum, ofReal_sum, Finset.sum_mul]
  exact Finset.sum_comm

theorem fourierSum_const_mul (a : ℝ) (x : ℕ → ℝ) (w : ℝ) (n : ℕ) :
    fourierSum (fun k => a * x k) w n = a * fourierSum x w n := by
  simp only [fourierSum, ofReal_mul, Finset.mul_sum, mul_assoc]

/-- **A bin sees its own harmonic**, whatever the others are. -/
theorem fourierSum_harmonics {H j : ℕ} {A φ : ℕ → ℝ} (hH : ∀ h < H, 2 * h ≤ N) (hPos : 0 < j)
    (hj : j < H) (hLt : 2 * j < N) :
    fourierSum (harmonics N H A φ) (binAngle N j) N = A j * (N / 2 * exp (I * φ j)) := by
  have hOne : ∀ h ∈ Finset.range H,
      fourierSum (fun n => A h * Real.cos (binAngle N h * n + φ h)) (binAngle N j) N =
        if h = j then A j * (N / 2 * exp (I * φ j)) else 0 := by
    intro h hMem
    have hh := hH h (Finset.mem_range.mp hMem)
    -- a cosine turns both ways: neither the sum of the two numbers of turns is a multiple of `N`,
    -- nor their difference, except for the harmonic itself
    have hSum : ¬(N : ℤ) ∣ -((h : ℤ) + j) := by
      rw [Int.dvd_neg]
      intro hDvd
      have hLe := Int.le_of_dvd (by omega) hDvd
      omega
    have hDiff : (N : ℤ) ∣ (h : ℤ) - j ↔ h = j := by
      constructor
      · intro hDvd
        by_contra hne
        have hLe := Int.natAbs_dvd_natAbs.mpr hDvd
        have hLe' := Nat.le_of_dvd (by omega) hLe
        omega
      · rintro rfl
        simp
    rw [fourierSum_const_mul, fourierSum_cos (by omega), if_neg hSum]
    by_cases hEq : h = j
    · subst hEq
      rw [if_pos (hDiff.mpr rfl), if_pos rfl]
      ring
    · rw [if_neg (mt hDiff.mp hEq), if_neg hEq]
      ring
  show fourierSum (fun n => ∑ h ∈ Finset.range H, A h * Real.cos (binAngle N h * n + φ h)) _ _ = _
  rw [fourierSum_sum, Finset.sum_congr rfl hOne, Finset.sum_ite_eq', if_pos (Finset.mem_range.mpr hj)]

theorem norm_fourierSum_harmonics {H j : ℕ} {A φ : ℕ → ℝ} (hH : ∀ h < H, 2 * h ≤ N) (hPos : 0 < j)
    (hj : j < H) (hLt : 2 * j < N) :
    ‖fourierSum (harmonics N H A φ) (binAngle N j) N‖ = |A j| * (N / 2) := by
  have hUnit : ‖exp (I * φ j)‖ = 1 := by rw [mul_comm, norm_exp_ofReal_mul_I]
  rw [fourierSum_harmonics hH hPos hj hLt, norm_mul, norm_mul, hUnit, norm_div, mul_one]
  simp

end Orthogonality

/-! ## Two angles -/

/-- **An angle that is off** by a little moves the sum by a little. -/
theorem norm_fourierSum_sub_le (x : ℕ → ℝ) (w w' : ℝ) (n : ℕ) :
    ‖fourierSum x w n - fourierSum x w' n‖ ≤ ∑ k ∈ Finset.range n, |x k| * (k * |w - w'|) := by
  rw [fourierSum, fourierSum, ← Finset.sum_sub_distrib]
  refine (norm_sum_le _ _).trans (Finset.sum_le_sum fun k _ => ?_)
  -- term by term: the two factors differ by the turn of the difference
  have hTurn : exp (-(I * w * k)) =
      exp (((-(w' * k) : ℝ) : ℂ) * I) * exp (I * ((k * (w' - w) : ℝ) : ℂ)) := by
    rw [← exp_add]
    push_cast
    ring_nf
  have hTurn' : exp (-(I * w' * k)) = exp (((-(w' * k) : ℝ) : ℂ) * I) := by
    push_cast
    ring_nf
  have hNear : ‖exp (I * ((k * (w' - w) : ℝ) : ℂ)) - 1‖ ≤ k * |w - w'| := by
    refine Real.norm_exp_I_mul_ofReal_sub_one_le.trans_eq ?_
    rw [Real.norm_eq_abs, abs_mul, Nat.abs_cast, abs_sub_comm]
  rw [← mul_sub, norm_mul, norm_real, Real.norm_eq_abs, hTurn, hTurn', ← mul_sub_one, norm_mul,
    norm_exp_ofReal_mul_I, one_mul]
  exact mul_le_mul_of_nonneg_left hNear (abs_nonneg _)

end EnergyMeter.Lib
