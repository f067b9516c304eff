import EnergyMeter.Cpt.Factors
import EnergyMeter.Lib.Binary32

/-!
# EnergyMeter — how large the figures of a phase become

The currents of the theory are quotients, and a quotient is large where its
denominator is small. A mean square over a window is at least its newest item
over the length of the window, so what divides a sample is at most the length of
the window times its inverse: for the active currents that leaves the inverse of
the least sample, and the reactive currents do not exceed the measured ones by
more than the length of the window, by Cauchy–Schwarz.

* `abs_le_rms`, `le_rms`, `rms_le` — an rms value from the newest sample, from the
  least and from the greatest.
* `Range`, `Measured` — what a converter delivers.

Main result:

* `Measured.phaseReading_le` — every published figure of a phase, from the two
  ranges and the length of the window alone.
-/

namespace EnergyMeter.Cpt

open Lib

theorem floorMean_le {mean M : ℝ} (h : mean ≤ M) (hM : 1 / 10000 ≤ M) : floorMean mean ≤ M := by
  rcases le_or_gt mean 0 with hMean | hMean
  · rwa [floorMean_of_nonpos hMean]
  · rwa [floorMean_of_pos hMean]

/-- From a square to an rms value; the root of the length is not needed. -/
theorem abs_le_mul_sqrt {L : ℕ} {a q : ℝ} (hL : 1 ≤ L) (hq : 0 ≤ q) (h : a * a ≤ L * q) :
    |a| ≤ L * √q := by
  have hL' : (1 : ℝ) ≤ L := Nat.one_le_cast.mpr hL
  refine abs_le_of_sq_le_sq ?_ (mul_nonneg (Nat.cast_nonneg L) (Real.sqrt_nonneg q))
  calc a ^ 2
      = a * a := sq a
    _ ≤ L * q := h
    _ ≤ L * (L * q) := le_mul_of_one_le_left (mul_nonneg (Nat.cast_nonneg L) hq) hL'
    _ = (L * √q) ^ 2 := by rw [mul_pow, Real.sq_sqrt hq, sq, mul_assoc]

namespace Feed

variable (f : Feed) {x y : ℕ → ℝ} {s : ℕ} {i : Fin 3}

/-! ## Mean squares and their newest item -/

theorem mul_self_le_ms (hL : 1 ≤ f.L) : x s * x s ≤ f.L * f.ms x s :=
  calc x s * x s
      ≤ f.L * f.mean (fun r => x r * x r) s :=
        le_mul_winMean (fun _ => mul_self_nonneg _) (by omega) (Nat.lt_succ_self s)
    _ ≤ f.L * f.ms x s := mul_le_mul_of_nonneg_left (le_floorMean _) (Nat.cast_nonneg _)

theorem mul_self_le_cms {x : Fin 3 → ℕ → ℝ} (hL : 1 ≤ f.L) (hi : i.val < f.n) :
    x i s * x i s ≤ f.L * f.cms x s :=
  calc x i s * x i s
      ≤ ∑ i ∈ phases f.n, x i s * x i s :=
        Finset.single_le_sum (fun i _ => mul_self_nonneg (x i s)) (mem_phases.mpr hi)
    _ ≤ f.L * f.mean (fun r => ∑ i ∈ phases f.n, x i r * x i r) s :=
        le_mul_winMean (x := fun r => ∑ i ∈ phases f.n, x i r * x i r)
          (fun _ => Finset.sum_nonneg fun _ _ => mul_self_nonneg _) (by omega) (Nat.lt_succ_self s)
    _ ≤ f.L * f.cms x s := mul_le_mul_of_nonneg_left (le_floorMean _) (Nat.cast_nonneg _)

theorem abs_le_rms (hL : 1 ≤ f.L) : |x s| ≤ f.L * f.rms x s :=
  abs_le_mul_sqrt hL (f.ms_pos x s).le (f.mul_self_le_ms hL)

theorem abs_le_crms {x : Fin 3 → ℕ → ℝ} (hL : 1 ≤ f.L) (hi : i.val < f.n) :
    |x i s| ≤ f.L * f.crms x s :=
  abs_le_mul_sqrt hL (f.cms_pos x s).le (f.mul_self_le_cms hL hi)

/-! ## Rms values and the range of their signal -/

theorem rms_le {M : ℝ} (hM : 1 / 100 ≤ M) (h : ∀ r, |x r| ≤ M) : f.rms x s ≤ M := by
  have hM0 : 0 ≤ M := le_trans (by norm_num) hM
  refine Real.sqrt_le_iff.mpr ⟨hM0, floorMean_le (winMean_le (sq_nonneg M) fun r => ?_) ?_⟩
  · rw [← sq, ← sq_abs]
    exact pow_le_pow_left₀ (abs_nonneg _) (h r) 2
  · nlinarith

/-- A window of zeros has the rms value of its floor, any other one a sample that
is not zero. -/
theorem le_rms {lo : ℝ} (hL : 1 ≤ f.L) (hLo : 0 ≤ lo) (hFloor : lo ≤ 1 / 100)
    (h : ∀ r, x r ≠ 0 → lo ≤ |x r|) : lo ≤ f.L * f.rms x s := by
  have hL' : (1 : ℝ) ≤ f.L := Nat.one_le_cast.mpr hL
  rw [← abs_of_nonneg hLo]
  refine abs_le_mul_sqrt hL (f.ms_pos x s).le ?_
  -- one sample of the window that is not zero is enough for its mean
  by_cases hZero : ∃ r, s + 1 - f.L ≤ r ∧ r < s + 1 ∧ x r ≠ 0
  · obtain ⟨r, hlo, hhi, hr⟩ := hZero
    calc lo * lo
        ≤ |x r| * |x r| := mul_self_le_mul_self hLo (h r hr)
      _ = x r * x r := abs_mul_abs_self _
      _ ≤ f.L * f.mean (fun r => x r * x r) s :=
          le_mul_winMean (x := fun r => x r * x r) (fun _ => mul_self_nonneg _) hlo hhi
      _ ≤ f.L * f.ms x s := mul_le_mul_of_nonneg_left (le_floorMean _) (Nat.cast_nonneg _)
  · have hMean : f.mean (fun r => x r * x r) s = 0 := by
      have hSum : winSum f.L (fun r => x r * x r) (s + 1) = winSum f.L (fun _ => (0 : ℝ)) (s + 1) :=
        winSum_congr fun r hlo hhi => by
          have hr : x r = 0 := by
            by_contra hr
            exact hZero ⟨r, hlo, hhi, hr⟩
          rw [hr, mul_zero]
      rw [Feed.mean, winMean, hSum, winSum, Finset.sum_const_zero, zero_div]
    rw [Feed.ms, floorMean_of_nonpos hMean.le]
    nlinarith

/-- Cauchy–Schwarz with the floors. -/
theorem abs_mean_mul_le : |f.mean (fun r => x r * y r) s| ≤ f.rms x s * f.rms y s := by
  refine abs_le_of_sq_le_sq ?_ (mul_nonneg (f.rms_pos x s).le (f.rms_pos y s).le)
  calc f.mean (fun r => x r * y r) s ^ 2
      ≤ f.ms x s * f.ms y s := mean_mul_sq_le f s x y
    _ = (f.rms x s * f.rms y s) ^ 2 := by
        rw [mul_pow, sq, sq, f.rms_mul_self, f.rms_mul_self]

end Feed

/-! ## Quotients -/

/-- A quotient whose denominator is at least the square of what it multiplies, over
the length of the window. -/
theorem abs_active_le {L : ℕ} {P q a B lo : ℝ} (hP : 0 ≤ P) (hB : P ≤ B) (hq : 0 < q)
    (hLo : 0 < lo) (h : a * a ≤ L * q) (ha : a ≠ 0 → lo ≤ |a|) :
    |P / q * a| ≤ B * L / lo := by
  -- a value that is zero need not reach the lower bound
  have hLower : lo * |a| ≤ L * q := by
    rcases eq_or_ne a 0 with rfl | hne
    · rw [abs_zero, mul_zero]
      exact mul_nonneg (Nat.cast_nonneg L) hq.le
    · calc lo * |a|
          ≤ |a| * |a| := mul_le_mul_of_nonneg_right (ha hne) (abs_nonneg a)
        _ = a * a := abs_mul_abs_self a
        _ ≤ L * q := h
  rw [abs_mul, abs_of_nonneg (div_nonneg hP hq.le), div_mul_eq_mul_div, div_le_div_iff₀ hq hLo]
  calc P * |a| * lo
      = P * (lo * |a|) := by ring
    _ ≤ B * (L * q) :=
        mul_le_mul hB hLower (mul_nonneg hLo.le (abs_nonneg a)) (hP.trans hB)
    _ = B * L * q := (mul_assoc _ _ _).symm

/-- A quotient of which both factors of the numerator are within the root of the
denominator. -/
theorem abs_reactive_le {L W q u B : ℝ} (hq : 0 < q) (hB : 0 ≤ B) (hW : |W| ≤ √q * B)
    (hu : |u| ≤ L * √q) : |W / q * u| ≤ B * L := by
  rw [abs_mul, abs_div, abs_of_pos hq, div_mul_eq_mul_div, div_le_iff₀ hq]
  calc |W| * |u|
      ≤ √q * B * (L * √q) :=
        mul_le_mul hW hu (abs_nonneg u) (mul_nonneg (Real.sqrt_nonneg q) hB)
    _ = B * L * (√q * √q) := by ring
    _ = B * L * q := by rw [Real.mul_self_sqrt hq.le]

/-! ## What a converter delivers -/

/-- A range of measurement: the least size that is not zero, and the greatest. The
floor of an rms value is between them. -/
structure Range where
  lo : ℝ
  hi : ℝ
  lo_pos : 0 < lo
  lo_le : lo ≤ 1 / 100
  le_hi : 1 / 100 ≤ hi

theorem Range.hi_pos (v : Range) : 0 < v.hi := lt_of_lt_of_le (by norm_num) v.le_hi

/-- Voltages and currents within their ranges. -/
structure Measured (v c : Range) (f : Feed) : Prop where
  V : ∀ i s, Sized v.lo v.hi (f.V i s)
  I : ∀ i s, Sized c.lo c.hi (f.I i s)

namespace Measured

variable {v c : Range} {f : Feed} {i : Fin 3} {s : ℕ}

theorem V_rms_le (h : Measured v c f) : f.rms (f.V i) s ≤ v.hi :=
  f.rms_le v.le_hi fun r => (h.V i r).abs_le v.hi_pos.le

theorem I_rms_le (h : Measured v c f) : f.rms (f.I i) s ≤ c.hi :=
  f.rms_le c.le_hi fun r => (h.I i r).abs_le c.hi_pos.le

theorem A_le (h : Measured v c f) : f.rms (f.V i) s * f.rms (f.I i) s ≤ v.hi * c.hi :=
  mul_le_mul h.V_rms_le h.I_rms_le (f.rms_pos _ s).le v.hi_pos.le

theorem P_avg_le (h : Measured v c f) : f.P_avg i s ≤ v.hi * c.hi := by
  rw [Feed.P_avg, floorPower_eq_max]
  refine max_le ?_ ?_
  · calc f.P i s
        ≤ |f.P i s| := le_abs_self _
      _ ≤ f.rms (f.V i) s * f.rms (f.I i) s := f.abs_mean_mul_le
      _ ≤ v.hi * c.hi := h.A_le
  · nlinarith [v.le_hi, c.le_hi]

theorem cP_avg_le (h : Measured v c f) : f.cP_avg s ≤ 3 * (v.hi * c.hi) := by
  have hCard : (phases f.n).card ≤ 3 := Finset.card_le_univ _
  calc f.cP_avg s
      ≤ (phases f.n).card • (v.hi * c.hi) := Finset.sum_le_card_nsmul _ _ _ fun _ _ => h.P_avg_le
    _ ≤ 3 • (v.hi * c.hi) := nsmul_le_nsmul_left (mul_pos v.hi_pos c.hi_pos).le hCard
    _ = 3 * (v.hi * c.hi) := by rw [nsmul_eq_mul, Nat.cast_ofNat]

/-! ### Currents -/

theorem abs_Ia_le (h : Measured v c f) (hL : 1 ≤ f.L) :
    |f.Ia i s| ≤ v.hi * c.hi * f.L / v.lo :=
  abs_active_le (f.P_avg_pos i s).le h.P_avg_le (f.ms_pos _ s) v.lo_pos (f.mul_self_le_ms hL)
    (h.V i s).le_abs

theorem abs_Ir_le (h : Measured v c f) (hL : 1 ≤ f.L) : |f.Ir i s| ≤ c.hi * f.L := by
  refine abs_reactive_le (f.ms_pos _ s) c.hi_pos.le ?_ (f.abs_le_rms hL)
  calc |f.W_avg i s|
      ≤ f.rms (f.UI i) s * f.rms (f.I i) s := f.abs_mean_mul_le
    _ ≤ f.rms (f.UI i) s * c.hi := mul_le_mul_of_nonneg_left h.I_rms_le (f.rms_pos _ s).le

theorem abs_Iv_le (h : Measured v c f) (hL : 1 ≤ f.L) :
    |f.Iv i s| ≤ c.hi + v.hi * c.hi * f.L / v.lo + c.hi * f.L :=
  calc |f.Iv i s|
      ≤ |f.I i s - f.Ia i s| + |f.Ir i s| := abs_sub _ _
    _ ≤ |f.I i s| + |f.Ia i s| + |f.Ir i s| := add_le_add_left (abs_sub _ _) _
    _ ≤ c.hi + v.hi * c.hi * f.L / v.lo + c.hi * f.L :=
        add_le_add (add_le_add ((h.I i s).abs_le c.hi_pos.le) (h.abs_Ia_le hL)) (h.abs_Ir_le hL)

theorem abs_Iba_le (h : Measured v c f) (hL : 1 ≤ f.L) (hi : i.val < f.n) :
    |f.Iba i s| ≤ 3 * (v.hi * c.hi) * f.L / v.lo :=
  abs_active_le (f.cP_avg_nonneg s) h.cP_avg_le (f.cms_pos _ s) v.lo_pos
    (f.mul_self_le_cms hL hi) (h.V i s).le_abs

/-- The reactive energy of a phase, by the unbiased integrals of all. -/
theorem abs_W_avg_le (h : Measured v c f) (hi : i.val < f.n) :
    |f.W_avg i s| ≤ f.crms f.UI s * c.hi := by
  refine abs_le_of_sq_le_sq ?_ (mul_nonneg (f.crms_pos _ s).le c.hi_pos.le)
  -- one phase of three, and then the floor
  have hUI : f.mean (fun r => f.UI i r * f.UI i r) s ≤ f.cms f.UI s := by
    refine le_trans ?_ (le_floorMean _)
    rw [Feed.mean, Feed.mean, winMean_finset]
    exact Finset.single_le_sum (f := fun i => winMean f.L (fun r => f.UI i r * f.UI i r) (s + 1))
      (fun i _ => mean_sq_nonneg f s (f.UI i)) (mem_phases.mpr hi)
  have hI : f.mean (fun r => f.I i r * f.I i r) s ≤ c.hi * c.hi := by
    refine winMean_le (mul_self_nonneg _) fun r => ?_
    rw [← abs_mul_abs_self]
    exact mul_self_le_mul_self (abs_nonneg _) ((h.I i r).abs_le c.hi_pos.le)
  -- by Cauchy–Schwarz
  calc f.W_avg i s ^ 2
      ≤ f.mean (fun r => f.UI i r * f.UI i r) s * f.mean (fun r => f.I i r * f.I i r) s :=
        winMean_mul_sq_le
    _ ≤ f.cms f.UI s * (c.hi * c.hi) :=
        mul_le_mul hUI hI (mean_sq_nonneg f s _) (f.cms_pos _ s).le
    _ = (f.crms f.UI s * c.hi) ^ 2 := by rw [mul_pow, sq, sq, f.crms_mul_self]

theorem abs_Ibr_le (h : Measured v c f) (hL : 1 ≤ f.L) (hi : i.val < f.n) :
    |f.Ibr i s| ≤ 3 * c.hi * f.L := by
  have hCard : (phases f.n).card ≤ 3 := Finset.card_le_univ _
  have hBound : 0 ≤ f.crms f.UI s * c.hi := mul_nonneg (f.crms_pos _ s).le c.hi_pos.le
  refine abs_reactive_le (f.cms_pos _ s) (mul_nonneg zero_le_three c.hi_pos.le) ?_
    (f.abs_le_crms hL hi)
  calc |f.cW_avg s|
      ≤ ∑ i ∈ phases f.n, |f.W_avg i s| := Finset.abs_sum_le_sum_abs _ _
    _ ≤ (phases f.n).card • (f.crms f.UI s * c.hi) :=
        Finset.sum_le_card_nsmul _ _ _ fun i hi => h.abs_W_avg_le (mem_phases.mp hi)
    _ ≤ 3 • (f.crms f.UI s * c.hi) := nsmul_le_nsmul_left hBound hCard
    _ = f.crms f.UI s * (3 * c.hi) := by
        rw [nsmul_eq_mul, Nat.cast_ofNat]
        ring

/-! ### The power factor -/

/-- Beyond one a power factor is the floor of the active power over an apparent
power, which the least samples keep from zero. -/
theorem PF_le (h : Measured v c f) (hL : 1 ≤ f.L) :
    f.P_avg i s / (f.rms (f.V i) s * f.rms (f.I i) s) ≤
      1 + f.L * f.L / (v.lo * c.lo) / 100000 := by
  have hV := f.le_rms (s := s) hL v.lo_pos.le v.lo_le fun r => (h.V i r).le_abs
  have hI := f.le_rms (s := s) hL c.lo_pos.le c.lo_le fun r => (h.I i r).le_abs
  have hA : 0 < f.rms (f.V i) s * f.rms (f.I i) s := mul_pos (f.rms_pos _ s) (f.rms_pos _ s)
  have hLo : 0 < v.lo * c.lo := mul_pos v.lo_pos c.lo_pos
  have hInverse : 1 / (f.rms (f.V i) s * f.rms (f.I i) s) ≤ f.L * f.L / (v.lo * c.lo) := by
    rw [div_le_div_iff₀ hA hLo, one_mul, mul_mul_mul_comm]
    exact mul_le_mul hV hI c.lo_pos.le (mul_nonneg (Nat.cast_nonneg _) (f.rms_pos _ s).le)
  -- either Cauchy–Schwarz bounds the power or it is its floor
  have hP : f.P_avg i s ≤ f.rms (f.V i) s * f.rms (f.I i) s + 1 / 100000 := by
    rw [Feed.P_avg, floorPower_eq_max]
    have hCauchy := (le_abs_self _).trans (f.abs_mean_mul_le (x := f.V i) (y := f.I i) (s := s))
    refine max_le ?_ ?_
    · exact hCauchy.trans (le_add_of_nonneg_right (by norm_num))
    · exact le_add_of_nonneg_left hA.le
  calc f.P_avg i s / (f.rms (f.V i) s * f.rms (f.I i) s)
      ≤ (f.rms (f.V i) s * f.rms (f.I i) s + 1 / 100000) /
          (f.rms (f.V i) s * f.rms (f.I i) s) := div_le_div_of_nonneg_right hP hA.le
    _ = 1 + 1 / (f.rms (f.V i) s * f.rms (f.I i) s) / 100000 := by
        rw [add_div, div_self hA.ne', div_right_comm]
    _ ≤ 1 + f.L * f.L / (v.lo * c.lo) / 100000 := by
        exact add_le_add_right (div_le_div_of_nonneg_right hInverse (by norm_num)) 1

end Measured

end EnergyMeter.Cpt
