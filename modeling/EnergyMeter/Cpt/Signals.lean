import EnergyMeter.Cpt.Loops
import EnergyMeter.Lib.Trapezoid

/-!
# EnergyMeter — the quantities of the conservative power theory

What `CPT.c` is for, stated without its state: every power figure at a time
is a function of the samples up to that time. A mean is a sliding mean over
the last `L` samples, an rms value is the root of a sliding mean of squares
(with `THR_MIN` in place of a mean that is not positive), the reactive
quantities are built on the trapezoidal integral of the voltage minus its
sliding mean, and the currents are projections of the measured current.

`Feed` holds the parameters and the samples. Quantities of one phase take the
phase; those of the collective start with `c`. `Cpt.Refinement` proves that
the code computes exactly these.
-/

namespace EnergyMeter.Cpt

open Lib

/-- A mean, or `THR_MIN` where it is not positive. -/
noncomputable def floorMean (mean : ℝ) : ℝ :=
  threshold useThreshold 0 thrMin mean

theorem floorMean_of_pos {mean : ℝ} (h : 0 < mean) : floorMean mean = mean := by
  simp [floorMean, threshold, useThreshold, not_le.mpr h]

theorem floorMean_of_nonpos {mean : ℝ} (h : mean ≤ 0) : floorMean mean = 1 / 10000 := by
  simp [floorMean, threshold, useThreshold, thrMin, h]

theorem floorMean_pos (mean : ℝ) : 0 < floorMean mean := by
  rcases le_or_gt mean 0 with h | h
  · rw [floorMean_of_nonpos h]
    norm_num
  · rw [floorMean_of_pos h]
    exact h

theorem le_floorMean (mean : ℝ) : mean ≤ floorMean mean := by
  rcases le_or_gt mean 0 with h | h
  · exact h.trans (floorMean_pos mean).le
  · exact (floorMean_of_pos h).ge

/-- The floor of an active power. -/
noncomputable def floorPower (P : ℝ) : ℝ :=
  if P < 1 / 100000 then 1 / 100000 else P

theorem floorPower_eq_max (P : ℝ) : floorPower P = max P (1 / 100000) := by
  unfold floorPower
  split
  · rename_i h
    exact (max_eq_right h.le).symm
  · rename_i h
    exact (max_eq_left (not_lt.mp h)).symm

theorem floorPower_pos (P : ℝ) : 0 < floorPower P := by
  rw [floorPower_eq_max]
  exact lt_max_of_lt_right (by norm_num)

/-- The parameters of the theory and the samples it is fed. Sample `s`
arrives with update number `s + 1`. -/
structure Feed where
  L : ℕ
  n : ℕ
  TSH : ℝ
  pac : ℕ → TPAC ℝ

namespace Feed

variable (f : Feed)

/-! ## Means -/

/-- The mean over the window that ends with sample `s`. -/
noncomputable def mean (x : ℕ → ℝ) (s : ℕ) : ℝ :=
  winMean f.L x (s + 1)

/-- The mean square of a signal, with its floor. -/
noncomputable def ms (x : ℕ → ℝ) (s : ℕ) : ℝ :=
  floorMean (f.mean (fun r => x r * x r) s)

noncomputable def rms (x : ℕ → ℝ) (s : ℕ) : ℝ :=
  √(f.ms x s)

/-- The mean square of a signal of all phases, with its floor. -/
noncomputable def cms (x : Fin 3 → ℕ → ℝ) (s : ℕ) : ℝ :=
  floorMean (f.mean (fun r => ∑ i ∈ phases f.n, x i r * x i r) s)

noncomputable def crms (x : Fin 3 → ℕ → ℝ) (s : ℕ) : ℝ :=
  √(f.cms x s)

/-! ## Signals of a phase -/

def V (i : Fin 3) (s : ℕ) : ℝ := (f.pac s).V i

def I (i : Fin 3) (s : ℕ) : ℝ := (f.pac s).I i

noncomputable def Integral (i : Fin 3) : ℕ → ℝ :=
  trapz (f.TSH / 2) (f.V i)

/-- The unbiased integral of the voltage. -/
noncomputable def UI (i : Fin 3) (s : ℕ) : ℝ :=
  f.Integral i s - f.mean (f.Integral i) s

/-- The active power before its floor. -/
noncomputable def P (i : Fin 3) (s : ℕ) : ℝ :=
  f.mean (fun r => f.V i r * f.I i r) s

noncomputable def P_avg (i : Fin 3) (s : ℕ) : ℝ :=
  floorPower (f.P i s)

/-- The reactive energy. -/
noncomputable def W_avg (i : Fin 3) (s : ℕ) : ℝ :=
  f.mean (fun r => f.UI i r * f.I i r) s

/-- The active current. -/
noncomputable def Ia (i : Fin 3) (s : ℕ) : ℝ :=
  f.P_avg i s / f.ms (f.V i) s * f.V i s

/-- The reactive current. -/
noncomputable def Ir (i : Fin 3) (s : ℕ) : ℝ :=
  f.W_avg i s / f.ms (f.UI i) s * f.UI i s

/-- The void current: what is neither active nor reactive. -/
noncomputable def Iv (i : Fin 3) (s : ℕ) : ℝ :=
  f.I i s - f.Ia i s - f.Ir i s

/-! ## Loads

What the samples of a window show of the load, with the floors of the means: a
conductance and a reactivity for each phase, and for the three together. -/

noncomputable def conductance (i : Fin 3) (s : ℕ) : ℝ :=
  max (f.mean (fun r => f.V i r * f.I i r) s) (1 / 100000) / f.ms (f.V i) s

noncomputable def reactivity (i : Fin 3) (s : ℕ) : ℝ :=
  f.mean (fun r => f.UI i r * f.I i r) s / f.ms (f.UI i) s

noncomputable def cConductance (s : ℕ) : ℝ :=
  (∑ i ∈ phases f.n, max (f.mean (fun r => f.V i r * f.I i r) s) (1 / 100000)) / f.cms f.V s

noncomputable def cReactivity (s : ℕ) : ℝ :=
  (∑ i ∈ phases f.n, f.mean (fun r => f.UI i r * f.I i r) s) / f.cms f.UI s

/-! ## Balanced and unbalanced currents -/

noncomputable def cP_avg (s : ℕ) : ℝ := ∑ i ∈ phases f.n, f.P_avg i s

noncomputable def cW_avg (s : ℕ) : ℝ := ∑ i ∈ phases f.n, f.W_avg i s

/-- The balanced active current. -/
noncomputable def Iba (i : Fin 3) (s : ℕ) : ℝ :=
  f.cP_avg s / f.cms f.V s * f.V i s

/-- The balanced reactive current. -/
noncomputable def Ibr (i : Fin 3) (s : ℕ) : ℝ :=
  f.cW_avg s / f.cms f.UI s * f.UI i s

/-- The unbalanced active current. -/
noncomputable def Iua (i : Fin 3) (s : ℕ) : ℝ := f.Ia i s - f.Iba i s

/-- The unbalanced reactive current. -/
noncomputable def Iur (i : Fin 3) (s : ℕ) : ℝ := f.Ir i s - f.Ibr i s

/-! ## Powers and factors

`PowerSet` are the figures that `CPT_PowerDecomposition` and
`CPT_EvaluateFactors` derive in the same way for a phase and for the
collective. -/

end Feed

/-- The powers and the factors of a phase or of the collective. -/
structure PowerSet where
  A : ℝ
  Q : ℝ
  Na : ℝ
  Nr : ℝ
  N : ℝ
  V : ℝ
  PF : ℝ
  NF : ℝ
  QF : ℝ
  VF : ℝ

/-- The powers and factors that follow from an active power and from the rms
values of a voltage and of the currents; the void factor is passed through
`limit`. -/
noncomputable def powerSet (limit : ℝ → ℝ) (P V I Ibr Iua Iur Iv : ℝ) : PowerSet :=
  let N := √(V * Iua * (V * Iua) + V * Iur * (V * Iur))
  { A := V * I
    Q := V * Ibr
    Na := V * Iua
    Nr := V * Iur
    N := N
    V := V * Iv
    PF := P / (V * I)
    NF := N / √(P * P + V * Ibr * (V * Ibr) + N * N)
    QF := V * Ibr / √(P * P + V * Ibr * (V * Ibr))
    VF := limit (V * Iv / (V * I)) }

/-- The limit on the void factor of a phase. -/
noncomputable def limitOne (x : ℝ) : ℝ := if 1 < x then 1 else x

/-- Every figure a phase publishes. -/
structure PhaseReading where
  V_rms : ℝ
  I_rms : ℝ
  UnbiasedIntegral : ℝ
  UnbiasedIntegral_rms : ℝ
  P_avg : ℝ
  W_avg : ℝ
  Ia_ActiveCurrent : ℝ
  Ir_ReactiveCurrent : ℝ
  Iv_VoidCurrent : ℝ
  Iba_BalancedActiveCurrent : ℝ
  Ibr_BalancedReactiveCurrent : ℝ
  Iua_UnbalancedActiveCurrent : ℝ
  Iur_UnbalancedReactiveCurrent : ℝ
  Iba_rms : ℝ
  Ibr_rms : ℝ
  Iv_rms : ℝ
  Iua_rms : ℝ
  Iur_rms : ℝ
  power : PowerSet

/-- Every figure the collective publishes. -/
structure CptReading where
  V_rms : ℝ
  I_rms : ℝ
  UI_rms : ℝ
  P_avg : ℝ
  W_avg : ℝ
  Iba_rms : ℝ
  Ibr_rms : ℝ
  Iv_rms : ℝ
  Iua_rms : ℝ
  Iur_rms : ℝ
  power : PowerSet

namespace Feed

variable (f : Feed)

/-- The figures of a phase at sample `s`. The code keeps the squares of the
unbalanced currents where their rms values are meant. -/
noncomputable def phaseReading (i : Fin 3) (s : ℕ) : PhaseReading where
  V_rms := f.rms (f.V i) s
  I_rms := f.rms (f.I i) s
  UnbiasedIntegral := f.UI i s
  UnbiasedIntegral_rms := f.rms (f.UI i) s
  P_avg := f.P_avg i s
  W_avg := f.W_avg i s
  Ia_ActiveCurrent := f.Ia i s
  Ir_ReactiveCurrent := f.Ir i s
  Iv_VoidCurrent := f.Iv i s
  Iba_BalancedActiveCurrent := f.Iba i s
  Ibr_BalancedReactiveCurrent := f.Ibr i s
  Iua_UnbalancedActiveCurrent := f.Iua i s
  Iur_UnbalancedReactiveCurrent := f.Iur i s
  Iba_rms := f.rms (f.Iba i) s
  Ibr_rms := f.rms (f.Ibr i) s
  Iv_rms := f.rms (f.Iv i) s
  Iua_rms := f.Iua i s * f.Iua i s
  Iur_rms := f.Iur i s * f.Iur i s
  power := powerSet limitOne (f.P_avg i s) (f.rms (f.V i) s) (f.rms (f.I i) s)
    (f.rms (f.Ibr i) s) (f.Iua i s * f.Iua i s) (f.Iur i s * f.Iur i s) (f.rms (f.Iv i) s)

/-- The figures of the collective at sample `s`. -/
noncomputable def cptReading (s : ℕ) : CptReading where
  V_rms := f.crms f.V s
  I_rms := f.crms f.I s
  UI_rms := f.crms f.UI s
  P_avg := f.cP_avg s
  W_avg := f.cW_avg s
  Iba_rms := f.crms f.Iba s
  Ibr_rms := f.crms f.Ibr s
  Iv_rms := f.crms f.Iv s
  Iua_rms := f.crms f.Iua s
  Iur_rms := f.crms f.Iur s
  power := powerSet id (f.cP_avg s) (f.crms f.V s) (f.crms f.I s) (f.crms f.Ibr s)
    (f.crms f.Iua s) (f.crms f.Iur s) (f.crms f.Iv s)

/-! ## Currents as loads -/

theorem Ia_eq_conductance (i : Fin 3) (s : ℕ) : f.Ia i s = f.conductance i s * f.V i s := by
  rw [Ia, P_avg, floorPower_eq_max, P, conductance]

theorem Ir_eq_reactivity (i : Fin 3) (s : ℕ) : f.Ir i s = f.reactivity i s * f.UI i s := rfl

theorem Iba_eq_cConductance (i : Fin 3) (s : ℕ) : f.Iba i s = f.cConductance s * f.V i s := by
  simp only [Iba, cP_avg, P_avg, floorPower_eq_max, P, cConductance]

theorem Ibr_eq_cReactivity (i : Fin 3) (s : ℕ) : f.Ibr i s = f.cReactivity s * f.UI i s := rfl

/-! ## Positivity -/

theorem ms_pos (x : ℕ → ℝ) (s : ℕ) : 0 < f.ms x s := floorMean_pos _

theorem cms_pos (x : Fin 3 → ℕ → ℝ) (s : ℕ) : 0 < f.cms x s := floorMean_pos _

theorem rms_pos (x : ℕ → ℝ) (s : ℕ) : 0 < f.rms x s := Real.sqrt_pos.mpr (f.ms_pos x s)

theorem crms_pos (x : Fin 3 → ℕ → ℝ) (s : ℕ) : 0 < f.crms x s :=
  Real.sqrt_pos.mpr (f.cms_pos x s)

theorem rms_mul_self (x : ℕ → ℝ) (s : ℕ) : f.rms x s * f.rms x s = f.ms x s :=
  Real.mul_self_sqrt (f.ms_pos x s).le

theorem crms_mul_self (x : Fin 3 → ℕ → ℝ) (s : ℕ) : f.crms x s * f.crms x s = f.cms x s :=
  Real.mul_self_sqrt (f.cms_pos x s).le

theorem P_avg_pos (i : Fin 3) (s : ℕ) : 0 < f.P_avg i s := floorPower_pos _

theorem cP_avg_nonneg (s : ℕ) : 0 ≤ f.cP_avg s :=
  Finset.sum_nonneg fun i _ => (f.P_avg_pos i s).le

end Feed

end EnergyMeter.Cpt
