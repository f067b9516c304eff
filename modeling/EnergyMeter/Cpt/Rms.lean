import EnergyMeter.Cpt.Config
import Mathlib.Tactic.FinCases

/-!
# EnergyMeter — the rms fields of a phase

Eight fields of a phase are named after an rms value. Six of them are the root
of a filtered mean of squares. The other two, of the unbalanced currents, keep
the square of the newest sample: their loop sums the squares for the collective
and no filter of the phase follows them.

* `FieldsAreRms` — what the names promise.
* `ownSquare` — the one sequence of squares that are their own rms values.
* `RmsCondition` — loads so unbalanced that the squares are this sequence.

Main results:

* `cptRun_rms_iff` — the fields keep the promise, up to any update, exactly where
  the samples up to there meet the condition.
* `not_rmsCondition_one`, `not_rmsCondition_balanced` — windows and loads that never
  do.
* `cptRun_rms_square` — a field that does not.
-/

namespace EnergyMeter.Cpt

open Lib

/-- The root of the mean over the last `N` samples of the square of `x`, or the
root of `THR_MIN` where the mean is not positive. -/
noncomputable def rmsOf (N : ℕ) (x : ℕ → ℝ) (t : ℕ) : ℝ :=
  let mean := winMean N (fun s => x s * x s) (t + 1)
  if 0 < mean then √mean else 1 / 100

theorem Feed.rms_eq_rmsOf (f : Feed) (x : ℕ → ℝ) (t : ℕ) : f.rms x t = rmsOf f.L x t := by
  rw [Feed.rms, Feed.ms, Feed.mean, rmsOf]
  split
  · rename_i h
    rw [floorMean_of_pos h]
  · rename_i h
    -- `THR_MIN` is the square of 0.01
    rw [floorMean_of_nonpos (not_lt.mp h),
      show (1 / 10000 : ℝ) = 1 / 100 * (1 / 100) by norm_num, Real.sqrt_mul_self (by norm_num)]

theorem rmsOf_congr {N t : ℕ} {x y : ℕ → ℝ} (h : ∀ s, x s = y s) : rmsOf N x t = rmsOf N y t := by
  rw [funext h]

/-- Each field of phase `i` in `st t` that is named after an rms value is the rms
value of its quantity over the states `st s` that led there. -/
structure FieldsAreRms (N : ℕ) (pac : ℕ → TPAC ℝ) (st : ℕ → TCPT ℝ) (i : Fin 3) (t : ℕ) :
    Prop where
  V_rms : ((st t).Phase i).V_rms = rmsOf N (fun s => (pac s).V i) t
  I_rms : ((st t).Phase i).I_rms = rmsOf N (fun s => (pac s).I i) t
  UnbiasedIntegral_rms : ((st t).Phase i).UnbiasedIntegral_rms =
    rmsOf N (fun s => ((st s).Phase i).UnbiasedIntegral) t
  Iv_rms : ((st t).Phase i).Iv_rms = rmsOf N (fun s => ((st s).Phase i).Iv_VoidCurrent) t
  Iba_rms : ((st t).Phase i).Iba_rms =
    rmsOf N (fun s => ((st s).Phase i).Iba_BalancedActiveCurrent) t
  Ibr_rms : ((st t).Phase i).Ibr_rms =
    rmsOf N (fun s => ((st s).Phase i).Ibr_BalancedReactiveCurrent) t
  Iua_rms : ((st t).Phase i).Iua_rms =
    rmsOf N (fun s => ((st s).Phase i).Iua_UnbalancedActiveCurrent) t
  Iur_rms : ((st t).Phase i).Iur_rms =
    rmsOf N (fun s => ((st s).Phase i).Iur_UnbalancedReactiveCurrent) t

/-! ## Squares that are their own rms values -/

/-- The square of `x` at `t` solves the equation that makes it the rms value over
the window: it depends on the `N - 1` squares before it. -/
def OwnRms (N : ℕ) (x : ℕ → ℝ) (t : ℕ) : Prop :=
  2 * N * (x t * x t) = 1 + √(1 + 4 * N * winSum (N - 1) (fun s => x s * x s) t)

/-- The root of `(S + y) / N` is `y` for one value of `y` only. -/
theorem eq_sqrt_div_iff {N S y : ℝ} (hN : 0 < N) (hS : 0 ≤ S) (hy : 0 ≤ y) :
    y = (if 0 < (S + y) / N then √((S + y) / N) else 1 / 100) ↔
      2 * N * y = 1 + √(1 + 4 * N * S) := by
  have hDisc : 0 ≤ 1 + 4 * N * S := by positivity
  constructor
  · intro h
    split at h
    · rename_i hPos
      -- the quadratic equation, and which of its roots `y` is
      have hSq : N * (y * y) = S + y := by
        have hMul : y * y = (S + y) / N := by
          conv_lhs => rw [h]
          exact Real.mul_self_sqrt hPos.le
        rw [hMul, mul_div_cancel₀ _ hN.ne']
      have hyPos : 0 < y := by
        rw [h]
        exact Real.sqrt_pos.mpr hPos
      have hRoot : 1 ≤ N * y := by
        by_contra hLt
        have hLt : N * y * y < 1 * y := mul_lt_mul_of_pos_right (not_le.mp hLt) hyPos
        linarith
      have hSqrt : √(1 + 4 * N * S) = 2 * N * y - 1 := by
        rw [Real.sqrt_eq_iff_mul_self_eq hDisc (by linarith)]
        linear_combination -4 * N * hSq
      rw [hSqrt]
      ring
    · rename_i hNot
      -- a mean that is not positive leaves no room for 0.01
      exact absurd (div_pos (by linarith) hN) hNot
  · intro h
    have hRoot := Real.mul_self_sqrt hDisc
    have hyPos : 0 < y := by
      have hProd : 0 < 2 * N * y := by
        rw [h]
        linarith [Real.sqrt_nonneg (1 + 4 * N * S)]
      exact pos_of_mul_pos_right hProd (by positivity)
    have hPos : 0 < (S + y) / N := div_pos (by linarith) hN
    rw [if_pos hPos]
    refine (Real.sqrt_eq_iff_mul_self_eq hPos.le hy).mpr ?_ |>.symm
    rw [div_eq_iff hN.ne']
    have hSqrt : √(1 + 4 * N * S) = 2 * N * y - 1 := by linarith
    rw [hSqrt] at hRoot
    have h4N : 4 * N ≠ 0 := by positivity
    refine mul_left_cancel₀ h4N ?_
    linear_combination -hRoot

theorem square_eq_rmsOf_iff {N : ℕ} (hN : 1 ≤ N) (x : ℕ → ℝ) (t : ℕ) :
    x t * x t = rmsOf N x t ↔ OwnRms N x t := by
  have hS : 0 ≤ winSum (N - 1) (fun s => x s * x s) t :=
    Finset.sum_nonneg fun s _ => mul_self_nonneg (x s)
  have hMean : winMean N (fun s => x s * x s) (t + 1) =
      (winSum (N - 1) (fun s => x s * x s) t + x t * x t) / N := by
    rw [winMean, winSum_succ_last (by omega)]
  rw [rmsOf, hMean, OwnRms]
  exact eq_sqrt_div_iff (Nat.cast_pos.mpr (by omega)) hS (mul_self_nonneg _)

/-- The squares that are their own rms values from the first one on: they depend on
the length of the window only. -/
noncomputable def ownSquare (N : ℕ) (t : ℕ) : ℝ :=
  (1 + √(1 + 4 * N * ∑ s : Fin t, if t - (N - 1) ≤ s.val then ownSquare N s.val else 0)) / (2 * N)
termination_by t
decreasing_by exact s.isLt

theorem ownSquare_eq (N t : ℕ) :
    ownSquare N t = (1 + √(1 + 4 * N * winSum (N - 1) (ownSquare N) t)) / (2 * N) := by
  have hWindow : ∑ s : Fin t, (if t - (N - 1) ≤ s.val then ownSquare N s.val else 0) =
      winSum (N - 1) (ownSquare N) t := by
    rw [Fin.sum_univ_eq_sum_range fun s => if t - (N - 1) ≤ s then ownSquare N s else 0,
      ← Finset.sum_filter, winSum]
    refine Finset.sum_congr (Finset.ext fun s => ?_) fun _ _ => rfl
    rw [Finset.mem_filter, Finset.mem_range, Finset.mem_Ico, and_comm]
  rw [ownSquare, hWindow]

theorem ownSquare_pos {N : ℕ} (hN : 1 ≤ N) (t : ℕ) : 0 < ownSquare N t := by
  have hPos : (0 : ℝ) < 2 * N := mul_pos two_pos (Nat.cast_pos.mpr hN)
  rw [ownSquare_eq]
  exact div_pos (by linarith [Real.sqrt_nonneg (1 + 4 * N * winSum (N - 1) (ownSquare N) t)]) hPos

/-- Squares are their own rms values up to `t` if they are the sequence up to `t`. -/
theorem ownRms_iff {N : ℕ} (hN : 1 ≤ N) (x : ℕ → ℝ) (t : ℕ) :
    (∀ s ≤ t, OwnRms N x s) ↔ ∀ s ≤ t, x s * x s = ownSquare N s := by
  have hPos : (0 : ℝ) < 2 * N := mul_pos two_pos (Nat.cast_pos.mpr hN)
  have hStep : ∀ s, (∀ r < s, x r * x r = ownSquare N r) →
      (OwnRms N x s ↔ x s * x s = ownSquare N s) := fun s hBefore => by
    rw [OwnRms, ownSquare_eq, eq_div_iff hPos.ne', mul_comm (x s * x s),
      winSum_congr fun r _ hr => hBefore r hr]
  constructor
  · intro h s
    induction s using Nat.strong_induction_on with
    | _ s ih =>
      intro hs
      exact (hStep s fun r hr => ih r hr (by omega)).mp (h s hs)
  · intro h s hs
    exact (hStep s fun r hr => h r (by omega)).mpr (h s hs)

/-! ## The condition on the samples -/

/-- What the loads that the windows at sample `s` show on a phase have over those of the three
phases together makes, of the newest voltage and of its unbiased integral, squares that are their
own rms values. -/
structure RmsCondition (f : Feed) (i : Fin 3) (s : ℕ) : Prop where
  active : ((f.conductance i s - f.cConductance s) * f.V i s) ^ 2 = ownSquare f.L s
  reactive : ((f.reactivity i s - f.cReactivity s) * f.UI i s) ^ 2 = ownSquare f.L s

namespace Feed

variable (f : Feed)

theorem Iua_eq_skew (i : Fin 3) (s : ℕ) :
    f.Iua i s = (f.conductance i s - f.cConductance s) * f.V i s := by
  rw [Iua, f.Ia_eq_conductance, f.Iba_eq_cConductance, sub_mul]

theorem Iur_eq_skew (i : Fin 3) (s : ℕ) :
    f.Iur i s = (f.reactivity i s - f.cReactivity s) * f.UI i s := by
  rw [Iur, f.Ir_eq_reactivity, f.Ibr_eq_cReactivity, sub_mul]

end Feed

/-- In a window of one sample the integral has no deviation from its mean. -/
theorem not_rmsCondition_one {f : Feed} (hL : f.L = 1) (i : Fin 3) (s : ℕ) :
    ¬RmsCondition f i s := by
  intro h
  have hUI : f.UI i s = 0 := by
    rw [Feed.UI, Feed.mean, hL, winMean, winSum, Nat.add_sub_cancel, Nat.Ico_succ_singleton,
      Finset.sum_singleton, Nat.cast_one, div_one, sub_self]
  have hZero := h.reactive
  rw [hUI, mul_zero, zero_pow two_ne_zero] at hZero
  exact (ownSquare_pos hL.ge s).ne hZero

/-- A phase that shows the load of all three, or has no voltage, is not skewed. -/
theorem not_rmsCondition_balanced {f : Feed} (hL : 1 ≤ f.L) {i : Fin 3} {s : ℕ}
    (h : f.V i s = 0 ∨ f.conductance i s = f.cConductance s ∨
      f.reactivity i s = f.cReactivity s) : ¬RmsCondition f i s := by
  rintro ⟨hActive, hReactive⟩
  rcases h with hV | hg | hb
  · rw [hV, mul_zero, zero_pow two_ne_zero] at hActive
    exact (ownSquare_pos hL s).ne hActive
  · rw [hg, sub_self, zero_mul, zero_pow two_ne_zero] at hActive
    exact (ownSquare_pos hL s).ne hActive
  · rw [hb, sub_self, zero_mul, zero_pow two_ne_zero] at hReactive
    exact (ownSquare_pos hL s).ne hReactive

/-! ## Runs -/

/-- States that publish the figures of a feed. -/
theorem fieldsAreRms_iff {f : Feed} (hL : 1 ≤ f.L) {st : ℕ → TCPT ℝ} {i : Fin 3}
    (hReading : ∀ s, ((st s).Phase i).reading = f.phaseReading i s) (t : ℕ) :
    FieldsAreRms f.L f.pac st i t ↔ OwnRms f.L (f.Iua i) t ∧ OwnRms f.L (f.Iur i) t := by
  have hUI : ∀ s, ((st s).Phase i).UnbiasedIntegral = f.UI i s := fun s =>
    congrArg PhaseReading.UnbiasedIntegral (hReading s)
  have hIv : ∀ s, ((st s).Phase i).Iv_VoidCurrent = f.Iv i s := fun s =>
    congrArg PhaseReading.Iv_VoidCurrent (hReading s)
  have hIba : ∀ s, ((st s).Phase i).Iba_BalancedActiveCurrent = f.Iba i s := fun s =>
    congrArg PhaseReading.Iba_BalancedActiveCurrent (hReading s)
  have hIbr : ∀ s, ((st s).Phase i).Ibr_BalancedReactiveCurrent = f.Ibr i s := fun s =>
    congrArg PhaseReading.Ibr_BalancedReactiveCurrent (hReading s)
  have hIua : ∀ s, ((st s).Phase i).Iua_UnbalancedActiveCurrent = f.Iua i s := fun s =>
    congrArg PhaseReading.Iua_UnbalancedActiveCurrent (hReading s)
  have hIur : ∀ s, ((st s).Phase i).Iur_UnbalancedReactiveCurrent = f.Iur i s := fun s =>
    congrArg PhaseReading.Iur_UnbalancedReactiveCurrent (hReading s)
  -- what the two fields hold is the square of the newest sample
  have hIuaSq : ((st t).Phase i).Iua_rms = f.Iua i t * f.Iua i t :=
    congrArg PhaseReading.Iua_rms (hReading t)
  have hIurSq : ((st t).Phase i).Iur_rms = f.Iur i t * f.Iur i t :=
    congrArg PhaseReading.Iur_rms (hReading t)
  constructor
  · intro h
    have hActive := h.Iua_rms
    have hReactive := h.Iur_rms
    rw [hIuaSq, rmsOf_congr hIua] at hActive
    rw [hIurSq, rmsOf_congr hIur] at hReactive
    exact ⟨(square_eq_rmsOf_iff hL _ t).mp hActive, (square_eq_rmsOf_iff hL _ t).mp hReactive⟩
  · rintro ⟨hActive, hReactive⟩
    refine ⟨?_, ?_, ?_, ?_, ?_, ?_, ?_, ?_⟩
    · exact (congrArg PhaseReading.V_rms (hReading t)).trans (f.rms_eq_rmsOf _ t)
    · exact (congrArg PhaseReading.I_rms (hReading t)).trans (f.rms_eq_rmsOf _ t)
    · rw [rmsOf_congr hUI, ← f.rms_eq_rmsOf]
      exact congrArg PhaseReading.UnbiasedIntegral_rms (hReading t)
    · rw [rmsOf_congr hIv, ← f.rms_eq_rmsOf]
      exact congrArg PhaseReading.Iv_rms (hReading t)
    · rw [rmsOf_congr hIba, ← f.rms_eq_rmsOf]
      exact congrArg PhaseReading.Iba_rms (hReading t)
    · rw [rmsOf_congr hIbr, ← f.rms_eq_rmsOf]
      exact congrArg PhaseReading.Ibr_rms (hReading t)
    · rw [hIuaSq, rmsOf_congr hIua]
      exact (square_eq_rmsOf_iff hL _ t).mpr hActive
    · rw [hIurSq, rmsOf_congr hIur]
      exact (square_eq_rmsOf_iff hL _ t).mpr hReactive

/-- Up to any update the fields of a phase are what their names promise exactly under the
condition. -/
theorem forall_fieldsAreRms_iff {f : Feed} (hL : 1 ≤ f.L) {st : ℕ → TCPT ℝ} {i : Fin 3}
    (hReading : ∀ s, ((st s).Phase i).reading = f.phaseReading i s) (t : ℕ) :
    (∀ s ≤ t, FieldsAreRms f.L f.pac st i s) ↔ ∀ s ≤ t, RmsCondition f i s := by
  simp only [fieldsAreRms_iff hL hReading, forall_and]
  rw [ownRms_iff hL, ownRms_iff hL]
  constructor
  · rintro ⟨hActive, hReactive⟩ s hs
    refine ⟨?_, ?_⟩
    · rw [← f.Iua_eq_skew, sq, hActive s hs]
    · rw [← f.Iur_eq_skew, sq, hReactive s hs]
  · intro h
    refine ⟨fun s hs => ?_, fun s hs => ?_⟩
    · rw [← (h s hs).active, ← f.Iua_eq_skew, sq]
    · rw [← (h s hs).reactive, ← f.Iur_eq_skew, sq]

/-- **The rms fields over whole runs.** After each of the first updates the eight rms fields of
every phase are the rms values of their quantities if and only if the samples meet the condition
in every phase at each of these updates. -/
theorem cptRun_rms_iff {freq samples : ℕ} (hSamples : 1 ≤ samples)
    {init cpt : TCPT ℝ} {alloc : Allocator ℝ}
    (hConfig : cptConfig (m := Except Fault) init alloc freq samples 3 = .ok (some cpt))
    (pac : ℕ → TPAC ℝ) :
    ∃ st : ℕ → TCPT ℝ, (∀ t, cptRun (m := Except Fault) cpt pac (t + 1) = .ok (st t)) ∧
      ∀ t, (∀ i, ∀ s ≤ t, FieldsAreRms samples pac st i s) ↔
        ∀ i, ∀ s ≤ t, RmsCondition ⟨samples, 3, 1 / freq, pac⟩ i s := by
  obtain ⟨-, hInit⟩ := cptConfig_tracks hConfig pac
  choose st hRun hTracks hCpt hPhase using
    fun t => cptRun_reading hSamples (show 3 ≠ 1 by decide) hInit t
  refine ⟨st, fun t => (hRun t).checked, fun t => forall_congr' fun i => ?_⟩
  exact forall_fieldsAreRms_iff (f := ⟨samples, 3, 1 / freq, pac⟩) hSamples
    (fun s => hPhase s i i.isLt) t

/-- A constant sample with more current on phase A than on the others. -/
noncomputable def skewPac : TPAC ℝ := ⟨fun _ => 1, ![4, 1, 1]⟩

theorem cptRun_rms_iff_skew :
    ∃ cpt, cptConfig (m := Except Fault) default .plenty 1 1 3 = .ok (some cpt) ∧
      ∃ st : ℕ → TCPT ℝ,
        (∀ t, cptRun (m := Except Fault) cpt (fun _ => skewPac) (t + 1) = .ok (st t)) ∧
        ∀ t, (∀ i, ∀ s ≤ t, FieldsAreRms 1 (fun _ => skewPac) st i s) ↔
          ∀ i, ∀ s ≤ t, RmsCondition ⟨1, 3, 1 / (1 : ℕ), fun _ => skewPac⟩ i s := by
  obtain ⟨cpt, hConfig, -⟩ :=
    cptConfig_spec le_rfl 1 (by decide) (Allocator.plenty_suffices 3) default
  exact ⟨cpt, hConfig.checked, cptRun_rms_iff le_rfl hConfig.checked _⟩

/-- **A square where an rms value is meant.** The unbalanced active current of
phase A is 2, its rms value over one sample is 2, and the field holds 4. -/
theorem cptRun_rms_square :
    ∃ cpt, cptConfig (m := Except Fault) default .plenty 1 1 3 = .ok (some cpt) ∧
      ∃ me, cptRun (m := Except Fault) cpt (fun _ => skewPac) 1 = .ok me ∧
        (me.Phase 0).Iua_UnbalancedActiveCurrent = 2 ∧ (me.Phase 0).Iua_rms = 4 ∧
        ¬ FieldsAreRms 1 (fun _ => skewPac) (fun _ => me) 0 0 := by
  obtain ⟨cpt, hConfig, hInit⟩ :=
    cptConfig_spec le_rfl 1 (by decide) (Allocator.plenty_suffices 3) default
  let f : Feed := ⟨1, 3, 1 / (1 : ℕ), fun _ => skewPac⟩
  obtain ⟨me, hRun, -, -, hPhase⟩ :=
    cptRun_reading (f := f) le_rfl (by decide) (hInit fun _ => skewPac) 0
  have hMean : ∀ x : ℕ → ℝ, f.mean x 0 = x 0 := fun x => by
    simp [f, Feed.mean, winMean, winSum]
  have hP : ∀ i, f.P_avg i 0 = ![4, 1, 1] i := fun i => by
    rw [Feed.P_avg, Feed.P, hMean]
    fin_cases i <;> norm_num [f, Feed.V, Feed.I, skewPac, floorPower]
  have hV : f.ms (f.V 0) 0 = 1 := by
    rw [Feed.ms, hMean, floorMean_of_pos] <;> norm_num [f, Feed.V, skewPac]
  have hcP : f.cP_avg 0 = 6 := by
    rw [Feed.cP_avg, phases_three, Fin.sum_univ_three, hP, hP, hP]
    show (4 : ℝ) + 1 + 1 = 6
    norm_num
  have hcV : f.cms f.V 0 = 3 := by
    rw [Feed.cms, hMean, floorMean_of_pos] <;> norm_num [f, Feed.V, skewPac, phases_three]
  -- the phase has a conductance of 4, the collective one of 2
  have hIua : f.Iua 0 0 = 2 := by
    rw [Feed.Iua, Feed.Ia, Feed.Iba, hP, hV, hcP, hcV]
    norm_num [f, Feed.V, skewPac]
  have hCurrent : (me.Phase 0).Iua_UnbalancedActiveCurrent = 2 :=
    (congrArg PhaseReading.Iua_UnbalancedActiveCurrent (hPhase 0 (by decide))).trans hIua
  have hField : (me.Phase 0).Iua_rms = 4 := by
    refine (congrArg PhaseReading.Iua_rms (hPhase 0 (by decide))).trans ?_
    show f.Iua 0 0 * f.Iua 0 0 = 4
    rw [hIua]
    norm_num
  refine ⟨cpt, hConfig.checked, me, hRun.checked, hCurrent, hField, fun h => ?_⟩
  have hRms : (4 : ℝ) = rmsOf 1 (fun _ => 2) 0 := by
    rw [← hField, h.Iua_rms, hCurrent]
  have hSqrt : √((2 : ℝ) * 2) = 2 := Real.sqrt_mul_self (by norm_num)
  rw [rmsOf, show winMean 1 (fun _ => (2 : ℝ) * 2) (0 + 1) = 2 * 2 by
    simp [winMean, winSum], if_pos (by norm_num), hSqrt] at hRms
  norm_num at hRms

end EnergyMeter.Cpt
