import EnergyMeter.Cpt.Conservation
import EnergyMeter.Cpt.Factors

/-!
# EnergyMeter — the unbiased integral and linear loads

The voltage is integrated from the start and never forgets an offset. What the
power theory uses is the integral less its own sliding mean: it is bounded by the
voltage and the length of the window, also while the window fills.

On a periodic voltage without an offset it settles to a periodic signal that is
orthogonal to the voltage. A load whose current is a multiple of the voltage and
a multiple of that signal is then told apart into its two parts.

* `LinearLoad` — such a load, with enough active power to be above its floor.
* `Identified` — what a phase publishes of it.

Main results:

* `cptRun_unbiased` — the bound, for every run of updates.
* `cptRun_linearLoad` — the two parts of a linear load, after two windows.
-/

namespace EnergyMeter.Cpt

open Lib

/-! ## The bound -/

/-- **The unbiased integral does not drift.** -/
theorem abs_UI_le (f : Feed) {i : Fin 3} {M : ℝ} {s : ℕ} (hL : 1 ≤ f.L) (hTSH : 0 ≤ f.TSH)
    (hM : 0 ≤ M) (hV : ∀ r ≤ s, |f.V i r| ≤ M) :
    |f.UI i s| ≤ M * (f.L - 1) * f.TSH / 2 := by
  have hBound := abs_trapz_sub_winMean_le (div_nonneg hTSH zero_le_two) hM hL hV
  calc |f.UI i s|
      ≤ f.TSH / 2 * M * (f.L - 1) := hBound
    _ = M * (f.L - 1) * f.TSH / 2 := by ring

section Runs

variable {freq samples : ℕ} {init cpt : TCPT ℝ} {alloc : Allocator ℝ}

/-- **The unbiased integral over whole runs.** After every update the unbiased
integral of a phase is within `M (samples - 1) / (2 freq)` of zero if the voltages
so far are within `M`, whatever their offset; the integral itself is not: on the
constant voltage `M` it grows with every update. -/
theorem cptRun_unbiased (hSamples : 1 ≤ samples)
    (hConfig : cptConfig (m := Except Fault) init alloc freq samples 3 = .ok (some cpt))
    (pac : ℕ → TPAC ℝ) {M : ℝ} (hM : 0 ≤ M) :
    ∃ st : ℕ → TCPT ℝ, ∀ t, cptRun (m := Except Fault) cpt pac (t + 1) = .ok (st t) ∧
      ∀ i, ((∀ r ≤ t, |(pac r).V i| ≤ M) →
          |((st t).Phase i).UnbiasedIntegral| ≤ M * (samples - 1) / (2 * freq)) ∧
        ((∀ r ≤ t, (pac r).V i = M) →
          ((st t).Phase i).Integral = M * (2 * t + 1) / (2 * freq)) := by
  obtain ⟨hFreq, hInit⟩ := cptConfig_tracks hConfig pac
  let f : Feed := ⟨samples, 3, 1 / freq, pac⟩
  choose st hRun hTracks hFigures using fun t => cptRun_figures (f := f) hSamples hInit t
  have hFreq0 : (freq : ℝ) ≠ 0 := Nat.cast_ne_zero.mpr (by omega)
  refine ⟨st, fun t => ⟨(hRun t).checked, fun i => ⟨fun hV => ?_, fun hV => ?_⟩⟩⟩
  -- the integral less its mean has the bound, the integral itself has not
  · have hUI : ((st t).Phase i).UnbiasedIntegral = f.UI i t :=
      ((hFigures t).2 i i.isLt).1.UnbiasedIntegral
    rw [hUI]
    calc |f.UI i t|
        ≤ M * (samples - 1) * (1 / freq) / 2 :=
          abs_UI_le f hSamples (one_div_nonneg.mpr (Nat.cast_nonneg freq)) hM hV
      _ = M * (samples - 1) / (2 * freq) := by field_simp
  · have hIntegral : ((st t).Phase i).Integral = f.Integral i t :=
      ((hTracks t).phase i i.isLt).Integral
    have hConst : f.Integral i t = 1 / freq / 2 * M * (2 * t + 1) := trapz_of_const hV
    rw [hIntegral, hConst]
    field_simp

/-- A voltage of constant size. -/
theorem cptRun_unbiased_five :
    ∃ cpt, cptConfig (m := Except Fault) default .plenty 2 4 3 = .ok (some cpt) ∧
      ∃ st : ℕ → TCPT ℝ,
        ∀ t, cptRun (m := Except Fault) cpt (fun _ => ⟨fun _ => 5, fun _ => 1⟩) (t + 1) =
            .ok (st t) ∧
          ∀ i, |((st t).Phase i).UnbiasedIntegral| ≤ 5 * ((4 : ℕ) - 1) / (2 * (2 : ℕ)) ∧
            ((st t).Phase i).Integral = 5 * (2 * t + 1) / (2 * (2 : ℕ)) := by
  obtain ⟨cpt, hConfig, -⟩ := cptConfig_spec (show 1 ≤ 2 by decide) 4 (by decide)
    (Allocator.plenty_suffices 3) default
  obtain ⟨st, hRun⟩ := cptRun_unbiased (by decide) hConfig.checked
    (fun _ => ⟨fun _ => 5, fun _ => 1⟩) (show (0 : ℝ) ≤ 5 by norm_num)
  refine ⟨cpt, hConfig.checked, st, fun t => ⟨(hRun t).1, fun i => ⟨?_, ?_⟩⟩⟩
  · exact ((hRun t).2 i).1 fun _ _ => by norm_num
  · exact ((hRun t).2 i).2 fun _ _ => rfl

end Runs

/-! ## A linear load -/

/-- The current of phase `i` is `g` times its voltage and `b` times its settled
unbiased integral; the voltage has period `L` and no offset, and the active power
is not below its floor. -/
structure LinearLoad (f : Feed) (i : Fin 3) (g b : ℝ) : Prop where
  period : ∀ r, f.V i (r + f.L) = f.V i r
  offset : ∑ r ∈ Finset.range f.L, f.V i r = 0
  I : ∀ r, f.I i r = g * f.V i r + b * f.steadyUI i r
  power : 1 / 100000 ≤ g * f.periodMean (fun r => f.V i r * f.V i r)

/-- What a phase publishes of a linear load at sample `s`. -/
structure Identified (f : Feed) (i : Fin 3) (g b : ℝ) (s : ℕ) (p : TPhase ℝ) : Prop where
  UnbiasedIntegral : p.UnbiasedIntegral = f.steadyUI i s
  P_avg : p.P_avg = g * f.periodMean fun r => f.V i r * f.V i r
  W_avg : p.W_avg = b * f.periodMean fun r => f.steadyUI i r * f.steadyUI i r
  Ia_ActiveCurrent : p.Ia_ActiveCurrent = g * f.V i s
  Ir_ReactiveCurrent : p.Ir_ReactiveCurrent = b * f.steadyUI i s
  Iv_VoidCurrent : p.Iv_VoidCurrent = 0
  resistive : b = 0 → p.W_avg = 0 ∧ p.Ir_ReactiveCurrent = 0

/-- Over the window of a product with a periodic signal the unbiased integral is
settled one window later than itself. -/
theorem PeriodicVoltage.mean_UI_mul {f : Feed} {i : Fin 3} {s : ℕ} (hV : PeriodicVoltage f i)
    (hs : 2 * f.L ≤ s + 2) {x : ℕ → ℝ} (hx : ∀ r, x (r + f.L) = x r) :
    f.mean (fun r => f.UI i r * x r) s = f.periodMean (fun r => f.steadyUI i r * x r) := by
  have hL := hV.L_pos
  have hWindow : f.mean (fun r => f.UI i r * x r) s = f.mean (fun r => f.steadyUI i r * x r) s :=
    f.mean_congr fun r hlo _ => by rw [hV.UI_eq (by omega)]
  rw [hWindow, f.mean_of_periodic (fun r => by rw [hV.steadyUI, hx]) (by omega)]

theorem PeriodicVoltage.mean_UI_sq {f : Feed} {i : Fin 3} {s : ℕ} (hV : PeriodicVoltage f i)
    (hs : 2 * f.L ≤ s + 2) : f.mean (fun r => f.UI i r * f.UI i r) s =
      f.periodMean (fun r => f.steadyUI i r * f.steadyUI i r) := by
  have hL := hV.L_pos
  rw [← hV.mean_UI_mul hs hV.steadyUI]
  exact f.mean_congr fun r hlo _ => by rw [hV.UI_eq (show f.L ≤ r + 1 by omega)]

namespace LinearLoad

variable {f : Feed} {i : Fin 3} {g b : ℝ} {s : ℕ}

/-- The mean over a period of a product with the current. -/
theorem periodMean_mul_I (h : LinearLoad f i g b) (x : ℕ → ℝ) :
    f.periodMean (fun r => x r * f.I i r) =
      g * f.periodMean (fun r => x r * f.V i r) +
        b * f.periodMean (fun r => x r * f.steadyUI i r) := by
  have hSum : ∑ r ∈ Finset.range f.L, x r * f.I i r =
      g * (∑ r ∈ Finset.range f.L, x r * f.V i r) +
        b * ∑ r ∈ Finset.range f.L, x r * f.steadyUI i r := by
    rw [Finset.mul_sum, Finset.mul_sum, ← Finset.sum_add_distrib]
    refine Finset.sum_congr rfl fun r _ => ?_
    rw [h.I]
    ring
  rw [Feed.periodMean, Feed.periodMean, Feed.periodMean, hSum]
  ring

variable (h : LinearLoad f i g b) (hV : PeriodicVoltage f i)
include h hV

theorem I_periodic (r : ℕ) : f.I i (r + f.L) = f.I i r := by
  rw [h.I, h.I, hV.V, hV.steadyUI]

/-! ### The active part -/

theorem P_eq (hs : f.L ≤ s + 1) : f.P i s = g * f.periodMean (fun r => f.V i r * f.V i r) := by
  have hPeriod : ∀ r, f.V i (r + f.L) * f.I i (r + f.L) = f.V i r * f.I i r := fun r => by
    rw [hV.V, h.I_periodic hV]
  rw [Feed.P, f.mean_of_periodic hPeriod hs, h.periodMean_mul_I, hV.periodMean_mul, mul_zero,
    add_zero]

theorem P_avg_eq (hs : f.L ≤ s + 1) :
    f.P_avg i s = g * f.periodMean (fun r => f.V i r * f.V i r) := by
  rw [Feed.P_avg, h.P_eq hV hs, floorPower_eq_max, max_eq_left h.power]

theorem Ia_eq (hs : f.L ≤ s + 1) : f.Ia i s = g * f.V i s := by
  have hPeriod : ∀ r, f.V i (r + f.L) * f.V i (r + f.L) = f.V i r * f.V i r := fun r => by
    rw [hV.V]
  have hMean := f.mean_of_periodic (x := fun r => f.V i r * f.V i r) hPeriod hs
  have hNonneg : 0 ≤ f.mean (fun r => f.V i r * f.V i r) s :=
    winMean_nonneg fun _ => mul_self_nonneg _
  -- power above its floor needs a voltage
  have hPos : 0 < f.periodMean (fun r => f.V i r * f.V i r) := by
    rw [← hMean]
    refine lt_of_le_of_ne hNonneg fun hZero => ?_
    have hPower := h.power
    rw [← hMean, ← hZero, mul_zero] at hPower
    norm_num at hPower
  rw [Feed.Ia, h.P_avg_eq hV hs, Feed.ms, hMean, floorMean_of_pos hPos,
    mul_div_cancel_right₀ _ hPos.ne']

/-! ### The reactive part -/

theorem W_avg_eq (hs : 2 * f.L ≤ s + 2) :
    f.W_avg i s = b * f.periodMean (fun r => f.steadyUI i r * f.steadyUI i r) := by
  have hOrthogonal : f.periodMean (fun r => f.steadyUI i r * f.V i r) = 0 := by
    rw [← hV.periodMean_mul]
    exact congrArg f.periodMean (funext fun r => mul_comm _ _)
  rw [Feed.W_avg, hV.mean_UI_mul hs (h.I_periodic hV), h.periodMean_mul_I, hOrthogonal, mul_zero,
    zero_add]

theorem Ir_eq (hs : 2 * f.L ≤ s + 2) : f.Ir i s = b * f.steadyUI i s := by
  have hL := hV.L_pos
  have hMean : f.mean (fun r => f.UI i r * f.UI i r) s =
      f.periodMean (fun r => f.steadyUI i r * f.steadyUI i r) := hV.mean_UI_sq hs
  rw [Feed.Ir, h.W_avg_eq hV hs, Feed.ms, hMean, ← hV.UI_eq (show f.L ≤ s + 1 by omega)]
  rcases eq_or_lt_of_le (mean_sq_nonneg f s (f.UI i)) with hZero | hPos
  -- without an unbiased integral the floor divides, and what it divides is zero
  · have hUI : f.UI i s = 0 := by
      have hNewest : f.UI i s * f.UI i s ≤ f.L * f.mean (fun r => f.UI i r * f.UI i r) s :=
        le_mul_winMean (x := fun r => f.UI i r * f.UI i r) (fun _ => mul_self_nonneg _)
          (by omega) (Nat.lt_succ_self s)
      rw [← hZero, mul_zero] at hNewest
      exact mul_self_eq_zero.mp (le_antisymm hNewest (mul_self_nonneg _))
    rw [hUI, mul_zero, mul_zero]
  · rw [hMean] at hPos
    rw [floorMean_of_pos hPos, mul_div_cancel_right₀ _ hPos.ne']

theorem identified (hs : 2 * f.L ≤ s + 2) {p : TPhase ℝ} (hp : UnbalancedFigures f i s p) :
    Identified f i g b s p := by
  have hL := hV.L_pos
  have hFull : f.L ≤ s + 1 := by omega
  have hUI : f.UI i s = f.steadyUI i s := hV.UI_eq hFull
  have hIv : f.Iv i s = 0 := by
    rw [Feed.Iv, h.I, h.Ia_eq hV hFull, h.Ir_eq hV hs]
    ring
  refine ⟨hp.UnbiasedIntegral.trans hUI, hp.P_avg.trans (h.P_avg_eq hV hFull),
    hp.W_avg.trans (h.W_avg_eq hV hs), hp.Ia_ActiveCurrent.trans (h.Ia_eq hV hFull),
    hp.Ir_ReactiveCurrent.trans (h.Ir_eq hV hs), hp.Iv_VoidCurrent.trans hIv, ?_⟩
  intro hb
  rw [hp.W_avg, h.W_avg_eq hV hs, hp.Ir_ReactiveCurrent, h.Ir_eq hV hs, hb, zero_mul, zero_mul]
  exact ⟨rfl, rfl⟩

end LinearLoad

section Runs

variable {freq samples : ℕ} {init cpt : TCPT ℝ} {alloc : Allocator ℝ}

/-- **Identification of a linear load.** After every number of updates from
`2 samples - 1` on, a phase with a linear load publishes its two constants times the
mean squares and the samples they belong to, and no void current. -/
theorem cptRun_linearLoad (hSamples : 1 ≤ samples)
    (hConfig : cptConfig (m := Except Fault) init alloc freq samples 3 = .ok (some cpt))
    (pac : ℕ → TPAC ℝ) (i : Fin 3) {g b : ℝ}
    (hLoad : LinearLoad ⟨samples, 3, 1 / freq, pac⟩ i g b) (t : ℕ) (ht : 2 * samples - 1 ≤ t) :
    ∃ me, cptRun (m := Except Fault) cpt pac t = .ok me ∧
      Identified ⟨samples, 3, 1 / freq, pac⟩ i g b (t - 1) (me.Phase i) := by
  obtain ⟨hFreq, hInit⟩ := cptConfig_tracks hConfig pac
  obtain ⟨s, rfl⟩ : ∃ s, t = s + 1 := ⟨t - 1, by omega⟩
  let f : Feed := ⟨samples, 3, 1 / freq, pac⟩
  -- the load says what the integral needs of the voltage
  have hV : PeriodicVoltage f i :=
    ⟨hSamples, one_div_ne_zero (Nat.cast_ne_zero.mpr (by omega)), hLoad.period, hLoad.offset⟩
  obtain ⟨me, hRun, -, -, hPhase⟩ := cptRun_figures (f := f) hSamples hInit s
  have hs : 2 * f.L ≤ s + 2 := by
    show 2 * samples ≤ s + 2
    omega
  exact ⟨me, hRun.checked, hLoad.identified hV hs (hPhase i i.isLt).1⟩

/-- A load of conductance 1 and reactivity 2 on a voltage of period three. -/
noncomputable def loadPac (r : ℕ) : TPAC ℝ :=
  ⟨fun i => rampV i r, fun i => 1 * rampV i r + 2 * ramp.steadyUI i r⟩

theorem loadPac_power (i : Fin 3) : (⟨3, 3, 1 / (1 : ℕ), loadPac⟩ : Feed).periodMean
    (fun r => (⟨3, 3, 1 / (1 : ℕ), loadPac⟩ : Feed).V i r *
      (⟨3, 3, 1 / (1 : ℕ), loadPac⟩ : Feed).V i r) = 2 / 3 := by
  norm_num [Feed.periodMean, Feed.V, loadPac, Finset.sum_range_succ, rampV]

theorem loadPac_linear (i : Fin 3) : LinearLoad ⟨3, 3, 1 / (1 : ℕ), loadPac⟩ i 1 2 where
  period r := by
    show rampV i (r + 3) = rampV i r
    simp [rampV]
  offset := by norm_num [Feed.V, loadPac, Finset.sum_range_succ, rampV]
  I r := rfl
  power := by
    rw [loadPac_power]
    norm_num

/-- Five updates identify the load. -/
theorem cptRun_linearLoad_five :
    ∃ cpt, cptConfig (m := Except Fault) default .plenty 1 3 3 = .ok (some cpt) ∧
      ∃ me, cptRun (m := Except Fault) cpt loadPac 5 = .ok me ∧
        Identified ⟨3, 3, 1 / (1 : ℕ), loadPac⟩ 0 1 2 4 (me.Phase 0) ∧
        (me.Phase 0).P_avg = 2 / 3 := by
  obtain ⟨cpt, hConfig, -⟩ :=
    cptConfig_spec le_rfl 3 (by decide) (Allocator.plenty_suffices 3) default
  obtain ⟨me, hRun, hLoad⟩ := cptRun_linearLoad (by decide) hConfig.checked loadPac 0
    (loadPac_linear 0) 5 (by decide)
  refine ⟨cpt, hConfig.checked, me, hRun, hLoad, ?_⟩
  rw [hLoad.P_avg, loadPac_power, one_mul]

end Runs

end EnergyMeter.Cpt
