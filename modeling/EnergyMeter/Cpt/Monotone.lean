import EnergyMeter.Cpt.Rms

/-!
# EnergyMeter — are rms readings monotone?

A louder signal should not read lower than a quieter one. The mean squares are
ordered as the signals are, and so are their roots. The threshold of the filters
breaks the order: it puts `THR_MIN` in place of a mean that is not positive, and
leaves a positive mean below `THR_MIN` as it is, unlike the floor of the active
power, which lifts everything below itself.

* `ReadsInOrder` — two windows whose readings keep the order of the signals.

Main results:

* `cptRun_rms_le_iff` — two runs, after every update, for currents and voltages.
* `cptRun_silent_louder` — silence that reads higher than a signal.
-/

namespace EnergyMeter.Cpt

open Lib

/-- The mean over the last `N` samples of the square of `x`. -/
noncomputable def meanSq (N : ℕ) (x : ℕ → ℝ) (t : ℕ) : ℝ :=
  winMean N (fun s => x s * x s) (t + 1)

theorem meanSq_nonneg (N : ℕ) (x : ℕ → ℝ) (t : ℕ) : 0 ≤ meanSq N x t :=
  winMean_nonneg fun _ => mul_self_nonneg _

/-- The first window is not silent, or both are, or the mean square of the second
is at least the floor. -/
def ReadsInOrder (N : ℕ) (x y : ℕ → ℝ) (t : ℕ) : Prop :=
  0 < meanSq N x t ∨ meanSq N y t = 0 ∨ thrMin ≤ meanSq N y t

theorem meanSq_le {N t : ℕ} {x y : ℕ → ℝ} (h : ∀ r ≤ t, |x r| ≤ |y r|) :
    meanSq N x t ≤ meanSq N y t := by
  refine div_le_div_of_nonneg_right (Finset.sum_le_sum fun r hr => ?_) (Nat.cast_nonneg N)
  have hrt := (Finset.mem_Ico.mp hr).2
  rw [← abs_mul_abs_self (x r), ← abs_mul_abs_self (y r)]
  exact mul_self_le_mul_self (abs_nonneg _) (h r (by omega))

theorem rmsOf_of_pos {N t : ℕ} {x : ℕ → ℝ} (h : 0 < meanSq N x t) : rmsOf N x t = √(meanSq N x t) :=
  if_pos h

theorem rmsOf_of_silent {N t : ℕ} {x : ℕ → ℝ} (h : meanSq N x t = 0) : rmsOf N x t = 1 / 100 :=
  if_neg (not_lt.mpr h.le)

/-- **Two windows**, one of them at least as loud as the other in every sample. -/
theorem rmsOf_le_iff {N t : ℕ} {x y : ℕ → ℝ} (h : ∀ r ≤ t, |x r| ≤ |y r|) :
    rmsOf N x t ≤ rmsOf N y t ↔ ReadsInOrder N x y t := by
  have hLe : meanSq N x t ≤ meanSq N y t := meanSq_le h
  unfold ReadsInOrder
  rcases eq_or_lt_of_le (meanSq_nonneg N x t) with hx | hx
  · rw [rmsOf_of_silent hx.symm]
    rcases eq_or_lt_of_le (meanSq_nonneg N y t) with hy | hy
    · rw [rmsOf_of_silent hy.symm]
      exact ⟨fun _ => .inr (.inl hy.symm), fun _ => le_rfl⟩
    -- the floor against a signal: the only case in which the order can be lost
    · rw [rmsOf_of_pos hy, Real.le_sqrt' (by norm_num),
        show (1 / 100 : ℝ) ^ 2 = thrMin by norm_num [thrMin]]
      refine ⟨fun hFloor => .inr (.inr hFloor), ?_⟩
      rintro (hPos | hZero | hFloor)
      · exact absurd hx hPos.ne
      · exact absurd hZero hy.ne'
      · exact hFloor
  · rw [rmsOf_of_pos hx, rmsOf_of_pos (lt_of_lt_of_le hx hLe)]
    exact ⟨fun _ => .inl hx, fun _ => Real.sqrt_le_sqrt hLe⟩

section Runs

variable {freq freq' samples : ℕ} {init init' cpt cpt' : TCPT ℝ} {alloc alloc' : Allocator ℝ}

/-- **Rms readings of two runs.** Where the current (or the voltage) of a phase has
been at least as large in the second run as in the first, at every step, the
reading of the first run is at most that of the second if and only if the windows
of the two signals read in order. -/
theorem cptRun_rms_le_iff (hSamples : 1 ≤ samples)
    (hConfig : cptConfig (m := Except Fault) init alloc freq samples 3 = .ok (some cpt))
    (hConfig' : cptConfig (m := Except Fault) init' alloc' freq' samples 3 = .ok (some cpt'))
    (pac pac' : ℕ → TPAC ℝ) :
    ∃ st st' : ℕ → TCPT ℝ,
      (∀ t, cptRun (m := Except Fault) cpt pac (t + 1) = .ok (st t)) ∧
      (∀ t, cptRun (m := Except Fault) cpt' pac' (t + 1) = .ok (st' t)) ∧
      ∀ t i,
        ((∀ r ≤ t, |(pac r).I i| ≤ |(pac' r).I i|) →
          (((st t).Phase i).I_rms ≤ ((st' t).Phase i).I_rms ↔
            ReadsInOrder samples (fun r => (pac r).I i) (fun r => (pac' r).I i) t)) ∧
        ((∀ r ≤ t, |(pac r).V i| ≤ |(pac' r).V i|) →
          (((st t).Phase i).V_rms ≤ ((st' t).Phase i).V_rms ↔
            ReadsInOrder samples (fun r => (pac r).V i) (fun r => (pac' r).V i) t)) := by
  obtain ⟨-, hInit⟩ := cptConfig_tracks hConfig pac
  obtain ⟨-, hInit'⟩ := cptConfig_tracks hConfig' pac'
  -- each reading by its own samples, whatever the other channels are
  choose st hRun _ _ hPhase using fun t => cptRun_figures hSamples hInit t
  choose st' hRun' _ _ hPhase' using fun t => cptRun_figures hSamples hInit' t
  refine ⟨st, st', fun t => (hRun t).checked, fun t => (hRun' t).checked, fun t i => ⟨?_, ?_⟩⟩
  · intro hI
    rw [(hPhase t i i.isLt).1.I_rms, (hPhase' t i i.isLt).1.I_rms, Feed.rms_eq_rmsOf,
      Feed.rms_eq_rmsOf]
    exact rmsOf_le_iff hI
  · intro hV
    rw [(hPhase t i i.isLt).1.V_rms, (hPhase' t i i.isLt).1.V_rms, Feed.rms_eq_rmsOf,
      Feed.rms_eq_rmsOf]
    exact rmsOf_le_iff hV

/-- Constant currents and voltages of all phases. -/
def constPac (V I : ℝ) (_ : ℕ) : TPAC ℝ := ⟨fun _ => V, fun _ => I⟩

theorem cptRun_rms_le_iff_const :
    ∃ cpt, cptConfig (m := Except Fault) default .plenty 1 1 3 = .ok (some cpt) ∧
      ∃ st st' : ℕ → TCPT ℝ,
        (∀ t, cptRun (m := Except Fault) cpt (constPac 0 1) (t + 1) = .ok (st t)) ∧
        (∀ t, cptRun (m := Except Fault) cpt (constPac (1 / 1000) 2) (t + 1) = .ok (st' t)) ∧
        ∀ t i, (((st t).Phase i).I_rms ≤ ((st' t).Phase i).I_rms ↔
            ReadsInOrder 1 (fun _ => 1) (fun _ => 2) t) ∧
          (((st t).Phase i).V_rms ≤ ((st' t).Phase i).V_rms ↔
            ReadsInOrder 1 (fun _ => 0) (fun _ => 1 / 1000) t) := by
  obtain ⟨cpt, hConfig, -⟩ :=
    cptConfig_spec le_rfl 1 (by decide) (Allocator.plenty_suffices 3) default
  obtain ⟨st, st', hRun, hRun', hIff⟩ := cptRun_rms_le_iff le_rfl hConfig.checked hConfig.checked
    (constPac 0 1) (constPac (1 / 1000) 2)
  refine ⟨cpt, hConfig.checked, st, st', hRun, hRun', fun t i => ⟨?_, ?_⟩⟩
  · exact (hIff t i).1 fun _ _ => by norm_num [constPac]
  · exact (hIff t i).2 fun _ _ => by norm_num [constPac]

/-- **Silence reads higher than a signal.** Without any current the reading is 0.01,
and with a current of 0.001 it is 0.001. -/
theorem cptRun_silent_louder :
    ∃ cpt, cptConfig (m := Except Fault) default .plenty 1 1 3 = .ok (some cpt) ∧
      ∃ me me', cptRun (m := Except Fault) cpt (constPac 1 0) 1 = .ok me ∧
        cptRun (m := Except Fault) cpt (constPac 1 (1 / 1000)) 1 = .ok me' ∧
        (∀ r, |(constPac 1 0 r).I 0| ≤ |(constPac 1 (1 / 1000) r).I 0|) ∧
        (me.Phase 0).I_rms = 1 / 100 ∧ (me'.Phase 0).I_rms = 1 / 1000 ∧
        ¬ (me.Phase 0).I_rms ≤ (me'.Phase 0).I_rms := by
  obtain ⟨cpt, hConfig, hInit⟩ :=
    cptConfig_spec le_rfl 1 (by decide) (Allocator.plenty_suffices 3) default
  obtain ⟨me, hRun, -, -, hPhase⟩ := cptRun_figures le_rfl (hInit (constPac 1 0)) 0
  obtain ⟨me', hRun', -, -, hPhase'⟩ := cptRun_figures le_rfl (hInit (constPac 1 (1 / 1000))) 0
  have hMean : ∀ c : ℝ, meanSq 1 (fun _ => c) 0 = c * c := by
    intro c
    simp [meanSq, winMean, winSum]
  -- the floor is read for silence, and the signal is above zero but below the floor
  have hSilent : (me.Phase 0).I_rms = 1 / 100 := by
    rw [(hPhase 0 (by decide)).1.I_rms, Feed.rms_eq_rmsOf]
    exact rmsOf_of_silent ((hMean 0).trans (mul_zero 0))
  have hSignal : (me'.Phase 0).I_rms = 1 / 1000 := by
    rw [(hPhase' 0 (by decide)).1.I_rms, Feed.rms_eq_rmsOf]
    have hSq := hMean (1 / 1000)
    refine (rmsOf_of_pos (x := fun _ => 1 / 1000) (by rw [hSq]; norm_num)).trans ?_
    rw [hSq, Real.sqrt_mul_self (by norm_num)]
  refine ⟨cpt, hConfig.checked, me, me', hRun.checked, hRun'.checked, fun _ => ?_, hSilent,
    hSignal, ?_⟩
  · norm_num [constPac]
  · rw [hSilent, hSignal]
    norm_num

end Runs

end EnergyMeter.Cpt
