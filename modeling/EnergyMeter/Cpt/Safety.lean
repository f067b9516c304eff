import EnergyMeter.Cpt.Config

/-!
# EnergyMeter — every update of the power theory is well defined

The checked reading of `CPT_Update` stops at the first division by zero, root
of a negative number, access outside a ring or null pointer. From a configured
state it never stops, whatever the samples are, and the rms values that later
functions divide by are positive.

Main result:

* `cptUpdate_wellDefined` — no reachable update faults.
-/

namespace EnergyMeter.Cpt

open Lib

/-- The rms values that `CPT.c` divides by are positive. -/
structure PositiveRms (me : TCPT ℝ) : Prop where
  phase : ∀ i, 0 < (me.Phase i).V_rms ∧ 0 < (me.Phase i).I_rms ∧
    0 < (me.Phase i).UnbiasedIntegral_rms
  V_rms : 0 < me.V_rms
  I_rms : 0 < me.I_rms
  UI_rms : 0 < me.UI_rms

theorem positiveRms_of_figures {f : Feed} {t : ℕ} {me : TCPT ℝ} (hn : f.n = 3)
    (hf : CollectiveUnbalancedFigures f t me)
    (hp : ∀ i, i.val < f.n → UnbalancedFigures f i t (me.Phase i) ∧ (me.Phase i).Rated) :
    PositiveRms me where
  phase i := by
    obtain ⟨h, -⟩ := hp i (i.isLt.trans_eq hn.symm)
    rw [h.V_rms, h.I_rms, h.UnbiasedIntegral_rms]
    exact ⟨f.rms_pos _ t, f.rms_pos _ t, f.rms_pos _ t⟩
  V_rms := by
    rw [hf.V_rms]
    exact f.crms_pos _ t
  I_rms := by
    rw [hf.I_rms]
    exact f.crms_pos _ t
  UI_rms := by
    rw [hf.UI_rms]
    exact f.crms_pos _ t

/-- **No reachable update faults.** After any number of updates on any samples
the next update meets its requirements and leaves positive rms values. -/
theorem cptUpdate_wellDefined {freq samples : ℕ} (hSamples : 1 ≤ samples)
    {init cpt : TCPT ℝ} {alloc : Allocator ℝ}
    (hConfig : cptConfig (m := Except Fault) init alloc freq samples 3 = .ok (some cpt))
    (pac : ℕ → TPAC ℝ) (t : ℕ) :
    ∃ me me', cptRun (m := Except Fault) cpt pac t = .ok me ∧
      cptUpdate (m := Except Fault) me (pac t) = .ok me' ∧ PositiveRms me' := by
  obtain ⟨-, hInit⟩ := cptConfig_tracks hConfig pac
  obtain ⟨me, hRun, hTracks⟩ := cptRun_spec hSamples hInit t
  obtain ⟨me', hUpdate, -, ⟨hf, -⟩, hp⟩ := cptUpdate_spec hSamples hTracks
  exact ⟨me, me', hRun.checked, hUpdate.checked, positiveRms_of_figures rfl hf hp⟩

/-- Two updates on dead phases. -/
theorem cptUpdate_wellDefined_dead :
    ∃ cpt, cptConfig (m := Except Fault) default .plenty 1 2 3 = .ok (some cpt) ∧
      ∃ me me', cptRun (m := Except Fault) cpt (fun _ => ⟨0, 0⟩) 1 = .ok me ∧
        cptUpdate (m := Except Fault) me ⟨0, 0⟩ = .ok me' ∧ PositiveRms me' := by
  obtain ⟨cpt, hConfig, -⟩ :=
    cptConfig_spec le_rfl 2 (by decide) (Allocator.plenty_suffices 3) default
  exact ⟨cpt, hConfig.checked, cptUpdate_wellDefined (by decide) hConfig.checked
    (fun _ => ⟨0, 0⟩) 1⟩

end EnergyMeter.Cpt
