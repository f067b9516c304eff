import EnergyMeter.Cpt.Refinement

/-!
# EnergyMeter — initialised states

What `CPT_Config` and `Phase_Init` assign, as predicates on a state: the
filters on cleared rings, the parameters, and the rms values and integrals at
zero. Nothing is said of the other fields, which hold what `malloc` returned.

Main result:

* `CptInitialised.tracks` — an initialised state tracks any feed of its
  parameters.
-/

namespace EnergyMeter.Cpt

open Lib

/-- A filter as `MovingAverageFilter_Init` leaves it, on some ring. -/
def FilterInitialised (samples : ℕ) (threshold : ℤ) (cmp min : ℝ) (me : TMAF ℝ) : Prop :=
  ∃ buffer : TBuffer ℝ, buffer.Length = samples ∧
    me = movingAverageFilterInit buffer threshold cmp min

/-- A phase whose fields are as `CPT_Config` and `Phase_Init` set them. -/
structure PhaseInitialised (samples : ℕ) (p : TPhase ℝ) : Prop where
  V_maf : FilterInitialised samples useThreshold 0 thrMin p.V_maf
  I_maf : FilterInitialised samples useThreshold 0 thrMin p.I_maf
  P_maf : FilterInitialised samples 0 0 0 p.P_maf
  W_maf : FilterInitialised samples 0 0 0 p.W_maf
  UI_maf : FilterInitialised samples useThreshold 0 thrMin p.UI_maf
  INT_maf : FilterInitialised samples 0 0 0 p.INT_maf
  Iba_maf : FilterInitialised samples useThreshold 0 thrMin p.Iba_maf
  Ibr_maf : FilterInitialised samples useThreshold 0 thrMin p.Ibr_maf
  Iv_maf : FilterInitialised samples useThreshold 0 thrMin p.Iv_maf
  V_rms : p.V_rms = 0
  I_rms : p.I_rms = 0
  Integral : p.Integral = 0
  Integral_lastInput : p.Integral_lastInput = 0
  UnbiasedIntegral : p.UnbiasedIntegral = 0
  UnbiasedIntegral_rms : p.UnbiasedIntegral_rms = 0
  P_avg : p.P_avg = 0
  W_avg : p.W_avg = 0

/-- A collective and its first `n` phases whose fields are as `CPT_Config` sets
them. -/
structure CptInitialised (freq samples n : ℕ) (me : TCPT ℝ) : Prop where
  phase : ∀ j : Fin 3, j.val < n → PhaseInitialised samples (me.Phase j)
  Iba_maf : FilterInitialised samples useThreshold 0 thrMin me.Iba_maf
  Iua_maf : FilterInitialised samples useThreshold 0 thrMin me.Iua_maf
  Ibr_maf : FilterInitialised samples useThreshold 0 thrMin me.Ibr_maf
  Iur_maf : FilterInitialised samples useThreshold 0 thrMin me.Iur_maf
  Iv_maf : FilterInitialised samples useThreshold 0 thrMin me.Iv_maf
  I_maf : FilterInitialised samples useThreshold 0 thrMin me.I_maf
  V_maf : FilterInitialised samples useThreshold 0 thrMin me.V_maf
  UI_maf : FilterInitialised samples useThreshold 0 thrMin me.UI_maf
  TSH : me.TSH = 1 / freq
  samples : me.samples = samples
  n : me.n = n
  Iba_rms : me.Iba_rms = 0
  Iua_rms : me.Iua_rms = 0
  Ibr_rms : me.Ibr_rms = 0
  Iur_rms : me.Iur_rms = 0
  Iv_rms : me.Iv_rms = 0

theorem FilterInitialised.tracks {samples : ℕ} {threshold : ℤ} {cmp min : ℝ} {me : TMAF ℝ}
    (h : FilterInitialised samples threshold cmp min me) (x : ℕ → ℝ) :
    Tracks samples threshold cmp min x 0 me := by
  obtain ⟨buffer, hLen, rfl⟩ := h
  exact tracks_init hLen

/-- An initialised state tracks any feed of its parameters. -/
theorem CptInitialised.tracks {freq samples n : ℕ} {me : TCPT ℝ} (hn : n ≤ 3)
    (h : CptInitialised freq samples n me) (pac : ℕ → TPAC ℝ) :
    CptTracks ⟨samples, n, 1 / freq, pac⟩ 0 me where
  n := h.n
  n_le := hn
  TSH := h.TSH
  V_maf := h.V_maf.tracks _
  I_maf := h.I_maf.tracks _
  UI_maf := h.UI_maf.tracks _
  Iv_maf := h.Iv_maf.tracks _
  Iba_maf := h.Iba_maf.tracks _
  Ibr_maf := h.Ibr_maf.tracks _
  Iua_maf _ := h.Iua_maf.tracks _
  Iur_maf _ := h.Iur_maf.tracks _
  phase j hj :=
    { V_maf := (h.phase j hj).V_maf.tracks _
      I_maf := (h.phase j hj).I_maf.tracks _
      INT_maf := (h.phase j hj).INT_maf.tracks _
      UI_maf := (h.phase j hj).UI_maf.tracks _
      Integral := (h.phase j hj).Integral
      Integral_lastInput := (h.phase j hj).Integral_lastInput
      P_maf := (h.phase j hj).P_maf.tracks _
      W_maf := (h.phase j hj).W_maf.tracks _
      Iv_maf := (h.phase j hj).Iv_maf.tracks _
      Iba_maf := (h.phase j hj).Iba_maf.tracks _
      Ibr_maf := (h.phase j hj).Ibr_maf.tracks _ }

end EnergyMeter.Cpt
