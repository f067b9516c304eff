import EnergyMeter.Cpt.State

/-!
# EnergyMeter — `CPT.c` computes the quantities of the theory

The refinement of `Cpt.Signals` by `Cpt.Model`. One call of `CPT_Update` is
followed function by function: from a state that tracks the first `t` samples
each function computes, in every reading, a state that holds the figures of
sample `t`, and the filters it touches have taken that sample.

Main results:

* `cptUpdate_spec` — one call keeps `CptTracks` and publishes the figures of
  `Feed.phaseReading` and `Feed.cptReading`.
* `cptRun_spec` — the same for a whole run.
-/

namespace EnergyMeter.Cpt

open Lib

variable {f : Feed} {i : Fin 3} {t : ℕ} {p : TPhase ℝ} {me : TCPT ℝ}

/-! ## `CPT_UpdateVoltagesAndCurrents` -/

theorem voltagesAndCurrentsBody_spec (hL : 1 ≤ f.L) (h : PhaseAt f i t t t t p) :
    ∃ p', Computes (fun m => voltagesAndCurrentsBody (m := m) f.TSH (f.pac t) i p) p' ∧
      PhaseAt f i (t + 1) t t t p' ∧ VoltageFigures f i t p' := by
  have hV : (f.pac t).V i = f.V i t := rfl
  have hI : (f.pac t).I i = f.I i t := rfl
  -- the trapezoid of this sample, from the last input that the state keeps
  have hIntegral : p.Integral + f.TSH / 2 * (f.V i t + p.Integral_lastInput) =
      f.Integral i t := by
    rw [h.Integral, h.Integral_lastInput, integral_step]
  have hUI : f.Integral i t - (p.INT_maf.update (f.Integral i t)).MeanValue = f.UI i t := by
    rw [Plain.update_MeanValue h.INT_maf hL, Feed.UI]
  refine ⟨{ p with
    V_pow2 := f.V i t * f.V i t
    V_maf := p.V_maf.update (f.V i t * f.V i t)
    V_rms := f.rms (f.V i) t
    I_pow2 := f.I i t * f.I i t
    I_maf := p.I_maf.update (f.I i t * f.I i t)
    I_rms := f.rms (f.I i) t
    Integral := f.Integral i t
    Integral_lastInput := f.V i t
    INT_maf := p.INT_maf.update (f.Integral i t)
    UnbiasedIntegral := f.UI i t
    UnbiasedIntegral_pow2 := f.UI i t * f.UI i t
    UI_maf := p.UI_maf.update (f.UI i t * f.UI i t)
    UnbiasedIntegral_rms := f.rms (f.UI i) t }, ?_, ?_, ?_⟩
  · intro m _ _ _ _
    simp only [voltagesAndCurrentsBody, hV, hI, hIntegral, hUI, h.V_maf.update_eq hL,
      h.I_maf.update_eq hL, h.INT_maf.update_eq hL, h.UI_maf.update_eq hL, rmsEvaluate_eq,
      pure_bind, Floored.rms h.V_maf hL, Floored.rms h.I_maf hL, Floored.rms h.UI_maf hL]
  · exact { h with
      V_maf := h.V_maf.update hL
      I_maf := h.I_maf.update hL
      INT_maf := h.INT_maf.update hL
      UI_maf := h.UI_maf.update hL
      Integral := rfl
      Integral_lastInput := rfl }
  · exact ⟨rfl, rfl, rfl, rfl, rfl, rfl, rfl⟩

theorem cptUpdateVoltagesAndCurrents_spec (hL : 1 ≤ f.L) (hc : CollectiveAt f t t t t me)
    (hp : ∀ i, i.val < f.n → PhaseAt f i t t t t (me.Phase i)) :
    ∃ me', Computes (fun m => cptUpdateVoltagesAndCurrents (m := m) me (f.pac t)) me' ∧
      CollectiveAt f t t t t me' ∧
      ∀ i, i.val < f.n → PhaseAt f i (t + 1) t t t (me'.Phase i) ∧
        VoltageFigures f i t (me'.Phase i) := by
  obtain ⟨P, hLoop, hP⟩ := mapPhases_rule hc.n_le
    (fun m _ _ => voltagesAndCurrentsBody (m := m) f.TSH (f.pac t)) fun i hi =>
      voltagesAndCurrentsBody_spec hL (hp i hi)
  rw [← hc.n, ← hc.TSH] at hLoop
  refine ⟨{ me with Phase := P }, hLoop.bind (Computes.pure _), { hc with }, hP⟩

/-! ## `CPT_UpdatePowerAndEnergy` -/

theorem powerAndEnergyBody_spec (hL : 1 ≤ f.L) (h : PhaseAt f i (t + 1) t t t p)
    (hv : VoltageFigures f i t p) :
    ∃ p', Computes (fun m => powerAndEnergyBody (m := m) (f.pac t) i p) p' ∧
      PhaseAt f i (t + 1) (t + 1) t t p' ∧ PowerFigures f i t p' := by
  have hV : (f.pac t).V i = f.V i t := rfl
  have hI : (f.pac t).I i = f.I i t := rfl
  -- the floor of the active power, which the source writes as an `if`
  have hP : (if (p.P_maf.update (f.V i t * f.I i t)).MeanValue < 1 / 100000 then 1 / 100000
      else (p.P_maf.update (f.V i t * f.I i t)).MeanValue) = f.P_avg i t := by
    rw [Plain.update_MeanValue h.P_maf hL]
    rfl
  have hW : (p.W_maf.update (f.UI i t * f.I i t)).MeanValue = f.W_avg i t := by
    rw [Plain.update_MeanValue h.W_maf hL, Feed.W_avg]
  refine ⟨{ p with
    P_inst := f.V i t * f.I i t
    P_maf := p.P_maf.update (f.V i t * f.I i t)
    P_avg := f.P_avg i t
    W_inst := f.UI i t * f.I i t
    W_maf := p.W_maf.update (f.UI i t * f.I i t)
    W_avg := f.W_avg i t
    Q := f.W_avg i t * (f.rms (f.V i) t / f.rms (f.UI i) t) }, ?_, ?_, ?_⟩
  · intro m _ _ _ _
    simp only [powerAndEnergyBody, hV, hI, hv.UnbiasedIntegral, hv.V_rms,
      hv.UnbiasedIntegral_rms, h.P_maf.update_eq hL, h.W_maf.update_eq hL,
      fdiv_of_ne (f.rms_pos (f.UI i) t).ne', pure_bind, hP, hW]
  · exact { h with
      P_maf := h.P_maf.update hL
      W_maf := h.W_maf.update hL }
  · exact { hv with P_avg := rfl, W_avg := rfl }

theorem cptUpdatePowerAndEnergy_spec (hL : 1 ≤ f.L) (hc : CollectiveAt f t t t t me)
    (hp : ∀ i, i.val < f.n → PhaseAt f i (t + 1) t t t (me.Phase i) ∧
      VoltageFigures f i t (me.Phase i)) :
    ∃ me', Computes (fun m => cptUpdatePowerAndEnergy (m := m) me (f.pac t)) me' ∧
      CollectiveAt f t t t t me' ∧
      ∀ i, i.val < f.n → PhaseAt f i (t + 1) (t + 1) t t (me'.Phase i) ∧
        PowerFigures f i t (me'.Phase i) := by
  obtain ⟨P, hLoop, hP⟩ := mapPhases_rule hc.n_le
    (fun m _ _ => powerAndEnergyBody (m := m) (f.pac t)) fun i hi =>
      powerAndEnergyBody_spec hL (hp i hi).1 (hp i hi).2
  rw [← hc.n] at hLoop
  exact ⟨{ me with Phase := P }, hLoop.bind (Computes.pure _), { hc with }, hP⟩

/-! ## `CPT_UpdateCollectiveValues` -/

/-- The loop of `CPT_UpdateCollectiveValues` sums the figures of the phases. -/
theorem collectiveValues_loop (hc : Parameters f me)
    (hp : ∀ i, i.val < f.n → PowerFigures f i t (me.Phase i)) :
    ∃ P, Computes (fun m => forPhases (m := m) me.n me.Phase (0, 0, 0, 0, 0)
        collectiveValuesBody)
      (P, f.cP_avg t, f.cW_avg t, ∑ i ∈ phases f.n, f.V i t * f.V i t,
        ∑ i ∈ phases f.n, f.I i t * f.I i t, ∑ i ∈ phases f.n, f.UI i t * f.UI i t) := by
  let g : Fin 3 → ℝ × ℝ × ℝ × ℝ × ℝ := fun i => (f.P_avg i t, f.W_avg i t,
    f.V i t * f.V i t, f.I i t * f.I i t, f.UI i t * f.UI i t)
  have hSum : (0, 0, 0, 0, 0) + ∑ i ∈ phases f.n, g i = (f.cP_avg t, f.cW_avg t,
      ∑ i ∈ phases f.n, f.V i t * f.V i t, ∑ i ∈ phases f.n, f.I i t * f.I i t,
      ∑ i ∈ phases f.n, f.UI i t * f.UI i t) := by
    simp only [g, Prod.ext_iff, Prod.fst_add, Prod.snd_add, Prod.fst_sum, Prod.snd_sum,
      zero_add, Feed.cP_avg, Feed.cW_avg, and_self]
  -- the loop writes no field of a phase
  have hBody : ∀ i, i.val < f.n → ∃ p, (∀ a, Computes
      (fun m => collectiveValuesBody (m := m) i (me.Phase i) a) (p, a + g i)) ∧ True := by
    intro i hi
    refine ⟨me.Phase i, fun a => ?_, trivial⟩
    intro m _ _ _ _
    simp only [collectiveValuesBody, (hp i hi).P_avg, (hp i hi).W_avg, (hp i hi).V_pow2,
      (hp i hi).I_pow2, (hp i hi).UnbiasedIntegral_pow2]
    rfl
  obtain ⟨P, hLoop, -⟩ := forPhases_rule hc.n_le (0, 0, 0, 0, 0)
    (fun m _ _ => collectiveValuesBody (m := m)) g hBody
  rw [hSum] at hLoop
  rw [hc.n]
  exact ⟨P, hLoop⟩

theorem cptUpdateCollectiveValues_spec (hL : 1 ≤ f.L) (hc : CollectiveAt f t t t t me)
    (hp : ∀ i, i.val < f.n → PowerFigures f i t (me.Phase i)) :
    ∃ me', Computes (fun m => cptUpdateCollectiveValues (m := m) me) me' ∧
      CollectiveAt f (t + 1) t t t me' ∧ CollectiveFigures f t me' ∧
      me'.Phase = me.Phase := by
  obtain ⟨P, hLoop⟩ := collectiveValues_loop hc.toParameters hp
  -- three filters are fed with the sums of the loop
  refine ⟨{ me with
    P_avg := f.cP_avg t
    W_avg := f.cW_avg t
    I_maf := me.I_maf.update (∑ i ∈ phases f.n, f.I i t * f.I i t)
    V_maf := me.V_maf.update (∑ i ∈ phases f.n, f.V i t * f.V i t)
    UI_maf := me.UI_maf.update (∑ i ∈ phases f.n, f.UI i t * f.UI i t)
    V_rms := f.crms f.V t
    I_rms := f.crms f.I t
    UI_rms := f.crms f.UI t }, hLoop.bind ?_, ?_, ⟨rfl, rfl, rfl, rfl, rfl⟩, rfl⟩
  · intro m _ _ _ _
    simp only [hc.V_maf.update_eq hL, hc.I_maf.update_eq hL, hc.UI_maf.update_eq hL,
      rmsEvaluate_eq, pure_bind, Floored.crms hc.V_maf hL, Floored.crms hc.I_maf hL,
      Floored.crms hc.UI_maf hL]
  · exact { hc with
      V_maf := hc.V_maf.update hL
      I_maf := hc.I_maf.update hL
      UI_maf := hc.UI_maf.update hL }

/-! ## `CPT_CurrentDecomposition` -/

theorem voidCurrentBody_spec (hL : 1 ≤ f.L) (h : PhaseAt f i (t + 1) (t + 1) t t p)
    (hp : PowerFigures f i t p) :
    ∃ p', (∀ a, Computes (fun m => voidCurrentBody (m := m) (f.pac t) i p a)
        (p', a + f.Iv i t * f.Iv i t)) ∧
      PhaseAt f i (t + 1) (t + 1) (t + 1) t p' ∧ VoidFigures f i t p' := by
  have hV : (f.pac t).V i = f.V i t := rfl
  have hI : (f.pac t).I i = f.I i t := rfl
  -- the floors keep both denominators from zero, so both guards are taken
  have hV_ne := (f.rms_pos (f.V i) t).ne'
  have hUI_ne := (f.rms_pos (f.UI i) t).ne'
  have hIa : f.P_avg i t / (f.rms (f.V i) t * f.rms (f.V i) t) * f.V i t = f.Ia i t := by
    rw [f.rms_mul_self, Feed.Ia]
  have hIr : f.W_avg i t / (f.rms (f.UI i) t * f.rms (f.UI i) t) * f.UI i t = f.Ir i t := by
    rw [f.rms_mul_self, Feed.Ir]
  have hIv : f.I i t - f.Ia i t - f.Ir i t = f.Iv i t := rfl
  refine ⟨{ p with
    Ia_ActiveCurrent := f.Ia i t
    Ir_ReactiveCurrent := f.Ir i t
    Iv_VoidCurrent := f.Iv i t
    Iv_maf := p.Iv_maf.update (f.Iv i t * f.Iv i t)
    Iv_rms := f.rms (f.Iv i) t }, fun a => ?_, ?_, ?_⟩
  · intro m _ _ _ _
    simp only [voidCurrentBody, hp.V_rms, hp.UnbiasedIntegral_rms, hp.P_avg, hp.W_avg,
      hp.UnbiasedIntegral, ne_eq, hV_ne, hUI_ne, not_false_eq_true, if_true,
      fdiv_of_ne (mul_ne_zero hV_ne hV_ne), fdiv_of_ne (mul_ne_zero hUI_ne hUI_ne), map_pure,
      pure_bind, hV, hI, hIa, hIr, hIv, h.Iv_maf.update_eq hL, rmsEvaluate_eq,
      Floored.rms h.Iv_maf hL]
  · exact { h with Iv_maf := h.Iv_maf.update hL }
  · exact { hp with
      Ia_ActiveCurrent := rfl
      Ir_ReactiveCurrent := rfl
      Iv_VoidCurrent := rfl
      Iv_rms := rfl }

theorem voidCurrents_spec (hL : 1 ≤ f.L) (hc : CollectiveAt f (t + 1) t t t me)
    (hf : CollectiveFigures f t me)
    (hp : ∀ i, i.val < f.n → PhaseAt f i (t + 1) (t + 1) t t (me.Phase i) ∧
      PowerFigures f i t (me.Phase i)) :
    ∃ me', Computes (fun m => voidCurrents (m := m) me (f.pac t)) me' ∧
      CollectiveAt f (t + 1) (t + 1) t t me' ∧ CollectiveVoidFigures f t me' ∧
      ∀ i, i.val < f.n → PhaseAt f i (t + 1) (t + 1) (t + 1) t (me'.Phase i) ∧
        VoidFigures f i t (me'.Phase i) := by
  obtain ⟨P, hLoop, hP⟩ := forPhases_rule hc.n_le 0
    (fun m _ _ => voidCurrentBody (m := m) (f.pac t)) (fun i => f.Iv i t * f.Iv i t)
    fun i hi => voidCurrentBody_spec hL (hp i hi).1 (hp i hi).2
  rw [zero_add, ← hc.n] at hLoop
  -- the loop has summed the squares for the filter of the collective
  refine ⟨{ me with
    Phase := P
    Iv_maf := me.Iv_maf.update (∑ i ∈ phases f.n, f.Iv i t * f.Iv i t)
    Iv_rms := f.crms f.Iv t }, hLoop.bind ?_, ?_, { hf with Iv_rms := rfl }, hP⟩
  · intro m _ _ _ _
    simp only [hc.n, hc.Iv_maf.update_eq hL, rmsEvaluate_eq, pure_bind,
      Floored.crms hc.Iv_maf hL]
  · exact { hc with Iv_maf := hc.Iv_maf.update hL }

theorem balancedActiveBody_spec (hf : CollectiveVoidFigures f t me)
    (hp : PhaseAt f i (t + 1) (t + 1) (t + 1) t p ∧ VoidFigures f i t p) :
    ∃ p', Computes (fun m => balancedActiveBody (m := m) me (f.pac t) i p) p' ∧
      PhaseAt f i (t + 1) (t + 1) (t + 1) t p' ∧ VoidFigures f i t p' ∧
      p'.Iba_BalancedActiveCurrent = f.Iba i t := by
  refine ⟨{ p with Iba_BalancedActiveCurrent := f.Iba i t }, ?_, { hp.1 with },
    { hp.2 with }, rfl⟩
  intro m _ _ _ _
  simp only [balancedActiveBody, hf.P_avg, hf.V_rms, f.crms_mul_self,
    fdiv_of_ne (f.cms_pos f.V t).ne', pure_bind]
  rfl

theorem balancedReactiveBody_spec (hf : CollectiveVoidFigures f t me)
    (hp : PhaseAt f i (t + 1) (t + 1) (t + 1) t p ∧ VoidFigures f i t p ∧
      p.Iba_BalancedActiveCurrent = f.Iba i t) :
    ∃ p', Computes (fun m => balancedReactiveBody (m := m) me i p) p' ∧
      PhaseAt f i (t + 1) (t + 1) (t + 1) t p' ∧ VoidFigures f i t p' ∧
      p'.Iba_BalancedActiveCurrent = f.Iba i t ∧
      p'.Ibr_BalancedReactiveCurrent = f.Ibr i t := by
  obtain ⟨hTracks, hVoid, hIba⟩ := hp
  refine ⟨{ p with Ibr_BalancedReactiveCurrent := f.Ibr i t }, ?_, { hTracks with },
    { hVoid with }, hIba, rfl⟩
  intro m _ _ _ _
  simp only [balancedReactiveBody, hf.W_avg, hf.UI_rms, hVoid.UnbiasedIntegral,
    f.crms_mul_self, fdiv_of_ne (f.cms_pos f.UI t).ne', pure_bind]
  rfl

theorem balancedRmsBody_spec (hL : 1 ≤ f.L)
    (hp : PhaseAt f i (t + 1) (t + 1) (t + 1) t p ∧ VoidFigures f i t p ∧
      p.Iba_BalancedActiveCurrent = f.Iba i t ∧ p.Ibr_BalancedReactiveCurrent = f.Ibr i t) :
    ∃ p', (∀ a, Computes (fun m => balancedRmsBody (m := m) i p a)
        (p', a + (f.Iba i t * f.Iba i t, f.Ibr i t * f.Ibr i t))) ∧
      PhaseAt f i (t + 1) (t + 1) (t + 1) (t + 1) p' ∧ BalancedFigures f i t p' := by
  obtain ⟨h, hVoid, hIba, hIbr⟩ := hp
  refine ⟨{ p with
    Iba_maf := p.Iba_maf.update (f.Iba i t * f.Iba i t)
    Iba_rms := f.rms (f.Iba i) t
    Ibr_maf := p.Ibr_maf.update (f.Ibr i t * f.Ibr i t)
    Ibr_rms := f.rms (f.Ibr i) t }, fun a => ?_, ?_, ?_⟩
  -- both filters take the square of their current, which also joins the sum
  · intro m _ _ _ _
    simp only [balancedRmsBody, hIba, hIbr, h.Iba_maf.update_eq hL, h.Ibr_maf.update_eq hL,
      rmsEvaluate_eq, pure_bind, Floored.rms h.Iba_maf hL, Floored.rms h.Ibr_maf hL]
    rfl
  · exact { h with
      Iba_maf := h.Iba_maf.update hL
      Ibr_maf := h.Ibr_maf.update hL }
  · exact { hVoid with
      Iba_BalancedActiveCurrent := hIba
      Ibr_BalancedReactiveCurrent := hIbr
      Iba_rms := rfl
      Ibr_rms := rfl }

theorem sum_pair (s : Finset (Fin 3)) (x y : Fin 3 → ℝ) :
    (0, 0) + ∑ i ∈ s, (x i, y i) = (∑ i ∈ s, x i, ∑ i ∈ s, y i) := by
  simp only [Prod.ext_iff, Prod.fst_add, Prod.snd_add, Prod.fst_sum, Prod.snd_sum, zero_add,
    and_self]

theorem balancedCurrents_spec (hL : 1 ≤ f.L) (hc : CollectiveAt f (t + 1) (t + 1) t t me)
    (hf : CollectiveVoidFigures f t me)
    (hp : ∀ i, i.val < f.n → PhaseAt f i (t + 1) (t + 1) (t + 1) t (me.Phase i) ∧
      VoidFigures f i t (me.Phase i)) :
    ∃ me', Computes (fun m => balancedCurrents (m := m) me (f.pac t)) me' ∧
      CollectiveAt f (t + 1) (t + 1) (t + 1) t me' ∧ CollectiveBalancedFigures f t me' ∧
      ∀ i, i.val < f.n → PhaseAt f i (t + 1) (t + 1) (t + 1) (t + 1) (me'.Phase i) ∧
        BalancedFigures f i t (me'.Phase i) := by
  -- the guards of the two loops are taken for the same reason
  have hV : me.V_rms ≠ 0 := by
    rw [hf.V_rms]
    exact (f.crms_pos f.V t).ne'
  have hUI : me.UI_rms ≠ 0 := by
    rw [hf.UI_rms]
    exact (f.crms_pos f.UI t).ne'
  obtain ⟨P₁, hActive, hP₁⟩ := mapPhases_rule hc.n_le
    (fun m _ _ => balancedActiveBody (m := m) me (f.pac t)) fun i hi =>
      balancedActiveBody_spec hf (hp i hi)
  obtain ⟨P₂, hReactive, hP₂⟩ := mapPhases_rule hc.n_le
    (fun m _ _ => balancedReactiveBody (m := m) me) fun i hi =>
      balancedReactiveBody_spec hf (hP₁ i hi)
  obtain ⟨P₃, hLoop, hP₃⟩ := forPhases_rule hc.n_le (0, 0)
    (fun m _ _ => balancedRmsBody (m := m)) (fun i => (f.Iba i t * f.Iba i t,
      f.Ibr i t * f.Ibr i t)) fun i hi => balancedRmsBody_spec hL (hP₂ i hi)
  rw [sum_pair] at hLoop
  refine ⟨{ me with
    Phase := P₃
    Iba_maf := me.Iba_maf.update (∑ i ∈ phases f.n, f.Iba i t * f.Iba i t)
    Iba_rms := f.crms f.Iba t
    Ibr_maf := me.Ibr_maf.update (∑ i ∈ phases f.n, f.Ibr i t * f.Ibr i t)
    Ibr_rms := f.crms f.Ibr t }, ?_, ?_, { hf with Iba_rms := rfl, Ibr_rms := rfl }, hP₃⟩
  · unfold balancedCurrents
    simp only [hV, hUI, ne_eq, not_false_eq_true, if_true, hc.n]
    refine hActive.bind (hReactive.bind (hLoop.bind ?_))
    intro m _ _ _ _
    simp only [hc.Iba_maf.update_eq hL, hc.Ibr_maf.update_eq hL, rmsEvaluate_eq, pure_bind,
      Floored.crms hc.Iba_maf hL, Floored.crms hc.Ibr_maf hL]
  · exact { hc with
      Iba_maf := hc.Iba_maf.update hL
      Ibr_maf := hc.Ibr_maf.update hL }

/-- The two loops over the unbalanced currents. -/
theorem unbalanced_loops {P : Fin 3 → TPhase ℝ} (hc : Parameters f me)
    (hp : ∀ i, i.val < f.n → PhaseAt f i (t + 1) (t + 1) (t + 1) (t + 1) (P i) ∧
      BalancedFigures f i t (P i)) :
    ∃ P₁ P₂, Computes (fun m => mapPhases (m := m) f.n P
        fun _ Phase => return unbalancedBody Phase) P₁ ∧
      Computes (fun m => forPhases (m := m) f.n P₁ (0, 0)
        fun _ Phase acc => return unbalancedRmsBody Phase acc)
        (P₂, ∑ i ∈ phases f.n, f.Iua i t * f.Iua i t,
          ∑ i ∈ phases f.n, f.Iur i t * f.Iur i t) ∧
      ∀ i, i.val < f.n → PhaseAt f i (t + 1) (t + 1) (t + 1) (t + 1) (P₂ i) ∧
        UnbalancedFigures f i t (P₂ i) := by
  -- the first loop computes the currents, the second one reads them
  have hFirst : ∀ i, i.val < f.n → ∃ p', Computes (fun _ => pure (unbalancedBody (P i))) p' ∧
      PhaseAt f i (t + 1) (t + 1) (t + 1) (t + 1) p' ∧ BalancedFigures f i t p' ∧
      p'.Iua_UnbalancedActiveCurrent = f.Iua i t ∧
      p'.Iur_UnbalancedReactiveCurrent = f.Iur i t := fun i hi => by
    obtain ⟨hTracks, hb⟩ := hp i hi
    refine ⟨_, Computes.pure _, { hTracks with }, { hb with }, ?_, ?_⟩
    · rw [unbalancedBody, hb.Ia_ActiveCurrent, hb.Iba_BalancedActiveCurrent]
      rfl
    · rw [unbalancedBody, hb.Ir_ReactiveCurrent, hb.Ibr_BalancedReactiveCurrent]
      rfl
  obtain ⟨P₁, hLoop₁, hP₁⟩ := mapPhases_rule hc.n_le
    (fun m _ _ _ Phase => return unbalancedBody Phase) hFirst
  have hSecond : ∀ i, i.val < f.n → ∃ p', (∀ a, Computes
      (fun _ => pure (unbalancedRmsBody (P₁ i) a))
        (p', a + (f.Iua i t * f.Iua i t, f.Iur i t * f.Iur i t))) ∧
      PhaseAt f i (t + 1) (t + 1) (t + 1) (t + 1) p' ∧ UnbalancedFigures f i t p' :=
      fun i hi => by
    obtain ⟨hTracks, hb, hIua, hIur⟩ := hP₁ i hi
    refine ⟨{ P₁ i with
      Iua_rms := f.Iua i t * f.Iua i t
      Iur_rms := f.Iur i t * f.Iur i t }, fun a => ?_, { hTracks with }, { hb with
      Iua_UnbalancedActiveCurrent := fun _ => hIua
      Iur_UnbalancedReactiveCurrent := fun _ => hIur
      Iua_rms := fun _ => rfl
      Iur_rms := fun _ => rfl }⟩
    intro m _ _ _ _
    simp only [unbalancedRmsBody, hIua, hIur]
    rfl
  obtain ⟨P₂, hLoop₂, hP₂⟩ := forPhases_rule hc.n_le (0, 0)
    (fun m _ _ _ Phase acc => return unbalancedRmsBody Phase acc) _ hSecond
  rw [sum_pair] at hLoop₂
  exact ⟨P₁, P₂, hLoop₁, hLoop₂, hP₂⟩

theorem unbalancedCurrents_spec (hL : 1 ≤ f.L)
    (hc : CollectiveAt f (t + 1) (t + 1) (t + 1) t me)
    (hf : CollectiveBalancedFigures f t me)
    (hp : ∀ i, i.val < f.n → PhaseAt f i (t + 1) (t + 1) (t + 1) (t + 1) (me.Phase i) ∧
      BalancedFigures f i t (me.Phase i)) :
    ∃ me', Computes (fun m => unbalancedCurrents (m := m) me) me' ∧
      CollectiveAt f (t + 1) (t + 1) (t + 1) (t + 1) me' ∧
      CollectiveUnbalancedFigures f t me' ∧
      ∀ i, i.val < f.n → PhaseAt f i (t + 1) (t + 1) (t + 1) (t + 1) (me'.Phase i) ∧
        UnbalancedFigures f i t (me'.Phase i) := by
  -- with one phase nothing is unbalanced, and the source does nothing
  by_cases hn : f.n = 1
  · refine ⟨me, ?_, { hc with Iua_maf := fun h => absurd hn h, Iur_maf := fun h => absurd hn h },
      { hf with Iua_rms := fun h => absurd hn h, Iur_rms := fun h => absurd hn h },
      fun i hi => ⟨(hp i hi).1, ?_⟩⟩
    · unfold unbalancedCurrents
      simp only [hc.n, hn, ne_eq, not_true_eq_false, if_false]
      exact Computes.pure _
    · exact { (hp i hi).2 with
        Iua_UnbalancedActiveCurrent := fun h => absurd hn h
        Iur_UnbalancedReactiveCurrent := fun h => absurd hn h
        Iua_rms := fun h => absurd hn h
        Iur_rms := fun h => absurd hn h }
  · obtain ⟨P₁, P₂, hLoop₁, hLoop₂, hP₂⟩ := unbalanced_loops hc.toParameters hp
    have hIua := hc.Iua_maf hn
    have hIur := hc.Iur_maf hn
    refine ⟨{ me with
      Phase := P₂
      Iua_maf := me.Iua_maf.update (∑ i ∈ phases f.n, f.Iua i t * f.Iua i t)
      Iua_rms := f.crms f.Iua t
      Iur_maf := me.Iur_maf.update (∑ i ∈ phases f.n, f.Iur i t * f.Iur i t)
      Iur_rms := f.crms f.Iur t }, ?_, ?_,
      { hf with Iua_rms := fun _ => rfl, Iur_rms := fun _ => rfl }, hP₂⟩
    · unfold unbalancedCurrents
      simp only [hc.n, hn, ne_eq, not_false_eq_true, if_true]
      refine hLoop₁.bind (hLoop₂.bind ?_)
      intro m _ _ _ _
      simp only [hIua.update_eq hL, hIur.update_eq hL, rmsEvaluate_eq, pure_bind,
        Floored.crms hIua hL, Floored.crms hIur hL]
    · exact { hc with
        Iua_maf := fun _ => hIua.update hL
        Iur_maf := fun _ => hIur.update hL }

theorem cptCurrentDecomposition_spec (hL : 1 ≤ f.L) (hc : CollectiveAt f (t + 1) t t t me)
    (hf : CollectiveFigures f t me)
    (hp : ∀ i, i.val < f.n → PhaseAt f i (t + 1) (t + 1) t t (me.Phase i) ∧
      PowerFigures f i t (me.Phase i)) :
    ∃ me', Computes (fun m => cptCurrentDecomposition (m := m) me (f.pac t)) me' ∧
      CollectiveAt f (t + 1) (t + 1) (t + 1) (t + 1) me' ∧
      CollectiveUnbalancedFigures f t me' ∧
      ∀ i, i.val < f.n → PhaseAt f i (t + 1) (t + 1) (t + 1) (t + 1) (me'.Phase i) ∧
        UnbalancedFigures f i t (me'.Phase i) := by
  obtain ⟨_, hVoid, hc₁, hf₁, hp₁⟩ := voidCurrents_spec hL hc hf hp
  obtain ⟨_, hBalanced, hc₂, hf₂, hp₂⟩ := balancedCurrents_spec hL hc₁ hf₁ hp₁
  obtain ⟨me', hUnbalanced, h₃⟩ := unbalancedCurrents_spec hL hc₂ hf₂ hp₂
  exact ⟨me', hVoid.bind (hBalanced.bind hUnbalanced), h₃⟩

/-! ## `CPT_PowerDecomposition` -/

theorem fsqrt_sq_add {m : Type → Type} [Monad m] [LawfulMonad m] [MonadRequire m]
    [LawfulRequire m] (a b : ℝ) : (fsqrt (a * a + b * b) : m ℝ) = pure √(a * a + b * b) :=
  fsqrt_of_nonneg (add_nonneg (mul_self_nonneg a) (mul_self_nonneg b))

theorem powerDecompositionBody_spec
    (hp : PhaseAt f i (t + 1) (t + 1) (t + 1) (t + 1) p ∧ UnbalancedFigures f i t p) :
    ∃ p', Computes (fun m => powerDecompositionBody (m := m) i p) p' ∧
      PhaseAt f i (t + 1) (t + 1) (t + 1) (t + 1) p' ∧ UnbalancedFigures f i t p' ∧
      p'.Decomposed := by
  refine ⟨{ p with
    A := p.V_rms * p.I_rms
    Q := p.V_rms * p.Ibr_rms
    Na := p.V_rms * p.Iua_rms
    Nr := p.V_rms * p.Iur_rms
    N := √(p.V_rms * p.Iua_rms * (p.V_rms * p.Iua_rms) +
      p.V_rms * p.Iur_rms * (p.V_rms * p.Iur_rms))
    V := p.V_rms * p.Iv_rms }, ?_, { hp.1 with }, { hp.2 with },
    ⟨rfl, rfl, rfl, rfl, rfl, rfl⟩⟩
  -- the only requirement is the one of the square root
  intro m _ _ _ _
  simp only [powerDecompositionBody, fsqrt_sq_add, pure_bind]

theorem cptPowerDecomposition_spec
    (hc : CollectiveAt f (t + 1) (t + 1) (t + 1) (t + 1) me)
    (hf : CollectiveUnbalancedFigures f t me)
    (hp : ∀ i, i.val < f.n → PhaseAt f i (t + 1) (t + 1) (t + 1) (t + 1) (me.Phase i) ∧
      UnbalancedFigures f i t (me.Phase i)) :
    ∃ me', Computes (fun m => cptPowerDecomposition (m := m) me) me' ∧
      CollectiveAt f (t + 1) (t + 1) (t + 1) (t + 1) me' ∧
      CollectiveUnbalancedFigures f t me' ∧ me'.Decomposed ∧
      ∀ i, i.val < f.n → PhaseAt f i (t + 1) (t + 1) (t + 1) (t + 1) (me'.Phase i) ∧
        UnbalancedFigures f i t (me'.Phase i) ∧ (me'.Phase i).Decomposed := by
  obtain ⟨P, hLoop, hP⟩ := mapPhases_rule hc.n_le
    (fun m _ _ => powerDecompositionBody (m := m)) fun i hi =>
      powerDecompositionBody_spec (hp i hi)
  rw [← hc.n] at hLoop
  refine ⟨{ me with
    Phase := P
    A := me.V_rms * me.I_rms
    Q := me.V_rms * me.Ibr_rms
    Na := me.V_rms * me.Iua_rms
    Nr := me.V_rms * me.Iur_rms
    N := √(me.V_rms * me.Iua_rms * (me.V_rms * me.Iua_rms) +
      me.V_rms * me.Iur_rms * (me.V_rms * me.Iur_rms))
    V := me.V_rms * me.Iv_rms }, hLoop.bind ?_, { hc with }, { hf with },
    ⟨rfl, rfl, rfl, rfl, rfl, rfl⟩, hP⟩
  intro m _ _ _ _
  simp only [fsqrt_sq_add, pure_bind]

/-! ## `CPT_EvaluateFactors` -/

section Factors

variable {m : Type → Type} [Monad m] [LawfulMonad m] [MonadRequire m] [LawfulRequire m]

theorem factorOver_eq {x A old : ℝ} (hA : A ≠ 0) :
    (factorOver x A old : m ℝ) = pure (x / A) := by
  rw [factorOver, if_pos hA, fdiv_of_ne hA]

theorem factorOverRoot_eq {x s old : ℝ} (hs : 0 < s) :
    (factorOverRoot x s old : m ℝ) = pure (x / √s) := by
  rw [factorOverRoot, if_pos hs, fsqrt_of_nonneg hs.le, pure_bind, hasSqrt_real,
    fdiv_of_ne (Real.sqrt_pos.mpr hs).ne']

end Factors

theorem evaluateFactorsBody_spec
    (hp : PhaseAt f i (t + 1) (t + 1) (t + 1) (t + 1) p ∧ UnbalancedFigures f i t p ∧
      p.Decomposed) :
    ∃ p', Computes (fun m => evaluateFactorsBody (m := m) i p) p' ∧
      PhaseAt f i (t + 1) (t + 1) (t + 1) (t + 1) p' ∧ UnbalancedFigures f i t p' ∧
      p'.Rated := by
  obtain ⟨hTracks, hu, hd⟩ := hp
  have hA : p.A ≠ 0 := by
    rw [hd.A, hu.V_rms, hu.I_rms]
    exact (mul_pos (f.rms_pos _ t) (f.rms_pos _ t)).ne'
  -- the active power is at least its floor, so no root is of zero
  have hP2 : 0 < p.P_avg * p.P_avg := by
    rw [hu.P_avg]
    exact mul_pos (f.P_avg_pos i t) (f.P_avg_pos i t)
  have hQF : 0 < p.P_avg * p.P_avg + p.Q * p.Q := by
    linarith [mul_self_nonneg p.Q]
  have hNF : 0 < p.P_avg * p.P_avg + p.Q * p.Q + p.N * p.N := by
    linarith [mul_self_nonneg p.N]
  refine ⟨{ p with
    PF := p.P_avg / p.A
    VF := limitOne (p.V / p.A)
    NF := p.N / √(p.P_avg * p.P_avg + p.Q * p.Q + p.N * p.N)
    QF := p.Q / √(p.P_avg * p.P_avg + p.Q * p.Q) }, ?_, { hTracks with }, { hu with }, ?_⟩
  · intro m _ _ _ _
    simp only [evaluateFactorsBody, factorOver_eq hA, factorOverRoot_eq hNF,
      factorOverRoot_eq hQF, pure_bind, hA, ne_eq, not_false_eq_true, true_and, limitOne]
  · simp only [TPhase.Rated, TPhase.power, powerSet, hd.A, hd.Q, hd.Na, hd.Nr, hd.N, hd.V]

theorem cptEvaluateFactors_spec
    (hc : CollectiveAt f (t + 1) (t + 1) (t + 1) (t + 1) me)
    (hf : CollectiveUnbalancedFigures f t me) (hd : me.Decomposed)
    (hp : ∀ i, i.val < f.n → PhaseAt f i (t + 1) (t + 1) (t + 1) (t + 1) (me.Phase i) ∧
      UnbalancedFigures f i t (me.Phase i) ∧ (me.Phase i).Decomposed) :
    ∃ me', Computes (fun m => cptEvaluateFactors (m := m) me) me' ∧
      CollectiveAt f (t + 1) (t + 1) (t + 1) (t + 1) me' ∧
      CollectiveUnbalancedFigures f t me' ∧ me'.Rated ∧
      ∀ i, i.val < f.n → PhaseAt f i (t + 1) (t + 1) (t + 1) (t + 1) (me'.Phase i) ∧
        UnbalancedFigures f i t (me'.Phase i) ∧ (me'.Phase i).Rated := by
  obtain ⟨P, hLoop, hP⟩ := mapPhases_rule hc.n_le
    (fun m _ _ => evaluateFactorsBody (m := m)) fun i hi => evaluateFactorsBody_spec (hp i hi)
  rw [← hc.n] at hLoop
  have hA : me.A ≠ 0 := by
    rw [hd.A, hf.V_rms, hf.I_rms]
    exact (mul_pos (f.crms_pos _ t) (f.crms_pos _ t)).ne'
  -- without a phase there is no active power, but the floors keep `Q` positive
  have hQ2 : 0 < me.Q * me.Q := by
    rw [hd.Q, hf.V_rms, hf.Ibr_rms]
    have hQ := mul_pos (f.crms_pos f.V t) (f.crms_pos f.Ibr t)
    exact mul_pos hQ hQ
  have hQF : 0 < me.P_avg * me.P_avg + me.Q * me.Q := by
    linarith [mul_self_nonneg me.P_avg]
  have hNF : 0 < me.P_avg * me.P_avg + me.Q * me.Q + me.N * me.N := by
    linarith [mul_self_nonneg me.N]
  refine ⟨{ me with
    PF := me.P_avg / me.A
    VF := me.V / me.A
    NF := me.N / √(me.P_avg * me.P_avg + me.Q * me.Q + me.N * me.N)
    QF := me.Q / √(me.P_avg * me.P_avg + me.Q * me.Q)
    Phase := P }, ?_, { hc with }, { hf with }, ?_, hP⟩
  · intro m _ _ _ _
    have hLoop : mapPhases (m := m) me.n me.Phase evaluateFactorsBody = pure P := hLoop m
    simp only [cptEvaluateFactors, factorOver_eq hA, factorOverRoot_eq hNF,
      factorOverRoot_eq hQF, pure_bind, hLoop]
  · simp only [TCPT.Rated, TCPT.power, powerSet, hd.A, hd.Q, hd.Na, hd.Nr, hd.N, hd.V, id]

/-! ## `CPT_Update` -/

/-- **One update.** From a state that tracks the samples so far, `CPT_Update`
meets its requirements, tracks one sample more, and publishes the figures of
that sample. -/
theorem cptUpdate_spec (hL : 1 ≤ f.L) (h : CptTracks f t me) :
    ∃ me', Computes (fun m => cptUpdate (m := m) me (f.pac t)) me' ∧
      CptTracks f (t + 1) me' ∧
      (CollectiveUnbalancedFigures f t me' ∧ me'.Rated) ∧
      ∀ i, i.val < f.n → UnbalancedFigures f i t (me'.Phase i) ∧ (me'.Phase i).Rated := by
  obtain ⟨_, h₁, hc₁, hp₁⟩ := cptUpdateVoltagesAndCurrents_spec hL h.toCollectiveAt h.phase
  obtain ⟨me₂, h₂, hc₂, hp₂⟩ := cptUpdatePowerAndEnergy_spec hL hc₁ hp₁
  obtain ⟨_, h₃, hc₃, hf₃, hPhase⟩ :=
    cptUpdateCollectiveValues_spec hL hc₂ fun i hi => (hp₂ i hi).2
  rw [← hPhase] at hp₂
  obtain ⟨_, h₄, hc₄, hf₄, hp₄⟩ := cptCurrentDecomposition_spec hL hc₃ hf₃ hp₂
  obtain ⟨_, h₅, hc₅, hf₅, hd₅, hp₅⟩ := cptPowerDecomposition_spec hc₄ hf₄ hp₄
  obtain ⟨me', h₆, hc₆, hf₆, hr₆, hp₆⟩ := cptEvaluateFactors_spec hc₅ hf₅ hd₅ hp₅
  exact ⟨me', h₁.bind (h₂.bind (h₃.bind (h₄.bind (h₅.bind h₆)))),
    { hc₆ with phase := fun i hi => (hp₆ i hi).1 }, ⟨hf₆, hr₆⟩, fun i hi => (hp₆ i hi).2⟩

/-- **A whole run.** -/
theorem cptRun_spec {init : TCPT ℝ} (hL : 1 ≤ f.L) (hInit : CptTracks f 0 init) (t : ℕ) :
    ∃ me', Computes (fun m => cptRun (m := m) init f.pac t) me' ∧ CptTracks f t me' := by
  induction t with
  | zero => exact ⟨init, Computes.pure _, hInit⟩
  | succ t ih =>
    obtain ⟨me, hRun, hTracks⟩ := ih
    obtain ⟨me', hUpdate, hTracks', -⟩ := cptUpdate_spec hL hTracks
    exact ⟨me', hRun.bind hUpdate, hTracks'⟩

/-- The figures after a run of at least one update. -/
theorem cptRun_figures {init : TCPT ℝ} (hL : 1 ≤ f.L) (hInit : CptTracks f 0 init) (t : ℕ) :
    ∃ me', Computes (fun m => cptRun (m := m) init f.pac (t + 1)) me' ∧
      CptTracks f (t + 1) me' ∧ (CollectiveUnbalancedFigures f t me' ∧ me'.Rated) ∧
      ∀ i, i.val < f.n → UnbalancedFigures f i t (me'.Phase i) ∧ (me'.Phase i).Rated := by
  obtain ⟨me, hRun, hTracks⟩ := cptRun_spec hL hInit t
  obtain ⟨me', hUpdate, hFigures⟩ := cptUpdate_spec hL hTracks
  exact ⟨me', hRun.bind hUpdate, hFigures⟩

/-- The readings after a run of at least one update on several phases. -/
theorem cptRun_reading {init : TCPT ℝ} (hL : 1 ≤ f.L) (hn : f.n ≠ 1)
    (hInit : CptTracks f 0 init) (t : ℕ) :
    ∃ me', Computes (fun m => cptRun (m := m) init f.pac (t + 1)) me' ∧
      CptTracks f (t + 1) me' ∧ me'.reading = f.cptReading t ∧
      ∀ i, i.val < f.n → (me'.Phase i).reading = f.phaseReading i t := by
  obtain ⟨me', hRun, hTracks, ⟨hf, hRated⟩, hp⟩ := cptRun_figures hL hInit t
  exact ⟨me', hRun, hTracks, hf.reading hRated hn, fun i hi => (hp i hi).1.reading (hp i hi).2 hn⟩

end EnergyMeter.Cpt
