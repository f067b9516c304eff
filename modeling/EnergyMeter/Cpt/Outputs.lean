import EnergyMeter.Cpt.Config

/-!
# EnergyMeter — what the outputs owe to uninitialised memory

The phases come from `malloc`, and `CPT_Config` and `Phase_Init` set a part of
their fields only. On several phases every other field is written before it is
read. On a single phase `CPT_CurrentDecomposition` leaves the unbalanced
currents out, but `CPT_PowerDecomposition` still reads their rms values:
`CPT_Config` clears them for the collective, `Phase_Init` does not clear them
for the phase.

* `cptUpdate_kept` — on a single phase no update writes the rms values of the
  unbalanced currents.

Main results:

* `cptRun_outputs_iff` — when two runs from different memory publish the same.
* `cptRun_outputs_garbage` — two runs that do not.
-/

namespace EnergyMeter.Cpt

open Lib

/-! ## What a single phase keeps -/

section Frame

variable {A γ : Type} {n : ℕ} {Phase : Fin 3 → TPhase ℝ}

/-- A field that no iteration of a loop writes is the same afterwards. -/
theorem forPhases_kept (field : TPhase ℝ → γ) (body : Fin 3 → TPhase ℝ → A → Id (TPhase ℝ × A))
    (hBody : ∀ i p a, field (body i p a).run.1 = field p) (acc : A) (i : Fin 3) :
    field ((forPhases (m := Id) n Phase acc body).run.1 i) = field (Phase i) :=
  forPhases_inv (Q := fun p => field p = field (Phase i)) body
    (fun i p a h => (hBody i p a).trans h) acc i rfl

theorem mapPhases_kept (field : TPhase ℝ → γ) (body : Fin 3 → TPhase ℝ → Id (TPhase ℝ))
    (hBody : ∀ i p, field (body i p).run = field p) (i : Fin 3) :
    field ((mapPhases (m := Id) n Phase body).run i) = field (Phase i) :=
  forPhases_kept (n := n) field
    (fun i p (_ : Unit) => do return (← body i p, ())) (fun i p _ => hBody i p) () i

end Frame

/-- The rms values of the unbalanced currents of a phase. -/
def TPhase.unbalancedRms (p : TPhase ℝ) : ℝ × ℝ := (p.Iua_rms, p.Iur_rms)

/-- `me'` has the number of phases of `me`, and its rms values of the unbalanced
currents. -/
structure Kept (me me' : TCPT ℝ) : Prop where
  n : me'.n = me.n
  Iua_rms : me'.Iua_rms = me.Iua_rms
  Iur_rms : me'.Iur_rms = me.Iur_rms
  phase : ∀ i, (me'.Phase i).unbalancedRms = (me.Phase i).unbalancedRms

theorem Kept.trans {me me' me'' : TCPT ℝ} (h : Kept me me') (h' : Kept me' me'') :
    Kept me me'' :=
  ⟨h'.n.trans h.n, h'.Iua_rms.trans h.Iua_rms, h'.Iur_rms.trans h.Iur_rms,
    fun i => (h'.phase i).trans (h.phase i)⟩

theorem Kept.bind {me : TCPT ℝ} {x : Id (TCPT ℝ)} {next : TCPT ℝ → Id (TCPT ℝ)}
    (h : Kept me x.run) (hNext : ∀ me', me'.n = me.n → Kept me' (next me').run) :
    Kept me (x >>= next).run :=
  h.trans (hNext x.run h.n)

section Update

variable (me : TCPT ℝ) (pac : TPAC ℝ)

theorem cptUpdateVoltagesAndCurrents_kept :
    Kept me (cptUpdateVoltagesAndCurrents (m := Id) me pac).run :=
  ⟨rfl, rfl, rfl, mapPhases_kept TPhase.unbalancedRms
    (voltagesAndCurrentsBody me.TSH pac) fun _ _ => rfl⟩

theorem cptUpdatePowerAndEnergy_kept :
    Kept me (cptUpdatePowerAndEnergy (m := Id) me pac).run :=
  ⟨rfl, rfl, rfl, mapPhases_kept TPhase.unbalancedRms
    (powerAndEnergyBody pac) fun _ _ => rfl⟩

theorem cptUpdateCollectiveValues_kept : Kept me (cptUpdateCollectiveValues (m := Id) me).run :=
  ⟨rfl, rfl, rfl, fun _ => rfl⟩

theorem voidCurrentBody_kept (i : Fin 3) (p : TPhase ℝ) (a : ℝ) :
    (voidCurrentBody (m := Id) pac i p a).run.1.unbalancedRms = p.unbalancedRms := by
  unfold voidCurrentBody
  -- the two guards of the source decide what the currents become, not what is kept
  by_cases hV : p.V_rms = 0 <;> by_cases hUI : p.UnbiasedIntegral_rms = 0 <;>
    simp only [ne_eq, hV, hUI, not_true_eq_false, not_false_eq_true, if_true, if_false] <;> rfl

theorem voidCurrents_kept : Kept me (voidCurrents (m := Id) me pac).run :=
  ⟨rfl, rfl, rfl, forPhases_kept TPhase.unbalancedRms
    (voidCurrentBody pac) (voidCurrentBody_kept pac) 0⟩

theorem balancedCurrents_kept : Kept me (balancedCurrents (m := Id) me pac).run := by
  -- the loops, over any phases that still keep what the phases of `me` have
  have hActive : ∀ i, ((mapPhases (m := Id) me.n me.Phase
      (balancedActiveBody me pac)).run i).unbalancedRms = (me.Phase i).unbalancedRms :=
    mapPhases_kept TPhase.unbalancedRms (balancedActiveBody me pac) fun _ _ => rfl
  have hReactive : ∀ P : Fin 3 → TPhase ℝ,
      (∀ i, (P i).unbalancedRms = (me.Phase i).unbalancedRms) →
      ∀ i, ((mapPhases (m := Id) me.n P (balancedReactiveBody me)).run i).unbalancedRms =
        (me.Phase i).unbalancedRms := fun P hP i =>
    (mapPhases_kept TPhase.unbalancedRms (balancedReactiveBody me)
      (fun _ _ => rfl) i).trans (hP i)
  have hRms : ∀ P : Fin 3 → TPhase ℝ,
      (∀ i, (P i).unbalancedRms = (me.Phase i).unbalancedRms) →
      ∀ i, ((forPhases (m := Id) me.n P (0, 0) balancedRmsBody).run.1 i).unbalancedRms =
        (me.Phase i).unbalancedRms := fun P hP i =>
    (forPhases_kept TPhase.unbalancedRms balancedRmsBody
      (fun _ _ _ => rfl) (0, 0) i).trans (hP i)
  unfold balancedCurrents
  by_cases hV : me.V_rms = 0 <;> by_cases hUI : me.UI_rms = 0 <;>
    simp only [ne_eq, hV, hUI, not_true_eq_false, not_false_eq_true, if_true, if_false]
  · exact ⟨rfl, rfl, rfl, hRms _ fun _ => rfl⟩
  · exact ⟨rfl, rfl, rfl, hRms _ (hReactive _ fun _ => rfl)⟩
  · exact ⟨rfl, rfl, rfl, hRms _ hActive⟩
  · exact ⟨rfl, rfl, rfl, hRms _ (hReactive _ hActive)⟩

/-- On a single phase the unbalanced currents are left out. -/
theorem unbalancedCurrents_kept (hn : me.n = 1) :
    Kept me (unbalancedCurrents (m := Id) me).run := by
  have hSame : unbalancedCurrents (m := Id) me = pure me := if_neg (not_not.mpr hn)
  rw [hSame]
  exact ⟨rfl, rfl, rfl, fun _ => rfl⟩

theorem cptCurrentDecomposition_kept (hn : me.n = 1) :
    Kept me (cptCurrentDecomposition (m := Id) me pac).run :=
  (voidCurrents_kept me pac).bind fun _ h₁ =>
  (balancedCurrents_kept _ pac).bind fun _ h₂ => unbalancedCurrents_kept _ (h₂.trans (h₁.trans hn))

theorem cptPowerDecomposition_kept : Kept me (cptPowerDecomposition (m := Id) me).run :=
  ⟨rfl, rfl, rfl, mapPhases_kept TPhase.unbalancedRms
    powerDecompositionBody fun _ _ => rfl⟩

theorem cptEvaluateFactors_kept : Kept me (cptEvaluateFactors (m := Id) me).run :=
  ⟨rfl, rfl, rfl, mapPhases_kept TPhase.unbalancedRms
    evaluateFactorsBody fun _ _ => rfl⟩

/-- **On a single phase no update writes the rms values of the unbalanced
currents**, neither those of the phase nor those of the collective. -/
theorem cptUpdate_kept (hn : me.n = 1) : Kept me (cptUpdate (m := Id) me pac).run :=
  (cptUpdateVoltagesAndCurrents_kept me pac).bind fun _ h₁ =>
  (cptUpdatePowerAndEnergy_kept _ pac).bind fun _ h₂ =>
  (cptUpdateCollectiveValues_kept _).bind fun _ h₃ =>
  (cptCurrentDecomposition_kept _ pac (h₃.trans (h₂.trans (h₁.trans hn)))).bind fun _ _ =>
  (cptPowerDecomposition_kept _).bind fun _ _ => cptEvaluateFactors_kept _

theorem cptRun_kept (hn : me.n = 1) (pac : ℕ → TPAC ℝ) (t : ℕ) :
    Kept me (cptRun (m := Id) me pac t).run := by
  induction t with
  | zero => exact ⟨rfl, rfl, rfl, fun _ => rfl⟩
  | succ t ih =>
    rw [cptRun]
    exact ih.bind fun me' h => cptUpdate_kept me' (pac t) (h.trans hn)

end Update

/-! ## Outputs -/

/-- The powers, rms values and factors of a phase. -/
structure PhaseOutputs where
  V_rms : ℝ
  I_rms : ℝ
  UnbiasedIntegral_rms : ℝ
  Iba_rms : ℝ
  Ibr_rms : ℝ
  Iv_rms : ℝ
  Iua_rms : ℝ
  Iur_rms : ℝ
  P_avg : ℝ
  W_avg : ℝ
  power : PowerSet

def TPhase.outputs (p : TPhase ℝ) : PhaseOutputs where
  V_rms := p.V_rms
  I_rms := p.I_rms
  UnbiasedIntegral_rms := p.UnbiasedIntegral_rms
  Iba_rms := p.Iba_rms
  Ibr_rms := p.Ibr_rms
  Iv_rms := p.Iv_rms
  Iua_rms := p.Iua_rms
  Iur_rms := p.Iur_rms
  P_avg := p.P_avg
  W_avg := p.W_avg
  power := p.power

/-- The outputs of a phase at sample `s`, by the rms values of its unbalanced
currents. -/
noncomputable def Feed.phaseOutputs (f : Feed) (i : Fin 3) (s : ℕ) (u : ℝ × ℝ) :
    PhaseOutputs where
  V_rms := f.rms (f.V i) s
  I_rms := f.rms (f.I i) s
  UnbiasedIntegral_rms := f.rms (f.UI i) s
  Iba_rms := f.rms (f.Iba i) s
  Ibr_rms := f.rms (f.Ibr i) s
  Iv_rms := f.rms (f.Iv i) s
  Iua_rms := u.1
  Iur_rms := u.2
  P_avg := f.P_avg i s
  W_avg := f.W_avg i s
  power := powerSet limitOne (f.P_avg i s) (f.rms (f.V i) s) (f.rms (f.I i) s)
    (f.rms (f.Ibr i) s) u.1 u.2 (f.rms (f.Iv i) s)

/-- The outputs of the collective at sample `s`, by the rms values of its
unbalanced currents. -/
noncomputable def Feed.cptOutputs (f : Feed) (s : ℕ) (u : ℝ × ℝ) : CptReading :=
  { f.cptReading s with
    Iua_rms := u.1
    Iur_rms := u.2
    power := powerSet id (f.cP_avg s) (f.crms f.V s) (f.crms f.I s) (f.crms f.Ibr s)
      u.1 u.2 (f.crms f.Iv s) }

section Outputs

variable {f : Feed} {i : Fin 3} {t : ℕ} {p : TPhase ℝ} {me : TCPT ℝ}

theorem UnbalancedFigures.outputs (h : UnbalancedFigures f i t p) (hRated : p.Rated) :
    p.outputs = f.phaseOutputs i t p.unbalancedRms := by
  rw [TPhase.Rated] at hRated
  simp only [TPhase.outputs, Feed.phaseOutputs, TPhase.unbalancedRms, hRated, h.V_rms, h.I_rms,
    h.UnbiasedIntegral_rms, h.P_avg, h.W_avg, h.Iba_rms, h.Ibr_rms, h.Iv_rms]

theorem CollectiveUnbalancedFigures.outputs (h : CollectiveUnbalancedFigures f t me)
    (hRated : me.Rated) : me.reading = f.cptOutputs t (me.Iua_rms, me.Iur_rms) := by
  rw [TCPT.Rated] at hRated
  simp only [TCPT.reading, Feed.cptOutputs, Feed.cptReading, hRated, h.V_rms, h.I_rms, h.UI_rms,
    h.P_avg, h.W_avg, h.Iba_rms, h.Ibr_rms, h.Iv_rms]

end Outputs

/-- The rms values of the unbalanced currents of phase `i` after sample `s` of a
run from `init`: on a single phase what the memory held, elsewhere what the
update assigns. -/
noncomputable def Feed.leftRms (f : Feed) (init : TCPT ℝ) (i : Fin 3) (s : ℕ) : ℝ × ℝ :=
  if f.n = 1 then (init.Phase i).unbalancedRms
  else (f.Iua i s * f.Iua i s, f.Iur i s * f.Iur i s)

section Runs

variable {freq samples n : ℕ} {cpt cpt' : TCPT ℝ}

/-- The outputs of a run from initialised memory. -/
theorem cptRun_outputs (hSamples : 1 ≤ samples) (hn : n ≤ 3)
    (h : CptInitialised freq samples n cpt) (pac : ℕ → TPAC ℝ) (t : ℕ) :
    let f : Feed := ⟨samples, n, 1 / freq, pac⟩
    ∃ me, cptRun (m := Except Fault) cpt pac (t + 1) = .ok me ∧
      me.reading = f.cptOutputs t (if n = 1 then (0, 0) else (f.crms f.Iua t, f.crms f.Iur t)) ∧
      ∀ i, i.val < n → (me.Phase i).outputs = f.phaseOutputs i t (f.leftRms cpt i t) := by
  intro f
  obtain ⟨me, hRun, -, ⟨hCpt, hRated⟩, hPhase⟩ :=
    cptRun_figures (f := f) hSamples (h.tracks hn pac) t
  refine ⟨me, hRun.checked, ?_, fun i hi => ?_⟩
  · rw [hCpt.outputs hRated]
    split
    · rename_i h1
      -- the run has kept what `CPT_Config` cleared
      have hKept := cptRun_kept cpt (h.n.trans h1) pac (t + 1)
      rw [hRun.total] at hKept
      rw [hKept.Iua_rms, hKept.Iur_rms, h.Iua_rms, h.Iur_rms]
    · rename_i h1
      rw [hCpt.Iua_rms h1, hCpt.Iur_rms h1]
  · rw [(hPhase i hi).1.outputs (hPhase i hi).2, Feed.leftRms]
    split
    · rename_i h1
      -- nothing has cleared what the memory of the phase held
      have hKept := cptRun_kept cpt (h.n.trans h1) pac (t + 1)
      rw [hRun.total] at hKept
      rw [hKept.phase i]
    · rename_i h1
      rw [TPhase.unbalancedRms, (hPhase i hi).1.Iua_rms h1, (hPhase i hi).1.Iur_rms h1]

/-- The outputs of a phase tell the rms values of its unbalanced currents. -/
theorem Feed.phaseOutputs_inj {f : Feed} {i : Fin 3} {s : ℕ} {u u' : ℝ × ℝ} :
    f.phaseOutputs i s u = f.phaseOutputs i s u' ↔ u = u' := by
  refine ⟨fun h => Prod.ext ?_ ?_, fun h => by rw [h]⟩
  · exact congrArg PhaseOutputs.Iua_rms h
  · exact congrArg PhaseOutputs.Iur_rms h

/-- **What the outputs owe to the memory.** Two runs on the same samples from
initialised states give the same powers, rms values and factors, of the
collective and of every phase, if and only if the theory runs on several phases
or the memory of its only phase held the same rms values of the unbalanced
currents. -/
theorem cptRun_outputs_iff (hSamples : 1 ≤ samples) (hn : 1 ≤ n ∧ n ≤ 3)
    (h : CptInitialised freq samples n cpt) (h' : CptInitialised freq samples n cpt')
    (pac : ℕ → TPAC ℝ) (t : ℕ) :
    ∃ me me', cptRun (m := Except Fault) cpt pac (t + 1) = .ok me ∧
      cptRun (m := Except Fault) cpt' pac (t + 1) = .ok me' ∧
      ((me.reading = me'.reading ∧
          ∀ i, i.val < n → (me.Phase i).outputs = (me'.Phase i).outputs) ↔
        (n = 1 → (cpt.Phase 0).unbalancedRms = (cpt'.Phase 0).unbalancedRms)) := by
  obtain ⟨me, hRun, hCpt, hPhase⟩ := cptRun_outputs hSamples hn.2 h pac t
  obtain ⟨me', hRun', hCpt', hPhase'⟩ := cptRun_outputs hSamples hn.2 h' pac t
  refine ⟨me, me', hRun, hRun', ?_, fun hSame => ⟨hCpt.trans hCpt'.symm, fun i hi => ?_⟩⟩
  · rintro ⟨-, hOutputs⟩ rfl
    -- the outputs of the only phase tell what its memory held
    have h0 := hOutputs 0 Nat.one_pos
    rw [hPhase 0 Nat.one_pos, hPhase' 0 Nat.one_pos, Feed.phaseOutputs_inj] at h0
    exact h0
  · rw [hPhase i hi, hPhase' i hi, Feed.phaseOutputs_inj, Feed.leftRms, Feed.leftRms]
    split
    · rename_i h1
      have hi0 : i = 0 := Fin.ext (by change n = 1 at h1; change i.val = 0; omega)
      rw [hi0]
      exact hSame h1
    · rfl

end Runs

/-! ## Two runs on one phase -/

/-- A phase as `CPT_Config` and `Phase_Init` leave it, with its rings from `block` on, in memory
that held `p`. -/
noncomputable def TPhase.initialised (samples block : ℕ) (p : TPhase ℝ) : TPhase ℝ :=
  let floored k := movingAverageFilterInit ⟨block + k, fun _ => 0, samples⟩ useThreshold 0 thrMin
  let plain k := movingAverageFilterInit ⟨block + k, fun _ => 0, samples⟩ 0 0 0
  phaseInit { p with
    V_maf := floored 0, I_maf := floored 1, P_maf := plain 2, W_maf := plain 3
    UI_maf := floored 4, INT_maf := plain 5, Iba_maf := floored 6, Ibr_maf := floored 7
    Iv_maf := floored 8 }

/-- A state as `CPT_Config` leaves it, in memory that held `me`. -/
noncomputable def TCPT.initialised (freq samples n : ℕ) (me : TCPT ℝ) : TCPT ℝ :=
  let floored k := movingAverageFilterInit ⟨9 * n + k, fun _ => 0, samples⟩ useThreshold 0 thrMin
  { me with
    Phase := fun i => (me.Phase i).initialised samples (9 * i.val)
    Iba_maf := floored 0, Iua_maf := floored 1, Ibr_maf := floored 2, Iur_maf := floored 3
    Iv_maf := floored 4, I_maf := floored 5, V_maf := floored 6, UI_maf := floored 7
    TSH := 1 / freq, samples, n
    Iba_rms := 0, Iua_rms := 0, Ibr_rms := 0, Iur_rms := 0, Iv_rms := 0 }

theorem TCPT.cptInitialised (freq samples n : ℕ) (me : TCPT ℝ) :
    CptInitialised freq samples n (me.initialised freq samples n) := by
  have hMaf : ∀ (block : ℕ) (threshold : ℤ) (min : ℝ), FilterInitialised samples threshold 0 min
      (movingAverageFilterInit ⟨block, fun _ => 0, samples⟩ threshold 0 min) :=
    fun _ _ _ => ⟨_, rfl, rfl⟩
  exact ⟨fun j _ => ⟨hMaf _ _ _, hMaf _ _ _, hMaf _ _ _, hMaf _ _ _, hMaf _ _ _, hMaf _ _ _,
      hMaf _ _ _, hMaf _ _ _, hMaf _ _ _, rfl, rfl, rfl, rfl, rfl, rfl, rfl, rfl⟩,
    hMaf _ _ _, hMaf _ _ _, hMaf _ _ _, hMaf _ _ _, hMaf _ _ _, hMaf _ _ _, hMaf _ _ _, hMaf _ _ _,
    rfl, rfl, rfl, rfl, rfl, rfl, rfl, rfl⟩

/-- Memory that holds `u` where the rms value of the unbalanced active current of
every phase will be. -/
noncomputable def memoryOf (u : ℝ) : TCPT ℝ :=
  { (default : TCPT ℝ) with Phase := fun _ => { (default : TPhase ℝ) with Iua_rms := u } }

/-- One update on three phases, from different memory. -/
theorem cptRun_outputs_iff_three :
    ∃ me me', cptRun (m := Except Fault) ((memoryOf 0).initialised 1 1 3)
        (fun _ => ⟨fun _ => 1, fun _ => 1⟩) 1 = .ok me ∧
      cptRun (m := Except Fault) ((memoryOf 1).initialised 1 1 3)
        (fun _ => ⟨fun _ => 1, fun _ => 1⟩) 1 = .ok me' ∧
      me.reading = me'.reading ∧ ∀ i, i.val < 3 → (me.Phase i).outputs = (me'.Phase i).outputs := by
  obtain ⟨me, me', hRun, hRun', hIff⟩ := cptRun_outputs_iff le_rfl (by decide)
    (TCPT.cptInitialised 1 1 3 (memoryOf 0)) (TCPT.cptInitialised 1 1 3 (memoryOf 1))
    (fun _ => ⟨fun _ => 1, fun _ => 1⟩) 0
  exact ⟨me, me', hRun, hRun', hIff.mpr (by decide)⟩

/-- **Outputs from uninitialised memory.** One update on a single phase, from
memory that held 0 and from memory that held 1: the rms value of the unbalanced
active current is what the memory held, and the unbalanced active powers
differ. -/
theorem cptRun_outputs_garbage :
    ∃ me me', cptRun (m := Except Fault) ((memoryOf 0).initialised 1 1 1)
        (fun _ => ⟨fun _ => 1, fun _ => 1⟩) 1 = .ok me ∧
      cptRun (m := Except Fault) ((memoryOf 1).initialised 1 1 1)
        (fun _ => ⟨fun _ => 1, fun _ => 1⟩) 1 = .ok me' ∧
      (me.Phase 0).Iua_rms = 0 ∧ (me'.Phase 0).Iua_rms = 1 ∧
      (me.Phase 0).Na ≠ (me'.Phase 0).Na := by
  obtain ⟨me, hRun, -, hPhase⟩ := cptRun_outputs le_rfl (by decide)
    (TCPT.cptInitialised 1 1 1 (memoryOf 0)) (fun _ => ⟨fun _ => 1, fun _ => 1⟩) 0
  obtain ⟨me', hRun', -, hPhase'⟩ := cptRun_outputs le_rfl (by decide)
    (TCPT.cptInitialised 1 1 1 (memoryOf 1)) (fun _ => ⟨fun _ => 1, fun _ => 1⟩) 0
  let f : Feed := ⟨1, 1, 1 / (1 : ℕ), fun _ => ⟨fun _ => 1, fun _ => 1⟩⟩
  -- the power is a product with what the memory held
  have hNa : (me.Phase 0).Na = f.rms (f.V 0) 0 * 0 :=
    congrArg (fun o => o.power.Na) (hPhase 0 Nat.one_pos)
  have hNa' : (me'.Phase 0).Na = f.rms (f.V 0) 0 * 1 :=
    congrArg (fun o => o.power.Na) (hPhase' 0 Nat.one_pos)
  refine ⟨me, me', hRun, hRun', congrArg PhaseOutputs.Iua_rms (hPhase 0 Nat.one_pos),
    congrArg PhaseOutputs.Iua_rms (hPhase' 0 Nat.one_pos), ?_⟩
  rw [hNa, hNa', mul_zero, mul_one]
  exact (f.rms_pos _ 0).ne

end EnergyMeter.Cpt
