import EnergyMeter.Cpt.Factors

/-!
# EnergyMeter — relations between the filters

The filters of the phases and of the collective are updated in different
functions, some of them from temporaries, and each keeps a running sum of its
own. `CptTracks` puts them on one clock, and the relations between their
signals become relations between what they hold:

* `TMAF.Settled` — the mean of a filter is the one of its accumulator, with its
  threshold. An update settles every filter it feeds (`cptUpdate_settled`).
* `SumOfPhases` — a collective filter holds the sum of the filters of the phases.
* `MeansBounded` — Cauchy–Schwarz between means of products and of squares.

Main results:

* `cptRun_sumOfPhases` — the six collective filters that have counterparts in the
  phases are their sums, after every number of updates.
* `cptRun_meansBounded` — the means of the products are bounded, and the reactive
  energy of the collective once an update has set it.
* `cptRun_W_avg_unset` — before the first update it is whatever the memory held.
-/

namespace EnergyMeter.Cpt

open Lib

/-! ## Settled filters -/

/-- The mean of a filter is the one of its accumulator, with its threshold. -/
def TMAF.Settled (me : TMAF ℝ) : Prop :=
  me.MeanValue = threshold me.Threshold_Enabled me.Threshold_Value me.Min
    (me.Accumulator / (me.Buffer.Length : ℝ))

/-- The filters that `CPT_UpdateVoltagesAndCurrents` feeds. -/
structure TPhase.VoltageSettled (p : TPhase ℝ) : Prop where
  V_maf : p.V_maf.Settled
  I_maf : p.I_maf.Settled
  INT_maf : p.INT_maf.Settled
  UI_maf : p.UI_maf.Settled

/-- The filters that the first two functions of an update feed. -/
structure TPhase.Settled (p : TPhase ℝ) : Prop extends p.VoltageSettled where
  P_maf : p.P_maf.Settled
  W_maf : p.W_maf.Settled

/-- The filters that `TPhase.Settled` is about. -/
def TPhase.measured (p : TPhase ℝ) : TMAF ℝ × TMAF ℝ × TMAF ℝ × TMAF ℝ × TMAF ℝ × TMAF ℝ :=
  (p.V_maf, p.I_maf, p.INT_maf, p.UI_maf, p.P_maf, p.W_maf)

/-- A function that leaves these filters as they are leaves them settled. -/
theorem TPhase.Settled.keep {p p' : TPhase ℝ} (h : p.Settled) (hSame : p'.measured = p.measured) :
    p'.Settled := by
  simp only [TPhase.measured, Prod.mk.injEq] at hSame
  obtain ⟨hV, hI, hINT, hUI, hP, hW⟩ := hSame
  exact ⟨⟨hV ▸ h.V_maf, hI ▸ h.I_maf, hINT ▸ h.INT_maf, hUI ▸ h.UI_maf⟩, hP ▸ h.P_maf,
    hW ▸ h.W_maf⟩

/-- `Q` holds of every phase of the configuration. -/
def TCPT.EachPhase (me : TCPT ℝ) (Q : TPhase ℝ → Prop) : Prop :=
  ∀ i : Fin 3, i.val < me.n → Q (me.Phase i)

/-- The filters that `CPT_UpdateCollectiveValues` feeds, and those of the phases
before them. -/
structure TCPT.Settled (me : TCPT ℝ) : Prop where
  V_maf : me.V_maf.Settled
  I_maf : me.I_maf.Settled
  UI_maf : me.UI_maf.Settled
  phase : me.EachPhase TPhase.Settled

/-- What one function establishes, the next may use. -/
theorem run_bind {P Q : TCPT ℝ → Prop} {x : Id (TCPT ℝ)} {next : TCPT ℝ → Id (TCPT ℝ)}
    (h : P x.run) (hNext : ∀ me, P me → Q (next me).run) : Q (x >>= next).run :=
  hNext x.run h

section Update

variable (me : TCPT ℝ) (pac : TPAC ℝ)

theorem cptUpdateVoltagesAndCurrents_settled :
    (cptUpdateVoltagesAndCurrents (m := Id) me pac).run.EachPhase TPhase.VoltageSettled :=
  fun _ hi => mapPhases_post (voltagesAndCurrentsBody me.TSH pac)
    (fun _ _ => ⟨rfl, rfl, rfl, rfl⟩) hi

theorem cptUpdatePowerAndEnergy_settled (h : me.EachPhase TPhase.VoltageSettled) :
    (cptUpdatePowerAndEnergy (m := Id) me pac).run.EachPhase TPhase.Settled := by
  intro i hi
  -- the loop feeds its own two filters and leaves the others as they are
  have hVoltage : ((cptUpdatePowerAndEnergy (m := Id) me pac).run.Phase i).VoltageSettled :=
    mapPhases_inv (powerAndEnergyBody pac)
      (fun _ _ h => ⟨h.V_maf, h.I_maf, h.INT_maf, h.UI_maf⟩) i (h i hi)
  have hPower : ((cptUpdatePowerAndEnergy (m := Id) me pac).run.Phase i).P_maf.Settled ∧
      ((cptUpdatePowerAndEnergy (m := Id) me pac).run.Phase i).W_maf.Settled :=
    mapPhases_post (Q := fun p => p.P_maf.Settled ∧ p.W_maf.Settled) (powerAndEnergyBody pac)
      (fun _ _ => ⟨rfl, rfl⟩) hi
  exact { hVoltage with P_maf := hPower.1, W_maf := hPower.2 }

theorem cptUpdateCollectiveValues_settled (h : me.EachPhase TPhase.Settled) :
    (cptUpdateCollectiveValues (m := Id) me).run.Settled :=
  ⟨rfl, rfl, rfl, h⟩

theorem voidCurrentBody_settled (i : Fin 3) (p : TPhase ℝ) (a : ℝ) (h : p.Settled) :
    (voidCurrentBody (m := Id) pac i p a).run.1.Settled := by
  unfold voidCurrentBody
  -- the two guards of the source decide what the currents become, not the filters
  by_cases hV : p.V_rms = 0 <;> by_cases hUI : p.UnbiasedIntegral_rms = 0 <;>
    simp only [ne_eq, hV, hUI, not_true_eq_false, not_false_eq_true, if_true, if_false] <;>
    exact h.keep rfl

theorem voidCurrents_settled (h : me.Settled) : (voidCurrents (m := Id) me pac).run.Settled :=
  ⟨h.V_maf, h.I_maf, h.UI_maf, fun i hi =>
    forPhases_inv (voidCurrentBody pac) (voidCurrentBody_settled pac) 0 i (h.phase i hi)⟩

theorem balancedCurrents_settled (h : me.Settled) :
    (balancedCurrents (m := Id) me pac).run.Settled := by
  -- the three loops, over any phases
  have hActive : ∀ i, (me.Phase i).Settled →
      ((mapPhases (m := Id) me.n me.Phase (balancedActiveBody me pac)).run i).Settled := fun i =>
    mapPhases_inv (balancedActiveBody me pac)
      (fun _ _ hp => hp.keep rfl) i
  have hReactive : ∀ (P : Fin 3 → TPhase ℝ) (i : Fin 3), (P i).Settled →
      ((mapPhases (m := Id) me.n P (balancedReactiveBody me)).run i).Settled := fun P i =>
    mapPhases_inv (balancedReactiveBody me)
      (fun _ _ hp => hp.keep rfl) i
  have hRms : ∀ (P : Fin 3 → TPhase ℝ) (i : Fin 3), (P i).Settled →
      ((forPhases (m := Id) me.n P (0, 0) balancedRmsBody).run.1 i).Settled := fun P i =>
    forPhases_inv balancedRmsBody
      (fun _ _ _ hp => hp.keep rfl) (0, 0) i
  unfold balancedCurrents
  by_cases hV : me.V_rms = 0 <;> by_cases hUI : me.UI_rms = 0 <;>
    simp only [ne_eq, hV, hUI, not_true_eq_false, not_false_eq_true, if_true, if_false] <;>
    refine ⟨h.V_maf, h.I_maf, h.UI_maf, fun i hi => hRms _ i ?_⟩
  · exact h.phase i hi
  · exact hReactive _ i (h.phase i hi)
  · exact hActive i (h.phase i hi)
  · exact hReactive _ i (hActive i (h.phase i hi))

theorem unbalancedCurrents_settled (h : me.Settled) :
    (unbalancedCurrents (m := Id) me).run.Settled := by
  unfold unbalancedCurrents
  by_cases hn : me.n = 1
  · rw [if_neg (not_not.mpr hn)]
    exact h
  · rw [if_pos hn]
    refine ⟨h.V_maf, h.I_maf, h.UI_maf, fun i hi => ?_⟩
    refine forPhases_inv (fun _ Phase acc => return unbalancedRmsBody Phase acc)
      (fun _ _ _ hp => hp.keep rfl) (0, 0) i ?_
    exact mapPhases_inv (fun _ Phase => return unbalancedBody Phase)
      (fun _ _ hp => hp.keep rfl) i (h.phase i hi)

theorem cptPowerDecomposition_settled (h : me.Settled) :
    (cptPowerDecomposition (m := Id) me).run.Settled :=
  ⟨h.V_maf, h.I_maf, h.UI_maf, fun i hi => mapPhases_inv powerDecompositionBody
    (fun _ _ hp => hp.keep rfl) i (h.phase i hi)⟩

theorem cptEvaluateFactors_settled (h : me.Settled) :
    (cptEvaluateFactors (m := Id) me).run.Settled :=
  ⟨h.V_maf, h.I_maf, h.UI_maf, fun i hi => mapPhases_inv evaluateFactorsBody
    (fun _ _ hp => hp.keep rfl) i (h.phase i hi)⟩

/-- **An update settles the filters it feeds**, from any state. -/
theorem cptUpdate_settled : (cptUpdate (m := Id) me pac).run.Settled := by
  unfold cptUpdate cptCurrentDecomposition
  refine run_bind (P := fun me => me.EachPhase TPhase.VoltageSettled)
    (cptUpdateVoltagesAndCurrents_settled me pac) fun me₁ h₁ => ?_
  refine run_bind (P := fun me => me.EachPhase TPhase.Settled)
    (cptUpdatePowerAndEnergy_settled me₁ pac h₁) fun me₂ h₂ => ?_
  refine run_bind (P := TCPT.Settled) (cptUpdateCollectiveValues_settled me₂ h₂)
    fun me₃ h₃ => ?_
  -- the remaining functions read these filters and feed others
  refine run_bind (P := TCPT.Settled) ?_ fun me₄ h₄ => ?_
  · refine run_bind (P := TCPT.Settled) (voidCurrents_settled me₃ pac h₃) fun me₄ h₄ => ?_
    refine run_bind (P := TCPT.Settled) (balancedCurrents_settled me₄ pac h₄) fun me₅ h₅ => ?_
    exact unbalancedCurrents_settled me₅ h₅
  · exact run_bind (P := TCPT.Settled) (cptPowerDecomposition_settled me₄ h₄)
      cptEvaluateFactors_settled

theorem cptRun_settled (pac : ℕ → TPAC ℝ) (t : ℕ) :
    (cptRun (m := Id) me pac (t + 1)).run.Settled :=
  cptUpdate_settled (cptRun (m := Id) me pac t).run (pac t)

end Update

/-! ## Sums of filters -/

/-- A collective filter of `samples` entries holds the sum of the filters of the
phases: the same head, and the sums of the rings and of the accumulators. -/
structure SumOfPhases (samples : ℕ) (me : TMAF ℝ) (phase : Fin 3 → TMAF ℝ) : Prop where
  Length : me.Buffer.Length = samples ∧ ∀ i, (phase i).Buffer.Length = samples
  Head : ∀ i, (phase i).Head = me.Head
  Data : ∀ k < samples, me.Buffer.Data k = ∑ i, (phase i).Buffer.Data k
  Accumulator : me.Accumulator = ∑ i, (phase i).Accumulator

/-- Filters on one clock whose streams add up. -/
theorem sumOfPhases_of_tracks {L t : ℕ} {enabled : ℤ} {cmp min : ℝ} {x : Fin 3 → ℕ → ℝ}
    {me : TMAF ℝ} {phase : Fin 3 → TMAF ℝ}
    (h : Tracks L enabled cmp min (fun r => ∑ i, x i r) t me)
    (hPhase : ∀ i, Tracks L enabled cmp min (x i) t (phase i)) : SumOfPhases L me phase where
  Length := ⟨h.length, fun i => (hPhase i).length⟩
  Head i := by
    rw [(hPhase i).head, h.head]
  Data k hk := by
    -- an entry of a ring is an item of its stream, or zero before the first turn
    have hEntry : ∀ i, (phase i).Buffer.Data k = winItem L (x i) t k := fun i =>
      (hPhase i).ring.eq_winItem (hPhase i).fresh hk
    rw [h.ring.eq_winItem h.fresh hk, winItem_finset]
    exact Finset.sum_congr rfl fun i _ => (hEntry i).symm
  Accumulator := by
    rw [h.acc, winSum_finset]
    exact Finset.sum_congr rfl fun i _ => (hPhase i).acc.symm

/-- The collective filters that have a counterpart in every phase. -/
structure CollectiveIsSum (samples : ℕ) (me : TCPT ℝ) : Prop where
  V_maf : SumOfPhases samples me.V_maf fun i => (me.Phase i).V_maf
  I_maf : SumOfPhases samples me.I_maf fun i => (me.Phase i).I_maf
  UI_maf : SumOfPhases samples me.UI_maf fun i => (me.Phase i).UI_maf
  Iv_maf : SumOfPhases samples me.Iv_maf fun i => (me.Phase i).Iv_maf
  Iba_maf : SumOfPhases samples me.Iba_maf fun i => (me.Phase i).Iba_maf
  Ibr_maf : SumOfPhases samples me.Ibr_maf fun i => (me.Phase i).Ibr_maf

theorem CptTracks.collectiveIsSum {f : Feed} {t : ℕ} {me : TCPT ℝ} (h : CptTracks f t me)
    (hn : f.n = 3) : CollectiveIsSum f.L me := by
  have hPhase : ∀ i, PhaseAt f i t t t t (me.Phase i) := fun i =>
    h.phase i (by rw [hn]; exact i.isLt)
  -- the loops of three phases sum over all of them
  have hAll : phases f.n = Finset.univ := by rw [hn, phases_three]
  have hV := h.V_maf
  have hI := h.I_maf
  have hUI := h.UI_maf
  have hIv := h.Iv_maf
  have hIba := h.Iba_maf
  have hIbr := h.Ibr_maf
  rw [hAll] at hV hI hUI hIv hIba hIbr
  exact
    { V_maf := sumOfPhases_of_tracks hV fun i => (hPhase i).V_maf
      I_maf := sumOfPhases_of_tracks hI fun i => (hPhase i).I_maf
      UI_maf := sumOfPhases_of_tracks hUI fun i => (hPhase i).UI_maf
      Iv_maf := sumOfPhases_of_tracks hIv fun i => (hPhase i).Iv_maf
      Iba_maf := sumOfPhases_of_tracks hIba fun i => (hPhase i).Iba_maf
      Ibr_maf := sumOfPhases_of_tracks hIbr fun i => (hPhase i).Ibr_maf }

/-! ## Bounds between means -/

section Means

variable {L t : ℕ} {enabled : ℤ} {cmp min : ℝ} {x : ℕ → ℝ} {me : TMAF ℝ}

/-- The mean of a settled filter is the mean of its window. -/
theorem Tracks.meanValue (h : Tracks L enabled cmp min x t me) (hSettled : me.Settled) :
    me.MeanValue = threshold enabled cmp min (winMean L x t) := by
  rw [TMAF.Settled] at hSettled
  rw [hSettled, h.enabled_eq, h.cmp_eq, h.min_eq, h.acc, h.length, winMean]

theorem Floored.meanValue {f : Feed} (h : Floored f x (t + 1) me) (hSettled : me.Settled) :
    me.MeanValue = floorMean (f.mean x t) :=
  Tracks.meanValue h hSettled

theorem Plain.meanValue {f : Feed} (h : Plain f x (t + 1) me) (hSettled : me.Settled) :
    me.MeanValue = f.mean x t := by
  rw [Tracks.meanValue h hSettled, threshold, if_neg (by decide), Feed.mean]

end Means

/-- The means of products are bounded by those of squares, in every phase and over
the phases. -/
structure MeansBounded (me : TCPT ℝ) : Prop where
  P_maf : ∀ i, (me.Phase i).P_maf.MeanValue ^ 2 ≤
    (me.Phase i).V_maf.MeanValue * (me.Phase i).I_maf.MeanValue
  W_maf : ∀ i, (me.Phase i).W_maf.MeanValue ^ 2 ≤
    (me.Phase i).UI_maf.MeanValue * (me.Phase i).I_maf.MeanValue
  sum_P_maf : (∑ i, (me.Phase i).P_maf.MeanValue) ^ 2 ≤ me.V_maf.MeanValue * me.I_maf.MeanValue

/-- The bound on the reactive energy of the collective. -/
def ReactiveBounded (me : TCPT ℝ) : Prop :=
  me.W_avg ^ 2 ≤ me.UI_maf.MeanValue * me.I_maf.MeanValue

/-- **Cauchy–Schwarz** for the phases together, with the floors of the mean squares. -/
theorem sum_mean_mul_sq_le (f : Feed) (s : ℕ) (x y : Fin 3 → ℕ → ℝ) :
    (∑ i ∈ phases f.n, f.mean (fun r => x i r * y i r) s) ^ 2 ≤ f.cms x s * f.cms y s := by
  have hSq : ∀ z : Fin 3 → ℕ → ℝ,
      0 ≤ f.mean (fun r => ∑ i ∈ phases f.n, z i r * z i r) s := fun z =>
    winMean_nonneg fun r => Finset.sum_nonneg fun i _ => mul_self_nonneg (z i r)
  calc (∑ i ∈ phases f.n, f.mean (fun r => x i r * y i r) s) ^ 2
      ≤ f.mean (fun r => ∑ i ∈ phases f.n, x i r * x i r) s *
          f.mean (fun r => ∑ i ∈ phases f.n, y i r * y i r) s :=
        sum_winMean_mul_sq_le (phases f.n)
    _ ≤ f.cms x s * f.cms y s :=
        mul_le_mul (le_floorMean _) (le_floorMean _) (hSq y) (f.cms_pos x s).le

/-- A state whose filters track the samples and are settled. -/
theorem CptTracks.meansBounded {f : Feed} {t : ℕ} {me : TCPT ℝ} (h : CptTracks f (t + 1) me)
    (hSettled : me.Settled) (hn : f.n = 3) : MeansBounded me := by
  have hLt : ∀ i : Fin 3, i.val < f.n := fun i => by rw [hn]; exact i.isLt
  have hPhase : ∀ i, (me.Phase i).Settled := fun i => hSettled.phase i (h.n ▸ hLt i)
  -- each mean in terms of the samples
  have hV : ∀ i, (me.Phase i).V_maf.MeanValue = f.ms (f.V i) t := fun i =>
    (h.phase i (hLt i)).V_maf.meanValue (hPhase i).V_maf
  have hI : ∀ i, (me.Phase i).I_maf.MeanValue = f.ms (f.I i) t := fun i =>
    (h.phase i (hLt i)).I_maf.meanValue (hPhase i).I_maf
  have hUI : ∀ i, (me.Phase i).UI_maf.MeanValue = f.ms (f.UI i) t := fun i =>
    (h.phase i (hLt i)).UI_maf.meanValue (hPhase i).UI_maf
  have hP : ∀ i, (me.Phase i).P_maf.MeanValue = f.mean (fun r => f.V i r * f.I i r) t := fun i =>
    (h.phase i (hLt i)).P_maf.meanValue (hPhase i).P_maf
  have hW : ∀ i, (me.Phase i).W_maf.MeanValue = f.mean (fun r => f.UI i r * f.I i r) t := fun i =>
    (h.phase i (hLt i)).W_maf.meanValue (hPhase i).W_maf
  refine ⟨fun i => ?_, fun i => ?_, ?_⟩
  · rw [hP, hV, hI]
    exact mean_mul_sq_le f t (f.V i) (f.I i)
  · rw [hW, hUI, hI]
    exact mean_mul_sq_le f t (f.UI i) (f.I i)
  · have hcV : me.V_maf.MeanValue = f.cms f.V t := h.V_maf.meanValue hSettled.V_maf
    have hcI : me.I_maf.MeanValue = f.cms f.I t := h.I_maf.meanValue hSettled.I_maf
    have hAll : phases f.n = Finset.univ := by rw [hn, phases_three]
    have hSum := sum_mean_mul_sq_le f t f.V f.I
    rw [hAll] at hSum
    rw [hcV, hcI, Finset.sum_congr rfl fun i _ => hP i]
    exact hSum

theorem CptTracks.reactiveBounded {f : Feed} {t : ℕ} {me : TCPT ℝ} (h : CptTracks f (t + 1) me)
    (hSettled : me.Settled) (hW : me.W_avg = f.cW_avg t) : ReactiveBounded me := by
  have hcUI : me.UI_maf.MeanValue = f.cms f.UI t := h.UI_maf.meanValue hSettled.UI_maf
  have hcI : me.I_maf.MeanValue = f.cms f.I t := h.I_maf.meanValue hSettled.I_maf
  unfold ReactiveBounded
  rw [hW, hcUI, hcI]
  exact sum_mean_mul_sq_le f t f.UI f.I

/-! ### Before the first update -/

theorem FilterInitialised.meanValue {samples : ℕ} {threshold : ℤ} {cmp min : ℝ} {me : TMAF ℝ}
    (h : FilterInitialised samples threshold cmp min me) : me.MeanValue = 0 := by
  obtain ⟨buffer, -, rfl⟩ := h
  rfl

theorem CptInitialised.meansBounded {freq samples : ℕ} {me : TCPT ℝ}
    (h : CptInitialised freq samples 3 me) : MeansBounded me := by
  have hPhase := fun i : Fin 3 => h.phase i i.isLt
  refine ⟨fun i => ?_, fun i => ?_, ?_⟩
  · rw [(hPhase i).P_maf.meanValue, (hPhase i).V_maf.meanValue]
    norm_num
  · rw [(hPhase i).W_maf.meanValue, (hPhase i).UI_maf.meanValue]
    norm_num
  · rw [h.V_maf.meanValue, Finset.sum_congr rfl fun i _ => (hPhase i).P_maf.meanValue]
    norm_num

theorem CptInitialised.reactiveBounded_iff {freq samples n : ℕ} {me : TCPT ℝ}
    (h : CptInitialised freq samples n me) : ReactiveBounded me ↔ me.W_avg = 0 := by
  unfold ReactiveBounded
  rw [h.UI_maf.meanValue, zero_mul]
  exact ⟨fun hLe => pow_eq_zero_iff two_ne_zero |>.mp (le_antisymm hLe (sq_nonneg _)),
    fun hZero => by rw [hZero]; norm_num⟩

/-! ## Runs -/

/-- Three phases of different sizes, growing with time. -/
def rampPac (t : ℕ) : TPAC ℝ := ⟨fun i => t + i.val, fun i => t * i.val⟩

section Runs

variable {freq samples : ℕ} {init cpt : TCPT ℝ} {alloc : Allocator ℝ}

/-- **The collective filters are the sums of the filters of the phases**, after
every number of updates: heads, rings and accumulators. -/
theorem cptRun_sumOfPhases (hSamples : 1 ≤ samples)
    (hConfig : cptConfig (m := Except Fault) init alloc freq samples 3 = .ok (some cpt))
    (pac : ℕ → TPAC ℝ) :
    ∃ st : ℕ → TCPT ℝ, ∀ t, cptRun (m := Except Fault) cpt pac t = .ok (st t) ∧
      CollectiveIsSum samples (st t) := by
  obtain ⟨-, hInit⟩ := cptConfig_tracks hConfig pac
  choose st hRun hTracks using fun t => cptRun_spec hSamples hInit t
  exact ⟨st, fun t => ⟨(hRun t).checked, (hTracks t).collectiveIsSum rfl⟩⟩

theorem cptRun_sumOfPhases_ramp :
    ∃ cpt, cptConfig (m := Except Fault) default .plenty 1 2 3 = .ok (some cpt) ∧
      ∃ st : ℕ → TCPT ℝ, ∀ t, cptRun (m := Except Fault) cpt rampPac t = .ok (st t) ∧
        CollectiveIsSum 2 (st t) := by
  obtain ⟨cpt, hConfig, -⟩ :=
    cptConfig_spec le_rfl 2 (by decide) (Allocator.plenty_suffices 3) default
  exact ⟨cpt, hConfig.checked, cptRun_sumOfPhases (by decide) hConfig.checked _⟩

/-- **Cauchy–Schwarz across the filters**, after every number of updates. The
reactive energy of the collective is within its bound from the first update on,
and before it where the memory held zero. -/
theorem cptRun_meansBounded (hSamples : 1 ≤ samples)
    (hConfig : cptConfig (m := Except Fault) init alloc freq samples 3 = .ok (some cpt))
    (pac : ℕ → TPAC ℝ) :
    ∃ st : ℕ → TCPT ℝ, ∀ t, cptRun (m := Except Fault) cpt pac t = .ok (st t) ∧
      MeansBounded (st t) ∧ (0 < t ∨ init.W_avg = 0 → ReactiveBounded (st t)) := by
  obtain ⟨-, hInit⟩ := cptConfig_ok hConfig
  -- one state for each number of updates, the first of them by the configuration
  have hStates : ∀ t, ∃ me, cptRun (m := Except Fault) cpt pac t = .ok me ∧
      MeansBounded me ∧ (0 < t ∨ init.W_avg = 0 → ReactiveBounded me) := by
    intro t
    cases t with
    | zero =>
      refine ⟨cpt, rfl, hInit.meansBounded, fun h => hInit.reactiveBounded_iff.mpr ?_⟩
      rw [cptConfig_W_avg hConfig]
      exact h.resolve_left (lt_irrefl 0)
    | succ t =>
      obtain ⟨me, hRun, hTracks, hFigures, -⟩ :=
        cptRun_figures (f := ⟨samples, 3, 1 / freq, pac⟩) hSamples (hInit.tracks le_rfl pac) t
      have hSettled : me.Settled := by
        rw [← hRun.total]
        exact cptRun_settled cpt pac t
      exact ⟨me, hRun.checked, hTracks.meansBounded hSettled rfl,
        fun _ => hTracks.reactiveBounded hSettled hFigures.1.W_avg⟩
  choose st hStates using hStates
  exact ⟨st, hStates⟩

theorem cptRun_meansBounded_ramp :
    ∃ cpt, cptConfig (m := Except Fault) default .plenty 1 2 3 = .ok (some cpt) ∧
      ∃ st : ℕ → TCPT ℝ, ∀ t, cptRun (m := Except Fault) cpt rampPac t = .ok (st t) ∧
        MeansBounded (st t) ∧
          (0 < t ∨ (default : TCPT ℝ).W_avg = 0 → ReactiveBounded (st t)) := by
  obtain ⟨cpt, hConfig, -⟩ :=
    cptConfig_spec le_rfl 2 (by decide) (Allocator.plenty_suffices 3) default
  exact ⟨cpt, hConfig.checked, cptRun_meansBounded (by decide) hConfig.checked _⟩

/-- **Before the first update** the reactive energy of the collective is what the
memory held, and the means of its bound are zero. -/
theorem cptRun_W_avg_unset :
    ∃ cpt, cptConfig (m := Except Fault) { (default : TCPT ℝ) with W_avg := 1 } .plenty 1 1 3 =
        .ok (some cpt) ∧
      ∀ pac : ℕ → TPAC ℝ, cptRun (m := Except Fault) cpt pac 0 = .ok cpt ∧
        ¬ ReactiveBounded cpt := by
  obtain ⟨cpt, hConfig, hInit⟩ :=
    cptConfig_initialised le_rfl 1 (by decide) (Allocator.plenty_suffices 3)
      { (default : TCPT ℝ) with W_avg := 1 }
  refine ⟨cpt, hConfig.checked, fun pac => ⟨rfl, fun h => ?_⟩⟩
  have hW : cpt.W_avg = 1 := cptConfig_W_avg hConfig.checked
  rw [hInit.reactiveBounded_iff, hW] at h
  exact one_ne_zero h

end Runs

end EnergyMeter.Cpt
