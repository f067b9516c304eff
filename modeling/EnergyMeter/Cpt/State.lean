import EnergyMeter.Cpt.Signals

/-!
# EnergyMeter — the states of the power theory

What the state of `CPT.c` is, in terms of the signals of `Cpt.Signals`: every
filter tracks its signal (`CptTracks`), and every field that an update sets
holds the figure of the newest sample. An update passes through states in
which some filters have taken the newest sample and others have not, so the
predicates come in groups, one for each function that `CPT_Update` calls.
-/

namespace EnergyMeter.Cpt

open Lib

/-! ## Filters and roots -/

/-- A filter of the feed with the floor `THR_MIN`. -/
abbrev Floored (f : Feed) (x : ℕ → ℝ) (t : ℕ) (me : TMAF ℝ) : Prop :=
  Tracks f.L useThreshold 0 thrMin x t me

/-- A filter of the feed without a threshold. -/
abbrev Plain (f : Feed) (x : ℕ → ℝ) (t : ℕ) (me : TMAF ℝ) : Prop :=
  Tracks f.L 0 0 0 x t me

theorem Floored.update_MeanValue {f : Feed} {x : ℕ → ℝ} {t : ℕ} {me : TMAF ℝ}
    (h : Floored f x t me) (hL : 1 ≤ f.L) :
    (me.update (x t)).MeanValue = floorMean (f.mean x t) :=
  Tracks.update_MeanValue h hL

theorem Plain.update_MeanValue {f : Feed} {x : ℕ → ℝ} {t : ℕ} {me : TMAF ℝ}
    (h : Plain f x t me) (hL : 1 ≤ f.L) :
    (me.update (x t)).MeanValue = f.mean x t := by
  rw [Tracks.update_MeanValue h hL, threshold, if_neg (by decide), Feed.mean]

/-- The root of a mean with its floor: the floor of `RMS_Evaluate` is never
reached. -/
noncomputable def rmsTotal (input : ℝ) : ℝ := (rmsEvaluate (m := Id) input).run

theorem rmsEvaluate_eq {m : Type → Type} [Monad m] [LawfulMonad m] [MonadRequire m]
    [LawfulRequire m] (input : ℝ) : (rmsEvaluate input : m ℝ) = pure (rmsTotal input) := by
  have h : 0 ≤ if input ≤ 0 then (1 : ℝ) / 100000 else input := by
    split
    · norm_num
    · rename_i hpos
      exact (not_le.mp hpos).le
  rw [rmsEvaluate, fsqrt_of_nonneg h]
  rfl

theorem rmsTotal_floorMean (mean : ℝ) : rmsTotal (floorMean mean) = √(floorMean mean) := by
  show √(if floorMean mean ≤ 0 then _ else _) = _
  rw [if_neg (not_le.mpr (floorMean_pos mean))]

theorem Floored.rms {f : Feed} {x : ℕ → ℝ} {t : ℕ} {me : TMAF ℝ}
    (h : Floored f (fun r => x r * x r) t me) (hL : 1 ≤ f.L) :
    rmsTotal (me.update (x t * x t)).MeanValue = f.rms x t := by
  rw [Floored.update_MeanValue h hL, rmsTotal_floorMean, Feed.rms, Feed.ms]

theorem Floored.crms {f : Feed} {x : Fin 3 → ℕ → ℝ} {t : ℕ} {me : TMAF ℝ}
    (h : Floored f (fun r => ∑ i ∈ phases f.n, x i r * x i r) t me) (hL : 1 ≤ f.L) :
    rmsTotal (me.update (∑ i ∈ phases f.n, x i t * x i t)).MeanValue = f.crms x t := by
  rw [Floored.update_MeanValue h hL, rmsTotal_floorMean, Feed.crms, Feed.cms]

/-! ## What a state holds -/

/-- The newest of the first `t` items, and zero before the first. -/
def last (x : ℕ → ℝ) : ℕ → ℝ
  | 0 => 0
  | t + 1 => x t

theorem integral_step (f : Feed) (i : Fin 3) (t : ℕ) :
    last (f.Integral i) t + f.TSH / 2 * (f.V i t + last (f.V i) t) = f.Integral i t := by
  cases t with
  | zero =>
    show 0 + f.TSH / 2 * (f.V i 0 + 0) = f.TSH / 2 * f.V i 0
    ring
  | succ t => rfl

section State

variable (f : Feed) (i : Fin 3) (t : ℕ)

/-- Filters and integral of `CPT_UpdateVoltagesAndCurrents`. -/
structure VoltageTracks (p : TPhase ℝ) : Prop where
  V_maf : Floored f (fun r => f.V i r * f.V i r) t p.V_maf
  I_maf : Floored f (fun r => f.I i r * f.I i r) t p.I_maf
  INT_maf : Plain f (f.Integral i) t p.INT_maf
  UI_maf : Floored f (fun r => f.UI i r * f.UI i r) t p.UI_maf
  Integral : p.Integral = last (f.Integral i) t
  Integral_lastInput : p.Integral_lastInput = last (f.V i) t

/-- Filters of `CPT_UpdatePowerAndEnergy`. -/
structure PowerTracks (p : TPhase ℝ) : Prop where
  P_maf : Plain f (fun r => f.V i r * f.I i r) t p.P_maf
  W_maf : Plain f (fun r => f.UI i r * f.I i r) t p.W_maf

/-- Filters of the balanced currents. -/
structure BalancedTracks (p : TPhase ℝ) : Prop where
  Iba_maf : Floored f (fun r => f.Iba i r * f.Iba i r) t p.Iba_maf
  Ibr_maf : Floored f (fun r => f.Ibr i r * f.Ibr i r) t p.Ibr_maf

/-- The filter of the void current. -/
structure VoidTracks (p : TPhase ℝ) : Prop where
  Iv_maf : Floored f (fun r => f.Iv i r * f.Iv i r) t p.Iv_maf

/-- A phase in the middle of an update: `a`, `b`, `c` and `d` count the samples
that the four groups of filters have taken. -/
structure PhaseAt (a b c d : ℕ) (p : TPhase ℝ) : Prop extends
  VoltageTracks f i a p, PowerTracks f i b p, VoidTracks f i c p, BalancedTracks f i d p

/-- The filters of the collective that follow a signal of every phase. -/
structure CollectiveTracks (me : TCPT ℝ) : Prop where
  V_maf : Floored f (fun r => ∑ i ∈ phases f.n, f.V i r * f.V i r) t me.V_maf
  I_maf : Floored f (fun r => ∑ i ∈ phases f.n, f.I i r * f.I i r) t me.I_maf
  UI_maf : Floored f (fun r => ∑ i ∈ phases f.n, f.UI i r * f.UI i r) t me.UI_maf

structure CollectiveVoidTracks (me : TCPT ℝ) : Prop where
  Iv_maf : Floored f (fun r => ∑ i ∈ phases f.n, f.Iv i r * f.Iv i r) t me.Iv_maf

structure CollectiveBalancedTracks (me : TCPT ℝ) : Prop where
  Iba_maf : Floored f (fun r => ∑ i ∈ phases f.n, f.Iba i r * f.Iba i r) t me.Iba_maf
  Ibr_maf : Floored f (fun r => ∑ i ∈ phases f.n, f.Ibr i r * f.Ibr i r) t me.Ibr_maf

/-- On a single phase the filters of the unbalanced currents stay idle. -/
structure CollectiveUnbalancedTracks (me : TCPT ℝ) : Prop where
  Iua_maf : f.n ≠ 1 →
    Floored f (fun r => ∑ i ∈ phases f.n, f.Iua i r * f.Iua i r) t me.Iua_maf
  Iur_maf : f.n ≠ 1 →
    Floored f (fun r => ∑ i ∈ phases f.n, f.Iur i r * f.Iur i r) t me.Iur_maf

structure Parameters (me : TCPT ℝ) : Prop where
  n : me.n = f.n
  n_le : f.n ≤ 3
  TSH : me.TSH = f.TSH

/-- The collective in the middle of an update. -/
structure CollectiveAt (a b c d : ℕ) (me : TCPT ℝ) : Prop extends
  Parameters f me, CollectiveTracks f a me, CollectiveVoidTracks f b me,
  CollectiveBalancedTracks f c me, CollectiveUnbalancedTracks f d me

/-- The state after the first `t` samples. -/
structure CptTracks (me : TCPT ℝ) : Prop extends CollectiveAt f t t t t me where
  phase : ∀ i, i.val < f.n → PhaseAt f i t t t t (me.Phase i)

/-! ## Figures of the current sample -/

/-- Figures set by `CPT_UpdateVoltagesAndCurrents`. -/
structure VoltageFigures (p : TPhase ℝ) : Prop where
  V_pow2 : p.V_pow2 = f.V i t * f.V i t
  V_rms : p.V_rms = f.rms (f.V i) t
  I_pow2 : p.I_pow2 = f.I i t * f.I i t
  I_rms : p.I_rms = f.rms (f.I i) t
  UnbiasedIntegral : p.UnbiasedIntegral = f.UI i t
  UnbiasedIntegral_pow2 : p.UnbiasedIntegral_pow2 = f.UI i t * f.UI i t
  UnbiasedIntegral_rms : p.UnbiasedIntegral_rms = f.rms (f.UI i) t

/-- Figures set by `CPT_UpdatePowerAndEnergy`. -/
structure PowerFigures (p : TPhase ℝ) : Prop extends VoltageFigures f i t p where
  P_avg : p.P_avg = f.P_avg i t
  W_avg : p.W_avg = f.W_avg i t

/-- Figures set by the first loop of `CPT_CurrentDecomposition`. -/
structure VoidFigures (p : TPhase ℝ) : Prop extends PowerFigures f i t p where
  Ia_ActiveCurrent : p.Ia_ActiveCurrent = f.Ia i t
  Ir_ReactiveCurrent : p.Ir_ReactiveCurrent = f.Ir i t
  Iv_VoidCurrent : p.Iv_VoidCurrent = f.Iv i t
  Iv_rms : p.Iv_rms = f.rms (f.Iv i) t

/-- Figures set by the loops over the balanced currents. -/
structure BalancedFigures (p : TPhase ℝ) : Prop extends VoidFigures f i t p where
  Iba_BalancedActiveCurrent : p.Iba_BalancedActiveCurrent = f.Iba i t
  Ibr_BalancedReactiveCurrent : p.Ibr_BalancedReactiveCurrent = f.Ibr i t
  Iba_rms : p.Iba_rms = f.rms (f.Iba i) t
  Ibr_rms : p.Ibr_rms = f.rms (f.Ibr i) t

/-- Figures set by the loops over the unbalanced currents, unless the theory
runs on a single phase. -/
structure UnbalancedFigures (p : TPhase ℝ) : Prop extends BalancedFigures f i t p where
  Iua_UnbalancedActiveCurrent : f.n ≠ 1 → p.Iua_UnbalancedActiveCurrent = f.Iua i t
  Iur_UnbalancedReactiveCurrent : f.n ≠ 1 → p.Iur_UnbalancedReactiveCurrent = f.Iur i t
  Iua_rms : f.n ≠ 1 → p.Iua_rms = f.Iua i t * f.Iua i t
  Iur_rms : f.n ≠ 1 → p.Iur_rms = f.Iur i t * f.Iur i t

/-- Figures set by `CPT_UpdateCollectiveValues`. -/
structure CollectiveFigures (me : TCPT ℝ) : Prop where
  P_avg : me.P_avg = f.cP_avg t
  W_avg : me.W_avg = f.cW_avg t
  V_rms : me.V_rms = f.crms f.V t
  I_rms : me.I_rms = f.crms f.I t
  UI_rms : me.UI_rms = f.crms f.UI t

structure CollectiveVoidFigures (me : TCPT ℝ) : Prop extends CollectiveFigures f t me where
  Iv_rms : me.Iv_rms = f.crms f.Iv t

structure CollectiveBalancedFigures (me : TCPT ℝ) : Prop extends
    CollectiveVoidFigures f t me where
  Iba_rms : me.Iba_rms = f.crms f.Iba t
  Ibr_rms : me.Ibr_rms = f.crms f.Ibr t

structure CollectiveUnbalancedFigures (me : TCPT ℝ) : Prop extends
    CollectiveBalancedFigures f t me where
  Iua_rms : f.n ≠ 1 → me.Iua_rms = f.crms f.Iua t
  Iur_rms : f.n ≠ 1 → me.Iur_rms = f.crms f.Iur t

end State

/-! ## Readings -/

/-- The powers and factors of a phase. -/
def TPhase.power (p : TPhase ℝ) : PowerSet :=
  ⟨p.A, p.Q, p.Na, p.Nr, p.N, p.V, p.PF, p.NF, p.QF, p.VF⟩

/-- The powers and factors of the collective. -/
def TCPT.power (me : TCPT ℝ) : PowerSet :=
  ⟨me.A, me.Q, me.Na, me.Nr, me.N, me.V, me.PF, me.NF, me.QF, me.VF⟩

def TPhase.reading (p : TPhase ℝ) : PhaseReading where
  V_rms := p.V_rms
  I_rms := p.I_rms
  UnbiasedIntegral := p.UnbiasedIntegral
  UnbiasedIntegral_rms := p.UnbiasedIntegral_rms
  P_avg := p.P_avg
  W_avg := p.W_avg
  Ia_ActiveCurrent := p.Ia_ActiveCurrent
  Ir_ReactiveCurrent := p.Ir_ReactiveCurrent
  Iv_VoidCurrent := p.Iv_VoidCurrent
  Iba_BalancedActiveCurrent := p.Iba_BalancedActiveCurrent
  Ibr_BalancedReactiveCurrent := p.Ibr_BalancedReactiveCurrent
  Iua_UnbalancedActiveCurrent := p.Iua_UnbalancedActiveCurrent
  Iur_UnbalancedReactiveCurrent := p.Iur_UnbalancedReactiveCurrent
  Iba_rms := p.Iba_rms
  Ibr_rms := p.Ibr_rms
  Iv_rms := p.Iv_rms
  Iua_rms := p.Iua_rms
  Iur_rms := p.Iur_rms
  power := p.power

def TCPT.reading (me : TCPT ℝ) : CptReading where
  V_rms := me.V_rms
  I_rms := me.I_rms
  UI_rms := me.UI_rms
  P_avg := me.P_avg
  W_avg := me.W_avg
  Iba_rms := me.Iba_rms
  Ibr_rms := me.Ibr_rms
  Iv_rms := me.Iv_rms
  Iua_rms := me.Iua_rms
  Iur_rms := me.Iur_rms
  power := me.power

/-- The powers of a phase follow from its rms values. -/
structure TPhase.Decomposed (p : TPhase ℝ) : Prop where
  A : p.A = p.V_rms * p.I_rms
  Q : p.Q = p.V_rms * p.Ibr_rms
  Na : p.Na = p.V_rms * p.Iua_rms
  Nr : p.Nr = p.V_rms * p.Iur_rms
  N : p.N = √(p.V_rms * p.Iua_rms * (p.V_rms * p.Iua_rms) +
    p.V_rms * p.Iur_rms * (p.V_rms * p.Iur_rms))
  V : p.V = p.V_rms * p.Iv_rms

/-- The powers of the collective follow from its rms values. -/
structure TCPT.Decomposed (me : TCPT ℝ) : Prop where
  A : me.A = me.V_rms * me.I_rms
  Q : me.Q = me.V_rms * me.Ibr_rms
  Na : me.Na = me.V_rms * me.Iua_rms
  Nr : me.Nr = me.V_rms * me.Iur_rms
  N : me.N = √(me.V_rms * me.Iua_rms * (me.V_rms * me.Iua_rms) +
    me.V_rms * me.Iur_rms * (me.V_rms * me.Iur_rms))
  V : me.V = me.V_rms * me.Iv_rms

/-- Powers and factors of a phase follow from its rms values. -/
def TPhase.Rated (p : TPhase ℝ) : Prop :=
  p.power = powerSet limitOne p.P_avg p.V_rms p.I_rms p.Ibr_rms p.Iua_rms p.Iur_rms p.Iv_rms

/-- Powers and factors of the collective follow from its rms values. -/
def TCPT.Rated (me : TCPT ℝ) : Prop :=
  me.power = powerSet id me.P_avg me.V_rms me.I_rms me.Ibr_rms me.Iua_rms me.Iur_rms me.Iv_rms

theorem UnbalancedFigures.reading {f : Feed} {i : Fin 3} {t : ℕ} {p : TPhase ℝ}
    (h : UnbalancedFigures f i t p) (hRated : p.Rated) (hn : f.n ≠ 1) :
    p.reading = f.phaseReading i t := by
  rw [TPhase.Rated] at hRated
  simp only [TPhase.reading, Feed.phaseReading, hRated, h.V_rms,
    h.I_rms, h.UnbiasedIntegral, h.UnbiasedIntegral_rms, h.P_avg, h.W_avg, h.Ia_ActiveCurrent,
    h.Ir_ReactiveCurrent, h.Iv_VoidCurrent, h.Iba_BalancedActiveCurrent,
    h.Ibr_BalancedReactiveCurrent, h.Iua_UnbalancedActiveCurrent hn,
    h.Iur_UnbalancedReactiveCurrent hn, h.Iba_rms, h.Ibr_rms, h.Iv_rms, h.Iua_rms hn,
    h.Iur_rms hn]

theorem CollectiveUnbalancedFigures.reading {f : Feed} {t : ℕ} {me : TCPT ℝ}
    (h : CollectiveUnbalancedFigures f t me) (hRated : me.Rated) (hn : f.n ≠ 1) :
    me.reading = f.cptReading t := by
  rw [TCPT.Rated] at hRated
  simp only [TCPT.reading, Feed.cptReading, hRated, h.V_rms, h.I_rms, h.UI_rms,
    h.P_avg, h.W_avg, h.Iba_rms, h.Ibr_rms, h.Iv_rms, h.Iua_rms hn, h.Iur_rms hn]

end EnergyMeter.Cpt
