import EnergyMeter.Cpt.Maf

/-!
# EnergyMeter — the conservative power theory

`CPT.c`: one call of `CPT_Update` takes an instantaneous sample of three
voltages and three currents and refreshes every power figure of the three
phases and of their collective.

The functions keep the order of the source. A loop over the phases owns, in
iteration `i`, the phase `Phase[i]` and the accumulators of the collective; it
is `forPhases` when it accumulates and `mapPhases` when it does not. Loop
bodies are definitions of their own. `R` stands for `double` as exact numbers,
and the monad for the readings of `Lib.Partial` and of `Lib.Heap`.
-/

namespace EnergyMeter.Cpt

open Lib

/-! ## Data -/

/-- `struct tPAC`: one instantaneous sample of the three phases. -/
structure TPAC (R : Type) where
  V : Fin 3 → R
  I : Fin 3 → R

/-- `struct tPhase`. -/
structure TPhase (R : Type) where
  V_maf : TMAF R
  I_maf : TMAF R
  P_maf : TMAF R
  W_maf : TMAF R
  UI_maf : TMAF R
  INT_maf : TMAF R
  Iba_maf : TMAF R
  Ibr_maf : TMAF R
  Iv_maf : TMAF R
  V_pow2 : R
  V_rms : R
  I_pow2 : R
  I_rms : R
  Integral : R
  Integral_lastInput : R
  UnbiasedIntegral : R
  UnbiasedIntegral_pow2 : R
  UnbiasedIntegral_rms : R
  W_inst : R
  P_inst : R
  W_avg : R
  P_avg : R
  Q : R
  Ia_ActiveCurrent : R
  Iba_BalancedActiveCurrent : R
  Iua_UnbalancedActiveCurrent : R
  Ir_ReactiveCurrent : R
  Ibr_BalancedReactiveCurrent : R
  Iur_UnbalancedReactiveCurrent : R
  Iv_VoidCurrent : R
  Iu_UnbalancedCurrent : R
  Iba_rms : R
  Iua_rms : R
  Ibr_rms : R
  Iur_rms : R
  Iv_rms : R
  A : R
  Na : R
  Nr : R
  N : R
  V : R
  PF : R
  NF : R
  QF : R
  VF : R
deriving Inhabited

/-- `struct tCPT`, with the phases that `Phase[3]` points to. -/
structure TCPT (R : Type) where
  Phase : Fin 3 → TPhase R
  Iba_maf : TMAF R
  Iua_maf : TMAF R
  Ibr_maf : TMAF R
  Iur_maf : TMAF R
  Iv_maf : TMAF R
  Iba_rms : R
  Iua_rms : R
  Ibr_rms : R
  Iur_rms : R
  Iv_rms : R
  V_maf : TMAF R
  I_maf : TMAF R
  UI_maf : TMAF R
  V_rms : R
  I_rms : R
  UI_rms : R
  P_avg : R
  W_avg : R
  A : R
  Q : R
  Na : R
  Nr : R
  N : R
  V : R
  PF : R
  NF : R
  QF : R
  VF : R
  TSH : R
  samples : ℕ
  n : ℕ
deriving Inhabited

/-- `USE_THRESHOLD`. -/
def useThreshold : ℤ := 1

/-- `THR_MIN`, the mean square that stands in for a window of zeros. -/
def thrMin {R : Type} [Field R] : R := 1 / 10000

/-! ## Loops over the phases -/

/-- The indices of `for (i = 0; i < n; i++)` within `Phase[3]`. -/
def phaseIdx (n : ℕ) : List (Fin 3) :=
  (List.finRange 3).filter fun i => i.val < n

section Code

variable {m : Type → Type} [Monad m] [MonadRequire m] {R : Type}

/-- A loop whose iteration `i` updates `Phase[i]` and accumulates. -/
def forPhases {A : Type} (n : ℕ) (Phase : Fin 3 → TPhase R) (acc : A)
    (body : Fin 3 → TPhase R → A → m (TPhase R × A)) : m ((Fin 3 → TPhase R) × A) := do
  require (n ≤ 3) .outOfBounds
  (phaseIdx n).foldlM (fun s i => do
    let r ← body i (s.1 i) s.2
    return (Function.update s.1 i r.1, r.2)) (Phase, acc)

/-- A loop whose iteration `i` updates `Phase[i]`. -/
def mapPhases (n : ℕ) (Phase : Fin 3 → TPhase R)
    (body : Fin 3 → TPhase R → m (TPhase R)) : m (Fin 3 → TPhase R) := do
  let (Phase, _) ← forPhases n Phase () fun i Phase _ => do
    return (← body i Phase, ())
  return Phase

variable [MonadArray m R] [Field R] [LinearOrder R] [HasSqrt R]

/-- `RMS_Evaluate`. -/
def rmsEvaluate (input : R) : m R := do
  let input := if input ≤ 0 then 1 / 100000 else input
  fsqrt input

omit [Monad m] [MonadRequire m] [LinearOrder R] [HasSqrt R] in
/-- `Phase_Init`. -/
def phaseInit (me : TPhase R) : TPhase R :=
  { me with
    V_rms := 0
    I_rms := 0
    Integral := 0
    Integral_lastInput := 0
    UnbiasedIntegral := 0
    UnbiasedIntegral_rms := 0
    P_avg := 0
    W_avg := 0 }

/-! ## `CPT_UpdateVoltagesAndCurrents` -/

/-- The body of the loop of `CPT_UpdateVoltagesAndCurrents`. -/
def voltagesAndCurrentsBody (TSH : R) (pac : TPAC R) (i : Fin 3) (Phase : TPhase R) :
    m (TPhase R) := do
  let V_pow2 := pac.V i * pac.V i
  let V_maf := (← movingAverageFilterUpdate Phase.V_maf V_pow2).1
  let V_rms ← rmsEvaluate V_maf.MeanValue
  let I_pow2 := pac.I i * pac.I i
  let I_maf := (← movingAverageFilterUpdate Phase.I_maf I_pow2).1
  let I_rms ← rmsEvaluate I_maf.MeanValue
  let Integral := Phase.Integral + TSH / 2 * (pac.V i + Phase.Integral_lastInput)
  let Integral_lastInput := pac.V i
  let INT_maf := (← movingAverageFilterUpdate Phase.INT_maf Integral).1
  let UnbiasedIntegral := Integral - INT_maf.MeanValue
  let UnbiasedIntegral_pow2 := UnbiasedIntegral * UnbiasedIntegral
  let UI_maf := (← movingAverageFilterUpdate Phase.UI_maf UnbiasedIntegral_pow2).1
  let UnbiasedIntegral_rms ← rmsEvaluate UI_maf.MeanValue
  return { Phase with
    V_pow2, V_maf, V_rms, I_pow2, I_maf, I_rms, Integral, Integral_lastInput, INT_maf
    UnbiasedIntegral, UnbiasedIntegral_pow2, UI_maf, UnbiasedIntegral_rms }

/-- `CPT_UpdateVoltagesAndCurrents`. -/
def cptUpdateVoltagesAndCurrents (me : TCPT R) (pac : TPAC R) : m (TCPT R) := do
  let Phase ← mapPhases me.n me.Phase (voltagesAndCurrentsBody me.TSH pac)
  return { me with Phase }

/-! ## `CPT_UpdatePowerAndEnergy` -/

/-- The body of the loop of `CPT_UpdatePowerAndEnergy`. -/
def powerAndEnergyBody (pac : TPAC R) (i : Fin 3) (Phase : TPhase R) : m (TPhase R) := do
  let P_inst := pac.V i * pac.I i
  let (P_maf, P_avg) ← movingAverageFilterUpdate Phase.P_maf P_inst
  let P_avg := if P_avg < 1 / 100000 then 1 / 100000 else P_avg
  let W_inst := Phase.UnbiasedIntegral * pac.I i
  let (W_maf, W_avg) ← movingAverageFilterUpdate Phase.W_maf W_inst
  let Q := W_avg * (← fdiv Phase.V_rms Phase.UnbiasedIntegral_rms)
  return { Phase with P_inst, P_maf, P_avg, W_inst, W_maf, W_avg, Q }

/-- `CPT_UpdatePowerAndEnergy`. -/
def cptUpdatePowerAndEnergy (me : TCPT R) (pac : TPAC R) : m (TCPT R) := do
  let Phase ← mapPhases me.n me.Phase (powerAndEnergyBody pac)
  return { me with Phase }

/-! ## `CPT_UpdateCollectiveValues` -/

/-- The body of the loop of `CPT_UpdateCollectiveValues`: it accumulates
`P_avg`, `W_avg`, `V_rms`, `I_rms` and `UI_rms`, the last three as squares. -/
def collectiveValuesBody (_ : Fin 3) (Phase : TPhase R) (acc : R × R × R × R × R) :
    m (TPhase R × R × R × R × R × R) :=
  let (P_avg, W_avg, V_rms, I_rms, UI_rms) := acc
  return (Phase, P_avg + Phase.P_avg, W_avg + Phase.W_avg, V_rms + Phase.V_pow2,
    I_rms + Phase.I_pow2, UI_rms + Phase.UnbiasedIntegral_pow2)

/-- `CPT_UpdateCollectiveValues`. -/
def cptUpdateCollectiveValues (me : TCPT R) : m (TCPT R) := do
  let (_, P_avg, W_avg, V_rms, I_rms, UI_rms) ←
    forPhases me.n me.Phase (0, 0, 0, 0, 0) collectiveValuesBody
  let (I_maf, I_rms) ← movingAverageFilterUpdate me.I_maf I_rms
  let (V_maf, V_rms) ← movingAverageFilterUpdate me.V_maf V_rms
  let (UI_maf, UI_rms) ← movingAverageFilterUpdate me.UI_maf UI_rms
  let V_rms ← rmsEvaluate V_rms
  let I_rms ← rmsEvaluate I_rms
  let UI_rms ← rmsEvaluate UI_rms
  return { me with P_avg, W_avg, I_maf, V_maf, UI_maf, V_rms, I_rms, UI_rms }

/-! ## `CPT_CurrentDecomposition` -/

/-- Active, reactive and void current of a phase: the first loop of
`CPT_CurrentDecomposition`. `Iv_rms` holds the square while it is summed. -/
def voidCurrentBody (pac : TPAC R) (i : Fin 3) (Phase : TPhase R) (Iv_rms : R) :
    m (TPhase R × R) := do
  let Ia_ActiveCurrent ←
    if Phase.V_rms ≠ 0 then
      (· * pac.V i) <$> fdiv Phase.P_avg (Phase.V_rms * Phase.V_rms)
    else pure Phase.Ia_ActiveCurrent
  let Ir_ReactiveCurrent ←
    if Phase.UnbiasedIntegral_rms ≠ 0 then
      (· * Phase.UnbiasedIntegral) <$>
        fdiv Phase.W_avg (Phase.UnbiasedIntegral_rms * Phase.UnbiasedIntegral_rms)
    else pure Phase.Ir_ReactiveCurrent
  let Iv_VoidCurrent := pac.I i - Ia_ActiveCurrent - Ir_ReactiveCurrent
  let Iv_pow2 := Iv_VoidCurrent * Iv_VoidCurrent
  let Iv_maf := (← movingAverageFilterUpdate Phase.Iv_maf Iv_pow2).1
  let Phase_Iv_rms ← rmsEvaluate Iv_maf.MeanValue
  return ({ Phase with
    Ia_ActiveCurrent, Ir_ReactiveCurrent, Iv_VoidCurrent, Iv_maf, Iv_rms := Phase_Iv_rms },
    Iv_rms + Iv_pow2)

/-- The loop that assigns the balanced active current. -/
def balancedActiveBody (me : TCPT R) (pac : TPAC R) (i : Fin 3) (Phase : TPhase R) :
    m (TPhase R) := do
  let g ← fdiv me.P_avg (me.V_rms * me.V_rms)
  return { Phase with Iba_BalancedActiveCurrent := g * pac.V i }

/-- The loop that assigns the balanced reactive current. -/
def balancedReactiveBody (me : TCPT R) (_ : Fin 3) (Phase : TPhase R) : m (TPhase R) := do
  let b ← fdiv me.W_avg (me.UI_rms * me.UI_rms)
  return { Phase with Ibr_BalancedReactiveCurrent := b * Phase.UnbiasedIntegral }

/-- The loop over the squares of the balanced currents. -/
def balancedRmsBody (_ : Fin 3) (Phase : TPhase R) (acc : R × R) : m (TPhase R × R × R) := do
  let Iba_pow2 := Phase.Iba_BalancedActiveCurrent * Phase.Iba_BalancedActiveCurrent
  let Ibr_pow2 := Phase.Ibr_BalancedReactiveCurrent * Phase.Ibr_BalancedReactiveCurrent
  let Iba_maf := (← movingAverageFilterUpdate Phase.Iba_maf Iba_pow2).1
  let Iba_rms ← rmsEvaluate Iba_maf.MeanValue
  let Ibr_maf := (← movingAverageFilterUpdate Phase.Ibr_maf Ibr_pow2).1
  let Ibr_rms ← rmsEvaluate Ibr_maf.MeanValue
  return ({ Phase with Iba_maf, Iba_rms, Ibr_maf, Ibr_rms }, acc.1 + Iba_pow2,
    acc.2 + Ibr_pow2)

omit [Monad m] [MonadRequire m] [LinearOrder R] [HasSqrt R] in
/-- The loop that assigns the unbalanced currents. -/
def unbalancedBody (Phase : TPhase R) : TPhase R :=
  let Iua := Phase.Ia_ActiveCurrent - Phase.Iba_BalancedActiveCurrent
  let Iur := Phase.Ir_ReactiveCurrent - Phase.Ibr_BalancedReactiveCurrent
  { Phase with
    Iua_UnbalancedActiveCurrent := Iua
    Iur_UnbalancedReactiveCurrent := Iur
    Iu_UnbalancedCurrent := Iua + Iur }

omit [Monad m] [MonadRequire m] [LinearOrder R] [HasSqrt R] in
/-- The loop over the squares of the unbalanced currents. The phase keeps the
squares: no filter follows them. -/
def unbalancedRmsBody (Phase : TPhase R) (acc : R × R) : TPhase R × R × R :=
  let Iua_rms := Phase.Iua_UnbalancedActiveCurrent * Phase.Iua_UnbalancedActiveCurrent
  let Iur_rms := Phase.Iur_UnbalancedReactiveCurrent * Phase.Iur_UnbalancedReactiveCurrent
  ({ Phase with Iua_rms, Iur_rms }, acc.1 + Iua_rms, acc.2 + Iur_rms)

/-- The void current of the phases and of the collective. -/
def voidCurrents (me : TCPT R) (pac : TPAC R) : m (TCPT R) := do
  let (Phase, Iv_rms) ← forPhases me.n me.Phase 0 (voidCurrentBody pac)
  let Iv_maf := (← movingAverageFilterUpdate me.Iv_maf Iv_rms).1
  let Iv_rms ← rmsEvaluate Iv_maf.MeanValue
  return { me with Phase, Iv_maf, Iv_rms }

/-- The balanced currents of the phases and of the collective. -/
def balancedCurrents (me : TCPT R) (pac : TPAC R) : m (TCPT R) := do
  let Phase ← if me.V_rms ≠ 0 then mapPhases me.n me.Phase (balancedActiveBody me pac)
    else pure me.Phase
  let Phase ← if me.UI_rms ≠ 0 then mapPhases me.n Phase (balancedReactiveBody me)
    else pure Phase
  let (Phase, Iba_rms, Ibr_rms) ← forPhases me.n Phase (0, 0) balancedRmsBody
  let Iba_maf := (← movingAverageFilterUpdate me.Iba_maf Iba_rms).1
  let Iba_rms ← rmsEvaluate Iba_maf.MeanValue
  let Ibr_maf := (← movingAverageFilterUpdate me.Ibr_maf Ibr_rms).1
  let Ibr_rms ← rmsEvaluate Ibr_maf.MeanValue
  return { me with Phase, Iba_maf, Iba_rms, Ibr_maf, Ibr_rms }

/-- The unbalanced currents, unless the theory runs on a single phase. -/
def unbalancedCurrents (me : TCPT R) : m (TCPT R) := do
  if me.n ≠ 1 then
    let Phase ← mapPhases me.n me.Phase fun _ Phase => return unbalancedBody Phase
    let (Phase, Iua_rms, Iur_rms) ← forPhases me.n Phase (0, 0) fun _ Phase acc =>
      return unbalancedRmsBody Phase acc
    let Iua_maf := (← movingAverageFilterUpdate me.Iua_maf Iua_rms).1
    let Iua_rms ← rmsEvaluate Iua_maf.MeanValue
    let Iur_maf := (← movingAverageFilterUpdate me.Iur_maf Iur_rms).1
    let Iur_rms ← rmsEvaluate Iur_maf.MeanValue
    return { me with Phase, Iua_maf, Iua_rms, Iur_maf, Iur_rms }
  else
    return me

/-- `CPT_CurrentDecomposition`. -/
def cptCurrentDecomposition (me : TCPT R) (pac : TPAC R) : m (TCPT R) := do
  let me ← voidCurrents me pac
  let me ← balancedCurrents me pac
  unbalancedCurrents me

/-! ## `CPT_PowerDecomposition` -/

/-- The body of the loop of `CPT_PowerDecomposition`. -/
def powerDecompositionBody (_ : Fin 3) (Phase : TPhase R) : m (TPhase R) := do
  let A := Phase.V_rms * Phase.I_rms
  let Q := Phase.V_rms * Phase.Ibr_rms
  let Na := Phase.V_rms * Phase.Iua_rms
  let Nr := Phase.V_rms * Phase.Iur_rms
  let N ← fsqrt (Na * Na + Nr * Nr)
  let V := Phase.V_rms * Phase.Iv_rms
  return { Phase with A, Q, Na, Nr, N, V }

/-- `CPT_PowerDecomposition`. -/
def cptPowerDecomposition (me : TCPT R) : m (TCPT R) := do
  let Phase ← mapPhases me.n me.Phase powerDecompositionBody
  let A := me.V_rms * me.I_rms
  let Q := me.V_rms * me.Ibr_rms
  let Na := me.V_rms * me.Iua_rms
  let Nr := me.V_rms * me.Iur_rms
  let N ← fsqrt (Na * Na + Nr * Nr)
  let V := me.V_rms * me.Iv_rms
  return { me with Phase, A, Q, Na, Nr, N, V }

/-! ## `CPT_EvaluateFactors` -/

/-- `x / sqrt(s)` where `s` is positive; `old` is what the field held. -/
def factorOverRoot (x s old : R) : m R := do
  if 0 < s then
    let root ← fsqrt s
    fdiv x root
  else
    return old

/-- `x / A` where `A` is not zero; `old` is what the field held. -/
def factorOver (x A old : R) : m R := do
  if A ≠ 0 then
    fdiv x A
  else
    return old

/-- The body of the loop of `CPT_EvaluateFactors`, with the void factor of a
phase limited to one. -/
def evaluateFactorsBody (_ : Fin 3) (Phase : TPhase R) : m (TPhase R) := do
  let PF ← factorOver Phase.P_avg Phase.A Phase.PF
  let VF ← factorOver Phase.V Phase.A Phase.VF
  let VF := if Phase.A ≠ 0 ∧ 1 < VF then 1 else VF
  let P2 := Phase.P_avg * Phase.P_avg
  let Q2 := Phase.Q * Phase.Q
  let N2 := Phase.N * Phase.N
  let NF ← factorOverRoot Phase.N (P2 + Q2 + N2) Phase.NF
  let QF ← factorOverRoot Phase.Q (P2 + Q2) Phase.QF
  return { Phase with PF, VF, NF, QF }

/-- `CPT_EvaluateFactors`. The void factor of the collective is not limited. -/
def cptEvaluateFactors (me : TCPT R) : m (TCPT R) := do
  let PF ← factorOver me.P_avg me.A me.PF
  let VF ← factorOver me.V me.A me.VF
  let P2 := me.P_avg * me.P_avg
  let Q2 := me.Q * me.Q
  let N2 := me.N * me.N
  let NF ← factorOverRoot me.N (P2 + Q2 + N2) me.NF
  let QF ← factorOverRoot me.Q (P2 + Q2) me.QF
  let Phase ← mapPhases me.n me.Phase evaluateFactorsBody
  return { me with PF, VF, NF, QF, Phase }

/-! ## `CPT_Update` -/

/-- `CPT_Update`. -/
def cptUpdate (me : TCPT R) (pac : TPAC R) : m (TCPT R) := do
  let me ← cptUpdateVoltagesAndCurrents me pac
  let me ← cptUpdatePowerAndEnergy me pac
  let me ← cptUpdateCollectiveValues me
  let me ← cptCurrentDecomposition me pac
  let me ← cptPowerDecomposition me
  cptEvaluateFactors me

/-- The state after the first `t` samples of a stream. -/
def cptRun (me : TCPT R) (pac : ℕ → TPAC R) : ℕ → m (TCPT R)
  | 0 => return me
  | t + 1 => do
    let me ← cptRun me pac t
    cptUpdate me (pac t)

end Code

end EnergyMeter.Cpt
