import EnergyMeter.Cpt.SetUp
import Mathlib.Tactic.FinCases

/-!
# EnergyMeter — the power theory in memory

The filters of `CPT.c` hold pointers to rings, and `CPT_Config` deals the rings
out. That the filters of a configured theory never meet in a ring is a property
of this deal, and it is what allows to read the theory by value.

* `InMemory` — every filter has a block of its own, and the memory holds its
  ring.
* `movingAverageFilterUpdate_refines` — an update of one filter, in memory and
  by value; the rings of the others do not change.

Main results:

* `cptRun_refines` — whole runs of `CPT_Update`, where the filters are in memory.
* `cptConfig_inMemory` — after `CPT_Config`, on any memory, they are.
-/

namespace EnergyMeter.Cpt

open Lib

/-! ## The filters by their place -/

/-- The place of a filter: in a phase, in the order of the descriptors, or in the
collective. -/
inductive Slot
  | phase (i : Fin 3) (c : Fin 9)
  | collective (c : Fin 8)
deriving DecidableEq

section Places

variable {R : Type}

/-- The filters of a phase. -/
def TPhase.maf (p : TPhase R) : Fin 9 → TMAF R :=
  ![p.V_maf, p.I_maf, p.P_maf, p.W_maf, p.UI_maf, p.INT_maf, p.Iba_maf, p.Ibr_maf, p.Iv_maf]

/-- The filters of the collective. -/
def TCPT.collective (me : TCPT R) : Fin 8 → TMAF R :=
  ![me.Iba_maf, me.Iua_maf, me.Ibr_maf, me.Iur_maf, me.Iv_maf, me.I_maf, me.V_maf, me.UI_maf]

/-- All filters, with phases in the place of those of `me`. -/
def TCPT.filters (me : TCPT R) (Phase : Fin 3 → TPhase R) : Slot → TMAF R
  | .phase i c => (Phase i).maf c
  | .collective c => me.collective c

/-- The blocks of the rings of a phase. -/
def TPhase.blocks (p : TPhase R) : Set ℕ := Set.range fun c => (p.maf c).Buffer.Block

/-- The memory holds the rings of the filters, each in a block of its own. -/
def InMemory (σ : Slot → TMAF R) : Heap R → Prop :=
  Holds (fun s => (σ s).Buffer.Block) (fun s => (σ s).Buffer.Length) fun s => (σ s).Buffer.Data

end Places

/-! ## One filter -/

section Filter

variable {R : Type} [Field R] [LinearOrder R] {σ : Slot → TMAF R} {s : Slot}

omit [Field R] [LinearOrder R] in
/-- A filter with other entries, on the same ring. -/
theorem inMemory_update {maf : TMAF R} (hBlock : maf.Buffer.Block = (σ s).Buffer.Block)
    (hLength : maf.Buffer.Length = (σ s).Buffer.Length) {h : Heap R}
    (hHolds : Holds (fun s => (σ s).Buffer.Block) (fun s => (σ s).Buffer.Length)
      (Function.update (fun s => (σ s).Buffer.Data) s maf.Buffer.Data) h) :
    InMemory (Function.update σ s maf) h := by
  have hField : ∀ {A : Type} (g : TBuffer R → A),
      (fun s' => g (Function.update σ s maf s').Buffer) =
        Function.update (fun s' => g (σ s').Buffer) s (g maf.Buffer) := fun g => by
    funext s'
    exact Function.apply_update (fun _ (maf : TMAF R) => g maf.Buffer) σ s maf s'
  rwa [InMemory, hField TBuffer.Block, hField TBuffer.Length, hField TBuffer.Data, hBlock, hLength,
    Function.update_eq_self, Function.update_eq_self]

/-- **An update of one filter** does in memory what it does by value. -/
theorem movingAverageFilterUpdate_refines (s : Slot) (v : R) :
    Refines (InMemory σ) (movingAverageFilterUpdate (σ s) v) (movingAverageFilterUpdate (σ s) v)
      fun r => InMemory (Function.update σ s r.1) := by
  unfold movingAverageFilterUpdate TBuffer.load TBuffer.store
  simp only [bind_assoc]
  refine Refines.require fun hHead => ?_
  have hRead : Refines (InMemory σ) (MonadArray.read (σ s).Buffer.Block (σ s).Buffer.Data (σ s).Head)
      (MonadArray.read (σ s).Buffer.Block (σ s).Buffer.Data (σ s).Head) fun _ => InMemory σ :=
    Refines.read hHead
  refine hRead.bind fun old => Refines.require fun _ => ?_
  have hWrite : Refines (InMemory σ)
      (MonadArray.write (σ s).Buffer.Block (σ s).Buffer.Data (σ s).Head v)
      (MonadArray.write (σ s).Buffer.Block (σ s).Buffer.Data (σ s).Head v) fun Data =>
        Holds (fun s => (σ s).Buffer.Block) (fun s => (σ s).Buffer.Length)
          (Function.update (fun s => (σ s).Buffer.Data) s Data) :=
    Refines.write v
  refine hWrite.bind fun Data => ?_
  simp only [pure_bind]
  refine (Refines.fdiv _ _).bind fun mean => Refines.pure fun h hHolds => ?_
  exact inMemory_update (by rfl) (by rfl) hHolds

end Filter

/-! ## Filters of a phase and of the collective -/

section Put

variable {R : Type} {me : TCPT R} {Phase : Fin 3 → TPhase R} {i : Fin 3} {p p' : TPhase R}

/-- A phase with another filter in one place. -/
def TPhase.put (p : TPhase R) (c : Fin 9) (maf : TMAF R) : TPhase R :=
  ![{ p with V_maf := maf }, { p with I_maf := maf }, { p with P_maf := maf },
    { p with W_maf := maf }, { p with UI_maf := maf }, { p with INT_maf := maf },
    { p with Iba_maf := maf }, { p with Ibr_maf := maf }, { p with Iv_maf := maf }] c

/-- A collective with another filter in one place. -/
def TCPT.put (me : TCPT R) (c : Fin 8) (maf : TMAF R) : TCPT R :=
  ![{ me with Iba_maf := maf }, { me with Iua_maf := maf }, { me with Ibr_maf := maf },
    { me with Iur_maf := maf }, { me with Iv_maf := maf }, { me with I_maf := maf },
    { me with V_maf := maf }, { me with UI_maf := maf }] c

theorem TPhase.maf_put (p : TPhase R) (c : Fin 9) (maf : TMAF R) :
    (p.put c maf).maf = Function.update p.maf c maf := by
  funext c'
  fin_cases c <;> fin_cases c' <;> rfl

theorem TCPT.collective_put (me : TCPT R) (c : Fin 8) (maf : TMAF R) :
    (me.put c maf).collective = Function.update me.collective c maf := by
  funext c'
  fin_cases c <;> fin_cases c' <;> rfl

/-- The memory holds the filters of the loop over the phases, with `p` for phase `i`. -/
def InPhase (me : TCPT R) (Phase : Fin 3 → TPhase R) (i : Fin 3) (p : TPhase R) : Heap R → Prop :=
  InMemory (me.filters (Function.update Phase i p))

theorem inPhase_self : InPhase me Phase i (Phase i) = InMemory (me.filters Phase) := by
  rw [InPhase, Function.update_eq_self]

/-- Only the filters of a phase are in memory. -/
theorem inPhase_congr (hMaf : p.maf = p'.maf) {h : Heap R} (hIn : InPhase me Phase i p h) :
    InPhase me Phase i p' h := by
  have hFilters : me.filters (Function.update Phase i p) =
      me.filters (Function.update Phase i p') := by
    funext s
    cases s with
    | collective c => rfl
    | phase j c =>
      show (Function.update Phase i p j).maf c = (Function.update Phase i p' j).maf c
      by_cases hj : j = i
      · subst hj
        rw [Function.update_self, Function.update_self, hMaf]
      · rw [Function.update_of_ne hj, Function.update_of_ne hj]
  rwa [InPhase, ← hFilters]

theorem filters_putPhase (c : Fin 9) (maf : TMAF R) :
    Function.update (me.filters (Function.update Phase i p)) (.phase i c) maf =
      me.filters (Function.update Phase i (p.put c maf)) := by
  funext s
  cases s with
  | collective c' => exact Function.update_of_ne (by simp) _ _
  | phase j c' =>
    show _ = (Function.update Phase i (p.put c maf) j).maf c'
    by_cases hj : j = i
    · subst hj
      rw [Function.update_self, TPhase.maf_put]
      by_cases hc : c' = c
      · subst hc
        rw [Function.update_self, Function.update_self]
      · rw [Function.update_of_ne hc, Function.update_of_ne fun hEq => hc (Slot.phase.inj hEq).2]
        show (Function.update Phase j p j).maf c' = _
        rw [Function.update_self]
    · rw [Function.update_of_ne hj, Function.update_of_ne fun hEq => hj (Slot.phase.inj hEq).1]
      show (Function.update Phase i p j).maf c' = _
      rw [Function.update_of_ne hj]

theorem filters_put (c : Fin 8) (maf : TMAF R) :
    Function.update (me.filters Phase) (.collective c) maf = (me.put c maf).filters Phase := by
  funext s
  cases s with
  | phase j c' => exact Function.update_of_ne (by simp) _ _
  | collective c' =>
    show _ = (me.put c maf).collective c'
    rw [TCPT.collective_put]
    by_cases hc : c' = c
    · subst hc
      rw [Function.update_self, Function.update_self]
    · rw [Function.update_of_ne hc, Function.update_of_ne fun hEq => hc (Slot.collective.inj hEq)]
      rfl

variable [Field R] [LinearOrder R]

/-- An update of a filter of the phase. -/
theorem phaseFilter_refines (c : Fin 9) (v : R) :
    Refines (InPhase me Phase i p) (movingAverageFilterUpdate (p.maf c) v)
      (movingAverageFilterUpdate (p.maf c) v) fun r => InPhase me Phase i (p.put c r.1) := by
  have hUpdate := @movingAverageFilterUpdate_refines R _ _
    (me.filters (Function.update Phase i p)) (.phase i c) v
  have hFilter : me.filters (Function.update Phase i p) (.phase i c) = p.maf c := by
    show (Function.update Phase i p i).maf c = p.maf c
    rw [Function.update_self]
  simp only [hFilter, filters_putPhase] at hUpdate
  exact hUpdate

/-- An update of a filter of the collective. -/
theorem collectiveFilter_refines (c : Fin 8) (v : R) :
    Refines (InMemory (me.filters Phase)) (movingAverageFilterUpdate (me.collective c) v)
      (movingAverageFilterUpdate (me.collective c) v)
      fun r => InMemory ((me.put c r.1).filters Phase) := by
  have hUpdate := @movingAverageFilterUpdate_refines R _ _ (me.filters Phase) (.collective c) v
  simp only [filters_put] at hUpdate
  exact hUpdate

end Put

/-! ## Loops -/

section Loops

variable {R A : Type} {me : TCPT R} {Phase : Fin 3 → TPhase R} {n : ℕ} {acc : A}

/-- A loop whose iterations do in memory what they do by value. -/
theorem forPhases_refines {body : Fin 3 → TPhase R → A → HeapM R (TPhase R × A)}
    {body' : Fin 3 → TPhase R → A → Except Fault (TPhase R × A)}
    (hBody : ∀ Phase i p acc, Refines (InPhase me Phase i p) (body i p acc) (body' i p acc)
      fun r => InPhase me Phase i r.1) :
    Refines (InMemory (me.filters Phase)) (forPhases n Phase acc body) (forPhases n Phase acc body')
      fun r => InMemory (me.filters r.1) := by
  unfold forPhases
  refine Refines.require fun _ => ?_
  refine @Refines.foldlM R _ _ _ _ (fun s h => InMemory (me.filters s.1) h) (fun s i => ?_) _
    (Phase, acc)
  have hIteration := hBody s.1 i (s.1 i) s.2
  rw [inPhase_self] at hIteration
  exact hIteration.bind fun r => Refines.pure fun h hIn => hIn

theorem mapPhases_refines {body : Fin 3 → TPhase R → HeapM R (TPhase R)}
    {body' : Fin 3 → TPhase R → Except Fault (TPhase R)}
    (hBody : ∀ Phase i p, Refines (InPhase me Phase i p) (body i p) (body' i p)
      (InPhase me Phase i)) :
    Refines (InMemory (me.filters Phase)) (mapPhases n Phase body) (mapPhases n Phase body')
      fun P => InMemory (me.filters P) := by
  unfold mapPhases
  refine (forPhases_refines fun Phase i p _ => ?_).bind fun r => Refines.pure fun _ hIn => hIn
  exact (hBody Phase i p).bind fun _ => Refines.pure fun _ hIn => hIn

/-- A loop that does not use the memory. -/
theorem forPhases_refines_free {P : Heap R → Prop}
    {body : Fin 3 → TPhase R → A → HeapM R (TPhase R × A)}
    {body' : Fin 3 → TPhase R → A → Except Fault (TPhase R × A)}
    (hBody : ∀ i p acc, Refines P (body i p acc) (body' i p acc) fun _ => P) :
    Refines P (forPhases n Phase acc body) (forPhases n Phase acc body') fun _ => P := by
  unfold forPhases
  refine Refines.require fun _ => @Refines.foldlM R _ _ _ _ (fun _ => P) (fun s i => ?_) _ _
  exact (hBody i (s.1 i) s.2).bind fun _ => Refines.pure fun _ hP => hP

end Loops

/-! ## `CPT_Update` -/

section Update

variable {R : Type} [Field R] [LinearOrder R] [HasSqrt R] {me : TCPT R}
  {Phase : Fin 3 → TPhase R} {P : Heap R → Prop}

theorem rmsEvaluate_refines (input : R) :
    Refines P (rmsEvaluate input) (rmsEvaluate input) fun _ => P :=
  Refines.fsqrt _

theorem voltagesAndCurrentsBody_refines (TSH : R) (pac : TPAC R) (Phase : Fin 3 → TPhase R)
    (i : Fin 3) (p : TPhase R) :
    Refines (InPhase me Phase i p) (voltagesAndCurrentsBody TSH pac i p)
      (voltagesAndCurrentsBody TSH pac i p) (InPhase me Phase i) := by
  unfold voltagesAndCurrentsBody
  refine (phaseFilter_refines 0 _).bind fun V => ?_
  refine (rmsEvaluate_refines _).bind fun _ => ?_
  refine (phaseFilter_refines 1 _).bind fun I => ?_
  refine (rmsEvaluate_refines _).bind fun _ => ?_
  refine (phaseFilter_refines 5 _).bind fun INT => ?_
  refine (phaseFilter_refines 4 _).bind fun UI => ?_
  refine (rmsEvaluate_refines _).bind fun _ => ?_
  exact Refines.pure fun h hIn => inPhase_congr (by rfl) hIn

theorem cptUpdateVoltagesAndCurrents_refines (pac : TPAC R) :
    Refines (InMemory (me.filters me.Phase)) (cptUpdateVoltagesAndCurrents me pac)
      (cptUpdateVoltagesAndCurrents me pac) fun me' => InMemory (me'.filters me'.Phase) := by
  unfold cptUpdateVoltagesAndCurrents
  exact (mapPhases_refines (voltagesAndCurrentsBody_refines _ pac)).bind fun _ =>
    Refines.pure fun h hIn => hIn

omit [HasSqrt R] in
theorem powerAndEnergyBody_refines (pac : TPAC R) (Phase : Fin 3 → TPhase R) (i : Fin 3)
    (p : TPhase R) :
    Refines (InPhase me Phase i p) (powerAndEnergyBody pac i p) (powerAndEnergyBody pac i p)
      (InPhase me Phase i) := by
  unfold powerAndEnergyBody
  refine (phaseFilter_refines 2 _).bind fun P => ?_
  refine (phaseFilter_refines 3 _).bind fun W => ?_
  refine (Refines.fdiv _ _).bind fun _ => ?_
  exact Refines.pure fun h hIn => inPhase_congr (by rfl) hIn

omit [HasSqrt R] in
theorem cptUpdatePowerAndEnergy_refines (pac : TPAC R) :
    Refines (InMemory (me.filters me.Phase)) (cptUpdatePowerAndEnergy me pac)
      (cptUpdatePowerAndEnergy me pac) fun me' => InMemory (me'.filters me'.Phase) := by
  unfold cptUpdatePowerAndEnergy
  exact (mapPhases_refines (powerAndEnergyBody_refines pac)).bind fun _ =>
    Refines.pure fun h hIn => hIn

theorem cptUpdateCollectiveValues_refines :
    Refines (InMemory (me.filters me.Phase)) (cptUpdateCollectiveValues me)
      (cptUpdateCollectiveValues me) fun me' => InMemory (me'.filters me'.Phase) := by
  unfold cptUpdateCollectiveValues
  refine (forPhases_refines_free fun _ _ _ => Refines.pure fun _ hIn => hIn).bind fun r => ?_
  refine (collectiveFilter_refines 5 _).bind fun I => ?_
  refine (collectiveFilter_refines 6 _).bind fun V => ?_
  refine (collectiveFilter_refines 7 _).bind fun UI => ?_
  refine (rmsEvaluate_refines _).bind fun _ => (rmsEvaluate_refines _).bind fun _ => ?_
  exact (rmsEvaluate_refines _).bind fun _ => Refines.pure fun h hIn => hIn

theorem voidCurrentBody_refines (pac : TPAC R) (Phase : Fin 3 → TPhase R) (i : Fin 3)
    (p : TPhase R) (acc : R) :
    Refines (InPhase me Phase i p) (voidCurrentBody pac i p acc) (voidCurrentBody pac i p acc)
      fun r => InPhase me Phase i r.1 := by
  unfold voidCurrentBody
  refine Refines.join (Refines.map (Refines.fdiv _ _)) (Refines.pure fun _ hIn => hIn) fun Ia => ?_
  refine Refines.join (Refines.map (Refines.fdiv _ _)) (Refines.pure fun _ hIn => hIn) fun Ir => ?_
  refine (phaseFilter_refines 8 _).bind fun Iv => (rmsEvaluate_refines _).bind fun _ => ?_
  exact Refines.pure fun h hIn => inPhase_congr (by rfl) hIn

theorem voidCurrents_refines (pac : TPAC R) :
    Refines (InMemory (me.filters me.Phase)) (voidCurrents me pac) (voidCurrents me pac)
      fun me' => InMemory (me'.filters me'.Phase) := by
  unfold voidCurrents
  refine (forPhases_refines (voidCurrentBody_refines pac)).bind fun r => ?_
  refine (collectiveFilter_refines 4 _).bind fun Iv => (rmsEvaluate_refines _).bind fun _ => ?_
  exact Refines.pure fun h hIn => hIn

theorem balancedRmsBody_refines (Phase : Fin 3 → TPhase R) (i : Fin 3) (p : TPhase R)
    (acc : R × R) :
    Refines (InPhase me Phase i p) (balancedRmsBody i p acc) (balancedRmsBody i p acc)
      fun r => InPhase me Phase i r.1 := by
  unfold balancedRmsBody
  refine (phaseFilter_refines 6 _).bind fun Iba => (rmsEvaluate_refines _).bind fun _ => ?_
  refine (phaseFilter_refines 7 _).bind fun Ibr => (rmsEvaluate_refines _).bind fun _ => ?_
  exact Refines.pure fun h hIn => inPhase_congr (by rfl) hIn

theorem balancedCurrents_refines (pac : TPAC R) :
    Refines (InMemory (me.filters me.Phase)) (balancedCurrents me pac) (balancedCurrents me pac)
      fun me' => InMemory (me'.filters me'.Phase) := by
  have hActive : ∀ Phase i p, Refines (InPhase me Phase i p) (balancedActiveBody me pac i p)
      (balancedActiveBody me pac i p) (InPhase me Phase i) := fun Phase i p =>
    (Refines.fdiv _ _).bind fun _ => Refines.pure fun h hIn => inPhase_congr (by rfl) hIn
  have hReactive : ∀ Phase i p, Refines (InPhase me Phase i p) (balancedReactiveBody me i p)
      (balancedReactiveBody me i p) (InPhase me Phase i) := fun Phase i p =>
    (Refines.fdiv _ _).bind fun _ => Refines.pure fun h hIn => inPhase_congr (by rfl) hIn
  unfold balancedCurrents
  refine Refines.join (mapPhases_refines hActive) (Refines.pure fun _ hIn => hIn) fun P => ?_
  refine Refines.join (mapPhases_refines hReactive) (Refines.pure fun _ hIn => hIn) fun P => ?_
  refine (forPhases_refines balancedRmsBody_refines).bind fun r => ?_
  refine (collectiveFilter_refines 0 _).bind fun Iba => (rmsEvaluate_refines _).bind fun _ => ?_
  refine (collectiveFilter_refines 2 _).bind fun Ibr => (rmsEvaluate_refines _).bind fun _ => ?_
  exact Refines.pure fun h hIn => hIn

theorem unbalancedCurrents_refines :
    Refines (InMemory (me.filters me.Phase)) (unbalancedCurrents me) (unbalancedCurrents me)
      fun me' => InMemory (me'.filters me'.Phase) := by
  unfold unbalancedCurrents
  refine Refines.ite ?_ (Refines.pure fun _ hIn => hIn)
  refine (mapPhases_refines fun Phase i p => Refines.pure fun h hIn =>
    inPhase_congr (by rfl) hIn).bind fun P => ?_
  refine (forPhases_refines fun Phase i p acc => Refines.pure fun h hIn =>
    inPhase_congr (by rfl) hIn).bind fun r => ?_
  refine (collectiveFilter_refines 1 _).bind fun Iua => (rmsEvaluate_refines _).bind fun _ => ?_
  refine (collectiveFilter_refines 3 _).bind fun Iur => (rmsEvaluate_refines _).bind fun _ => ?_
  exact Refines.pure fun h hIn => hIn

theorem cptCurrentDecomposition_refines (pac : TPAC R) :
    Refines (InMemory (me.filters me.Phase)) (cptCurrentDecomposition me pac)
      (cptCurrentDecomposition me pac) fun me' => InMemory (me'.filters me'.Phase) :=
  (voidCurrents_refines pac).bind fun _ => (balancedCurrents_refines pac).bind fun _ =>
    unbalancedCurrents_refines

theorem powerDecompositionBody_refines (Phase : Fin 3 → TPhase R) (i : Fin 3) (p : TPhase R) :
    Refines (InPhase me Phase i p) (powerDecompositionBody i p) (powerDecompositionBody i p)
      (InPhase me Phase i) := by
  unfold powerDecompositionBody
  exact (Refines.fsqrt _).bind fun _ => Refines.pure fun h hIn => inPhase_congr (by rfl) hIn

theorem cptPowerDecomposition_refines :
    Refines (InMemory (me.filters me.Phase)) (cptPowerDecomposition me) (cptPowerDecomposition me)
      fun me' => InMemory (me'.filters me'.Phase) := by
  unfold cptPowerDecomposition
  refine (mapPhases_refines powerDecompositionBody_refines).bind fun P => ?_
  exact (Refines.fsqrt _).bind fun _ => Refines.pure fun h hIn => hIn

omit [HasSqrt R] in
theorem factorOver_refines (x A old : R) :
    Refines P (factorOver x A old) (factorOver x A old) fun _ => P :=
  Refines.ite (Refines.fdiv _ _) (Refines.pure fun _ hP => hP)

theorem factorOverRoot_refines (x s old : R) :
    Refines P (factorOverRoot x s old) (factorOverRoot x s old) fun _ => P :=
  Refines.ite ((Refines.fsqrt _).bind fun _ => Refines.fdiv _ _) (Refines.pure fun _ hP => hP)

theorem evaluateFactorsBody_refines (Phase : Fin 3 → TPhase R) (i : Fin 3) (p : TPhase R) :
    Refines (InPhase me Phase i p) (evaluateFactorsBody i p) (evaluateFactorsBody i p)
      (InPhase me Phase i) := by
  unfold evaluateFactorsBody
  refine (factorOver_refines _ _ _).bind fun _ => (factorOver_refines _ _ _).bind fun _ => ?_
  refine (factorOverRoot_refines _ _ _).bind fun _ => ?_
  refine (factorOverRoot_refines _ _ _).bind fun _ => ?_
  exact Refines.pure fun h hIn => inPhase_congr (by rfl) hIn

theorem cptEvaluateFactors_refines :
    Refines (InMemory (me.filters me.Phase)) (cptEvaluateFactors me) (cptEvaluateFactors me)
      fun me' => InMemory (me'.filters me'.Phase) := by
  unfold cptEvaluateFactors
  refine (factorOver_refines _ _ _).bind fun _ => (factorOver_refines _ _ _).bind fun _ => ?_
  refine (factorOverRoot_refines _ _ _).bind fun _ => ?_
  refine (factorOverRoot_refines _ _ _).bind fun _ => ?_
  exact (mapPhases_refines evaluateFactorsBody_refines).bind fun _ => Refines.pure fun h hIn => hIn

/-- **An update** does in memory what it does by value. -/
theorem cptUpdate_refines (pac : TPAC R) :
    Refines (InMemory (me.filters me.Phase)) (cptUpdate me pac) (cptUpdate me pac)
      fun me' => InMemory (me'.filters me'.Phase) := by
  unfold cptUpdate
  refine (cptUpdateVoltagesAndCurrents_refines pac).bind fun _ => ?_
  refine (cptUpdatePowerAndEnergy_refines pac).bind fun _ => ?_
  refine cptUpdateCollectiveValues_refines.bind fun _ => ?_
  refine (cptCurrentDecomposition_refines pac).bind fun _ => ?_
  exact cptPowerDecomposition_refines.bind fun _ => cptEvaluateFactors_refines

/-- **A run**, in memory and by value. -/
theorem cptRun_refines (pac : ℕ → TPAC R) (t : ℕ) :
    Refines (InMemory (me.filters me.Phase)) (cptRun me pac t) (cptRun me pac t)
      fun me' => InMemory (me'.filters me'.Phase) := by
  induction t with
  | zero => exact Refines.pure fun _ hIn => hIn
  | succ t ih => exact ih.bind fun me => cptUpdate_refines (pac t)

end Update

/-! ## `CPT_Config` -/

/-- The first `L` entries of some blocks are zero. -/
def Zeroed (L : ℕ) (blocks : Set ℕ) (h : Heap ℝ) : Prop :=
  ∀ b ∈ blocks, ∀ i < L, h b i = 0

section Config

variable {L block count n k : ℕ} {blocks : Set ℕ} {l l' : List (Descriptor ℝ)}

theorem zeroed_store {h : Heap ℝ} (hZero : Zeroed L blocks h) (b i : ℕ) :
    Zeroed L blocks (Function.update h b (Function.update (h b) i 0)) := by
  intro b' hb' j hj
  by_cases hb : b' = b
  · subst hb
    rw [Function.update_self]
    by_cases hij : j = i
    · rw [hij, Function.update_self]
    · rw [Function.update_of_ne hij]
      exact hZero b' hb' j hj
  · rw [Function.update_of_ne hb]
    exact hZero b' hb' j hj

/-- Clearing a ring clears it in memory, and writes nothing but zeros. -/
theorem clearRing_refines (buffer : Descriptor ℝ) (hLen : buffer.Length = L) :
    Refines (Zeroed L blocks) (clearRing buffer) (clearRing buffer)
      fun Buffer => Zeroed L (insert Buffer.Block blocks) := by
  have hRounds : ∀ n, Refines (Zeroed L blocks)
      ((List.range n).foldlM (fun (Buffer : TBuffer ℝ) i => do
        require ((i + 1) * sizeofDouble ≤ buffer.Size) .outOfBounds
        Buffer.store i 0) buffer.toTBuffer : HeapM ℝ (TBuffer ℝ))
      ((List.range n).foldlM (fun (Buffer : TBuffer ℝ) i => do
        require ((i + 1) * sizeofDouble ≤ buffer.Size) .outOfBounds
        Buffer.store i 0) buffer.toTBuffer)
      fun Buffer h => Buffer.Block = buffer.Block ∧ Zeroed L blocks h ∧
        ∀ i < n, h buffer.Block i = 0 := by
    intro n
    induction n with
    | zero => exact Refines.pure fun h hZero => ⟨rfl, hZero, nofun⟩
    | succ n ih =>
      rw [List.range_succ, List.foldlM_append, List.foldlM_append]
      refine ih.bind fun Buffer => ?_
      simp only [List.foldlM_cons, List.foldlM_nil, bind_pure, TBuffer.store]
      refine Refines.require fun _ => Refines.require fun _ => ?_
      refine Refines.bind (Refines.store fun h hInv => ?_) fun _ => Refines.pure fun h hInv => hInv
      obtain ⟨hBlock, hZero, hBefore⟩ := hInv
      refine ⟨hBlock, zeroed_store hZero _ _, fun i hi => ?_⟩
      rw [hBlock, Function.update_self]
      by_cases hin : i = n
      · rw [hin, Function.update_self]
      · rw [Function.update_of_ne hin]
        exact hBefore i (by omega)
  refine (hRounds buffer.Length).conseq (fun _ hZero => hZero) fun Buffer h hInv b hb => ?_
  obtain ⟨hBlock, hZero, hRing⟩ := hInv
  rcases hb with rfl | hb
  · rwa [← hBlock, hLen] at hRing
  · exact hZero b hb

theorem initFrom_refines (hDesc : Descriptors block count L l) (threshold : ℤ) (cmp min : ℝ) :
    Refines (Zeroed L blocks) (initFrom l k threshold cmp min) (initFrom l k threshold cmp min)
      fun maf => Zeroed L (insert maf.Buffer.Block blocks) := by
  unfold initFrom
  refine Refines.require fun hk => Refines.require fun _ => ?_
  rw [List.getElem?_eq_getElem hk]
  exact (clearRing_refines l[k] (hDesc.Length _ (List.getElem_mem hk))).bind fun Buffer =>
    Refines.pure fun h hZero => hZero

theorem initPhaseBody_refines (hDesc : Descriptors block count L l) (j : Fin 3) (p : TPhase ℝ) :
    Refines (Zeroed L blocks) (initPhaseBody n l j p) (initPhaseBody n l j p)
      fun p' => Zeroed L (p'.blocks ∪ blocks) := by
  unfold initPhaseBody
  refine Refines.require fun _ => ?_
  refine (initFrom_refines hDesc _ _ _).bind fun V => ?_
  refine (initFrom_refines hDesc _ _ _).bind fun I => ?_
  refine (initFrom_refines hDesc _ _ _).bind fun P => ?_
  refine (initFrom_refines hDesc _ _ _).bind fun W => ?_
  refine (initFrom_refines hDesc _ _ _).bind fun UI => ?_
  refine (initFrom_refines hDesc _ _ _).bind fun INT => ?_
  refine (initFrom_refines hDesc _ _ _).bind fun Iba => ?_
  refine (initFrom_refines hDesc _ _ _).bind fun Ibr => ?_
  refine (initFrom_refines hDesc _ _ _).bind fun Iv => Refines.pure fun h hZero b hb => ?_
  refine hZero b ?_
  rcases hb with ⟨c, rfl⟩ | hb
  · -- the block of one of the nine filters
    fin_cases c <;> simp [TPhase.maf, phaseInit]
  · simp [hb]

theorem initPhases_refines (hDesc : Descriptors block count L l) (Phase : Fin 3 → TPhase ℝ) :
    Refines (Zeroed L ∅) (mapPhases 3 Phase (initPhaseBody n l)) (mapPhases 3 Phase (initPhaseBody n l))
      fun P => Zeroed L {b | ∃ j, b ∈ (P j).blocks} := by
  unfold mapPhases forPhases
  simp only [show phaseIdx 3 = [0, 1, 2] by decide, List.foldlM_cons, List.foldlM_nil, bind_assoc,
    pure_bind]
  refine Refines.require fun _ => ?_
  refine (initPhaseBody_refines hDesc _ _).bind fun p₀ => ?_
  refine (initPhaseBody_refines hDesc _ _).bind fun p₁ => ?_
  refine (initPhaseBody_refines hDesc _ _).bind fun p₂ => Refines.pure fun h hZero b hb => ?_
  obtain ⟨j, hj⟩ := hb
  refine hZero b ?_
  fin_cases j
  · exact .inr (.inr (.inl hj))
  · exact .inr (.inl hj)
  · exact .inl hj

theorem initCpt_refines (hDesc : Descriptors block count L l)
    {block' count' : ℕ} (hDesc' : Descriptors block' count' L l') (me : TCPT ℝ) (freq : ℕ) :
    Refines (fun _ => True) (initCpt me l l' freq L n) (initCpt me l l' freq L n)
      fun cpt => Zeroed L (Set.range fun s => (cpt.filters cpt.Phase s).Buffer.Block) := by
  unfold initCpt
  have hPhases := (@initPhases_refines L block count n l hDesc me.Phase).conseq
    (fun h (_ : True) => fun b hb => absurd hb (Set.notMem_empty b)) fun _ _ hZero => hZero
  refine hPhases.bind fun P => ?_
  refine (initFrom_refines hDesc' _ _ _).bind fun Iba => ?_
  refine (initFrom_refines hDesc' _ _ _).bind fun Iua => ?_
  refine (initFrom_refines hDesc' _ _ _).bind fun Ibr => ?_
  refine (initFrom_refines hDesc' _ _ _).bind fun Iur => ?_
  refine (initFrom_refines hDesc' _ _ _).bind fun Iv => ?_
  refine (initFrom_refines hDesc' _ _ _).bind fun I => ?_
  refine (initFrom_refines hDesc' _ _ _).bind fun V => ?_
  refine (initFrom_refines hDesc' _ _ _).bind fun UI => (Refines.fdiv _ _).bind fun TSH => ?_
  refine Refines.pure fun h hZero b hb => hZero b ?_
  obtain ⟨s, rfl⟩ := hb
  cases s with
  | phase j c => simp [TCPT.filters, TPhase.blocks]
  | collective c => fin_cases c <;> simp [TCPT.filters, TCPT.collective]

variable {alloc : Allocator ℝ} {freq samples : ℕ} {init cpt : TCPT ℝ}

/-- **A configuration** does in memory what it does by value, and clears the rings. -/
theorem cptConfig_refines :
    Refines (fun _ => True) (cptConfig init alloc freq samples n)
      (cptConfig init alloc freq samples n) fun cpt? h => ∀ cpt, cpt? = some cpt →
        Zeroed samples (Set.range fun s => (cpt.filters cpt.Phase s).Buffer.Block) h := by
  by_cases hAlloc : alloc.Suffices n
  · obtain ⟨P, l, l', hDesc, hDesc', hEq⟩ := cptConfig_eq_initCpt freq samples hAlloc init
    rw [hEq, hEq, map_eq_pure_bind, map_eq_pure_bind]
    refine (initCpt_refines hDesc hDesc' _ freq).bind fun cpt => Refines.pure fun h hZero => ?_
    rintro _ ⟨⟩
    exact hZero
  · rw [cptConfig_eq_none hAlloc, cptConfig_eq_none hAlloc]
    refine Refines.pure fun h _ cpt hNone => ?_
    cases hNone

/-- The places, in the order of the descriptors. -/
def slots : List Slot :=
  (List.finRange 3).flatMap (fun i => (List.finRange 9).map (Slot.phase i)) ++
    (List.finRange 8).map Slot.collective

theorem mem_slots (s : Slot) : s ∈ slots := by
  cases s with
  | phase i c => simp [slots]
  | collective c => simp [slots]

theorem mafs_eq_slots (cpt : TCPT ℝ) : cpt.mafs 3 = slots.map (cpt.filters cpt.Phase) := rfl

/-- **The filters of a configuration are in memory.** -/
theorem cptConfig_inMemory {heap heap' : Heap ℝ}
    (hConfig : (cptConfig (m := HeapM ℝ) init alloc freq samples 3).run heap =
      .ok (some cpt, heap')) :
    cptConfig (m := Except Fault) init alloc freq samples 3 = .ok (some cpt) ∧
      InMemory (cpt.filters cpt.Phase) heap' := by
  obtain ⟨hValue, hZero⟩ := cptConfig_refines.of_run trivial hConfig
  have hSetUp := cptConfig_setUp hValue
  have hCleared : ∀ s, Cleared samples (cpt.filters cpt.Phase s) := fun s =>
    hSetUp.cleared _ (mafs_eq_slots cpt ▸ List.mem_map_of_mem (mem_slots s))
  refine ⟨hValue, fun s s' hBlock => ?_, fun s i hi => ?_⟩
  -- the descriptors have blocks of their own
  · have hOwn := hSetUp.own
    rw [mafs_eq_slots, List.map_map] at hOwn
    exact List.inj_on_of_nodup_map hOwn (mem_slots s) (mem_slots s') hBlock
  · have hi : i < samples := hi.trans_eq (hCleared s).Length
    rw [hZero cpt rfl _ ⟨s, rfl⟩ i hi, (hCleared s).Data i hi]

/-- A configuration by value, on whatever memory. -/
theorem cptConfig_onHeap
    (hConfig : cptConfig (m := Except Fault) init alloc freq samples n = .ok (some cpt))
    (heap : Heap ℝ) : ∃ heap',
      (cptConfig (m := HeapM ℝ) init alloc freq samples n).run heap = .ok (some cpt, heap') := by
  obtain ⟨heap', hRun, -⟩ := cptConfig_refines.ok heap trivial _ hConfig
  exact ⟨heap', hRun⟩

end Config

end EnergyMeter.Cpt
