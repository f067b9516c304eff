import EnergyMeter.Cpt.Config
import EnergyMeter.Meter.Message

/-!
# EnergyMeter — the main loop

`main.cpp`: every second brings `ENERGY_METER_SAMPLE_RATE` samples. Each of
them updates the power theory; after every cycle of the mains the attributes
of the phases enter one filter each, and 40 times a second they enter the raw
parameters. At the end of the second the means are sent and the raw parameters
are appended to the log.

`R` stands for `double` and `F` for `float`; `single` is the conversion. The
filters, the parameters and the channels are arrays of the source.
-/

namespace EnergyMeter.Meter

open Lib Cpt EAttributes

/-- `ENERGY_METER_SAMPLE_RATE`. -/
def sampleRate : ℕ := 15360

/-- `ENERGY_METER_FREQ`. -/
def mainsFreq : ℕ := 60

/-- `ENERGY_METER_SAMPLES_PER_CYCLE`. -/
def samplesPerCycle : ℕ := sampleRate / mainsFreq

/-- `RAW_PARAM`: the attributes of a phase and one unused entry. -/
def rawParam : ℕ := attrMax + 1

/-- `RAW_PARAM_FREQ`. -/
def rawParamFreq : ℕ := 40

/-- `RAW_PARAM_FREQ_COUNT`. -/
def rawParamFreqCount : ℕ := sampleRate / rawParamFreq

/-- `PARAMS_LEN`. -/
def paramsLen : ℕ := rawParam * 3

/-- The scaled samples of a second: `fsamples` of the voltage and of the
current channels. -/
structure Channels (R : Type) where
  VChannels : Fin 3 → ℕ → R
  IChannels : Fin 3 → ℕ → R

/-- `pac`, filled for sample `idx`. -/
def Channels.pac {R : Type} (ch : Channels R) (idx : ℕ) : TPAC R where
  V j := ch.VChannels j idx
  I j := ch.IChannels j idx

/-- What the main loop keeps from second to second. `socket` is what has been
sent and `raw` what the log holds. -/
structure MainState (R F : Type) where
  CPT : TCPT R
  maf : ℕ → TMAF R
  params : ℕ → F
  socket : List (List Char)
  raw : List F

/-- The variables of the loop over the samples. -/
structure Cycle (R F : Type) extends MainState R F where
  m : ℕ
  n : ℕ
  offset : ℕ

section Code

variable {m : Type → Type} [Monad m] [MonadRequire m] {R F : Type}

/-- The loop that allocates and initialises the filters of the means. -/
def initMafs [Zero R] (raw : ℕ → Option (ℕ → R)) (block : ℕ) : Option (List (TMAF R)) :=
  (List.range numberOfMafBuffers).mapM fun i => do
    let Data ← raw i
    return movingAverageFilterInit { Block := block + i, Data, Length := mainsFreq } 0 0 0

/-- `main` up to its loop: the theory and the filters of the means. The static
arrays start cleared. -/
def initMeter [Field R] [DecidableEq R] [Zero F] (CPT : TCPT R) (alloc : Allocator R)
    (raw : ℕ → Option (ℕ → R)) : m (Option (MainState R F)) := do
  let some CPT ← cptConfig CPT alloc sampleRate samplesPerCycle 3 | return none
  let some mafs := initMafs raw (3 * (phaseRawBuffers + cptRawBuffers)) | return none
  let cleared : TMAF R := movingAverageFilterInit { Block := 0, Data := fun _ => 0, Length := 0 } 0 0 0
  return some
    { CPT, maf := fun k => mafs[k]?.getD cleared, params := fun _ => 0, socket := [], raw := [] }

variable [Field R] [LinearOrder R]

/-- `MovingAverageFilter_Update(&_maf[k], x)`. -/
def updateMaf (maf : ℕ → TMAF R) (k : ℕ) (x : R) : m (ℕ → TMAF R) := do
  let f ← loadMaf maf k
  let f := (← movingAverageFilterUpdate f x).1
  return Function.update maf k f

/-- The body of the loop of `update_mean_values`. -/
def updateMeanValuesBody (CPT : TCPT R) (maf : ℕ → TMAF R) (i : Fin 3) : m (ℕ → TMAF R) := do
  let j := phaseOrder i
  let k := i.val * attrMax
  let maf ← updateMaf maf (k + ATTR_VOLTAGE_RMS.toNat) (CPT.Phase j).V_rms
  let maf ← updateMaf maf (k + ATTR_CURRENT_RMS.toNat) (CPT.Phase j).I_rms
  let maf ← updateMaf maf (k + ATTR_POWER_APPARENT.toNat) (CPT.Phase j).A
  let maf ← updateMaf maf (k + ATTR_POWER_ACTIVE.toNat) (CPT.Phase j).P_avg
  let maf ← updateMaf maf (k + ATTR_ENERGY_REACTIVE.toNat) (CPT.Phase j).Q
  let maf ← updateMaf maf (k + ATTR_CURRENT_ACTIVE.toNat) (CPT.Phase j).Iba_rms
  let maf ← updateMaf maf (k + ATTR_CURRENT_REACTIVE.toNat) (CPT.Phase j).Ibr_rms
  let maf ← updateMaf maf (k + ATTR_CURRENT_VOID.toNat) (CPT.Phase j).Iv_rms
  let maf ← updateMaf maf (k + ATTR_PF.toNat) (CPT.Phase j).PF
  let maf ← updateMaf maf (k + ATTR_QF.toNat) (CPT.Phase j).QF
  updateMaf maf (k + ATTR_VF.toNat) (CPT.Phase j).VF

/-- `update_mean_values`. -/
def updateMeanValues (CPT : TCPT R) (maf : ℕ → TMAF R) : m (ℕ → TMAF R) :=
  (List.finRange 3).foldlM (updateMeanValuesBody CPT) maf

omit [Field R] [LinearOrder R] in
/-- `params[k] = x`. -/
def storeParam (single : R → F) (params : ℕ → F) (k : ℕ) (x : R) : m (ℕ → F) := do
  require (k < rawParamFreq * paramsLen) .outOfBounds
  return Function.update params k (single x)

omit [Field R] [LinearOrder R] in
/-- The body of the loop of `update_raw_values`. -/
def updateRawValuesBody (single : R → F) (CPT : TCPT R) (offset : ℕ) (params : ℕ → F)
    (i : Fin 3) : m (ℕ → F) := do
  let j := phaseOrder i
  let k := offset + i.val * rawParam
  let params ← storeParam single params (k + ATTR_VOLTAGE_RMS.toNat) (CPT.Phase j).V_rms
  let params ← storeParam single params (k + ATTR_CURRENT_RMS.toNat) (CPT.Phase j).I_rms
  let params ← storeParam single params (k + ATTR_POWER_APPARENT.toNat) (CPT.Phase j).A
  let params ← storeParam single params (k + ATTR_POWER_ACTIVE.toNat) (CPT.Phase j).P_avg
  let params ← storeParam single params (k + ATTR_ENERGY_REACTIVE.toNat) (CPT.Phase j).Q
  let params ← storeParam single params (k + ATTR_CURRENT_ACTIVE.toNat) (CPT.Phase j).Iba_rms
  let params ← storeParam single params (k + ATTR_CURRENT_REACTIVE.toNat) (CPT.Phase j).Ibr_rms
  let params ← storeParam single params (k + ATTR_CURRENT_VOID.toNat) (CPT.Phase j).Iv_rms
  let params ← storeParam single params (k + ATTR_PF.toNat) (CPT.Phase j).PF
  let params ← storeParam single params (k + ATTR_QF.toNat) (CPT.Phase j).QF
  storeParam single params (k + ATTR_VF.toNat) (CPT.Phase j).VF

omit [Field R] [LinearOrder R] in
/-- `update_raw_values`. -/
def updateRawValues (single : R → F) (CPT : TCPT R) (offset : ℕ) (params : ℕ → F) :
    m (ℕ → F) :=
  (List.finRange 3).foldlM (updateRawValuesBody single CPT offset) params

omit [Monad m] [MonadRequire m] in
/-- `WriteLog`: the log with `chunks` records of `cnt_params` numbers more. That the
file cannot be opened is not modelled. -/
def writeLog (raw : List F) (ptr_params : ℕ → F) (cnt_params chunks : ℕ) : List F :=
  raw ++ (List.range chunks).flatMap fun i =>
    (List.range cnt_params).map fun c => ptr_params (cnt_params * i + c)

variable [FloorRing R] [HasSqrt R]

omit [FloorRing R] [HasSqrt R] in
/-- The count of the samples of a cycle, at whose end the filters of the means
are updated. -/
def meanStep (st : Cycle R F) : m (Cycle R F) := do
  let st := { st with m := st.m + 1 }
  if st.m ≥ samplesPerCycle then
    let maf ← updateMeanValues st.CPT st.maf
    return { st with m := 0, maf }
  else
    return st

omit [Field R] [LinearOrder R] [FloorRing R] [HasSqrt R] in
/-- The count of the samples of a record of the raw parameters. -/
def rawStep (single : R → F) (st : Cycle R F) : m (Cycle R F) := do
  let st := { st with n := st.n + 1 }
  if st.n ≥ rawParamFreqCount then
    let params ← updateRawValues single st.CPT st.offset st.params
    return { st with n := 0, params, offset := st.offset + paramsLen }
  else
    return st

/-- The body of the loop over the samples of a second. -/
def sampleBody (single : R → F) (ch : Channels R) (idx : ℕ) (st : Cycle R F) :
    m (Cycle R F) := do
  let CPT ← cptUpdate st.CPT (ch.pac idx)
  let st ← meanStep { st with CPT }
  rawStep single st

/-- The loop over the first `idx` samples of a second. -/
def sampleLoop (single : R → F) (ch : Channels R) (st : Cycle R F) : ℕ → m (Cycle R F)
  | 0 => return st
  | idx + 1 => do
    let st ← sampleLoop single ch st idx
    sampleBody single ch idx st

/-- One second of the main loop. -/
def second (single : R → F) (st : MainState R F) (ch : Channels R) : m (MainState R F) := do
  let cycle ← sampleLoop single ch { st with m := 0, n := 0, offset := 0 } sampleRate
  let message ← sendData cycle.maf
  return { cycle.toMainState with
    socket := cycle.socket ++ [message]
    raw := writeLog cycle.raw cycle.params paramsLen rawParamFreq }

/-- The first `s` seconds of the main loop. -/
def meterRun (single : R → F) (st : MainState R F) (ch : ℕ → Channels R) : ℕ → m (MainState R F)
  | 0 => return st
  | s + 1 => do
    let st ← meterRun single st ch s
    second single st (ch s)

end Code

end EnergyMeter.Meter
