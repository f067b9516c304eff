import EnergyMeter.Daq.Unpacking
import EnergyMeter.Lib.Binary32
import EnergyMeter.Lib.Table
import EnergyMeter.Meter.Model

/-!
# EnergyMeter — from the buffers of the converter to the samples

Every second `AnalogCore_GetSamples` converts the codes in `dbuffer` to voltages
at the converter, in `ch_data`, and `MetrologyCore_Scale` turns six of the eight
channels into volts and amperes of the mains, in place: `fsamples` of a channel
points to a row of `ch_data`.

* `channels_apply` — the samples of a second, each of them scaled once.
* `channels_sized` — whatever the buffers hold, a sample is zero or of a size
  between what one code and what all codes amount to.
-/

namespace EnergyMeter.Meter

open Lib Daq

/-! ## The C code -/

/-- The row of `ch_data` that `VChannels[j].fsamples` points to. -/
def voltageRow : Fin 3 → ℕ := ![2, 1, 0]

/-- The row of `ch_data` that `IChannels[j].fsamples` points to. -/
def currentRow : Fin 3 → ℕ := ![3, 6, 7]

section Code

variable {R F : Type} [Field R] [Zero F] (single : R → F) (double : F → R)

/-- `((float)(fsample - offset)) * gain`, as the `float` that it is stored as. The
difference of two `float`s is one too. -/
def scaleSample (gain : R) (offset fsample : F) : F :=
  single (double (single (double fsample - double offset)) * gain)

/-- The loop over the samples of a channel. The counters `k` and `t` of the
source served calls of `CalculateOffset` that are commented out: the offset
stays zero. -/
def scaleChannel (gain : R) (fs : ℕ) (fsamples : ℕ → F) : ℕ → F :=
  (List.range fs).foldl (fun fsamples i =>
    Function.update fsamples i (scaleSample single double gain 0 (fsamples i))) fsamples

/-- One of the loops over the channels. -/
def scaleChannels (gain : R) (row : Fin 3 → ℕ) (fs : ℕ) (chData : ℕ → ℕ → F) : ℕ → ℕ → F :=
  (List.finRange 3).foldl (fun chData j =>
    Function.update chData (row j) (scaleChannel single double gain fs (chData (row j)))) chData

/-- `MetrologyCore_Scale`. -/
def metrologyCoreScale (fs : ℕ) (chData : ℕ → ℕ → F) : ℕ → ℕ → F :=
  let chData := scaleChannels single double (160 / 2.4) voltageRow fs chData
  scaleChannels single double (50 / 2.4) currentRow fs chData

omit [Zero F] in
/-- `AnalogCore_GetSamples` after `DAQ_Run` has filled `dbuffer`. -/
def analogCoreGetSamples (dbuffer : ℕ → Byte) (chData : ℕ → ℕ → F) : ℕ → ℕ → F :=
  (convertRawValues single double dbuffer 8 chData).chData

/-- `ch_data` while the samples of second `s` are processed. -/
def chDataAt (dbuffer : ℕ → ℕ → Byte) (chData : ℕ → ℕ → F) : ℕ → ℕ → ℕ → F
  | 0 => metrologyCoreScale single double sampleRate
      (analogCoreGetSamples single double (dbuffer 0) chData)
  | s + 1 => metrologyCoreScale single double sampleRate
      (analogCoreGetSamples single double (dbuffer (s + 1)) (chDataAt dbuffer chData s))

/-- The samples of second `s`, as `pac` takes them. -/
def channels (dbuffer : ℕ → ℕ → Byte) (chData : ℕ → ℕ → F) (s : ℕ) : Channels R where
  VChannels j idx := double (chDataAt single double dbuffer chData s (voltageRow j) idx)
  IChannels j idx := double (chDataAt single double dbuffer chData s (currentRow j) idx)

end Code

/-! ## Every sample is scaled once -/

section Loops

variable {R F : Type} [Field R] [Zero F] {single : R → F} {double : F → R} {gain : R}
  {row : Fin 3 → ℕ} {fs : ℕ}

theorem scaleChannel_apply (fsamples : ℕ → F) {i : ℕ} (hi : i < fs) :
    scaleChannel single double gain fs fsamples i =
      scaleSample single double gain 0 (fsamples i) := by
  have hNodup : ((List.range fs).map id).Nodup := by
    rw [List.map_id]
    exact List.nodup_range
  exact foldl_update_of_mem (g := fun _ => scaleSample single double gain 0) hNodup
    (List.mem_range.mpr hi)

theorem scaleChannels_other {chData : ℕ → ℕ → F} {c : ℕ} (hc : ∀ j, c ≠ row j) :
    scaleChannels single double gain row fs chData c = chData c := by
  refine foldl_update_of_not_mem (g := fun _ => scaleChannel single double gain fs) ?_
  rw [List.mem_map]
  rintro ⟨j, -, hEq⟩
  exact hc j hEq.symm

/-- No two channels share a row, so every row is scaled by its own round only. -/
theorem scaleChannels_own (hRow : Function.Injective row) (chData : ℕ → ℕ → F) (j : Fin 3) :
    scaleChannels single double gain row fs chData (row j) =
      scaleChannel single double gain fs (chData (row j)) :=
  foldl_update_of_mem (g := fun _ => scaleChannel single double gain fs)
    ((List.nodup_finRange 3).map hRow) (List.mem_finRange j)

theorem voltageRow_inj : Function.Injective voltageRow := by decide

theorem currentRow_inj : Function.Injective currentRow := by decide

theorem voltageRow_ne_currentRow (j j' : Fin 3) : voltageRow j ≠ currentRow j' := by
  revert j j'
  decide

theorem metrologyCoreScale_voltage (chData : ℕ → ℕ → F) (j : Fin 3) {i : ℕ} (hi : i < fs) :
    metrologyCoreScale single double fs chData (voltageRow j) i =
      scaleSample single double (160 / 2.4) 0 (chData (voltageRow j) i) := by
  rw [metrologyCoreScale, scaleChannels_other (voltageRow_ne_currentRow j),
    scaleChannels_own voltageRow_inj, scaleChannel_apply _ hi]

theorem metrologyCoreScale_current (chData : ℕ → ℕ → F) (j : Fin 3) {i : ℕ} (hi : i < fs) :
    metrologyCoreScale single double fs chData (currentRow j) i =
      scaleSample single double (50 / 2.4) 0 (chData (currentRow j) i) := by
  rw [metrologyCoreScale, scaleChannels_own currentRow_inj, scaleChannel_apply _ hi,
    scaleChannels_other fun j' => (voltageRow_ne_currentRow j' j).symm]

omit [Zero F] in
/-- The conversion overwrites all channels. -/
theorem analogCoreGetSamples_apply (dbuffer : ℕ → Byte) (chData : ℕ → ℕ → F) {c i : ℕ}
    (hc : c < 8) (hi : i < sampleRate) :
    analogCoreGetSamples single double dbuffer chData c i = valueAt single double dbuffer c i :=
  (convertRawValues_spec le_rfl chData).values c i (.inl ⟨hc, hi⟩)

/-- Whatever `ch_data` held, a second scales the codes of its own buffer. -/
theorem chDataAt_eq (single : R → F) (double : F → R) (dbuffer : ℕ → ℕ → Byte)
    (chData : ℕ → ℕ → F) (s : ℕ) :
    ∃ held, chDataAt single double dbuffer chData s = metrologyCoreScale single double sampleRate
      (analogCoreGetSamples single double (dbuffer s) held) := by
  cases s with
  | zero => exact ⟨chData, rfl⟩
  | succ s => exact ⟨chDataAt single double dbuffer chData s, rfl⟩

/-- **The samples of a second** are the codes of its buffer, converted and scaled
once; nothing of the second before is left. -/
theorem channels_apply (single : R → F) (double : F → R) (dbuffer : ℕ → ℕ → Byte)
    (chData : ℕ → ℕ → F) (s : ℕ) (j : Fin 3) {i : ℕ} (hi : i < sampleRate) :
    (channels single double dbuffer chData s).VChannels j i =
      double (scaleSample single double (160 / 2.4) 0
        (valueAt single double (dbuffer s) (voltageRow j) i)) ∧
    (channels single double dbuffer chData s).IChannels j i =
      double (scaleSample single double (50 / 2.4) 0
        (valueAt single double (dbuffer s) (currentRow j) i)) := by
  obtain ⟨held, hRows⟩ := chDataAt_eq single double dbuffer chData s
  have hRow : voltageRow j < 8 ∧ currentRow j < 8 := by
    revert j
    decide
  simp only [channels, hRows, metrologyCoreScale_voltage _ j hi, metrologyCoreScale_current _ j hi,
    analogCoreGetSamples_apply _ _ hRow.1 hi, analogCoreGetSamples_apply _ _ hRow.2 hi, and_self]

end Loops

/-! ## Sizes of the samples -/

/-- The shifts leave a code of 24 bits, whatever the bytes are. -/
theorem code_bound (raw : BitVec 32) : |((raw <<< 8).sshiftRight 8).toInt| ≤ 2 ^ 23 := by
  have hLow := BitVec.le_toInt (raw <<< 8)
  have hHigh := BitVec.toInt_lt (x := raw <<< 8)
  rw [BitVec.toInt_sshiftRight, Int.shiftRight_eq_div_pow, abs_le]
  norm_num at hLow hHigh ⊢
  omega

section Sizes

variable {R : Type} [Field R] [LinearOrder R] [IsStrictOrderedRing R] [FloorRing R]

open Binary32

/-- A code as a voltage at the converter. -/
theorem sampleValue_sized {value : ℤ} (h : |value| ≤ 2 ^ 23) :
    Sized (47 / 10 ^ 8 : R) (4 + 1 / 10 ^ 4) (double (sampleValue single double value)) := by
  have hCode : Sized 1 (2 ^ 23) (value : R) := by
    rcases eq_or_ne value 0 with rfl | hne
    · exact .inl Int.cast_zero
    · refine .inr ⟨?_, ?_⟩
      · exact_mod_cast Int.one_le_abs hne
      · exact_mod_cast h
  -- the two roundings of `sample.value`
  have hRef := (hCode.mul_const (c := 4) (by norm_num)).binary32 (by norm_num)
  have hRes := (hRef.mul_const (c := 8388607⁻¹) (by norm_num)).binary32 (by norm_num)
  rw [sampleValue, double_single, double_single, div_eq_mul_inv _ (8388607 : R)]
  exact hRes.mono (by norm_num) (by norm_num)

/-- A voltage at the converter as a sample of the mains. -/
theorem scaleSample_sized {gain : R} {x : Binary32 R} {lo hi : R} (hOne : 1 ≤ gain)
    (h : Sized (47 / 10 ^ 8 : R) (4 + 1 / 10 ^ 4) (double x))
    (hLo : lo ≤ 469 / 10 ^ 9 * gain) (hHi : (4 + 2 / 10 ^ 4) * gain ≤ hi) :
    Sized lo hi (double (scaleSample single double gain 0 x)) := by
  have hGain : 0 ≤ gain := zero_le_one.trans hOne
  have hOffset := h.binary32 (by norm_num)
  have hGained := (hOffset.mul_const hGain).binary32 ?_
  · rw [scaleSample, double_single, double_single, double_zero, sub_zero]
    refine hGained.mono (hLo.trans ?_) (le_trans ?_ hHi)
    · nlinarith
    · nlinarith
  · have hSmall : (2 : R) ^ (-126 : ℤ) ≤ 47 / 10 ^ 8 * (1 - 1 / 10 ^ 6) := by norm_num
    exact hSmall.trans (le_mul_of_one_le_right (by norm_num) hOne)

theorem valueAt_sized (dbuffer : ℕ → Byte) (c i : ℕ) :
    Sized (47 / 10 ^ 8 : R) (4 + 1 / 10 ^ 4) (double (valueAt single double dbuffer c i)) :=
  sampleValue_sized (code_bound _)

/-- **The range of the samples.** Whatever the buffers hold, a sample that is not
zero is at least what one code amounts to, and none is more than all codes amount
to. -/
theorem channels_sized (dbuffer : ℕ → ℕ → Byte) (chData : ℕ → ℕ → Binary32 R) (s : ℕ) (j : Fin 3)
    {i : ℕ} (hi : i < sampleRate) :
    Sized (3 / 10 ^ 5 : R) 267 ((channels single double dbuffer chData s).VChannels j i) ∧
    Sized (9 / 10 ^ 6 : R) 84 ((channels single double dbuffer chData s).IChannels j i) := by
  obtain ⟨hV, hI⟩ := channels_apply single double dbuffer chData s j hi
  rw [hV, hI]
  constructor
  · exact scaleSample_sized (by norm_num) (valueAt_sized _ _ _) (by norm_num) (by norm_num)
  · exact scaleSample_sized (by norm_num) (valueAt_sized _ _ _) (by norm_num) (by norm_num)

end Sizes

end EnergyMeter.Meter
