import EnergyMeter.Cpt.Bounds
import EnergyMeter.Meter.Means
import EnergyMeter.Meter.Scale
import Mathlib.Data.Nat.Digits.Defs

/-!
# EnergyMeter — the message fits its buffer

`send_data` prints into a buffer of 1000 bytes with `sprintf`, which has no limit.
What keeps the text within the buffer is the converter: its samples are zero or
not small, so none of the figures reaches twelve digits.

* `messageText_fits` — numbers of at most twelve digits fit.
* `figureOf_lt` — whatever the samples of the converter are, every published
  figure of a phase has at most twelve digits.

Main result:

* `meterRun_fits` — a whole run on any contents of the buffers of the converter.
-/

namespace EnergyMeter.Meter

open Lib Cpt Daq EAttributes

/-! ## The length of a text -/

section Length

variable {R : Type} [Field R] [LinearOrder R] [IsStrictOrderedRing R] [FloorRing R]

/-- A sign, the digits before the point, the point and two digits. Rounding can add
a digit. -/
theorem twoDecimals_length {x : R} {d : ℕ} (h : |x| < 10 ^ d) :
    (twoDecimals x).length ≤ d + 5 := by
  -- rounding to cents may reach the power of ten, but not pass it
  have hCents : (roundHalfEven (|x| * 100)).toNat ≤ 10 ^ d * 100 := by
    have hError := (abs_le.mp (roundHalfEven_error (|x| * 100))).2
    have hScaled : |x| * 100 < 10 ^ d * 100 := mul_lt_mul_of_pos_right h (by norm_num)
    have hLt : (roundHalfEven (|x| * 100) : R) < ((10 ^ d * 100 + 1 : ℕ) : ℤ) := by
      push_cast
      linarith
    have hInt := Int.cast_lt.mp hLt
    omega
  have hDigits : (Nat.toDigits 10 ((roundHalfEven (|x| * 100)).toNat / 100)).length ≤ d + 1 := by
    refine Nat.toDigits_length 10 _ (d + 1) (Nat.succ_pos d) ?_
    have hPow : 10 ^ (d + 1) = 10 ^ d * 10 := pow_succ 10 d
    have hOne : 1 ≤ 10 ^ d := Nat.one_le_pow _ _ (by decide)
    omega
  have hSign : (if x < 0 then [ '-'] else []).length ≤ 1 := by split <;> simp
  simp only [twoDecimals, List.length_append, List.length_cons, List.length_nil]
  omega

theorem sprintfParam_length {x : R} {d : ℕ} (h : |x| < 10 ^ d) (a : EAttributes) (c : Fin 3) :
    (sprintfParam a (phase c) x).length ≤ d + 15 := by
  have hName : (paramName a).length ≤ 8 := by cases a <;> decide
  have hValue := twoDecimals_length h
  simp only [sprintfParam, List.length_append, List.length_cons, List.length_nil]
  omega

/-- **Numbers of at most twelve digits fit.** The terminator takes the place of the
last comma. -/
theorem messageText_fits {value : Fin 3 → EAttributes → R} (h : ∀ c a, |value c a| < 10 ^ 12) :
    (messageText value).length + 1 ≤ 1000 := by
  have hItems : ((items value).flatMap (· ++ [ ','])).length ≤ 33 * 28 := by
    -- 33 items, each with its comma of at most 28 characters
    have hCount : (items value).length = 33 := by
      simp [items, attributes]
    have hItem : ∀ l ∈ (items value).map fun item => (item ++ [ ',']).length, l ≤ 28 := by
      intro l hl
      obtain ⟨item, hItem, rfl⟩ := List.mem_map.mp hl
      obtain ⟨c, a, rfl⟩ := mem_items.mp hItem
      have hLength := sprintfParam_length (h c a) a c
      rw [List.length_append, List.length_singleton]
      omega
    have hSum := List.sum_le_card_nsmul _ 28 hItem
    rwa [List.length_map, hCount, ← List.length_flatMap] at hSum
  have hHeader : messageHeader.length = 7 := rfl
  rw [← dropLast_message, List.length_dropLast, List.length_append, hHeader]
  omega

end Length

/-! ## The figures -/

/-- The figure of a phase that stands for an attribute. -/
def figureOf (r : PhaseReading) : EAttributes → ℝ
  | ATTR_VOLTAGE_RMS => r.V_rms
  | ATTR_CURRENT_RMS => r.I_rms
  | ATTR_POWER_APPARENT => r.power.A
  | ATTR_POWER_ACTIVE => r.P_avg
  | ATTR_ENERGY_REACTIVE => r.power.Q
  | ATTR_CURRENT_ACTIVE => r.Iba_rms
  | ATTR_CURRENT_REACTIVE => r.Ibr_rms
  | ATTR_CURRENT_VOID => r.Iv_rms
  | ATTR_PF => r.power.PF
  | ATTR_QF => r.power.QF
  | ATTR_VF => r.power.VF

theorem fieldOf_eq (p : TPhase ℝ) (a : EAttributes) : fieldOf p a = figureOf p.reading a := by
  cases a <;> rfl

/-- Volts: the least is one code. -/
noncomputable def voltageRange : Range where
  lo := 3 / 10 ^ 5
  hi := 267
  lo_pos := by norm_num
  lo_le := by norm_num
  le_hi := by norm_num

/-- Amperes. -/
noncomputable def currentRange : Range where
  lo := 9 / 10 ^ 6
  hi := 84
  lo_pos := by norm_num
  lo_le := by norm_num
  le_hi := by norm_num

section Figures

variable {f : Feed} {i : Fin 3}

/-- No figure is negative. -/
theorem figureOf_nonneg (f : Feed) (i : Fin 3) (s : ℕ) (a : EAttributes) :
    0 ≤ figureOf (f.phaseReading i s) a := by
  have hV := f.rms_pos (f.V i) s
  have hI := f.rms_pos (f.I i) s
  have hIbr := f.rms_pos (f.Ibr i) s
  have hIv := f.rms_pos (f.Iv i) s
  have hP := f.P_avg_pos i s
  -- products and quotients of floored values, and two factors that are cut off
  cases a with
  | ATTR_VOLTAGE_RMS => exact hV.le
  | ATTR_CURRENT_RMS => exact hI.le
  | ATTR_POWER_APPARENT => exact (mul_pos hV hI).le
  | ATTR_POWER_ACTIVE => exact hP.le
  | ATTR_ENERGY_REACTIVE => exact (mul_pos hV hIbr).le
  | ATTR_CURRENT_ACTIVE => exact (f.rms_pos _ s).le
  | ATTR_CURRENT_REACTIVE => exact hIbr.le
  | ATTR_CURRENT_VOID => exact hIv.le
  | ATTR_PF => exact div_nonneg hP.le (mul_pos hV hI).le
  | ATTR_QF => exact (powerSet_QF_NF hV hIbr.le).1.1
  | ATTR_VF => exact (limitOne_mem (div_nonneg (mul_pos hV hIv).le (mul_pos hV hI).le)).1

/-- **Twelve digits.** For the ranges of the converter and windows of one cycle of
the mains, every published figure of a phase is below a million millions. -/
theorem figureOf_lt (h : Measured voltageRange currentRange f) (hL : f.L = samplesPerCycle)
    (hi : i.val < f.n) (s : ℕ) (a : EAttributes) :
    figureOf (f.phaseReading i s) a < 10 ^ 12 := by
  have hL1 : 1 ≤ f.L := by
    rw [hL]
    decide
  have hLen : (f.L : ℝ) = 256 := by
    rw [hL]
    norm_num [samplesPerCycle, sampleRate, mainsFreq]
  have hV : f.rms (f.V i) s ≤ 267 := h.V_rms_le
  have hI : f.rms (f.I i) s ≤ 84 := h.I_rms_le
  have hA : f.rms (f.V i) s * f.rms (f.I i) s ≤ 267 * 84 := h.A_le
  have hP : f.P_avg i s ≤ 267 * 84 := h.P_avg_le
  -- the balanced active current comes closest to the bound
  have hIba : f.rms (f.Iba i) s ≤ 6 * 10 ^ 11 := f.rms_le (by norm_num) fun r =>
    (h.abs_Iba_le hL1 hi).trans (by
      rw [hLen]
      norm_num [voltageRange, currentRange])
  have hIbr : f.rms (f.Ibr i) s ≤ 65000 := f.rms_le (by norm_num) fun r =>
    (h.abs_Ibr_le hL1 hi).trans (by
      rw [hLen]
      norm_num [currentRange])
  have hIv : f.rms (f.Iv i) s ≤ 2 * 10 ^ 11 := f.rms_le (by norm_num) fun r =>
    (h.abs_Iv_le hL1).trans (by
      rw [hLen]
      norm_num [voltageRange, currentRange])
  have hPF : f.P_avg i s / (f.rms (f.V i) s * f.rms (f.I i) s) ≤ 3 * 10 ^ 9 :=
    (h.PF_le hL1).trans (by
      rw [hLen]
      norm_num [voltageRange, currentRange])
  cases a with
  | ATTR_VOLTAGE_RMS => exact hV.trans_lt (by norm_num)
  | ATTR_CURRENT_RMS => exact hI.trans_lt (by norm_num)
  | ATTR_POWER_APPARENT => exact hA.trans_lt (by norm_num)
  | ATTR_POWER_ACTIVE => exact hP.trans_lt (by norm_num)
  | ATTR_ENERGY_REACTIVE =>
    have hQ : f.rms (f.V i) s * f.rms (f.Ibr i) s ≤ 267 * 65000 :=
      mul_le_mul hV hIbr (f.rms_pos _ s).le (by norm_num)
    exact hQ.trans_lt (by norm_num)
  | ATTR_CURRENT_ACTIVE => exact hIba.trans_lt (by norm_num)
  | ATTR_CURRENT_REACTIVE => exact hIbr.trans_lt (by norm_num)
  | ATTR_CURRENT_VOID => exact hIv.trans_lt (by norm_num)
  | ATTR_PF => exact hPF.trans_lt (by norm_num)
  | ATTR_QF =>
    exact (powerSet_QF_NF (f.rms_pos _ s) (f.rms_pos _ s).le).1.2.trans_lt (by norm_num)
  | ATTR_VF =>
    refine (limitOne_mem (div_nonneg ?_ ?_)).2.trans_lt (by norm_num)
    · exact (mul_pos (f.rms_pos _ s) (f.rms_pos _ s)).le
    · exact (mul_pos (f.rms_pos _ s) (f.rms_pos _ s)).le

end Figures

/-! ## Runs -/

section Run

variable {CPT : TCPT ℝ} {ch : ℕ → Channels ℝ} {s : ℕ} {c : Fin 3} {a : EAttributes}

/-- Samples that the converter can deliver. -/
def Delivered (ch : ℕ → Channels ℝ) : Prop :=
  ∀ s j, ∀ i < sampleRate,
    Sized voltageRange.lo voltageRange.hi ((ch s).VChannels j i) ∧
    Sized currentRange.lo currentRange.hi ((ch s).IChannels j i)

theorem Delivered.measured (h : Delivered ch) :
    Measured voltageRange currentRange ⟨samplesPerCycle, 3, 1 / (sampleRate : ℕ), stream ch⟩ where
  V i u := (h (u / sampleRate) i (u % sampleRate) (Nat.mod_lt _ (by decide))).1
  I i u := (h (u / sampleRate) i (u % sampleRate) (Nat.mod_lt _ (by decide))).2

/-- What a phase publishes after any number of updates. -/
theorem fieldOf_lt (hConfig : Configured CPT) (h : Delivered ch) (u : ℕ) :
    |fieldOf ((cptAfter CPT ch (u + 1)).Phase c) a| < 10 ^ 12 := by
  obtain ⟨me, hRun, -, -, hPhase⟩ :=
    cptRun_reading (show 1 ≤ samplesPerCycle by decide) (show 3 ≠ 1 by decide)
      (hConfig (stream ch)) u
  have hMe : cptAfter CPT ch (u + 1) = me := hRun.total
  rw [hMe, fieldOf_eq, hPhase c c.isLt, abs_of_nonneg (figureOf_nonneg _ c u a)]
  exact figureOf_lt h.measured rfl c.isLt u a

/-- The means of a second are within the bound of what they are means of. -/
theorem secondMean_lt (hConfig : Configured CPT) (h : Delivered ch) :
    |secondMean CPT ch s c a| < 10 ^ 12 := by
  have hPos : (0 : ℝ) < mainsFreq := Nat.cast_pos.mpr (by decide)
  rw [secondMean, abs_div, abs_of_pos hPos, div_lt_iff₀ hPos]
  calc |∑ q ∈ Finset.range mainsFreq,
          fieldOf ((cptAfter CPT ch (s * sampleRate + samplesPerCycle * (q + 1))).Phase c) a|
      ≤ ∑ q ∈ Finset.range mainsFreq,
          |fieldOf ((cptAfter CPT ch (s * sampleRate + samplesPerCycle * (q + 1))).Phase c) a| :=
        Finset.abs_sum_le_sum_abs _ _
    _ < ∑ q ∈ Finset.range mainsFreq, (10 : ℝ) ^ 12 := by
        refine Finset.sum_lt_sum_of_nonempty ⟨0, Finset.mem_range.mpr (by decide)⟩ fun q _ => ?_
        -- the end of a cycle is after at least one update
        obtain ⟨u, hu⟩ : ∃ u, s * sampleRate + samplesPerCycle * (q + 1) = u + 1 :=
          Nat.exists_eq_succ_of_ne_zero
            (Nat.add_pos_right _ (Nat.mul_pos (by decide) (Nat.succ_pos q))).ne'
        rw [hu]
        exact fieldOf_lt hConfig h u
    _ = 10 ^ 12 * mainsFreq := by
        rw [Finset.sum_const, Finset.card_range, nsmul_eq_mul, mul_comm]

end Run

section Init

open Binary32

variable {raw : ℕ → Option (ℕ → ℝ)}

theorem delivered_channels (dbuffer : ℕ → ℕ → Byte) (chData : ℕ → ℕ → Binary32 ℝ) :
    Delivered (channels single double dbuffer chData) :=
  fun s j _ hi => channels_sized dbuffer chData s j hi

/-- **The message always fits.** Whatever the converter leaves in its buffers and
for any number of seconds, the main loop meets its requirements, among them that
`send_data` stays within `message`, and the text of every second is, with its
terminator, no longer than that. -/
theorem meterRun_fits {CPT : TCPT ℝ} {alloc : Allocator ℝ} {st : MainState ℝ (Binary32 ℝ)}
    (hInit : initMeter (m := Except Fault) CPT alloc raw = .ok (some st))
    (dbuffer : ℕ → ℕ → Byte) (chData : ℕ → ℕ → Binary32 ℝ) (s : ℕ) :
    ∃ st', meterRun (m := Except Fault) single st (channels single double dbuffer chData) s =
        .ok st' ∧
      st'.socket.length = s ∧ ∀ message ∈ st'.socket, message.length + 1 ≤ 1000 := by
  obtain ⟨hConfig, hMain⟩ := initMeter_spec hInit (channels single double dbuffer chData)
  -- the converter bounds the samples, these the means, and these the text
  have hFits : ∀ k, (messageText (secondMean st.CPT (channels single double dbuffer chData)
      k)).length + 1 ≤ 1000 := fun k =>
    messageText_fits fun _ _ => secondMean_lt hConfig (delivered_channels dbuffer chData)
  obtain ⟨st', hRun, hMain'⟩ := meterRun_computes single hConfig hMain hFits s
  refine ⟨st', hRun.checked, ?_, ?_⟩
  · rw [hMain'.socket, List.length_map, List.length_range]
  · intro message hMessage
    rw [hMain'.socket] at hMessage
    obtain ⟨k, -, rfl⟩ := List.mem_map.mp hMessage
    exact hFits k

/-- Three seconds of a converter that fills its buffers with ones. -/
theorem meterRun_fits_three : ∃ st : MainState ℝ (Binary32 ℝ),
    initMeter (m := Except Fault) default .plenty (fun _ => some default) = .ok (some st) ∧
    ∃ st', meterRun (m := Except Fault) single st
        (channels single double (fun _ _ => 1) fun _ _ => 0) 3 = .ok st' ∧
      st'.socket.length = 3 ∧ ∀ message ∈ st'.socket, message.length + 1 ≤ 1000 := by
  obtain ⟨st, hInit⟩ := initMeter_plenty (F := Binary32 ℝ)
  exact ⟨st, hInit, meterRun_fits hInit _ _ 3⟩

end Init

end EnergyMeter.Meter
