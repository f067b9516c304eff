import EnergyMeter.Lib.Harmonics
import EnergyMeter.Meter.Goertzel
import EnergyMeter.Meter.Model
import Mathlib.Analysis.Real.Pi.Bounds

/-!
# EnergyMeter — the harmonics of the currents

`MetrologyCore_CalculateHarmonics` runs the resonators of the odd bins over every cycle
of the mains in a second of samples. With the parameters that `main` passes a bin is a
harmonic of the mains, and what the function stores is the effective value of that
harmonic alone: neither an offset nor the other harmonics nor any phase enter.

`float` is an exact number here, except that the constant `GOERTZEL_PI` is the decimal
fraction of the source and not π.

Main result:

* `calculateHarmonics_rms` — the table after a call.
-/

namespace EnergyMeter.Meter

open Lib

/-- `DFT_POINTS`. -/
def dftPoints : ℕ := 10

/-- `struct tMetrologyCoreSetup`. The functions below use the channels of the currents
only: `fsamples j` and `dft j` are those of `IChannels[j]`. -/
structure MetrologyCore (R : Type) where
  goertzel : Goertzel R
  Points : ℤ
  fs : ℤ
  F : ℤ
  fsamples : ℕ → ℕ → R
  dft : ℕ → ℕ → ℕ → R

/-! ## The code -/

section Code

variable {m : Type → Type} [Monad m] [MonadRequire m]

/-- `MetrologyCore_Init`; `alloc` is what `malloc` answers in `Goertzel_Init`. -/
noncomputable def metrologyCoreInit (pi : ℝ) (me : MetrologyCore ℝ) (points fs f1 : ℤ)
    (alloc : Option (ℕ → ℝ)) : m (Option (MetrologyCore ℝ)) :=
  match goertzelInit points (fs : ℝ) (f1 : ℝ) alloc with
  | none => pure none
  | some goertzel => do
    let goertzel ← goertzelEvaluateCoefficients pi goertzel
    return some { me with goertzel, Points := points, fs, F := f1 }

variable {R : Type} [Field R] [LinearOrder R] [HasSqrt R]

/-- `MetrologyCore_CalculateHarmonics`. The samples of a channel are a row of `ch_data`, and
`dft` has a row for every cycle of a second. -/
def metrologyCoreCalculateHarmonics (me : MetrologyCore R) : m (MetrologyCore R) := do
  let dft ← (List.range 3).foldlM (fun dft j => do
    let rows ← (List.range me.F.toNat).foldlM (fun rows i => do
      require (i < mainsFreq ∧ i * me.Points.toNat + me.goertzel.Points ≤ sampleRate) .outOfBounds
      let row ← goertzelCalculateOdd me.goertzel
        (fun n => me.fsamples j (i * me.Points.toNat + n)) (rows i) dftPoints
      return Function.update rows i row) (dft j)
    return Function.update dft j rows) me.dft
  return { me with dft }

end Code

/-! ## The angles -/

/-- With the parameters of `main` the frequency of bin `j` is `j` times that of the mains. -/
theorem angle_main (pi : ℝ) (coeff : ℕ → ℝ) (j : ℕ) :
    Goertzel.angle pi ⟨256, (mainsFreq : ℤ), (sampleRate : ℤ), coeff⟩ j = 2 * pi * j / 256 := by
  have hBin : (1 / 2 + ((256 : ℕ) : ℝ) * (((mainsFreq : ℤ) : ℝ) * j / ((sampleRate : ℤ) : ℝ))) =
      1 / 2 + (j : ℝ) := by
    push_cast [mainsFreq, sampleRate]
    ring
  have hFloor : ⌊(1 / 2 : ℝ) + j⌋ = j := by
    rw [Int.floor_add_natCast, Int.floor_eq_zero_iff.mpr (by constructor <;> norm_num), zero_add]
  rw [Goertzel.angle, hBin, hFloor]
  push_cast
  rfl

/-- The constant of the source is close to π. -/
theorem goertzelPi_close : |goertzelPi - Real.pi| ≤ 1e-20 := by
  have hLow := Real.pi_gt_d20
  have hHigh := Real.pi_lt_d20
  rw [goertzelPi, abs_le]
  constructor <;> linarith

/-! ## One row -/

section Row

variable {x : ℕ → ℝ} {A φ : ℕ → ℝ}

/-- The modulus of the transform of one cycle at the angle of an odd bin. -/
theorem norm_fourierSum_close (hSignal : ∀ n < 256, x n = harmonics 256 129 A φ n) {k : ℕ}
    (hk : k < dftPoints) :
    |‖fourierSum x (2 * goertzelPi * (2 * k + 1 : ℕ) / 256) 256‖ - |A (2 * k + 1)| * 128| ≤
      4e-19 * ∑ n ∈ Finset.range 256, |x n| := by
  have hk' : k ≤ 9 := Nat.le_of_lt_succ hk
  set w := 2 * goertzelPi * (2 * k + 1 : ℕ) / 256 with hw
  have hAngle : |w - binAngle 256 (2 * k + 1)| ≤ 2 * 1e-20 * 19 / 256 := by
    have hTurns : ((2 * k + 1 : ℕ) : ℝ) ≤ 19 := by exact_mod_cast (by omega : 2 * k + 1 ≤ 19)
    have hOff : w - binAngle 256 (2 * k + 1) =
        2 * (goertzelPi - Real.pi) * (2 * k + 1 : ℕ) / 256 := by
      rw [hw, binAngle]
      push_cast
      ring
    rw [hOff, abs_div, abs_mul, abs_mul, abs_two, Nat.abs_cast, Nat.abs_ofNat]
    gcongr
    exact goertzelPi_close
  -- at the exact angle the other harmonics are gone
  have hExact : ‖fourierSum x (binAngle 256 (2 * k + 1)) 256‖ = |A (2 * k + 1)| * 128 := by
    have hCongr : fourierSum x (binAngle 256 (2 * k + 1)) 256 =
        fourierSum (harmonics 256 129 A φ) (binAngle 256 (2 * k + 1)) 256 :=
      Finset.sum_congr rfl fun n hn => by rw [hSignal n (Finset.mem_range.mp hn)]
    rw [hCongr, norm_fourierSum_harmonics (fun h hh => by omega) (by omega) (by omega) (by omega)]
    norm_num
  rw [← hExact]
  refine (abs_norm_sub_norm_le _ _).trans ((norm_fourierSum_sub_le x w _ 256).trans ?_)
  rw [Finset.mul_sum]
  refine Finset.sum_le_sum fun n hn => ?_
  have hn' : (n : ℝ) ≤ 255 := by exact_mod_cast Nat.le_of_lt_succ (Finset.mem_range.mp hn)
  have hStep : (n : ℝ) * |w - binAngle 256 (2 * k + 1)| ≤ 4e-19 :=
    (mul_le_mul hn' hAngle (abs_nonneg _) (by norm_num)).trans (by norm_num)
  rw [mul_comm]
  exact mul_le_mul_of_nonneg_right hStep (abs_nonneg _)

/-- The factor of the source is close to the one that makes an amplitude an effective
value. -/
theorem factor_close : |(1414213562 / 1000000000 : ℝ) / 2 - 1 / √2| ≤ 5e-10 := by
  have hRoot : 1 / √2 = √2 / 2 := by
    rw [div_eq_div_iff (by positivity) two_ne_zero, one_mul, Real.mul_self_sqrt zero_le_two]
  have hLow : (1.414213562 : ℝ) ≤ √2 := Real.le_sqrt_of_sq_le (by norm_num)
  have hHigh : √2 ≤ (1.414213563 : ℝ) := Real.sqrt_le_iff.mpr ⟨by norm_num, by norm_num⟩
  rw [hRoot, abs_le]
  constructor <;> linarith

/-- What `Goertzel_CalculateOdd` stores for one cycle. -/
theorem odd_rms (hSignal : ∀ n < 256, x n = harmonics 256 129 A φ n) {k : ℕ} (hk : k < dftPoints) :
    |‖fourierSum x (2 * goertzelPi * (2 * k + 1 : ℕ) / 256) 256‖ / 256 * (1414213562 / 1000000000) -
        |A (2 * k + 1)| / √2| ≤
      5e-10 * |A (2 * k + 1)| + 1e-18 * ((∑ n ∈ Finset.range 256, |x n|) / 256) := by
  have hSum : 0 ≤ ∑ n ∈ Finset.range 256, |x n| := Finset.sum_nonneg fun n _ => abs_nonneg _
  have hNorm := abs_le.mp (norm_fourierSum_close hSignal hk)
  have hFactor := abs_le.mp factor_close
  set T := ‖fourierSum x (2 * goertzelPi * (2 * k + 1 : ℕ) / 256) 256‖
  set a := |A (2 * k + 1)|
  have ha : 0 ≤ a := abs_nonneg _
  have hSplit : T / 256 * (1414213562 / 1000000000) - a / √2 =
      (T - a * 128) / 256 * (1414213562 / 1000000000) +
        a * ((1414213562 / 1000000000 : ℝ) / 2 - 1 / √2) := by ring
  have hLow := mul_le_mul_of_nonneg_left hFactor.1 ha
  have hHigh := mul_le_mul_of_nonneg_left hFactor.2 ha
  rw [hSplit, abs_le]
  constructor <;> linarith [hNorm.1, hNorm.2]

end Row

/-! ## The table -/

section Table

variable {me₀ me : MetrologyCore ℝ} {alloc : Option (ℕ → ℝ)}

/-- What `MetrologyCore_Init` leaves when `main` calls it. -/
theorem metrologyCoreInit_main
    (hInit : metrologyCoreInit (m := Except Fault) goertzelPi me₀ samplesPerCycle sampleRate
      mainsFreq alloc = .ok (some me)) :
    me.goertzel.Points = 256 ∧ me.Points = 256 ∧ me.F = 60 ∧
      ∀ j < 256, me.goertzel.coeff j = 2 * Real.cos (2 * goertzelPi * j / 256) := by
  rw [metrologyCoreInit] at hInit
  split at hInit
  · cases hInit
  · rename_i goertzel hGoertzel
    have hPoints := goertzelInit_points hGoertzel
    obtain ⟨goertzel', hCoeff, hMe⟩ := bind_eq_ok.mp hInit
    cases hMe
    obtain ⟨hSame, hCos⟩ := coefficients_of_ok hPoints hCoeff
    obtain ⟨coeff, -, hStruct⟩ := Option.bind_eq_some_iff.mp hGoertzel
    cases hStruct
    refine ⟨hSame, rfl, rfl, fun j hj => ?_⟩
    rw [hCos j hj]
    exact congrArg (2 * Real.cos ·) (angle_main goertzelPi coeff j)

/-- Cell `k` of a cycle with the samples `x`, for resonators at the angles `w` and a
factor in the place of `√2`. -/
noncomputable def oddCell (factor : ℝ) (w x : ℕ → ℝ) (k : ℕ) : ℝ :=
  ‖fourierSum x (w (2 * k + 1)) 256‖ / (256 : ℕ) * factor

/-- One row: the cells of the bins that are evaluated, and what was there behind them. -/
noncomputable def oddRow (factor : ℝ) (w x row : ℕ → ℝ) (k : ℕ) : ℝ :=
  if k < dftPoints then oddCell factor w x k else row k

/-- Every row is written once. -/
theorem calculateHarmonics_eq {w : ℕ → ℝ} {factor : ℝ}
    (hFactor : factor = 1414213562 / 1000000000) (hPoints : me.goertzel.Points = 256)
    (hPoints' : me.Points = 256) (hF : me.F = 60)
    (hCoeff : ∀ j < 256, me.goertzel.coeff j = 2 * Real.cos (w j)) :
    Computes (fun m => metrologyCoreCalculateHarmonics (m := m) me)
      { me with dft := fun j => if j < 3 then fun i =>
          if i < 60 then oddRow factor w (fun n => me.fsamples j (256 * i + n)) (me.dft j i)
          else me.dft j i else me.dft j } := by
  intro m _ _ _ _
  have hCos : ∀ j < me.goertzel.Points, me.goertzel.coeff j = 2 * Real.cos (w j) := by
    rwa [hPoints]
  -- one call of the resonators, the cycles of a current, the currents
  have hRow : ∀ j i, ∀ row : ℕ → ℝ, goertzelCalculateOdd (m := m) me.goertzel
      (fun n => me.fsamples j (i * me.Points.toNat + n)) row dftPoints =
        pure (oddRow factor w (fun n => me.fsamples j (256 * i + n)) row) := by
    intro j i row
    have hBins : 2 * dftPoints - 1 < me.goertzel.Points := by
      rw [hPoints]
      decide
    have hOdd := calculateOdd_eq hBins hCos (fun n => me.fsamples j (i * me.Points.toNat + n)) row m
    rw [hPoints, hPoints', mul_comm i, ← hFactor] at hOdd
    rw [hPoints', mul_comm i]
    exact hOdd
  have hRows : ∀ j, ∀ rows : ℕ → ℕ → ℝ, (List.range me.F.toNat).foldlM (fun rows i => do
      require (m := m) (i < mainsFreq ∧
        i * me.Points.toNat + me.goertzel.Points ≤ sampleRate) .outOfBounds
      let row ← goertzelCalculateOdd me.goertzel
        (fun n => me.fsamples j (i * me.Points.toNat + n)) (rows i) dftPoints
      return Function.update rows i row) rows =
        pure fun i => if i < 60 then oddRow factor w (fun n => me.fsamples j (256 * i + n)) (rows i)
          else rows i := by
    intro j rows
    rw [hF]
    refine foldlM_range_modify
      (g := fun i => oddRow factor w fun n => me.fsamples j (256 * i + n)) (fun i hi out => ?_) rows
    have hInside : i < mainsFreq ∧ i * me.Points.toNat + me.goertzel.Points ≤ sampleRate := by
      rw [hPoints, hPoints']
      exact ⟨hi, show i * 256 + 256 ≤ 15360 by omega⟩
    rw [require_of hInside, pure_bind, hRow, pure_bind]
  show metrologyCoreCalculateHarmonics (m := m) me = _
  rw [metrologyCoreCalculateHarmonics, foldlM_range_modify (g := fun j rows i =>
    if i < 60 then oddRow factor w (fun n => me.fsamples j (256 * i + n)) (rows i) else rows i),
    pure_bind]
  intro j _ dft
  rw [hRows, pure_bind]

end Table

/-- **The table of harmonics holds effective values.** With the parameters of `main`, and
whatever `malloc` has returned: on samples of which every cycle is a sum of harmonics of
the mains with its own amplitudes and phases, a call leaves in `dft[i][k]` of every
current the amplitude of harmonic `2 k + 1` of cycle `i` over `√2`, up to a relative error of
`5e-10` for the factor of the source, and `1e-18` of the mean magnitude of the samples for
its π. The rest of the structure stays. -/
theorem calculateHarmonics_rms {me₀ me : MetrologyCore ℝ} {alloc : Option (ℕ → ℝ)}
    (hInit : metrologyCoreInit (m := Except Fault) goertzelPi me₀ samplesPerCycle sampleRate
      mainsFreq alloc = .ok (some me))
    {fsamples : ℕ → ℕ → ℝ} {A φ : ℕ → ℕ → ℕ → ℝ}
    (hSignal : ∀ j < 3, ∀ i < 60, ∀ n < 256,
      fsamples j (256 * i + n) = harmonics 256 129 (A j i) (φ j i) n) :
    ∃ dft, metrologyCoreCalculateHarmonics (m := Except Fault) { me with fsamples } =
        .ok { me with fsamples, dft } ∧
      ∀ j < 3, ∀ i < 60, ∀ k < dftPoints,
        |dft j i k - |A j i (2 * k + 1)| / √2| ≤ 5e-10 * |A j i (2 * k + 1)| +
          1e-18 * ((∑ n ∈ Finset.range 256, |fsamples j (256 * i + n)|) / 256) := by
  obtain ⟨hPoints, hPoints', hF, hCoeff⟩ := metrologyCoreInit_main hInit
  have hComputes : Computes (fun m => metrologyCoreCalculateHarmonics (m := m)
      { me with fsamples }) _ := calculateHarmonics_eq rfl hPoints hPoints' hF hCoeff
  refine ⟨_, hComputes.checked, fun j hj i hi k hk => ?_⟩
  rw [if_pos hj, if_pos hi, oddRow, if_pos hk]
  exact odd_rms (hSignal j hj i hi) hk

/-- The mains, a third harmonic that grows from cycle to cycle, and an offset. -/
theorem calculateHarmonics_rms_growing :
    let A : ℕ → ℕ → ℕ → ℝ := fun _ i h => if h = 3 then i else if h ≤ 1 then 1 else 0
    let fsamples : ℕ → ℕ → ℝ := fun j t => harmonics 256 129 (A j (t / 256)) 0 (t % 256)
    ∃ me dft, metrologyCoreInit (m := Except Fault) goertzelPi ⟨⟨0, 0, 0, 0⟩, 0, 0, 0, 0, 0⟩
        samplesPerCycle sampleRate mainsFreq (some 0) = .ok (some me) ∧
      metrologyCoreCalculateHarmonics (m := Except Fault) { me with fsamples } =
        .ok { me with fsamples, dft } ∧
      ∀ j < 3, ∀ i < 60, ∀ k < dftPoints,
        |dft j i k - |A j i (2 * k + 1)| / √2| ≤ 5e-10 * |A j i (2 * k + 1)| +
          1e-18 * ((∑ n ∈ Finset.range 256, |fsamples j (256 * i + n)|) / 256) := by
  intro A fsamples
  let goertzel : Goertzel ℝ := ⟨256, (mainsFreq : ℤ), (sampleRate : ℤ), 0⟩
  have hFsample : goertzel.Fsample ≠ 0 := by simp [goertzel, sampleRate]
  have hCoeff := (evaluateCoefficients_eq goertzelPi hFsample (by decide)).checked
  have hInit : metrologyCoreInit (m := Except Fault) goertzelPi ⟨⟨0, 0, 0, 0⟩, 0, 0, 0, 0, 0⟩
      samplesPerCycle sampleRate mainsFreq (some 0) = .ok (some _) :=
    bind_eq_ok.mpr ⟨_, hCoeff, rfl⟩
  have hSignal : ∀ j < 3, ∀ i < 60, ∀ n < 256,
      fsamples j (256 * i + n) = harmonics 256 129 (A j i) 0 n := by
    intro j _ i _ n hn
    show harmonics 256 129 (A j ((256 * i + n) / 256)) 0 ((256 * i + n) % 256) = _
    rw [show (256 * i + n) / 256 = i by omega, show (256 * i + n) % 256 = n by omega]
  obtain ⟨dft, hCalculate, hCells⟩ := calculateHarmonics_rms hInit hSignal
  exact ⟨_, dft, hInit, hCalculate, hCells⟩

end EnergyMeter.Meter
