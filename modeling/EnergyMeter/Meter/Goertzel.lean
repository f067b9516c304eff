import EnergyMeter.Lib.Partial
import EnergyMeter.Lib.Resonator
import EnergyMeter.Lib.Run

/-!
# EnergyMeter — harmonics by the algorithm of Goertzel

`Goertzel.c`: a table of coefficients, one for each bin of a discrete Fourier
transform, and two functions that run a resonator over the input for one
coefficient after the other and read a magnitude off its last two states.

`float` is an exact number here. `pi` stands for the constant `GOERTZEL_PI`, a
decimal fraction close to π: whatever it is, the coefficient of a bin is that of a
resonator at an angle, and the power is the one of the transform at that angle.

Main result:

* `goertzel_fourier` — the power of every bin, and what the two functions return.
-/

namespace EnergyMeter.Meter

open Lib

/-- `struct Goertzel`. -/
structure Goertzel (R : Type) where
  Points : ℕ
  Fdtm : R
  Fsample : R
  coeff : ℕ → R

/-! ## The code -/

/-- `GOERTZEL_PI`. -/
noncomputable def goertzelPi : ℝ := 3.141592653589793238462643383279

/-- `Goertzel_Init`; `alloc` is what `malloc` answers. -/
def goertzelInit {R : Type} (points : ℤ) (Fsample Fdtm : R) (alloc : Option (ℕ → R)) :
    Option (Goertzel R) := do
  if points > 0 then
    let coeff ← alloc
    return { Points := points.toNat, Fdtm, Fsample, coeff }
  else
    none

section Code

variable {m : Type → Type} [Monad m] [MonadRequire m]

/-- `Goertzel_EvaluateCoefficients`. -/
noncomputable def goertzelEvaluateCoefficients (pi : ℝ) (me : Goertzel ℝ) : m (Goertzel ℝ) := do
  let coeff ← (List.range me.Points).foldlM (fun coeff (j : ℕ) => do
    let normalizedfreq ← fdiv (me.Fdtm * j) me.Fsample
    let k : ℤ := ⌊1 / 2 + me.Points * normalizedfreq⌋
    let w ← fdiv (2 * pi * k) (me.Points : ℝ)
    return Function.update coeff j (2 * Real.cos w)) me.coeff
  return { me with coeff }

omit [Monad m] [MonadRequire m] in
/-- The inner loop and the power after it, from `s_prev` and `s_prev2`. -/
def goertzelPower {R : Type} [CommRing R] (Points : ℕ) (coeff : R) (input : ℕ → R) : R :=
  let (s_prev, s_prev2) := (List.range Points).foldl (fun (s_prev, s_prev2) i =>
    let s := input i + coeff * s_prev - s_prev2
    (s, s_prev)) (0, 0)
  s_prev2 * s_prev2 + s_prev * s_prev - coeff * s_prev * s_prev2

variable {R : Type} [Field R] [LinearOrder R] [HasSqrt R]

/-- `Goertzel_CalculateAll`: the output afterwards. -/
def goertzelCalculateAll (me : Goertzel R) (input output : ℕ → R) : m (ℕ → R) :=
  (List.range (me.Points / 2)).foldlM (fun output j => do
    require (j < me.Points) .outOfBounds
    let power := goertzelPower me.Points (me.coeff j) input
    let power ← fsqrt (← fdiv power (me.Points : R))
    return Function.update output j power) output

/-- `Goertzel_CalculateOdd`: the output afterwards. In round `k` the bin is
`j = 2 k + 1`. -/
def goertzelCalculateOdd (me : Goertzel R) (input output : ℕ → R) (n : ℕ) : m (ℕ → R) :=
  (List.range n).foldlM (fun output k => do
    let j := 2 * k + 1
    require (j < me.Points) .outOfBounds
    let power := goertzelPower me.Points (me.coeff j) input
    let power := (← fdiv (← fsqrt power) (me.Points : R)) * (1414213562 / 1000000000)
    return Function.update output k power) output

end Code

/-! ## Coefficients -/

/-- The angle of bin `j`: the frequency of the bin, rounded to a whole number of
turns over the input. -/
noncomputable def Goertzel.angle (pi : ℝ) (me : Goertzel ℝ) (j : ℕ) : ℝ :=
  2 * pi * ⌊1 / 2 + me.Points * (me.Fdtm * j / me.Fsample)⌋ / me.Points

theorem goertzelInit_points {R : Type} {points : ℤ} {Fsample Fdtm : R} {alloc : Option (ℕ → R)}
    {me : Goertzel R} (h : goertzelInit points Fsample Fdtm alloc = some me) : 1 ≤ me.Points := by
  unfold goertzelInit at h
  split at h
  · rename_i hPoints
    obtain ⟨coeff, -, hMe⟩ := Option.bind_eq_some_iff.mp h
    cases hMe
    show 1 ≤ points.toNat
    omega
  · cases h

section Coefficients

variable {pi : ℝ} {me me' : Goertzel ℝ}

/-- The coefficients are those of resonators. -/
theorem evaluateCoefficients_eq (pi : ℝ) (hFsample : me.Fsample ≠ 0) (hPoints : 1 ≤ me.Points) :
    Computes (fun m => goertzelEvaluateCoefficients (m := m) pi me)
      { me with coeff := fun j =>
          if j < me.Points then 2 * Real.cos (me.angle pi j) else me.coeff j } := by
  intro m _ _ _ _
  have hPoints' : (me.Points : ℝ) ≠ 0 := Nat.cast_ne_zero.mpr (by omega)
  show goertzelEvaluateCoefficients (m := m) pi me = _
  rw [goertzelEvaluateCoefficients,
    foldlM_range_update (g := fun j => 2 * Real.cos (me.angle pi j)), pure_bind]
  intro j _ coeff
  dsimp only
  rw [fdiv_of_ne hFsample, pure_bind, fdiv_of_ne hPoints', pure_bind]
  rfl

/-- The first round divides by the sampling frequency. -/
theorem fsample_ne_zero (hPoints : 1 ≤ me.Points)
    (h : goertzelEvaluateCoefficients (m := Except Fault) pi me = .ok me') : me.Fsample ≠ 0 := by
  rw [goertzelEvaluateCoefficients, bind_eq_ok] at h
  obtain ⟨_, hLoop, -⟩ := h
  obtain ⟨n, hn⟩ := Nat.exists_eq_add_of_le' hPoints
  rw [hn, List.range_succ_eq_map, List.foldlM_cons, bind_eq_ok] at hLoop
  obtain ⟨_, hFirst, -⟩ := hLoop
  rw [bind_eq_ok] at hFirst
  obtain ⟨_, hDiv, -⟩ := hFirst
  exact ne_zero_of_fdiv hDiv

/-- What `Goertzel_EvaluateCoefficients` leaves. -/
theorem coefficients_of_ok (hPoints : 1 ≤ me.Points)
    (h : goertzelEvaluateCoefficients (m := Except Fault) pi me = .ok me') :
    me'.Points = me.Points ∧
      ∀ j < me.Points, me'.coeff j = 2 * Real.cos (me.angle pi j) := by
  have hComputes := evaluateCoefficients_eq pi (fsample_ne_zero hPoints h) hPoints
  rw [hComputes.checked] at h
  cases h
  exact ⟨rfl, fun j hj => if_pos hj⟩

end Coefficients

/-! ## Magnitudes -/

/-- **The power of a resonator at an angle** is the squared modulus of the transform
at that angle. -/
theorem goertzelPower_eq (Points : ℕ) (w : ℝ) (input : ℕ → ℝ) :
    goertzelPower Points (2 * Real.cos w) input = Complex.normSq (fourierSum input w Points) :=
  resonate_power input w Points

section Magnitudes

variable {me : Goertzel ℝ} {w : ℕ → ℝ} {n : ℕ}

theorem calculateAll_eq (hPoints : 1 ≤ me.Points)
    (hCoeff : ∀ j < me.Points, me.coeff j = 2 * Real.cos (w j)) (input output : ℕ → ℝ) :
    Computes (fun m => goertzelCalculateAll (m := m) me input output) fun j =>
      if j < me.Points / 2 then √(Complex.normSq (fourierSum input (w j) me.Points) / me.Points)
      else output j := by
  intro m _ _ _ _
  have hPoints' : (me.Points : ℝ) ≠ 0 := Nat.cast_ne_zero.mpr (by omega)
  refine foldlM_range_update (fun j hj out => ?_) output
  have hBound : j < me.Points := by omega
  have hNonneg : 0 ≤ Complex.normSq (fourierSum input (w j) me.Points) / (me.Points : ℝ) :=
    div_nonneg (Complex.normSq_nonneg _) (Nat.cast_nonneg _)
  dsimp only
  rw [require_of hBound, pure_bind, hCoeff j hBound, goertzelPower_eq, fdiv_of_ne hPoints',
    pure_bind, fsqrt_of_nonneg hNonneg, pure_bind]
  rfl

theorem calculateOdd_eq (hn : 2 * n - 1 < me.Points)
    (hCoeff : ∀ j < me.Points, me.coeff j = 2 * Real.cos (w j)) (input output : ℕ → ℝ) :
    Computes (fun m => goertzelCalculateOdd (m := m) me input output n) fun k =>
      if k < n then ‖fourierSum input (w (2 * k + 1)) me.Points‖ / me.Points *
        (1414213562 / 1000000000)
      else output k := by
  intro m _ _ _ _
  have hPoints' : (me.Points : ℝ) ≠ 0 := Nat.cast_ne_zero.mpr (by omega)
  refine foldlM_range_update (fun k hk out => ?_) output
  -- the last bin that is read is `2 n - 1`
  have hBound : 2 * k + 1 < me.Points := by omega
  dsimp only
  rw [require_of hBound, pure_bind, hCoeff _ hBound, goertzelPower_eq,
    fsqrt_of_nonneg (Complex.normSq_nonneg _), pure_bind, fdiv_of_ne hPoints', pure_bind]
  rfl

end Magnitudes

/-- **Goertzel computes the transform.** With coefficients from
`Goertzel_EvaluateCoefficients` the power of every bin is the squared modulus of the
sum of `input i * exp (- i w i)` at the angle of the bin, and never negative; both
functions return, `Goertzel_CalculateAll` with the root of the power over the number
of points, `Goertzel_CalculateOdd` with the modulus at the odd bins, scaled by
`1.414213562 / Points`. -/
theorem goertzel_fourier {pi : ℝ} {me me' : Goertzel ℝ} (hPoints : 1 ≤ me.Points)
    (hCoeff : goertzelEvaluateCoefficients (m := Except Fault) pi me = .ok me')
    (input output : ℕ → ℝ) :
    (∀ j < me.Points, me'.coeff j = 2 * Real.cos (me.angle pi j) ∧
      goertzelPower me'.Points (me'.coeff j) input =
        Complex.normSq (fourierSum input (me.angle pi j) me.Points) ∧
      0 ≤ goertzelPower me'.Points (me'.coeff j) input) ∧
    (∃ out, goertzelCalculateAll (m := Except Fault) me' input output = .ok out ∧
      ∀ j < me.Points / 2, out j =
        √(Complex.normSq (fourierSum input (me.angle pi j) me.Points) / me.Points)) ∧
    ∀ n, 2 * n - 1 < me.Points →
      ∃ out, goertzelCalculateOdd (m := Except Fault) me' input output n = .ok out ∧
        ∀ k < n, out k = 1.414213562 / me.Points *
          ‖fourierSum input (me.angle pi (2 * k + 1)) me.Points‖ := by
  obtain ⟨hSame, hAngle⟩ := coefficients_of_ok hPoints hCoeff
  -- the number of points is as it was, so both loops run as far
  have hAngle' : ∀ j < me'.Points, me'.coeff j = 2 * Real.cos (me.angle pi j) := by
    rwa [hSame]
  have hPower : ∀ j < me.Points, goertzelPower me'.Points (me'.coeff j) input =
      Complex.normSq (fourierSum input (me.angle pi j) me.Points) := by
    intro j hj
    rw [hAngle j hj, hSame, goertzelPower_eq]
  have hAll := (calculateAll_eq (by omega) hAngle' input output).checked
  refine ⟨fun j hj => ⟨hAngle j hj, hPower j hj, ?_⟩, ⟨_, hAll, fun j hj => ?_⟩, fun n hn =>
    ⟨_, (calculateOdd_eq (by omega) hAngle' input output).checked, fun k hk => ?_⟩⟩
  · rw [hPower j hj]
    exact Complex.normSq_nonneg _
  · rw [hSame, if_pos hj]
  · rw [if_pos hk, hSame]
    ring

/-- Four points at four samples a second: the rounded bins are the bins. -/
theorem goertzel_fourier_four :
    ∃ me me', goertzelInit 4 (4 : ℝ) 1 (some fun _ => 0) = some me ∧
      goertzelEvaluateCoefficients (m := Except Fault) goertzelPi me = .ok me' ∧
      ∃ out, goertzelCalculateOdd (m := Except Fault) me' (fun i => i) (fun _ => 0) 2 = .ok out ∧
        ∀ k < 2, out k = 1.414213562 / (4 : ℕ) *
          ‖fourierSum (fun i => i) (me.angle goertzelPi (2 * k + 1)) 4‖ := by
  let me : Goertzel ℝ := ⟨4, 1, 4, fun _ => 0⟩
  have hInit : goertzelInit 4 (4 : ℝ) 1 (some fun _ => 0) = some me := rfl
  have hPoints : 1 ≤ me.Points := goertzelInit_points hInit
  have hCoeff := (evaluateCoefficients_eq goertzelPi (show me.Fsample ≠ 0 from four_ne_zero)
    hPoints).checked
  obtain ⟨-, -, hOdd⟩ := goertzel_fourier hPoints hCoeff (fun i => i) (fun _ => 0)
  exact ⟨me, _, hInit, hCoeff, hOdd 2 (by decide)⟩

end EnergyMeter.Meter
