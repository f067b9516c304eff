import EnergyMeter.Meter.Waveform
import Mathlib.Algebra.Ring.Periodic

/-!
# EnergyMeter — signatures of a load

What the difference of two waveforms is good for: a load that is switched on adds its
current to that of the loads before it, so the current after the event less the one
before it, at the same phase of the mains voltage, is the current of that load alone.

* `Mains` — the voltage that both signatures contain: periodic, with one positive and
  one negative half-wave in a period.
* `Mains.found` — from wherever a signature begins, `FindZero` ends at a multiple of the
  period after the falling crossing.

Main result:

* `waveformDiff_aligned` — what `WaveformDiff` subtracts from each sample: the current
  before the event at the same phase, moved by the difference of the two lengths where
  the signatures are compared at their ends.
-/

namespace EnergyMeter.Meter

open Lib

/-! ## Where `FindZero` ends -/

section Mains

variable {R : Type} [Zero R] [LinearOrder R] {V : ℤ → WithNaN R} {p half : ℕ} {c : ℤ}

/-- A voltage of period `p`: positive in the `half` samples before `c`, and negative
between `c` and the next positive sample. At `c` it is negative or zero. -/
structure Mains (V : ℤ → WithNaN R) (p half : ℕ) (c : ℤ) : Prop where
  periodic : Function.Periodic V (p : ℤ)
  half_pos : 0 < half
  half_lt : half < p
  positive : ∀ t, c - half ≤ t → t < c → 0 < V t
  falls : V c ≤ 0
  negative : ∀ t, c < t → t < c - half + p → V t < 0

/-- The search passes negative values, then positive ones, and ends behind them. -/
theorem Found.eq_of_pulse {w : ℤ → WithNaN R} {len j r q k : ℕ} (h : Found w len j r)
    (hqk : q < k) (hk : k < len) (hNeg : ∀ i : ℕ, i < q → w i < 0)
    (hPos : ∀ i : ℕ, q ≤ i → i < k → 0 < w i) (hEnd : w k ≤ 0) : r = k := by
  have hSkip : j = q := by
    rcases Nat.lt_trichotomy j q with hlt | hEq | hgt
    · have hLast := h.skip.last (hNeg j hlt)
      omega
    · exact hEq
    · exact absurd (h.skip.before q (Nat.zero_le q) hgt)
        (WithNaN.not_neg_of_pos (hPos q le_rfl hqk))
  have hMove := h.stop.start_le
  rcases Nat.lt_trichotomy r k with hlt | hEq | hgt
  · have hLast := h.stop.last (hPos r (by omega) hlt)
    omega
  · exact hEq
  · exact absurd hEnd (WithNaN.not_le_zero_of_pos (h.stop.before k (by omega) hgt))

/-- A value that is at most zero, and not zero, is negative. -/
theorem neg_of_le_zero {x : WithNaN R} (h : x ≤ 0) (hne : x ≠ 0) : x < 0 := by
  cases x with
  | nan => exact h
  | number x =>
    refine lt_of_le_of_ne (α := R) h fun hEq => hne ?_
    rw [hEq]
    rfl

/-- The next falling crossing after `a` is at most a period away. -/
theorem exists_next (hp : 0 < p) (a c : ℤ) : ∃ k : ℕ, 0 < k ∧ k ≤ p ∧ (p : ℤ) ∣ a + k - c := by
  have hp' : (0 : ℤ) < p := Int.natCast_pos.mpr hp
  have hNonneg := Int.emod_nonneg (a - c) hp'.ne'
  have hLt := Int.emod_lt_of_pos (a - c) hp'
  refine ⟨(p - (a - c) % p).toNat, by omega, by omega, ?_⟩
  rw [Int.toNat_of_nonneg (by omega)]
  have hSum : a + (p - (a - c) % p) - c = a - c - (a - c) % p + p := by ring
  rw [hSum]
  exact dvd_add (Int.dvd_self_sub_emod) (dvd_refl _)

/-- **Where the search ends.** In a signature that begins at any instant `a` of the
mains voltage, `FindZero` goes on to a falling crossing. -/
theorem Mains.found (h : Mains V p half c) {len j r : ℕ} (hp : p < len) {a : ℤ} (hStart : V a ≠ 0)
    (hFound : Found (fun i => V (a + i)) len j r) : 1 ≤ r ∧ (p : ℤ) ∣ a + r - c := by
  have hHalf := h.half_lt
  have hHalfPos := h.half_pos
  obtain ⟨k, hk, hkp, hDvd⟩ := exists_next (p := p) (by omega) a c
  obtain ⟨n, hn⟩ := hDvd
  -- the signature is what comes before `c`, whole periods later
  have hShift (i m : ℤ) : V (a + i) = V (c - k + i + m * p) := by
    have hInstant : c - k + i + m * p = a + i + (m - n) * p := by linarith
    rw [hInstant]
    exact (h.periodic.int_mul (m - n) (a + i)).symm
  have hNeg (i : ℕ) (hi : i < k - half) : V (a + i) < 0 := by
    rw [hShift i 1, Int.one_mul]
    -- only a signature that begins with a falling crossing has it in its negative part
    rcases Nat.eq_zero_or_pos (p - k + i) with hZero | hLater
    · have hSame : c - k + i + p = c := by omega
      rw [hSame]
      refine neg_of_le_zero h.falls fun hEq => hStart ?_
      have hAt := hShift 0 1
      rw [Int.add_zero, Int.add_zero, Int.one_mul] at hAt
      rw [hAt, ← hEq]
      congr 1
      omega
    · exact h.negative _ (by omega) (by omega)
  have hPos (i : ℕ) (hi : k - half ≤ i) (hik : i < k) : 0 < V (a + i) := by
    rw [hShift i 0, Int.zero_mul, Int.add_zero]
    exact h.positive _ (by omega) (by omega)
  have hEnd : V (a + k) ≤ 0 := by
    rw [hShift k 0, Int.zero_mul, Int.add_zero, Int.sub_add_cancel]
    exact h.falls
  obtain rfl := hFound.eq_of_pulse (by omega) (by omega) hNeg hPos hEnd
  exact ⟨hk, n, hn⟩

end Mains

/-! ## `WaveformDiff` -/

section Aligned

variable {F : Type}

/-- The signature recorded from instant `a` on, of the voltage `V` and the current `I`. -/
def recorded (V I : ℤ → F) (a : ℤ) (Samples : ℕ) : VISignature F where
  V_Waveform := fun i => V (a + i)
  I_Waveform := fun i => I (a + i)
  Samples := Samples

/-- How much later than the samples of `current` those of `prior` are taken from their
recording, seen from the crossing of each. -/
def endShift (start_end : ℤ) (prior current : VISignature F) : ℤ :=
  if start_end = 1 then current.Samples - prior.Samples else 0

theorem tailOffset_prior (start_end : ℤ) (prior current out : VISignature F) :
    tailOffset start_end prior out =
      tailOffset start_end current out - endShift start_end prior current := by
  unfold tailOffset endShift
  split
  · ring
  · rfl

variable {R : Type} [Zero R] [LinearOrder R] [Sub (WithNaN R)] {V base total : ℤ → WithNaN R}
  {p half n₁ n₂ : ℕ} {a b c : ℤ} {out : VISignature (WithNaN R)}

/-- **What `WaveformDiff` subtracts.** The two signatures begin at any instants of the
mains voltage. Then sample `q` of the output is the current after the event at an
instant `t + q` of its recording, less the current before the event at the same phase,
moved by `endShift`: by nothing where the beginnings are compared, and by the
difference of the two lengths where the ends are. -/
theorem waveformDiff_aligned (hMains : Mains V p half c) (hp : p < 512)
    (hBase : Function.Periodic base (p : ℤ)) (hPrior : out.Samples + 512 ≤ n₁)
    (hCurrent : out.Samples + 512 ≤ n₂) (ha : V a ≠ 0) (hb : V b ≠ 0) (offset12 start_end : ℤ) :
    let prior := recorded V base a n₁
    let current := recorded V total b n₂
    let shift := endShift start_end prior current
    ∃ printed t, b ≤ t ∧ t + out.Samples ≤ b + n₂ ∧
      (p : ℤ) ∣ t - tailOffset start_end current out - c ∧
      waveformDiff (m := Except Fault) prior current out offset12 start_end = .ok (printed, {
        I_Waveform := written out.Samples (fun q => total (t + q) - base (t + q - shift))
          out.I_Waveform
        V_Waveform := written out.Samples
          (fun q => V (if offset12 = 2 then t + q else t + q - shift)) out.V_Waveform
        Samples := out.Samples }) := by
  intro prior current shift
  have hLong1 : 512 ≤ prior.Samples := le_of_add_le_right hPrior
  have hLong2 : 512 ≤ current.Samples := le_of_add_le_right hCurrent
  obtain ⟨j1, k1, hFound1, hRun1⟩ :=
    findZero_spec (w := prior.V_Waveform) (show 1 ≤ 512 by decide) hLong1
  obtain ⟨j2, k2, hFound2, hRun2⟩ :=
    findZero_spec (w := current.V_Waveform) (show 1 ≤ 512 by decide) hLong2
  obtain ⟨hOne1, hPhase1⟩ := hMains.found hp ha hFound1
  obtain ⟨hOne2, hPhase2⟩ := hMains.found hp hb hFound2
  have hRun : waveformDiff (m := Except Fault) prior current out offset12 start_end =
      .ok (_, diffAt prior current out offset12 start_end k1 k2) :=
    (waveformDiff_spec offset12 start_end hPrior hCurrent hRun1 hRun2
      ⟨hOne1, hFound1.stop.lt_len⟩ ⟨hOne2, hFound2.stop.lt_len⟩).checked
  -- the two crossings are whole periods apart
  obtain ⟨n, hn⟩ : (p : ℤ) ∣ (b + k2) - (a + k1) := by
    have hSub := dvd_sub hPhase2 hPhase1
    rwa [sub_sub_sub_cancel_right] at hSub
  have hSame {w : ℤ → WithNaN R} (hw : Function.Periodic w (p : ℤ)) (q : ℤ) :
      w (a + (tailOffset start_end prior out + k1 + q)) =
        w (b + k2 + tailOffset start_end current out + q - shift) := by
    have hTail := tailOffset_prior start_end prior current out
    have hInstant : b + k2 + tailOffset start_end current out + q - shift =
        a + (tailOffset start_end prior out + k1 + q) + n * p := by
      rw [hTail]
      linarith
    rw [hInstant]
    exact (hw.int_mul n _).symm
  have hLength : current.Samples = n₂ := rfl
  have hFrom : b ≤ b + k2 + tailOffset start_end current out := by
    unfold tailOffset
    split <;> omega
  have hTo : b + k2 + tailOffset start_end current out + out.Samples ≤ b + n₂ := by
    have hLt := hFound2.stop.lt_len
    unfold tailOffset
    split <;> omega
  have hOut : diffAt prior current out offset12 start_end k1 k2 = {
      I_Waveform := written out.Samples
        (fun q => total (b + k2 + tailOffset start_end current out + q) -
          base (b + k2 + tailOffset start_end current out + q - shift)) out.I_Waveform
      V_Waveform := written out.Samples
        (fun q => V (if offset12 = 2 then b + k2 + tailOffset start_end current out + q
          else b + k2 + tailOffset start_end current out + q - shift)) out.V_Waveform
      Samples := out.Samples } := by
    unfold diffAt
    congr 2
    · funext q
      split
      · show V _ = V _
        congr 1
        ring
      · rw [← hSame hMains.periodic q]
        show V _ = V _
        congr 1
        ring
    · funext q
      rw [← hSame hBase q]
      show total _ - base _ = total _ - base _
      congr 2
      ring
  rw [hOut] at hRun
  refine ⟨_, b + k2 + tailOffset start_end current out, hFrom, hTo, ?_, hRun⟩
  rwa [add_sub_cancel_right]

end Aligned

/-- A voltage of period 4, negative at 0 and 1. -/
def square (t : ℤ) : WithNaN ℤ := .number (if t % 4 < 2 then -1 else 1)

theorem square_mains : Mains square 4 2 0 where
  periodic := by
    intro t
    unfold square
    rw [Nat.cast_ofNat, Int.add_emod_right]
  half_pos := by decide
  half_lt := by decide
  positive := by
    intro t hFrom hTo
    show (0 : ℤ) < if t % 4 < 2 then -1 else 1
    rw [if_neg (by omega)]
    decide
  falls := show (if (0 : ℤ) % 4 < 2 then (-1 : ℤ) else 1) ≤ 0 by decide
  negative := by
    intro t hFrom hTo
    show (if t % 4 < 2 then (-1 : ℤ) else 1) < 0
    rw [if_pos (by omega)]
    decide

theorem square_ne_zero (t : ℤ) : square t ≠ 0 := by
  intro hZero
  have hValue : (if t % 4 < 2 then (-1 : ℤ) else 1) = 0 := WithNaN.number.inj hZero
  split at hValue <;> cases hValue

/-- At the ends of 516 and of 518 samples what is subtracted is the current of the other
half-wave. -/
theorem waveformDiff_aligned_square :
    let out : VISignature (WithNaN ℤ) := ⟨fun _ => 0, fun _ => 0, 4⟩
    ∃ printed t, 3 ≤ t ∧ t + 4 ≤ 3 + 518 ∧ (4 : ℤ) ∣ t - 2 ∧
      waveformDiff (m := Except Fault) (recorded square square 1 516)
        (recorded square .number 3 518) out 2 1 = .ok (printed, {
          I_Waveform := written 4 (fun q => .number (t + q) - square (t + q - 2)) out.I_Waveform
          V_Waveform := written 4 (fun q => square (t + q)) out.V_Waveform
          Samples := 4 }) := by
  intro out
  have hPeriodic : Function.Periodic square (4 : ℕ) := square_mains.periodic
  obtain ⟨printed, t, hFrom, hTo, hPhase, hRun⟩ := @waveformDiff_aligned ℤ _ _ _ square square
    .number 4 2 516 518 1 3 0 out square_mains (by decide) hPeriodic (by decide) (by decide)
    (square_ne_zero 1) (square_ne_zero 3) 2 1
  refine ⟨printed, t, hFrom, hTo, ?_, hRun⟩
  rwa [sub_zero] at hPhase

end EnergyMeter.Meter
