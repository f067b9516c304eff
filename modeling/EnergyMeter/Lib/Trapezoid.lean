import EnergyMeter.Lib.Ring
import Mathlib.Tactic.Linarith
import Mathlib.Tactic.LinearCombination

/-!
# The trapezoidal integral of a periodic stream

The running trapezoidal integral of a stream never forgets its start. Two
differences do: the integral at two times differs by the samples between them
(`trapz_sub`), and over a periodic stream of zero sum the integral is itself
periodic (`trapz_periodic`). In that case the stream is orthogonal to its
integral over one period, exactly and not only in the limit of fine sampling
(`sum_mul_trapz_eq_zero`).

Without the zero sum the integral grows with time (`trapz_of_const`), but what is
left of it beyond its own sliding mean does not: it is bounded by the stream and
the length of the window (`abs_trapz_sub_winMean_le`).
-/

namespace EnergyMeter.Lib

/-- The trapezoidal integral with half-step `h`, from a signal that is zero
before its first item. -/
def trapz {R : Type*} [Semiring R] (h : R) (x : ℕ → R) : ℕ → R
  | 0 => h * x 0
  | s + 1 => trapz h x s + h * (x (s + 1) + x s)

section

variable {R : Type*} [CommRing R] {h : R} {x : ℕ → R} {T : ℕ}

theorem trapz_succ (s : ℕ) : trapz h x (s + 1) = trapz h x s + h * (x (s + 1) + x s) := rfl

/-- The integral is linear in its stream. -/
theorem trapz_const_mul (c : R) (s : ℕ) : trapz h (fun r => c * x r) s = c * trapz h x s := by
  induction s with
  | zero => exact mul_left_comm h c (x 0)
  | succ s ih =>
    rw [trapz_succ, trapz_succ, ih]
    ring

/-- The integral gained between two times depends on the samples between
them only. -/
theorem trapz_sub (s k : ℕ) :
    trapz h x (s + k) - trapz h x s =
      ∑ q ∈ Finset.range k, h * (x (s + q + 1) + x (s + q)) := by
  induction k with
  | zero => simp
  | succ k ih =>
    rw [Finset.sum_range_succ, ← ih, ← Nat.add_assoc, trapz_succ]
    ring

theorem trapz_periodic (hper : ∀ s, x (s + T) = x s)
    (hzero : ∑ s ∈ Finset.range T, x s = 0) (s : ℕ) :
    trapz h x (s + T) = trapz h x s := by
  -- one period sums to zero from wherever it starts
  have hsum : ∀ a, ∑ q ∈ Finset.range T, x (a + q) = 0 := by
    intro a
    rw [← hzero, ← sum_period hper a, Finset.sum_Ico_eq_sum_range,
      Nat.add_sub_cancel_left]
  -- and so does the period shifted by one sample
  have hshift : ∑ q ∈ Finset.range T, x (s + q + 1) = 0 := by
    rw [← hsum (s + 1)]
    exact Finset.sum_congr rfl fun q _ => by rw [Nat.add_right_comm]
  -- the integral gained over a period is `h` times these two sums
  have hsub := trapz_sub (h := h) (x := x) s T
  rw [← Finset.mul_sum, Finset.sum_add_distrib, hshift, hsum s] at hsub
  linear_combination hsub

end

section

variable {R : Type*} [Field R] [CharZero R] {h : R} {x : ℕ → R} {T : ℕ}

/-- **Discrete orthogonality.** Both sides of the identity
`F'² - F² = 2h(x'F' + xF) - h²(x'² - x²)` telescope over a period. -/
theorem sum_mul_trapz_eq_zero (hh : h ≠ 0) (hper : ∀ s, x (s + T) = x s)
    (hzero : ∑ s ∈ Finset.range T, x s = 0) :
    ∑ s ∈ Finset.range T, x s * trapz h x s = 0 := by
  set F := trapz h x with hF
  have hFper : ∀ s, F (s + T) = F s := trapz_periodic hper hzero
  -- at both ends of the period the stream and its integral have the same values
  have hx0 : x T = x 0 := by simpa using hper 0
  have hF0 : F T = F 0 := by simpa using hFper 0
  -- the identity of one step, from the trapezoidal rule
  have hstep : ∀ s, F (s + 1) ^ 2 - F s ^ 2 =
      2 * h * (x (s + 1) * F (s + 1) + x s * F s) - h ^ 2 * (x (s + 1) ^ 2 - x s ^ 2) := by
    intro s
    rw [hF, trapz_succ]
    ring
  -- over a period the products shifted by one sample have the same sum
  have hshift : ∑ s ∈ Finset.range T, x (s + 1) * F (s + 1) =
      ∑ s ∈ Finset.range T, x s * F s := by
    have h1 := Finset.sum_range_succ (fun s => x s * F s) T
    have h2 := Finset.sum_range_succ' (fun s => x s * F s) T
    rw [h1, hx0, hF0] at h2
    exact (add_right_cancel h2).symm
  -- sum the steps: the squares telescope away and twice the wanted sum is left
  have hsum := Finset.sum_congr (rfl : Finset.range T = Finset.range T) fun s _ => hstep s
  rw [Finset.sum_range_sub (fun s => F s ^ 2), Finset.sum_sub_distrib, ← Finset.mul_sum,
    ← Finset.mul_sum, Finset.sum_add_distrib, hshift,
    Finset.sum_range_sub (fun s => x s ^ 2), hx0, hF0, sub_self, sub_self, mul_zero,
    sub_zero] at hsum
  have h4 : 4 * h ≠ 0 := mul_ne_zero (by norm_num) hh
  have : 4 * h * ∑ s ∈ Finset.range T, x s * F s = 0 := by linear_combination -hsum
  exact (mul_eq_zero.mp this).resolve_left h4

end

section

variable {R : Type*} [Field R] {h : R} {x : ℕ → R}

/-- A constant stream is integrated to a ramp. -/
theorem trapz_of_const {c : R} {s : ℕ} (hx : ∀ r ≤ s, x r = c) :
    trapz h x s = h * c * (2 * s + 1) := by
  induction s with
  | zero =>
    rw [trapz, hx 0 le_rfl]
    simp
  | succ s ih =>
    rw [trapz_succ, ih fun r hr => hx r (by omega), hx (s + 1) le_rfl, hx s (by omega)]
    push_cast
    ring

/-- The integral `k` items ago, and zero before the first item. -/
def trapzAgo (h : R) (x : ℕ → R) (s k : ℕ) : R :=
  if k ≤ s then trapz h x (s - k) else 0

/-- A window of the integral, counted backwards. -/
theorem winSum_trapz_eq (L s : ℕ) :
    winSum L (trapz h x) (s + 1) = ∑ k ∈ Finset.range L, trapzAgo h x s k := by
  rw [winSum_eq_sum_range]
  calc ∑ k ∈ Finset.range (min (s + 1) L), trapz h x (s + 1 - 1 - k)
      = ∑ k ∈ Finset.range (min (s + 1) L), trapzAgo h x s k := by
        refine Finset.sum_congr rfl fun k hk => ?_
        have hks := Finset.mem_range.mp hk
        rw [trapzAgo, if_pos (by omega), Nat.add_sub_cancel]
    _ = ∑ k ∈ Finset.range L, trapzAgo h x s k := by
        -- what the window lacks lies before the first item
        refine Finset.sum_subset (Finset.range_mono (min_le_right _ _)) fun k hk hks => ?_
        rw [Finset.mem_range] at hk hks
        exact if_neg (by omega)

end

/-! ## The integral beyond its sliding mean -/

section

variable {R : Type*} [Field R] [LinearOrder R] [IsStrictOrderedRing R] {h M : R} {x : ℕ → R}

/-- Between two times the integral gains at most the bound of the stream for every
half-step. -/
theorem abs_trapz_sub_le (hh : 0 ≤ h) {s k : ℕ} (hx : ∀ r ≤ s + k, |x r| ≤ M) :
    |trapz h x (s + k) - trapz h x s| ≤ 2 * h * M * k := by
  rw [trapz_sub]
  -- every half-step takes two values of the stream
  calc |∑ q ∈ Finset.range k, h * (x (s + q + 1) + x (s + q))|
      ≤ ∑ q ∈ Finset.range k, |h * (x (s + q + 1) + x (s + q))| :=
        Finset.abs_sum_le_sum_abs _ _
    _ ≤ ∑ _q ∈ Finset.range k, 2 * h * M := by
        refine Finset.sum_le_sum fun q hq => ?_
        have hqk := Finset.mem_range.mp hq
        have hPair : |x (s + q + 1) + x (s + q)| ≤ M + M :=
          (abs_add_le _ _).trans (add_le_add (hx _ (by omega)) (hx _ (by omega)))
        rw [abs_mul, abs_of_nonneg hh]
        calc h * |x (s + q + 1) + x (s + q)|
            ≤ h * (M + M) := mul_le_mul_of_nonneg_left hPair hh
          _ = 2 * h * M := by ring
    _ = 2 * h * M * k := by
        rw [Finset.sum_const, Finset.card_range, nsmul_eq_mul, mul_comm]

/-- From the start on the first half-step counts once. -/
theorem abs_trapz_le (hh : 0 ≤ h) {s : ℕ} (hx : ∀ r ≤ s, |x r| ≤ M) :
    |trapz h x s| ≤ h * M * (2 * s + 1) := by
  have hFirst : |trapz h x 0| ≤ h * M := by
    rw [trapz, abs_mul, abs_of_nonneg hh]
    exact mul_le_mul_of_nonneg_left (hx 0 (Nat.zero_le s)) hh
  have hRest : |trapz h x (0 + s) - trapz h x 0| ≤ 2 * h * M * s :=
    abs_trapz_sub_le hh fun r hr => hx r (by omega)
  rw [Nat.zero_add] at hRest
  calc |trapz h x s|
      = |trapz h x s - trapz h x 0 + trapz h x 0| := by rw [sub_add_cancel]
    _ ≤ |trapz h x s - trapz h x 0| + |trapz h x 0| := abs_add_le _ _
    _ ≤ 2 * h * M * s + h * M := add_le_add hRest hFirst
    _ = h * M * (2 * s + 1) := by ring

theorem abs_trapz_sub_trapzAgo_le (hh : 0 ≤ h) (hM : 0 ≤ M) {s : ℕ} (hx : ∀ r ≤ s, |x r| ≤ M)
    (k : ℕ) : |trapz h x s - trapzAgo h x s k| ≤ 2 * h * M * k := by
  unfold trapzAgo
  split
  · rename_i hk
    have hBack := abs_trapz_sub_le hh (s := s - k) (k := k) (M := M) (x := x)
      fun r hr => hx r (by omega)
    rwa [Nat.sub_add_cancel hk] at hBack
  -- before the first item the whole integral is what was gained since
  · rename_i hk
    have hk' : (s : R) + 1 ≤ k := by exact_mod_cast Nat.lt_of_not_le hk
    have hhM : 0 ≤ h * M := mul_nonneg hh hM
    rw [sub_zero]
    calc |trapz h x s|
        ≤ h * M * (2 * s + 1) := abs_trapz_le hh hx
      _ ≤ h * M * (2 * k) := mul_le_mul_of_nonneg_left (by linarith) hhM
      _ = 2 * h * M * k := by ring

/-- **Beyond its own sliding mean the integral is bounded**, whatever the offset of
the stream, from the first item on. -/
theorem abs_trapz_sub_winMean_le (hh : 0 ≤ h) (hM : 0 ≤ M) {L s : ℕ} (hL : 1 ≤ L)
    (hx : ∀ r ≤ s, |x r| ≤ M) :
    |trapz h x s - winMean L (trapz h x) (s + 1)| ≤ h * M * (L - 1) := by
  have hL0 : (0 : R) < L := Nat.cast_pos.mpr hL
  -- the mean of what was gained since each of the last `L` items
  have hGained : trapz h x s - winMean L (trapz h x) (s + 1) =
      (∑ k ∈ Finset.range L, (trapz h x s - trapzAgo h x s k)) / L := by
    rw [winMean, winSum_trapz_eq, Finset.sum_sub_distrib, Finset.sum_const, Finset.card_range,
      nsmul_eq_mul, sub_div, mul_div_cancel_left₀ _ hL0.ne']
  have hGauss : (∑ k ∈ Finset.range L, (k : R)) * 2 = L * (L - 1) := by
    have hCast : ((L - 1 : ℕ) : R) = L - 1 := by rw [Nat.cast_sub hL, Nat.cast_one]
    rw [← hCast, ← Nat.cast_sum, ← Nat.cast_mul, ← Finset.sum_range_id_mul_two L]
    push_cast
    rfl
  rw [hGained, abs_div, abs_of_pos hL0, div_le_iff₀ hL0]
  calc |∑ k ∈ Finset.range L, (trapz h x s - trapzAgo h x s k)|
      ≤ ∑ k ∈ Finset.range L, |trapz h x s - trapzAgo h x s k| :=
        Finset.abs_sum_le_sum_abs _ _
    _ ≤ ∑ k ∈ Finset.range L, 2 * h * M * k :=
        Finset.sum_le_sum fun k _ => abs_trapz_sub_trapzAgo_le hh hM hx k
    _ = h * M * (L * (L - 1)) := by
        rw [← Finset.mul_sum, ← hGauss]
        ring
    _ = h * M * (L - 1) * L := by ring

end

end EnergyMeter.Lib
