import EnergyMeter.Lib.Numerals
import Mathlib.Algebra.BigOperators.Intervals
import Mathlib.Algebra.Order.BigOperators.Ring.Finset
import Mathlib.Algebra.Order.Field.Basic
import Mathlib.Algebra.BigOperators.Field
import Mathlib.Tactic.Abel
import Mathlib.Tactic.Ring

/-!
# Ring buffers and sliding windows

A ring buffer of capacity `L` that is written at position `t % L` by the item
number `t` of a stream holds, at any time, the last `L` items of the stream.
A running sum that subtracts what it overwrites is then the sum over the
sliding window of the last `L` items.

* `RingHolds` — what the buffer contains after `t` items;
  `RingHolds.push` is the one step.
* `winSum`, `winMean` — the sum and the mean over the window;
  `winSum_succ` is the one step.
* `winMean_mul_sq_le`, `sum_winMean_mul_sq_le` — Cauchy–Schwarz over a window, of
  one pair of streams and of several.
* `RingHolds.eq_winItem` — the ring of a stream, entry by entry.
* `winSum_of_periodic` — over one period of a periodic stream every full
  window has the same sum.
-/

namespace EnergyMeter.Lib

/-! ## Contents of the ring -/

section Contents

variable {α : Type*} {L t : ℕ} {x y : ℕ → α} {buf : ℕ → α}

/-- `buf` holds the last `L` of the first `t` items of `x`, item `s` at
position `s % L`. -/
def RingHolds (L : ℕ) (x : ℕ → α) (t : ℕ) (buf : ℕ → α) : Prop :=
  ∀ s, s < t → t ≤ s + L → buf (s % L) = x s

theorem ringHolds_zero : RingHolds L x 0 buf := by
  intro s hs
  omega

/-- Two items of one window never share a position. -/
theorem mod_ne_of_window {s : ℕ} (hs : s < t) (hw : t < s + L) : s % L ≠ t % L := by
  intro hEq
  -- equal remainders: the two items lie a multiple of `L` apart
  have h1 := Nat.div_add_mod s L
  have h2 := Nat.div_add_mod t L
  have hle : s / L ≤ t / L := Nat.div_le_div_right (le_of_lt hs)
  rcases Nat.lt_or_ge (s / L) (t / L) with hlt | hge
  -- at least one whole turn apart, which is outside the window
  · have : L * (s / L + 1) ≤ L * (t / L) := Nat.mul_le_mul_left L hlt
    rw [Nat.mul_add] at this
    omega
  -- in the same turn they would be the same item
  · have : s / L = t / L := le_antisymm hle hge
    rw [this] at h1
    omega

theorem RingHolds.push (h : RingHolds L x t buf) :
    RingHolds L x (t + 1) (Function.update buf (t % L) (x t)) := by
  intro s hs hw
  -- an older item keeps its position, the new one is at the position written
  rcases Nat.lt_succ_iff_lt_or_eq.mp hs with hlt | rfl
  · rw [Function.update_of_ne (mod_ne_of_window hlt (by omega))]
    exact h s hlt (by omega)
  · rw [Function.update_self]

theorem RingHolds.congr (h : RingHolds L x t buf) (hxy : ∀ s < t, x s = y s) :
    RingHolds L y t buf := by
  intro s hs hw
  rw [h s hs hw, hxy s hs]

/-- The item that the next push overwrites is the oldest of the window. -/
theorem RingHolds.oldest (h : RingHolds L x t buf) (hL : 0 < L) (ht : L ≤ t) :
    buf (t % L) = x (t - L) := by
  -- the item one turn ago sits at the same position
  have hmod : (t - L) % L = t % L := by
    conv_rhs => rw [← Nat.sub_add_cancel ht, Nat.add_mod_right]
  rw [← hmod]
  exact h (t - L) (by omega) (by omega)

/-- The item that position `p` of the ring holds after `t` items, and zero where
none has arrived. -/
def winItem [Zero α] (L : ℕ) (x : ℕ → α) (t p : ℕ) : α :=
  if p < t then x (p + L * ((t - 1 - p) / L)) else 0

theorem RingHolds.eq_winItem [Zero α] (h : RingHolds L x t buf)
    (hFresh : ∀ p, t ≤ p → p < L → buf p = 0) {p : ℕ} (hp : p < L) :
    buf p = winItem L x t p := by
  unfold winItem
  split
  · rename_i ht
    -- the last item at position `p` is `p` plus as many turns as fit below `t`
    have hTurns := Nat.div_add_mod (t - 1 - p) L
    have hRest := Nat.mod_lt (t - 1 - p) (show 0 < L by omega)
    have hItem := h (p + L * ((t - 1 - p) / L)) (by omega) (by omega)
    rwa [Nat.add_mul_mod_self_left, Nat.mod_eq_of_lt hp] at hItem
  · rename_i ht
    exact hFresh p (not_lt.mp ht) hp

theorem winItem_finset {ι R : Type*} [AddCommMonoid R] (S : Finset ι) (f : ι → ℕ → R) (p : ℕ) :
    winItem L (fun s => ∑ i ∈ S, f i s) t p = ∑ i ∈ S, winItem L (f i) t p := by
  unfold winItem
  split
  · rfl
  · exact Finset.sum_const_zero.symm

/-- Advancing a position with a wrap at the end is counting modulo `L`. -/
theorem mod_succ_wrap (hL : 0 < L) (t : ℕ) :
    (if L ≤ t % L + 1 then 0 else t % L + 1) = (t + 1) % L := by
  have hlt : t % L < L := Nat.mod_lt t hL
  have hmod : (t + 1) % L = (t % L + 1) % L := (Nat.mod_add_mod t L 1).symm
  rw [hmod]
  split
  · rw [show t % L + 1 = L by omega, Nat.mod_self]
  · exact (Nat.mod_eq_of_lt (by omega)).symm

end Contents

/-! ## Sums over the window -/

section Sum

variable {R : Type*} [AddCommMonoid R] {L t : ℕ} {x y : ℕ → R}

/-- The sum of the last `L` of the first `t` items. -/
def winSum (L : ℕ) (x : ℕ → R) (t : ℕ) : R :=
  ∑ s ∈ Finset.Ico (t - L) t, x s

@[simp] theorem winSum_zero : winSum L x 0 = 0 := by
  simp [winSum]

theorem winSum_congr (h : ∀ s, t - L ≤ s → s < t → x s = y s) :
    winSum L x t = winSum L y t :=
  Finset.sum_congr rfl fun s hs =>
    h s (Finset.mem_Ico.mp hs).1 (Finset.mem_Ico.mp hs).2

theorem winSum_add : winSum L (fun s => x s + y s) t = winSum L x t + winSum L y t :=
  Finset.sum_add_distrib

theorem winSum_finset {ι : Type*} (S : Finset ι) (f : ι → ℕ → R) :
    winSum L (fun s => ∑ i ∈ S, f i s) t = ∑ i ∈ S, winSum L (f i) t :=
  Finset.sum_comm

/-- The newest item and a window that is one item shorter. -/
theorem winSum_succ_last (hL : 0 < L) : winSum L x (t + 1) = winSum (L - 1) x t + x t := by
  rw [winSum, Finset.sum_Ico_succ_top (by omega), show t + 1 - L = t - (L - 1) by omega, winSum]

/-- The window counted backwards from its newest item. -/
theorem winSum_eq_sum_range :
    winSum L x t = ∑ k ∈ Finset.range (min t L), x (t - 1 - k) := by
  -- both sides as sums over a range, one of them read from its end
  rw [winSum, ← Finset.sum_range_reflect, Finset.sum_Ico_eq_sum_range,
    show t - (t - L) = min t L by omega]
  refine Finset.sum_congr rfl fun k hk => ?_
  rw [Finset.mem_range] at hk
  congr 1
  omega

end Sum

section Group

variable {R : Type*} [AddCommGroup R] {L t : ℕ} {x y : ℕ → R}

/-- One step of a window: the newest item enters, the oldest leaves. -/
theorem winSum_succ (hL : 0 < L) :
    winSum L x (t + 1) = winSum L x t - (if L ≤ t then x (t - L) else 0) + x t := by
  unfold winSum
  split
  · rename_i ht
    -- full window: split the oldest item off at the bottom and the newest at the top
    have hBot := Finset.sum_eq_sum_Ico_succ_bot (show t - L < t by omega) x
    rw [Finset.sum_Ico_succ_top (by omega), hBot,
      show t - L + 1 = t + 1 - L by omega]
    abel
  -- still filling: nothing leaves
  · rw [Finset.sum_Ico_succ_top (by omega), show t + 1 - L = t - L by omega, sub_zero]

end Group

/-! ## Means over the window -/

section Mean

variable {R : Type*} [Field R] {L t : ℕ} {x y : ℕ → R}

/-- The sum of the last `L` of the first `t` items, over `L`. -/
def winMean (L : ℕ) (x : ℕ → R) (t : ℕ) : R :=
  winSum L x t / L

theorem winMean_congr (h : ∀ s, t - L ≤ s → s < t → x s = y s) :
    winMean L x t = winMean L y t := by
  rw [winMean, winSum_congr h, winMean]

theorem winMean_finset {ι : Type*} (S : Finset ι) (f : ι → ℕ → R) :
    winMean L (fun s => ∑ i ∈ S, f i s) t = ∑ i ∈ S, winMean L (f i) t := by
  simp only [winMean, winSum_finset, Finset.sum_div]

theorem winMean_add : winMean L (fun s => x s + y s) t = winMean L x t + winMean L y t := by
  simp only [winMean, winSum_add, add_div]

theorem winMean_const_mul (c : R) :
    winMean L (fun s => c * x s) t = c * winMean L x t := by
  simp only [winMean, winSum, ← Finset.mul_sum, mul_div_assoc]

end Mean

section Ordered

variable {R : Type*} [Field R] [LinearOrder R] [IsStrictOrderedRing R]
  {L t : ℕ} {x y : ℕ → R}

theorem winMean_nonneg (h : ∀ s, 0 ≤ x s) : 0 ≤ winMean L x t :=
  div_nonneg (Finset.sum_nonneg fun s _ => h s) (Nat.cast_nonneg L)

/-- A window of nonnegative items with a positive one among them. -/
theorem winMean_pos {s : ℕ} (h : ∀ s, 0 ≤ x s) (hlo : t - L ≤ s) (hhi : s < t)
    (hs : 0 < x s) : 0 < winMean L x t := by
  refine div_pos ?_ (Nat.cast_pos.mpr (by omega))
  exact Finset.sum_pos' (fun r _ => h r) ⟨s, Finset.mem_Ico.mpr ⟨hlo, hhi⟩, hs⟩

/-- A mean is within a bound of its items, also while the window fills. -/
theorem winMean_le {M : R} (hM : 0 ≤ M) (h : ∀ s, x s ≤ M) : winMean L x t ≤ M := by
  refine div_le_of_le_mul₀ (Nat.cast_nonneg L) hM ?_
  calc winSum L x t
      ≤ (Finset.Ico (t - L) t).card • M := Finset.sum_le_card_nsmul _ _ _ fun s _ => h s
    _ ≤ L • M := nsmul_le_nsmul_left hM (by
        rw [Nat.card_Ico]
        omega)
    _ = M * L := by rw [nsmul_eq_mul, mul_comm]

/-- No item of a window exceeds what all of them add up to. -/
theorem le_mul_winMean {s : ℕ} (h : ∀ s, 0 ≤ x s) (hlo : t - L ≤ s) (hhi : s < t) :
    x s ≤ L * winMean L x t := by
  have hL : (L : R) ≠ 0 := Nat.cast_ne_zero.mpr (by omega)
  rw [winMean, mul_div_cancel₀ _ hL]
  exact Finset.single_le_sum (fun r _ => h r) (Finset.mem_Ico.mpr ⟨hlo, hhi⟩)

/-- **Cauchy–Schwarz over a window.** -/
theorem winMean_mul_sq_le :
    winMean L (fun s => x s * y s) t ^ 2 ≤
      winMean L (fun s => x s * x s) t * winMean L (fun s => y s * y s) t := by
  -- the inequality for sums, then both sides over `L ^ 2`
  have hcs := Finset.sum_mul_sq_le_sq_mul_sq (Finset.Ico (t - L) t) x y
  simp only [sq (x _), sq (y _)] at hcs
  simp only [winMean, winSum]
  rw [div_pow, div_mul_div_comm, ← sq]
  exact div_le_div_of_nonneg_right hcs (sq_nonneg _)

/-- **Cauchy–Schwarz over a window** of several pairs of streams at once. -/
theorem sum_winMean_mul_sq_le {ι : Type*} (S : Finset ι) {x y : ι → ℕ → R} :
    (∑ i ∈ S, winMean L (fun s => x i s * y i s) t) ^ 2 ≤
      winMean L (fun s => ∑ i ∈ S, x i s * x i s) t *
        winMean L (fun s => ∑ i ∈ S, y i s * y i s) t := by
  -- the pairs of all streams, one after the other, are one pair of vectors
  have hcs := Finset.sum_mul_sq_le_sq_mul_sq (Finset.Ico (t - L) t ×ˢ S)
    (fun p => x p.2 p.1) (fun p => y p.2 p.1)
  simp only [Finset.sum_product, sq (x _ _), sq (y _ _)] at hcs
  rw [← winMean_finset]
  simp only [winMean, winSum]
  rw [div_pow, div_mul_div_comm, ← sq]
  exact div_le_div_of_nonneg_right hcs (sq_nonneg _)

end Ordered

/-! ## Periodic streams -/

section Periodic

variable {R : Type*} [AddCommGroup R] {T : ℕ} {x : ℕ → R}

/-- From any start on, one period has the same sum. -/
theorem sum_period (h : ∀ s, x (s + T) = x s) (a : ℕ) :
    ∑ s ∈ Finset.Ico a (a + T), x s = ∑ s ∈ Finset.range T, x s := by
  induction a with
  | zero => rw [Nat.zero_add, Finset.range_eq_Ico]
  | succ a ih =>
    rcases Nat.eq_zero_or_pos T with rfl | hT
    · simp
    -- moving the start by one trades an item for the same item a period later
    · rw [← ih, Finset.sum_eq_sum_Ico_succ_bot (show a < a + T by omega),
        show a + 1 + T = a + T + 1 by omega, Finset.sum_Ico_succ_top (by omega), h,
        add_comm]

theorem winSum_of_periodic (h : ∀ s, x (s + T) = x s) {t : ℕ} (ht : T ≤ t) :
    winSum T x t = ∑ s ∈ Finset.range T, x s := by
  obtain ⟨a, rfl⟩ := Nat.exists_eq_add_of_le' ht
  rw [winSum, Nat.add_sub_cancel, sum_period h]

/-- Windows that lie within the periodic part of a stream have one sum. -/
theorem winSum_steady {a t t' : ℕ} (h : ∀ s, a ≤ s → x (s + T) = x s) (ht : a + T ≤ t)
    (ht' : a + T ≤ t') : winSum T x t = winSum T x t' := by
  -- seen from `a` on the stream is periodic, so every window is one period of it
  have hShift : ∀ {t}, a + T ≤ t → winSum T x t = ∑ s ∈ Finset.range T, x (a + s) := by
    intro t ht
    rw [← winSum_of_periodic (x := fun s => x (a + s)) (t := t - a)
      (fun s => by rw [← Nat.add_assoc, h _ (by omega)]) (by omega), winSum_eq_sum_range,
      winSum_eq_sum_range, min_eq_right (by omega), min_eq_right (by omega)]
    -- the two ways of counting back from the newest item agree
    refine Finset.sum_congr rfl fun k hk => ?_
    rw [show a + (t - a - 1 - k) = t - 1 - k by
      have := Finset.mem_range.mp hk
      omega]
  rw [hShift ht, hShift ht']

end Periodic

end EnergyMeter.Lib
