import EnergyMeter.Lib.Ring
import EnergyMeter.Lib.Trapezoid

/-!
# Stream operators with finite memory

A stream operator has memory `d` when its output at a time depends on the
last `d` items of its input and on nothing else: not on older items and not
on the time itself. Operators compose, and the depths add up.

A sliding mean of length `L` has memory `L`. The trapezoidal integral of a
stream has no finite memory, but the integral minus its own sliding mean has:
the two histories cancel.
-/

namespace EnergyMeter.Lib

section Memory

variable {α β γ : Type*}

/-- The last `d` items of `x` up to time `s` exist and are those of `y` up to
time `s'`. -/
structure AgreeBack (d : ℕ) (x : ℕ → α) (s : ℕ) (y : ℕ → α) (s' : ℕ) : Prop where
  left : d ≤ s + 1
  right : d ≤ s' + 1
  eq : ∀ k < d, x (s - k) = y (s' - k)

theorem AgreeBack.mono {d e s s' : ℕ} {x y : ℕ → α} (h : AgreeBack d x s y s') (he : e ≤ d) :
    AgreeBack e x s y s' :=
  ⟨he.trans h.left, he.trans h.right, fun k hk => h.eq k (by omega)⟩

/-- What agrees for `d + k` items agrees for `d` items, `k` items ago. -/
theorem AgreeBack.shift {d k s s' : ℕ} {x y : ℕ → α} (h : AgreeBack (d + k) x s y s')
    (hd : 1 ≤ d) : AgreeBack d x (s - k) y (s' - k) := by
  obtain ⟨hLeft, hRight, hEq⟩ := h
  refine ⟨by omega, by omega, fun j hj => ?_⟩
  -- `j` items before the item `k` ago is `k + j` items ago
  rw [Nat.sub_sub, Nat.sub_sub]
  exact hEq (k + j) (by omega)

/-- The output of `F` depends on the last `d` items only. -/
def HasMemory (d : ℕ) (F : (ℕ → α) → ℕ → β) : Prop :=
  ∀ x y s s', AgreeBack d x s y s' → F x s = F y s'

namespace HasMemory

variable {d e : ℕ} {F : (ℕ → α) → ℕ → β} {G : (ℕ → β) → ℕ → γ}

theorem mono (h : HasMemory d F) (hde : d ≤ e) : HasMemory e F :=
  fun x y s s' hAgree => h x y s s' (hAgree.mono hde)

/-- An operator that looks at the current item only. -/
theorem current (g : α → β) : HasMemory 1 fun x s => g (x s) :=
  fun _ _ _ _ h => congrArg g (h.eq 0 one_pos)

theorem map₂ {δ : Type*} {F' : (ℕ → α) → ℕ → γ} (g : β → γ → δ) (h : HasMemory d F)
    (h' : HasMemory d F') : HasMemory d fun x s => g (F x s) (F' x s) :=
  fun x y s s' hAgree => congrArg₂ g (h x y s s' hAgree) (h' x y s s' hAgree)

theorem map (g : β → γ) (h : HasMemory d F) : HasMemory d fun x s => g (F x s) :=
  fun x y s s' hAgree => congrArg g (h x y s s' hAgree)

/-- Composition adds the depths. -/
theorem comp (hF : HasMemory d F) (hG : HasMemory e G) (hd : 1 ≤ d) (he : 1 ≤ e) :
    HasMemory (d + e - 1) fun x => G (F x) := by
  intro x y s s' h
  -- the outputs of `F` agree for `e` items back, each by its own last `d` items
  refine hG _ _ _ _ ⟨?_, ?_, fun k hk => hF _ _ _ _ (AgreeBack.shift ?_ hd)⟩
  · have := h.left
    omega
  · have := h.right
    omega
  · exact h.mono (by omega)

theorem sum {R ι : Type*} [AddCommMonoid R] {F : ι → (ℕ → α) → ℕ → R} (S : Finset ι)
    (h : ∀ i, HasMemory d (F i)) : HasMemory d fun x s => ∑ i ∈ S, F i x s :=
  fun x y s s' hAgree => Finset.sum_congr rfl fun i _ => h i x y s s' hAgree

end HasMemory

end Memory

/-! ## Windows and integrals -/

section Windows

variable {R : Type*} [Field R] {L : ℕ}

theorem hasMemory_winMean : HasMemory L fun (x : ℕ → R) s => winMean L x (s + 1) := by
  intro x y s s' h
  show winSum L x (s + 1) / L = winSum L y (s' + 1) / L
  -- both windows are full: counted from the newest item they are one sum
  rw [winSum_eq_sum_range, winSum_eq_sum_range, min_eq_right h.left, min_eq_right h.right]
  congr 1
  exact Finset.sum_congr rfl fun k hk => h.eq k (Finset.mem_range.mp hk)

/-- The integral gained since `k` items ago depends on the items since. -/
theorem trapz_gain_congr {h : R} {k s s' : ℕ} {x y : ℕ → R} (hAgree : AgreeBack (k + 1) x s y s') :
    trapz h x s - trapz h x (s - k) = trapz h y s' - trapz h y (s' - k) := by
  obtain ⟨hLeft, hRight, hEq⟩ := hAgree
  have hs : s - k + k = s := Nat.sub_add_cancel (by omega)
  have hs' : s' - k + k = s' := Nat.sub_add_cancel (by omega)
  -- both gains as sums over the `k` steps since
  have hx := trapz_sub (h := h) (x := x) (s - k) k
  have hy := trapz_sub (h := h) (x := y) (s' - k) k
  rw [hs] at hx
  rw [hs'] at hy
  rw [hx, hy]
  refine Finset.sum_congr rfl fun q hq => ?_
  have hq := Finset.mem_range.mp hq
  -- step `q` uses the two items `k - q - 1` and `k - q` ago
  have hNew := hEq (k - (q + 1)) (by omega)
  have hOld := hEq (k - q) (by omega)
  rw [show s - (k - (q + 1)) = s - k + q + 1 by omega,
    show s' - (k - (q + 1)) = s' - k + q + 1 by omega] at hNew
  rw [show s - (k - q) = s - k + q by omega, show s' - (k - q) = s' - k + q by omega] at hOld
  rw [hNew, hOld]

/-- **The integral minus its sliding mean has finite memory.** -/
theorem hasMemory_unbiased [CharZero R] (hL : 1 ≤ L) (h : R) :
    HasMemory L fun (x : ℕ → R) s => trapz h x s - winMean L (trapz h x) (s + 1) := by
  have hL_ne : (L : R) ≠ 0 := Nat.cast_ne_zero.mpr (by omega)
  -- the difference is the mean of the gains since each item of the window
  have hGain : ∀ (x : ℕ → R) (s : ℕ), L ≤ s + 1 →
      trapz h x s - winMean L (trapz h x) (s + 1) =
        (∑ k ∈ Finset.range L, (trapz h x s - trapz h x (s - k))) / L := by
    intro x s hs
    rw [winMean, winSum_eq_sum_range, min_eq_right hs, Finset.sum_sub_distrib,
      Finset.sum_const, Finset.card_range, nsmul_eq_mul, sub_div,
      mul_div_cancel_left₀ _ hL_ne]
    simp only [Nat.add_sub_cancel]
  -- a gain forgets the history, and agreement back to the oldest item gives all of them
  intro x y s s' hAgree
  show trapz h x s - winMean L (trapz h x) (s + 1) = trapz h y s' - winMean L (trapz h y) (s' + 1)
  rw [hGain x s hAgree.left, hGain y s' hAgree.right]
  congr 1
  exact Finset.sum_congr rfl fun k hk =>
    trapz_gain_congr (hAgree.mono (Nat.succ_le_of_lt (Finset.mem_range.mp hk)))

end Windows

end EnergyMeter.Lib
