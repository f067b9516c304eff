import EnergyMeter.Lib.Numerals
import Mathlib.Algebra.Order.Floor.Ring
import Mathlib.Data.Int.Log
import Mathlib.Tactic.Linarith
import Mathlib.Tactic.NormNum
import Mathlib.Tactic.Positivity.Core

/-!
# Rounding to the nearest number of a binary format

A binary format of precision `p` has the multiples of a quantum, which depends
on the size of the number: it is `2 ^ (1 - p)` times the largest power of two
within the number, and does not shrink below the exponent `emin`. Rounding
takes the nearest multiple, and the even one of two.

* `roundHalfEven` — rounding to an integer; `roundHalfEven_error` is its error.
* `roundBinary` — rounding in a binary format; `roundBinary_error` is its
  error relative to the number, in the range of the normal numbers.
* `roundBinary_error_le` — and relative to a bound on the number, in all of the range.
* `Binary32` — the numbers of single precision, as the values of rounding. The
  format has no greatest exponent here.
* `Sized` — a number is zero or its size is between two bounds, which passes
  through products and roundings.
-/

namespace EnergyMeter.Lib

section Format

variable {R : Type*} [Field R] [LinearOrder R] [FloorRing R]

/-! ## To an integer -/

/-- The nearest integer, and the even one of two. -/
def roundHalfEven (x : R) : ℤ :=
  if x - ⌊x⌋ < 1 / 2 then ⌊x⌋
  else if 1 / 2 < x - ⌊x⌋ then ⌊x⌋ + 1
  else if ⌊x⌋ % 2 = 0 then ⌊x⌋ else ⌊x⌋ + 1

section Integer

variable [IsStrictOrderedRing R]

theorem roundHalfEven_zero : roundHalfEven (0 : R) = 0 := by
  simp [roundHalfEven]

theorem roundHalfEven_error (x : R) : |(roundHalfEven x : R) - x| ≤ 1 / 2 := by
  have hLow := Int.floor_le x
  have hHigh := Int.lt_floor_add_one x
  -- in every branch the distance to the neighbour taken is at most one half: the
  -- first two by their tests, the last two because a tie is as far from either one
  unfold roundHalfEven
  split_ifs with hDown hUp hEven <;> rw [abs_le] <;> push_cast <;> constructor <;> linarith

end Integer

/-! ## In a binary format -/

/-- The distance of the neighbours of `x` in a format. -/
def quantum (p : ℕ) (emin : ℤ) (x : R) : R := 2 ^ (max (Int.log 2 |x|) emin - (p - 1))

/-- The nearest number of a format. -/
def roundBinary (p : ℕ) (emin : ℤ) (x : R) : R :=
  roundHalfEven (x / quantum p emin x) * quantum p emin x

section Binary

variable [IsStrictOrderedRing R] {p : ℕ} {emin : ℤ} {x : R}

theorem quantum_pos (p : ℕ) (emin : ℤ) (x : R) : 0 < quantum p emin x := zpow_pos two_pos _

theorem roundBinary_zero : roundBinary p emin (0 : R) = 0 := by
  rw [roundBinary, zero_div, roundHalfEven_zero, Int.cast_zero, zero_mul]

theorem roundBinary_error_quantum (p : ℕ) (emin : ℤ) (x : R) :
    |roundBinary p emin x - x| ≤ quantum p emin x / 2 := by
  have hq := quantum_pos p emin x
  have hScaled := roundHalfEven_error (x / quantum p emin x)
  have hSplit : roundBinary p emin x - x =
      ((roundHalfEven (x / quantum p emin x) : R) - x / quantum p emin x) *
        quantum p emin x := by
    rw [sub_mul, div_mul_cancel₀ x hq.ne', roundBinary]
  rw [hSplit, abs_mul, abs_of_pos hq]
  calc |(roundHalfEven (x / quantum p emin x) : R) - x / quantum p emin x| * quantum p emin x
      ≤ 1 / 2 * quantum p emin x := mul_le_mul_of_nonneg_right hScaled hq.le
    _ = quantum p emin x / 2 := one_div_mul_eq_div _ _

/-- Half a quantum, by the exponent that it is taken for. -/
theorem half_quantum (p : ℕ) (emin : ℤ) (x : R) :
    quantum p emin x / 2 = 2 ^ max (Int.log 2 |x|) emin / 2 ^ p := by
  have hTwo : (2 : R) ≠ 0 := zero_lt_two.ne'
  rw [quantum, sub_sub_eq_add_sub, zpow_sub₀ hTwo, zpow_add_one₀ hTwo, zpow_natCast,
    mul_div_right_comm, mul_div_assoc, div_self hTwo, mul_one]

/-- The power of two within a number. -/
theorem two_zpow_log_le (hPos : 0 < |x|) : (2 : R) ^ Int.log 2 |x| ≤ |x| := by
  have h := Int.zpow_log_le_self (b := 2) (by decide) hPos
  exact_mod_cast h

/-- In the range of the normal numbers the error is relative. -/
theorem roundBinary_error (hx : (2 : R) ^ emin ≤ |x|) :
    |roundBinary p emin x - x| ≤ |x| / 2 ^ p := by
  have hPos : 0 < |x| := (zpow_pos two_pos emin).trans_le hx
  -- the exponent of a normal number is its own
  have hLog : emin ≤ Int.log 2 |x| := by
    refine (Int.zpow_le_iff_le_log (by decide) hPos).mp ?_
    exact_mod_cast hx
  calc |roundBinary p emin x - x|
      ≤ quantum p emin x / 2 := roundBinary_error_quantum p emin x
    _ = 2 ^ Int.log 2 |x| / 2 ^ p := by rw [half_quantum, max_eq_left hLog]
    _ ≤ |x| / 2 ^ p := div_le_div_of_nonneg_right (two_zpow_log_le hPos) (by positivity)

end Binary

/-! ## Single precision -/

/-- The nearest number of single precision: 24 bits, and exponents from -126 on. -/
def binary32 (x : R) : R := roundBinary 24 (-126) x

/-- The numbers of single precision. -/
def Binary32 (R : Type*) [Field R] [LinearOrder R] [FloorRing R] : Type _ :=
  {x : R // x ∈ Set.range (binary32 : R → R)}

namespace Binary32

/-- The conversion to single precision. -/
def single (x : R) : Binary32 R := ⟨binary32 x, x, rfl⟩

/-- The conversion from single precision. -/
def double (x : Binary32 R) : R := x.val

@[simp] theorem double_single (x : R) : double (single x) = binary32 x := rfl

instance [IsStrictOrderedRing R] : Zero (Binary32 R) := ⟨⟨0, 0, roundBinary_zero⟩⟩

@[simp] theorem double_zero [IsStrictOrderedRing R] : double (0 : Binary32 R) = 0 := rfl

end Binary32

end Format

/-! ## Sizes -/

section Sizes

variable {R : Type*} [Field R] [LinearOrder R] {lo hi lo' hi' x : R}

/-- Zero, or of a size between `lo` and `hi`. -/
def Sized (lo hi x : R) : Prop := x = 0 ∨ lo ≤ |x| ∧ |x| ≤ hi

theorem Sized.mono (h : Sized lo hi x) (hLo : lo' ≤ lo) (hHi : hi ≤ hi') : Sized lo' hi' x :=
  h.imp_right fun h => ⟨hLo.trans h.1, h.2.trans hHi⟩

theorem Sized.le_abs (h : Sized lo hi x) (hx : x ≠ 0) : lo ≤ |x| :=
  (h.resolve_left hx).1

variable [IsStrictOrderedRing R]

theorem Sized.abs_le (h : Sized lo hi x) (hHi : 0 ≤ hi) : |x| ≤ hi := by
  rcases h with rfl | h
  · rwa [abs_zero]
  · exact h.2

theorem Sized.mul_const {c : R} (h : Sized lo hi x) (hc : 0 ≤ c) :
    Sized (lo * c) (hi * c) (x * c) := by
  rcases h with rfl | ⟨hLo, hHi⟩
  · exact .inl (zero_mul c)
  · refine .inr ?_
    rw [abs_mul, abs_of_nonneg hc]
    exact ⟨mul_le_mul_of_nonneg_right hLo hc, mul_le_mul_of_nonneg_right hHi hc⟩

/-- Rounding to single precision changes a normal number by less than one part
in a million. -/
theorem Sized.binary32 [FloorRing R] (h : Sized lo hi x) (hLo : 2 ^ (-126 : ℤ) ≤ lo) :
    Sized (lo * (1 - 1 / 10 ^ 6)) (hi * (1 + 1 / 10 ^ 6)) (binary32 x) := by
  rcases h with rfl | ⟨hx, hHi⟩
  · exact .inl roundBinary_zero
  · have hError : |Lib.binary32 x - x| ≤ |x| / 2 ^ 24 := roundBinary_error (hLo.trans hx)
    have hSmall : |x| / 2 ^ 24 ≤ |x| / 10 ^ 6 :=
      div_le_div_of_nonneg_left (abs_nonneg x) (by norm_num) (by norm_num)
    -- the sizes differ by no more than the numbers
    have hUp := abs_sub_abs_le_abs_sub (Lib.binary32 x) x
    have hDown := abs_sub_abs_le_abs_sub x (Lib.binary32 x)
    rw [abs_sub_comm] at hDown
    refine .inr ⟨?_, ?_⟩ <;> linarith

end Sizes

end EnergyMeter.Lib
