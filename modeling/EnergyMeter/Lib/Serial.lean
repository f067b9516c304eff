import Mathlib.Data.BitVec
import Mathlib.Tactic.IntervalCases

/-!
# Bytes on a serial line

A line carries a byte bit by bit, the most significant one first.

* `bits`, `bytes` — from a byte to the line and back; `bytes_flatMap_bits` is the round
  trip.
* `bytes_silence` — a line that stays low carries zeros.
-/

namespace EnergyMeter.Lib.Serial

/-- The bits of a byte in the order of the line. -/
def bits (v : BitVec 8) : List Bool := [7, 6, 5, 4, 3, 2, 1, 0].map v.getLsbD

/-- The bytes that a line has carried; less than eight bits at the end are none. -/
def bytes : List Bool → List (BitVec 8)
  | b₇ :: b₆ :: b₅ :: b₄ :: b₃ :: b₂ :: b₁ :: b₀ :: line =>
    BitVec.ofBoolListBE [b₇, b₆, b₅, b₄, b₃, b₂, b₁, b₀] :: bytes line
  | _ => []

theorem bytes_bits_append (v : BitVec 8) (line : List Bool) :
    bytes (bits v ++ line) = v :: bytes line := by
  have hByte : BitVec.ofBoolListBE (bits v) = v := by
    refine BitVec.eq_of_getLsbD_eq fun i hi => ?_
    rw [BitVec.getLsbD_ofBoolListBE]
    have hLt : i < 8 := hi
    interval_cases i <;> rfl
  exact congrArg (· :: bytes line) hByte

theorem bytes_flatMap_bits (vs : List (BitVec 8)) : bytes (vs.flatMap bits) = vs := by
  induction vs with
  | nil => rfl
  | cons v vs ih => rw [List.flatMap_cons, bytes_bits_append, ih]

theorem bytes_silence (n : ℕ) :
    bytes (List.replicate (8 * n) false) = List.replicate n 0 := by
  have hLine : List.replicate (8 * n) false = (List.replicate n (0 : BitVec 8)).flatMap bits := by
    induction n with
    | zero => rfl
    | succ n ih =>
      rw [List.replicate_succ, List.flatMap_cons, ← ih, Nat.mul_succ, Nat.add_comm,
        List.replicate_add]
      rfl
  rw [hLine, bytes_flatMap_bits]

end EnergyMeter.Lib.Serial
