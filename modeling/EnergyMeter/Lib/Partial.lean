import EnergyMeter.Lib.Numerals
import Mathlib.Algebra.Field.Basic
import Mathlib.Analysis.Real.Sqrt

/-!
# Partial operations in two readings

A program over exact numbers uses operations that are not defined
everywhere: a division, a square root, an access to an array. Such a program
is written once, over any monad that can `require` a side condition, and is
then read twice:

* in `Id` a requirement is ignored and every operation is total, which is the
  reading to calculate with;
* in `Except Fault` the first requirement that fails stops the program, so a
  run that ends in `.ok` met all of them.

`LawfulRequire` is what the two readings share: a requirement that holds does
nothing. A program whose requirements hold is therefore evaluated once, for
both of them, with `fdiv_of_ne` and `fsqrt_of_nonneg`; `Computes` is the result
of such an evaluation.
-/

namespace EnergyMeter.Lib

/-- What a partial operation can violate. -/
inductive Fault
  | divisionByZero
  | negativeSqrt
  | outOfBounds
  | nullPointer
  | overflow
deriving DecidableEq, Repr

/-- Monads in which a program can require a side condition. -/
class MonadRequire (m : Type → Type) where
  require : (p : Prop) → [Decidable p] → Fault → m Unit

export MonadRequire (require)

instance : MonadRequire Id where
  require _ _ _ := pure ()

instance : MonadRequire (Except Fault) where
  require p _ e := if p then .ok () else .error e

/-- Numbers with a square root. -/
class HasSqrt (R : Type) where
  sqrt : R → R

noncomputable instance : HasSqrt ℝ := ⟨Real.sqrt⟩

@[simp] theorem hasSqrt_real (a : ℝ) : HasSqrt.sqrt a = Real.sqrt a := rfl

section Operations

variable {m : Type → Type} [Monad m] [MonadRequire m] {R : Type}

/-- A division, defined for a divisor that is not zero. -/
def fdiv [Field R] [DecidableEq R] (a b : R) : m R := do
  require (b ≠ 0) .divisionByZero
  return a / b

/-- A square root, defined for an argument that is not negative. -/
def fsqrt [Zero R] [LinearOrder R] [HasSqrt R] (a : R) : m R := do
  require (0 ≤ a) .negativeSqrt
  return HasSqrt.sqrt a

end Operations

/-! ## Requirements that hold -/

/-- A requirement that holds does nothing. -/
class LawfulRequire (m : Type → Type) [Monad m] [MonadRequire m] : Prop where
  require_of : ∀ {p : Prop} [Decidable p] {e : Fault}, p → (require p e : m Unit) = pure ()

export LawfulRequire (require_of)

instance : LawfulRequire Id := ⟨fun _ => rfl⟩

instance : LawfulRequire (Except Fault) := ⟨fun h => if_pos h⟩

section Lawful

variable {m : Type → Type} [Monad m] [LawfulMonad m] [MonadRequire m] [LawfulRequire m]
  {R : Type}

theorem fdiv_of_ne [Field R] [DecidableEq R] {a b : R} (h : b ≠ 0) :
    (fdiv a b : m R) = pure (a / b) := by
  -- the requirement is the only thing the two readings treat differently
  rw [fdiv, require_of h, pure_bind]

theorem fsqrt_of_nonneg [Zero R] [LinearOrder R] [HasSqrt R] {a : R} (h : 0 ≤ a) :
    (fsqrt a : m R) = pure (HasSqrt.sqrt a) := by
  rw [fsqrt, require_of h, pure_bind]

end Lawful

/-! ## The checked reading -/

theorem bind_eq_ok {α β : Type} {x : Except Fault α} {f : α → Except Fault β} {b : β} :
    x >>= f = .ok b ↔ ∃ a, x = .ok a ∧ f a = .ok b := by
  cases x with
  -- a program that has failed never returns
  | error e => exact ⟨nofun, nofun⟩
  | ok a =>
    refine ⟨fun h => ⟨a, rfl, h⟩, ?_⟩
    rintro ⟨_, ⟨⟩, h⟩
    exact h

/-- A checked requirement behind which the program goes on holds. -/
theorem of_require_eq_ok {p : Prop} [Decidable p] {e : Fault} {u : Unit}
    (h : (require p e : Except Fault Unit) = .ok u) : p := by
  by_contra hp
  -- a requirement that fails stops the checked program at once
  have hError : (require p e : Except Fault Unit) = .error e := if_neg hp
  rw [hError] at h
  cases h

/-- A checked division that returns had a divisor that is not zero. -/
theorem ne_zero_of_fdiv {R : Type} [Field R] [DecidableEq R] {a b c : R}
    (h : fdiv a b = (.ok c : Except Fault R)) : b ≠ 0 := by
  rw [fdiv, bind_eq_ok] at h
  obtain ⟨_, hRequire, -⟩ := h
  exact of_require_eq_ok hRequire

/-! ## Results in every reading -/

/-- `prog` meets its requirements and returns `a`, in whichever reading. -/
def Computes {α : Type} (prog : (m : Type → Type) → [Monad m] → [MonadRequire m] → m α)
    (a : α) : Prop :=
  ∀ (m : Type → Type) [Monad m] [LawfulMonad m] [MonadRequire m] [LawfulRequire m],
    prog m = pure a

namespace Computes

variable {α β : Type} {prog : (m : Type → Type) → [Monad m] → [MonadRequire m] → m α}
  {a : α}

protected theorem pure (a : α) : Computes (fun _ => pure a) a := fun _ => rfl

theorem checked (h : Computes prog a) : prog (Except Fault) = .ok a := h (Except Fault)

theorem total (h : Computes prog a) : (prog Id).run = a := h Id

theorem bind {next : (m : Type → Type) → [Monad m] → [MonadRequire m] → α → m β} {b : β}
    (h : Computes prog a) (hNext : Computes (fun m => next m a) b) :
    Computes (fun m => prog m >>= next m) b := by
  intro m _ _ _ _
  show prog m >>= next m = pure b
  rw [h m, pure_bind]
  exact hNext m

end Computes

end EnergyMeter.Lib
