import EnergyMeter.Lib.Heap
import EnergyMeter.Lib.Ring

/-!
# EnergyMeter — the moving-average filter

`MAF.c`: every power figure of the meter is a mean over the last `Length`
samples, kept as a running accumulator over a ring of samples. The ring is read
and written through the filter's pointer, by value or in a memory, as the monad
says; `double` is an exact number.

The invariant `Tracks` says what a filter is after `t` inputs: its ring holds
the window, its head is `t` modulo the length and its accumulator is the sum
of the window. `Tracks.update` is the one step, and the threshold that an
update applies to the mean appears in neither.

Main results:

* `movingAverageFilter_window` — the filter over whole runs.
* `Tracks.update_eq` — on a filter that tracks a stream the update reads and
  writes inside the ring and divides by a length that is not zero.
-/

namespace EnergyMeter.Cpt

open Lib

/-- `struct tBuffer`. `Block` names the allocation that the pointer `Data`
points to, so that two filters share a ring exactly when they share it; `Data`
are its entries by value, which a program on a memory never reads. -/
structure TBuffer (R : Type) where
  Block : ℕ
  Data : ℕ → R
  Length : ℕ
deriving Inhabited

/-- `struct tMAF`. -/
structure TMAF (R : Type) where
  MeanValue : R
  Accumulator : R
  Head : ℕ
  Threshold_Enabled : ℤ
  Threshold_Value : R
  Min : R
  Buffer : TBuffer R
deriving Inhabited

section Code

variable {m : Type → Type} [Monad m] [MonadRequire m] {R : Type} [MonadArray m R]

/-- `Data[i]`, read. -/
def TBuffer.load (buffer : TBuffer R) (i : ℕ) : m R := do
  require (i < buffer.Length) .outOfBounds
  MonadArray.read buffer.Block buffer.Data i

/-- `Data[i] = v`. -/
def TBuffer.store (buffer : TBuffer R) (i : ℕ) (v : R) : m (TBuffer R) := do
  require (i < buffer.Length) .outOfBounds
  let Data ← MonadArray.write buffer.Block buffer.Data i v
  return { buffer with Data }

/-- `MovingAverageFilter_Init`, which assigns every field of the filter. -/
def movingAverageFilterInit [Zero R] (buffer : TBuffer R) (threshold : ℤ) (cmp min : R) :
    TMAF R where
  Buffer :=
    { buffer with
      Data := (List.range buffer.Length).foldl (fun Data i => Function.update Data i 0)
        buffer.Data }
  Accumulator := 0
  MeanValue := 0
  Head := 0
  Threshold_Enabled := threshold
  Threshold_Value := cmp
  Min := min

variable [Field R] [LinearOrder R]

/-- `MovingAverageFilter_Update`: the filter afterwards and the value returned. -/
def movingAverageFilterUpdate (me : TMAF R) (inputData : R) : m (TMAF R × R) := do
  let head := me.Head
  -- the entry at the head is the oldest input, or a cleared entry
  let lastValue ← me.Buffer.load head
  let Accumulator := me.Accumulator - lastValue
  let Accumulator := Accumulator + inputData
  let Buffer ← me.Buffer.store head inputData
  let head := head + 1
  let head := if head ≥ Buffer.Length then 0 else head
  -- the accumulator itself is never replaced by the threshold
  let MeanValue ← fdiv Accumulator (Buffer.Length : R)
  let MeanValue :=
    if me.Threshold_Enabled = 1 then
      if MeanValue ≤ me.Threshold_Value then me.Min else MeanValue
    else MeanValue
  return ({ me with MeanValue, Accumulator, Head := head, Buffer }, MeanValue)

/-- The filter after the first `t` inputs of a stream. -/
def movingAverageFilterRun (me : TMAF R) (x : ℕ → R) : ℕ → m (TMAF R)
  | 0 => return me
  | t + 1 => do
    let me ← movingAverageFilterRun me x t
    let r ← movingAverageFilterUpdate me (x t)
    return r.1

end Code

/-! ## The total reading -/

section Total

variable {R : Type} [Field R] [LinearOrder R]

/-- A filter after one more input. -/
def TMAF.update (me : TMAF R) (inputData : R) : TMAF R :=
  (movingAverageFilterUpdate (m := Id) me inputData).run.1

/-- The value the code returns is the one it stores. -/
theorem movingAverageFilterUpdate_id (me : TMAF R) (inputData : R) :
    (movingAverageFilterUpdate me inputData : Id (TMAF R × R)) =
      pure (me.update inputData, (me.update inputData).MeanValue) := rfl

/-- A mean with the threshold of a filter applied. -/
def threshold (enabled : ℤ) (cmp min mean : R) : R :=
  if enabled = 1 then if mean ≤ cmp then min else mean else mean

theorem TMAF.update_MeanValue (me : TMAF R) (inputData : R) :
    (me.update inputData).MeanValue =
      threshold me.Threshold_Enabled me.Threshold_Value me.Min
        ((me.update inputData).Accumulator / (me.Buffer.Length : R)) := rfl

theorem TMAF.update_Buffer (me : TMAF R) (inputData : R) :
    (me.update inputData).Buffer =
      { me.Buffer with Data := Function.update me.Buffer.Data me.Head inputData } := rfl

theorem TMAF.update_Head (me : TMAF R) (inputData : R) :
    (me.update inputData).Head =
      if me.Buffer.Length ≤ me.Head + 1 then 0 else me.Head + 1 := rfl

theorem TMAF.update_Accumulator (me : TMAF R) (inputData : R) :
    (me.update inputData).Accumulator =
      me.Accumulator - me.Buffer.Data me.Head + inputData := rfl

end Total

/-! ## The filter tracks a stream -/

section Tracks

variable {R : Type} [Field R] [LinearOrder R]

/-- `me` is the filter of length `L` and the given threshold after the first
`t` items of `x`. -/
structure Tracks (L : ℕ) (enabled : ℤ) (cmp min : R) (x : ℕ → R) (t : ℕ) (me : TMAF R) :
    Prop where
  length : me.Buffer.Length = L
  head : me.Head = t % L
  ring : RingHolds L x t me.Buffer.Data
  fresh : ∀ p, t ≤ p → p < L → me.Buffer.Data p = 0
  acc : me.Accumulator = winSum L x t
  enabled_eq : me.Threshold_Enabled = enabled
  cmp_eq : me.Threshold_Value = cmp
  min_eq : me.Min = min

variable {L t : ℕ} {enabled : ℤ} {cmp min : R} {x : ℕ → R} {me : TMAF R}

omit [Field R] [LinearOrder R] in
/-- The loop of `MovingAverageFilter_Init` clears exactly the owned entries. -/
theorem foldl_clear [Zero R] (n : ℕ) (Data : ℕ → R) (i : ℕ) :
    (List.range n).foldl (fun Data i => Function.update Data i 0) Data i =
      if i < n then 0 else Data i := by
  induction n with
  | zero => simp
  | succ n ih =>
    rw [List.range_succ, List.foldl_append, List.foldl_cons, List.foldl_nil]
    -- the last round writes entry `n`, the rounds before it the entries below
    by_cases hi : i = n
    · subst hi
      simp
    · rw [Function.update_of_ne hi, ih]
      split <;> split <;> first | rfl | omega

omit [LinearOrder R] in
theorem tracks_init {buffer : TBuffer R} (hLen : buffer.Length = L) :
    Tracks L enabled cmp min x 0 (movingAverageFilterInit buffer enabled cmp min) where
  length := hLen
  head := (Nat.zero_mod L).symm
  ring := ringHolds_zero
  fresh p _ hp := by
    show (List.range buffer.Length).foldl _ buffer.Data p = 0
    rw [foldl_clear, if_pos (by omega)]
  acc := winSum_zero.symm
  enabled_eq := rfl
  cmp_eq := rfl
  min_eq := rfl

omit [LinearOrder R] in
/-- What the next update overwrites: the oldest item of a full window, and a
cleared entry before that. -/
theorem Tracks.overwritten (h : Tracks L enabled cmp min x t me) (hL : 1 ≤ L) :
    me.Buffer.Data me.Head = if L ≤ t then x (t - L) else 0 := by
  rw [h.head]
  split
  -- full window
  · rename_i ht
    exact h.ring.oldest hL ht
  -- during warm-up the head has not wrapped, so the entry is still cleared
  · rw [Nat.mod_eq_of_lt (by omega)]
    exact h.fresh t le_rfl (by omega)

/-- **One step of the filter.** -/
theorem Tracks.update (h : Tracks L enabled cmp min x t me) (hL : 1 ≤ L) :
    Tracks L enabled cmp min x (t + 1) (me.update (x t)) where
  length := h.length
  head := by
    rw [TMAF.update_Head, h.length, h.head, mod_succ_wrap hL]
  ring := by
    rw [TMAF.update_Buffer, h.head]
    exact h.ring.push
  fresh p hp hpL := by
    -- an entry not reached yet is not the one written
    have hne : p ≠ me.Head := by
      rw [h.head, Nat.mod_eq_of_lt (by omega)]
      omega
    rw [TMAF.update_Buffer]
    exact (Function.update_of_ne hne _ _).trans (h.fresh p (by omega) hpL)
  acc := by
    rw [TMAF.update_Accumulator, h.overwritten hL, h.acc, winSum_succ hL]
  enabled_eq := h.enabled_eq
  cmp_eq := h.cmp_eq
  min_eq := h.min_eq

/-- The mean an update stores, by the window it has just completed. -/
theorem Tracks.update_MeanValue (h : Tracks L enabled cmp min x t me) (hL : 1 ≤ L) :
    (me.update (x t)).MeanValue = threshold enabled cmp min (winMean L x (t + 1)) := by
  rw [TMAF.update_MeanValue, (h.update hL).acc, h.length, h.enabled_eq, h.cmp_eq, h.min_eq,
    winMean]

/-- On a filter that tracks a stream the requirements of an update hold. -/
theorem Tracks.update_eq {m : Type → Type} [Monad m] [LawfulMonad m] [MonadRequire m]
    [LawfulRequire m] [CharZero R] (h : Tracks L enabled cmp min x t me) (hL : 1 ≤ L) (v : R) :
    (movingAverageFilterUpdate me v : m (TMAF R × R)) =
      pure (me.update v, (me.update v).MeanValue) := by
  -- the head stays inside the ring
  have hHead : me.Head < me.Buffer.Length := by
    rw [h.head, h.length]
    exact Nat.mod_lt t hL
  -- and the divisor is the length
  have hLen : (me.Buffer.Length : R) ≠ 0 := by
    rw [h.length]
    exact Nat.cast_ne_zero.mpr (by omega)
  simp only [movingAverageFilterUpdate, TBuffer.load, TBuffer.store, require_of hHead,
    fdiv_of_ne hLen, read_byValue, write_byValue, pure_bind]
  rfl

/-- **The filter over whole runs.** -/
theorem Tracks.run {init : TMAF R} (h : Tracks L enabled cmp min x 0 init) (hL : 1 ≤ L)
    (t : ℕ) :
    Tracks L enabled cmp min x t (movingAverageFilterRun (m := Id) init x t).run := by
  induction t with
  | zero => exact h
  | succ t ih => exact ih.update hL

end Tracks

/-- **The moving-average filter over whole runs.** After `t` inputs the head is
`t` modulo the length, the ring holds the last `L` inputs at their positions
and zero where none has arrived, and the accumulator is the sum of the last
`min t L` inputs; the value that the update number `t = k + 1` returns is the
stored mean, with the threshold applied to nothing else. -/
theorem movingAverageFilter_window {L : ℕ} (hL : 1 ≤ L) (buffer : TBuffer ℝ)
    (hLen : buffer.Length = L) (enabled : ℤ) (cmp min : ℝ) (x : ℕ → ℝ) (t : ℕ) :
    let run := fun t => (movingAverageFilterRun (m := Id)
      (movingAverageFilterInit buffer enabled cmp min) x t).run
    (run t).Head = t % L ∧
    (∀ s, s < t → t ≤ s + L → (run t).Buffer.Data (s % L) = x s) ∧
    (∀ p, t ≤ p → p < L → (run t).Buffer.Data p = 0) ∧
    (run t).Accumulator = ∑ k ∈ Finset.range (Min.min t L), x (t - 1 - k) ∧
    (∀ k, t = k + 1 →
      (movingAverageFilterUpdate (m := Id) (run k) (x k)).run.2 = (run t).MeanValue ∧
      (run t).MeanValue =
        if enabled = 1 ∧ (run t).Accumulator / L ≤ cmp then min
        else (run t).Accumulator / L) := by
  intro run
  -- the first four parts are fields of `Tracks`
  have hInit : Tracks L enabled cmp min x 0 (movingAverageFilterInit buffer enabled cmp min) :=
    tracks_init hLen
  have h := hInit.run hL
  refine ⟨(h t).head, (h t).ring, (h t).fresh, ?_, ?_⟩
  · rw [← winSum_eq_sum_range]
    exact (h t).acc
  -- the value returned is the stored mean: the threshold over the completed window
  · rintro k rfl
    refine ⟨rfl, ?_⟩
    have hMean : (run (k + 1)).MeanValue = threshold enabled cmp min (winMean L x (k + 1)) :=
      (h k).update_MeanValue hL
    have hAcc : (run (k + 1)).Accumulator / L = winMean L x (k + 1) := by
      rw [winMean, ← (h (k + 1)).acc]
    rw [hMean, hAcc, threshold]
    split_ifs <;> simp_all

/-- Three inputs into a filter of two entries leave the sum of the last two. -/
theorem movingAverageFilter_window_two :
    ((movingAverageFilterRun (m := Id)
      (movingAverageFilterInit ⟨0, fun _ => 7, 2⟩ 1 0 (1 / 10000))
      (fun s => (s : ℝ)) 3).run).Accumulator = 2 + 1 := by
  have h := movingAverageFilter_window (L := 2) (by decide) ⟨0, fun _ => 7, 2⟩ rfl 1 0
    (1 / 10000) (fun s => (s : ℝ)) 3
  rw [h.2.2.2.1]
  norm_num [Finset.sum_range_succ]

end EnergyMeter.Cpt
