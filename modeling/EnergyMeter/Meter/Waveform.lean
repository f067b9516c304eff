import EnergyMeter.Lib.Scan
import Mathlib.Order.Bounds.Defs

/-!
# EnergyMeter — differences of waveforms

`Waveform.c`: `FindZero` looks for the first falling zero crossing of a waveform, and
`WaveformDiff` uses it to bring two signatures of a load, voltage and current, to the
same phase before it subtracts them.

A waveform is what memory holds from a pointer on, with the number of its entries; a
read outside of them is an error.

* `findZero_spec` — the two loops of `FindZero`, each by where it stops.

Main results:

* `findZero_crossing_iff` — `FindZero` stays inside, and returns the first falling
  crossing exactly where no zero comes before it.
* `waveformDiff_inside_iff` — when every read of `WaveformDiff` is inside the two
  signatures.
-/

namespace EnergyMeter.Meter

open Lib

/-! ## The code -/

/-- `struct VI_Signature`. -/
structure VISignature (F : Type) where
  V_Waveform : ℤ → F
  I_Waveform : ℤ → F
  Samples : ℕ

section Code

variable {m : Type → Type} [Monad m] [MonadRequire m] {F : Type} [Zero F] [LT F] [DecidableLT F]

/-- `FindZero`, on a waveform of `size` entries. -/
def findZero (size : ℕ) (waveform : ℤ → F) (len : ℕ) : m ℕ := do
  let c1_v1 ← load size waveform 0
  let (p, k) ← if c1_v1 < 0 then do
      let (p, k) ← scan (· < 0) (load size waveform) len 0 0
      -- back to the value that ended the loop
      pure (p - 1, k - 1)
    else
      pure (0, 0)
  let (_, k) ← scan (0 < ·) (load size waveform) len p k
  return k - 1

omit [Zero F] [LT F] [DecidableLT F] [Monad m] [MonadRequire m] in
/-- Where the samples of `s` begin that are used: with `start_end`, as far before its
end as the output and the search need. -/
def tailOffset (start_end : ℤ) (s out : VISignature F) : ℤ :=
  if start_end = 1 then s.Samples - out.Samples - 512 else 0

variable [Sub F]

/-- `WaveformDiff`: the values that it prints, two lines of two, and the output
afterwards. In round `k` the pointers have moved on by `k`. -/
def waveformDiff (prior current out : VISignature F) (offset12 start_end : ℤ) :
    m (List (F × F) × VISignature F) := do
  let k1 ← findZero prior.Samples prior.V_Waveform 512
  let k2 ← findZero current.Samples current.V_Waveform 512
  -- printf: the values on both sides of the crossings
  let before1 ← load prior.Samples prior.V_Waveform (k1 - 1)
  let before2 ← load current.Samples current.V_Waveform (k2 - 1)
  let zero1 ← load prior.Samples prior.V_Waveform k1
  let zero2 ← load current.Samples current.V_Waveform k2
  let i1 := tailOffset start_end prior out + k1
  let i2 := tailOffset start_end current out + k2
  let (src, v) := if offset12 = 2 then (current, k2 + tailOffset start_end current out)
    else (prior, k1 + tailOffset start_end prior out)
  let (out_i, out_v) ← (List.range out.Samples).foldlM (fun (out_i, out_v) (k : ℕ) => do
    let c2 ← load current.Samples current.I_Waveform (i2 + k)
    let c1 ← load prior.Samples prior.I_Waveform (i1 + k)
    let c ← load src.Samples src.V_Waveform (v + k)
    return (Function.update out_i k (c2 - c1), Function.update out_v k c))
    (out.I_Waveform, out.V_Waveform)
  return ([(before1, before2), (zero1, zero2)],
    { out with I_Waveform := out_i, V_Waveform := out_v })

end Code

/-! ## `FindZero` -/

section FindZero

variable {F : Type} [Zero F] [LT F] {w : ℤ → F} {len size r : ℕ}

/-- The first loop stops at `j`, behind the negative values, and the second one at
`r`, behind the positive values from there on. -/
structure Found (w : ℤ → F) (len j r : ℕ) : Prop where
  skip : Stops (· < 0) w len 0 j
  stop : Stops (0 < ·) w len j r

theorem findZero_spec [DecidableLT F] (hLen : 1 ≤ len) (hSize : len ≤ size) :
    ∃ j r, Found w len j r ∧ Computes (fun m => findZero (m := m) size w len) r := by
  have hRead : 0 ≤ (0 : ℤ) ∧ (0 : ℤ) < size := by omega
  -- the second loop starts where the first one has stopped
  by_cases hNeg : w 0 < 0
  · obtain ⟨j, hSkip, hFirst⟩ := @scan_spec F (· < 0) w len size 0 _ hLen hSize
    obtain ⟨r, hStop, hSecond⟩ := @scan_spec F (0 < ·) w len size j _ hSkip.lt_len hSize
    refine ⟨j, r, ⟨hSkip, hStop⟩, ?_⟩
    intro m _ _ _ _
    have hFirst' : scan (· < 0) (load size w) len 0 0 = (pure (j + 1, j + 1) : m (ℤ × ℕ)) :=
      hFirst m
    have hSecond' : scan (0 < ·) (load size w) len j j = (pure (r + 1, r + 1) : m (ℤ × ℕ)) :=
      hSecond m
    dsimp only
    rw [findZero, load_of hRead, pure_bind, if_pos hNeg, hFirst', pure_bind]
    dsimp only
    rw [pure_bind]
    dsimp only
    rw [add_sub_cancel_right, Nat.add_sub_cancel, hSecond', pure_bind, Nat.add_sub_cancel]
  -- the first loop is left out, as if it had stopped at the first value
  · have hSkip : Stops (· < 0) w len 0 0 :=
      ⟨le_rfl, hLen, fun q _ hq => by omega, fun h => absurd h hNeg⟩
    obtain ⟨r, hStop, hSecond⟩ := @scan_spec F (0 < ·) w len size 0 _ hLen hSize
    refine ⟨0, r, ⟨hSkip, hStop⟩, ?_⟩
    intro m _ _ _ _
    have hSecond' : scan (0 < ·) (load size w) len 0 0 = (pure (r + 1, r + 1) : m (ℤ × ℕ)) :=
      hSecond m
    dsimp only
    rw [findZero, load_of hRead, pure_bind, if_neg hNeg, pure_bind]
    dsimp only
    rw [hSecond', pure_bind, Nat.add_sub_cancel]

/-- The search moves on exactly where the first value has a sign. -/
theorem Found.pos_iff {j : ℕ} (h : Found w len j r) (hLen : 2 ≤ len) :
    1 ≤ r ↔ w 0 < 0 ∨ 0 < w 0 := by
  have hMove := h.stop.start_le
  constructor
  · intro hPos
    rcases Nat.eq_zero_or_pos j with rfl | hj
    · exact Or.inr (h.stop.before 0 le_rfl hPos)
    · exact Or.inl (h.skip.before 0 le_rfl hj)
  · intro hSign
    by_contra hZero
    obtain rfl : r = 0 := by omega
    obtain rfl : j = 0 := by omega
    -- a loop that stops at a value with its sign has come to the end
    have hEnd : 0 + 1 = len := hSign.elim h.skip.last h.stop.last
    omega

end FindZero

/-! ## Falling crossings -/

section Crossing

variable {R : Type} [Zero R] [LinearOrder R] {w : ℤ → WithNaN R} {len j r : ℕ}

/-- `q` is a falling zero crossing of the first `len` values. -/
def Crossing (w : ℤ → WithNaN R) (len q : ℕ) : Prop :=
  1 ≤ q ∧ q < len ∧ 0 < w (q - 1) ∧ w q ≤ 0

/-- The result is the first falling crossing, if there is one. -/
def FindsCrossing (w : ℤ → WithNaN R) (len r : ℕ) : Prop :=
  (∃ q, Crossing w len q) → IsLeast {q | Crossing w len q} r

/-- No value before the first falling crossing is zero or no number. -/
def SignedBefore (w : ℤ → WithNaN R) (len : ℕ) : Prop :=
  ∀ q, IsLeast {q | Crossing w len q} q → ∀ p : ℕ, p < q → w p ≠ 0 ∧ w p ≠ .nan

/-- Both loops have passed the values before the result. -/
theorem Found.signed (h : Found w len j r) {p : ℕ} (hp : p < r) : w p < 0 ∨ 0 < w p := by
  rcases Nat.lt_or_ge p j with hlt | hge
  · exact Or.inl (h.skip.before p (Nat.zero_le p) hlt)
  · exact Or.inr (h.stop.before p hge hp)

/-- Where all values before the first falling crossing `q` have a sign, the search
ends there. -/
theorem Found.eq_of_signed {q : ℕ} (h : Found w len j r) (hq : IsLeast {q | Crossing w len q} q)
    (hSigned : ∀ p : ℕ, p < q → w p < 0 ∨ 0 < w p) : r = q := by
  obtain ⟨⟨hOne, hLen, hBefore, hAt⟩, hLeast⟩ := hq
  obtain ⟨n, rfl⟩ := Nat.exists_eq_add_of_le' hOne
  rw [Nat.cast_succ, add_sub_cancel_right] at hBefore
  have hMove := h.stop.start_le
  -- the first loop stops before the crossing, at a positive value
  have hj : j ≤ n := by
    by_contra hPast
    exact WithNaN.not_neg_of_pos hBefore (h.skip.before n (Nat.zero_le n) (not_le.mp hPast))
  have hPositive : 0 < w j := by
    refine (hSigned j (by omega)).resolve_left fun hNeg => ?_
    have hEnd := h.skip.last hNeg
    omega
  rcases Nat.lt_trichotomy r (n + 1) with hlt | hEq | hgt
  · -- a stop before it is at a negative value, and so a crossing
    exfalso
    rcases hSigned r hlt with hNeg | hPos
    · have hne : j ≠ r := fun hEq => WithNaN.not_neg_of_pos hPositive (hEq ▸ hNeg)
      have hPrev := h.stop.before (r - 1) (by omega) (by omega)
      rw [Nat.cast_sub (by omega), Nat.cast_one] at hPrev
      have hEarly := hLeast ⟨by omega, by omega, hPrev, WithNaN.le_zero_of_neg hNeg⟩
      omega
    · have hEnd := h.stop.last hPos
      omega
  · exact hEq
  · exact absurd hAt (WithNaN.not_le_zero_of_pos (h.stop.before (n + 1) (by omega) hgt))

theorem Found.findsCrossing_iff (h : Found w len j r) :
    FindsCrossing w len r ↔ SignedBefore w len := by
  constructor
  · intro hFinds q hq p hp
    obtain rfl : r = q := (hFinds ⟨q, hq.1⟩).unique hq
    exact WithNaN.neg_or_pos_iff.mp (h.signed hp)
  · intro hSigned hSome
    -- a waveform with a crossing has a first one
    classical
    have hLeast := Nat.isLeast_find hSome
    have hResult := h.eq_of_signed hLeast fun p hp =>
      WithNaN.neg_or_pos_iff.mpr (hSigned _ hLeast p hp)
    rw [hResult]
    exact hLeast

/-- **What `FindZero` finds.** It reads the waveform only and returns an index of it;
and it returns the first falling zero crossing, where there is one, if and only if no
value before that is zero or no number. -/
theorem findZero_crossing_iff (waveform : ℤ → WithNaN R) {len : ℕ} (hLen : 1 ≤ len) :
    ∃ r < len, findZero (m := Except Fault) len waveform len = .ok r ∧
      (FindsCrossing waveform len r ↔ SignedBefore waveform len) := by
  obtain ⟨j, r, hFound, hRun⟩ := findZero_spec (w := waveform) hLen le_rfl
  exact ⟨r, hFound.stop.lt_len, hRun.checked, hFound.findsCrossing_iff⟩

end Crossing

/-- A single positive value between two negative ones. -/
theorem findZero_crossing_iff_peak :
    let waveform : ℤ → WithNaN ℤ := fun p => .number (if p = 1 then 1 else -1)
    ∃ r < 3, findZero (m := Except Fault) 3 waveform 3 = .ok r ∧
      IsLeast {q | Crossing waveform 3 q} r := by
  intro waveform
  obtain ⟨r, hr, hRun, hIff⟩ := findZero_crossing_iff waveform (show 1 ≤ 3 by decide)
  have hSigned : SignedBefore waveform 3 := by
    intro q _ p _
    refine ⟨fun hZero => ?_, nofun⟩
    have hValue : (if (p : ℤ) = 1 then (1 : ℤ) else -1) = 0 := WithNaN.number.inj hZero
    split at hValue <;> cases hValue
  have hFalling : Crossing waveform 3 2 :=
    ⟨by decide, by decide, show (0 : ℤ) < 1 by decide, show (-1 : ℤ) ≤ 0 by decide⟩
  exact ⟨r, hr, hRun, hIff.mpr hSigned ⟨2, hFalling⟩⟩

/-- **A rising zero is taken for a falling one.** The waveform begins with a zero and
falls through zero at 2. -/
theorem findZero_rising :
    let waveform : ℤ → WithNaN ℤ := fun p => .number (if p = 0 then 0 else if p = 1 then 1 else -1)
    findZero (m := Except Fault) 3 waveform 3 = .ok 0 ∧ Crossing waveform 3 2 ∧
      ¬FindsCrossing waveform 3 0 := by
  intro waveform
  obtain ⟨_, r, hFound, hRun⟩ :=
    findZero_spec (w := waveform) (show 1 ≤ 3 by decide) (le_refl 3)
  have hFalling : Crossing waveform 3 2 :=
    ⟨by decide, by decide, show (0 : ℤ) < 1 by decide, show (-1 : ℤ) ≤ 0 by decide⟩
  -- the search does not leave the first value, which is zero
  have hSign : ¬(waveform 0 < 0 ∨ 0 < waveform 0) :=
    not_or.mpr ⟨lt_irrefl (0 : ℤ), lt_irrefl (0 : ℤ)⟩
  obtain rfl : r = 0 := by
    have hPos := mt (hFound.pos_iff (by decide)).mp hSign
    omega
  refine ⟨hRun.checked, hFalling, fun hFinds => ?_⟩
  exact absurd (hFinds ⟨2, hFalling⟩).1.1 (by decide)

/-! ## `WaveformDiff` -/

section Diff

variable {F : Type} [Sub F]

/-- The output of `WaveformDiff` for the results `k1` and `k2` of the two searches. -/
def diffAt (prior current out : VISignature F) (offset12 start_end : ℤ) (k1 k2 : ℕ) :
    VISignature F where
  I_Waveform := written out.Samples (fun p =>
    current.I_Waveform (tailOffset start_end current out + k2 + p) -
      prior.I_Waveform (tailOffset start_end prior out + k1 + p)) out.I_Waveform
  V_Waveform := written out.Samples (fun p =>
    if offset12 = 2 then current.V_Waveform (k2 + tailOffset start_end current out + p)
    else prior.V_Waveform (k1 + tailOffset start_end prior out + p)) out.V_Waveform
  Samples := out.Samples

variable {prior current out : VISignature F} {offset12 start_end : ℤ} {k1 k2 : ℕ}

omit [Sub F] in
/-- The margin of 512 samples takes up the index of the crossing. -/
theorem tailOffset_inside (start_end : ℤ) {s : VISignature F}
    (hSamples : out.Samples + 512 ≤ s.Samples) {k : ℕ} (hk : k < 512) {q : ℕ} (hq : q < out.Samples) :
    0 ≤ tailOffset start_end s out + k + q ∧ tailOffset start_end s out + k + q < s.Samples := by
  unfold tailOffset
  split <;> omega

/-- The loop, with its pointers inside. -/
theorem diffLoop_spec {m : Type → Type} [Monad m] [LawfulMonad m] [MonadRequire m]
    [LawfulRequire m] {src : VISignature F} {n : ℕ} {i1 i2 v : ℤ}
    (h1 : ∀ q < n, 0 ≤ i1 + (q : ℕ) ∧ i1 + (q : ℕ) < prior.Samples)
    (h2 : ∀ q < n, 0 ≤ i2 + (q : ℕ) ∧ i2 + (q : ℕ) < current.Samples)
    (hv : ∀ q < n, 0 ≤ v + (q : ℕ) ∧ v + (q : ℕ) < src.Samples) (x y : ℤ → F) :
    (List.range n).foldlM (fun (x : (ℤ → F) × (ℤ → F)) (k : ℕ) => do
      let c2 ← load current.Samples current.I_Waveform (i2 + k)
      let c1 ← load prior.Samples prior.I_Waveform (i1 + k)
      let c ← load src.Samples src.V_Waveform (v + k)
      return (Function.update x.1 (k : ℤ) (c2 - c1), Function.update x.2 (k : ℤ) c)) (x, y) =
    (pure (written n (fun p => current.I_Waveform (i2 + p) - prior.I_Waveform (i1 + p)) x,
      written n (fun p => src.V_Waveform (v + p)) y) : m ((ℤ → F) × (ℤ → F))) := by
  refine foldlM_range_written (fun k hk x y => ?_) x y
  rw [load_of (h2 k hk), pure_bind, load_of (h1 k hk), pure_bind, load_of (hv k hk), pure_bind]

variable [Zero F] [LT F] [DecidableLT F]

omit [Sub F] in
/-- The search in a signature, and when it goes beyond the first value. -/
theorem search_spec {s : VISignature F} (hSamples : 512 ≤ s.Samples) :
    ∃ k < 512, (1 ≤ k ↔ s.V_Waveform 0 < 0 ∨ 0 < s.V_Waveform 0) ∧
      Computes (fun m => findZero (m := m) s.Samples s.V_Waveform 512) k := by
  obtain ⟨_, k, hFound, hRun⟩ := findZero_spec (w := s.V_Waveform) (Nat.one_le_ofNat) hSamples
  exact ⟨k, hFound.stop.lt_len, hFound.pos_iff (by decide), hRun⟩

/-- Behind a value before each crossing every read is inside. -/
theorem waveformDiff_spec (offset12 start_end : ℤ) (hPrior : out.Samples + 512 ≤ prior.Samples)
    (hCurrent : out.Samples + 512 ≤ current.Samples)
    (hFind1 : Computes (fun m => findZero (m := m) prior.Samples prior.V_Waveform 512) k1)
    (hFind2 : Computes (fun m => findZero (m := m) current.Samples current.V_Waveform 512) k2)
    (h1 : 1 ≤ k1 ∧ k1 < 512) (h2 : 1 ≤ k2 ∧ k2 < 512) :
    Computes (fun m => waveformDiff (m := m) prior current out offset12 start_end)
      ([(prior.V_Waveform (k1 - 1), current.V_Waveform (k2 - 1)),
        (prior.V_Waveform k1, current.V_Waveform k2)],
        diffAt prior current out offset12 start_end k1 k2) := by
  intro m _ _ _ _
  have hFind1' : findZero prior.Samples prior.V_Waveform 512 = (pure k1 : m ℕ) := hFind1 m
  have hFind2' : findZero current.Samples current.V_Waveform 512 = (pure k2 : m ℕ) := hFind2 m
  have hInside1 : ∀ q < out.Samples, _ := fun q => tailOffset_inside start_end hPrior h1.2
  have hInside2 : ∀ q < out.Samples, _ := fun q => tailOffset_inside start_end hCurrent h2.2
  dsimp only
  rw [waveformDiff, hFind1', pure_bind, hFind2', pure_bind, load_of (by omega), pure_bind,
    load_of (by omega), pure_bind, load_of (by omega), pure_bind, load_of (by omega), pure_bind]
  dsimp only
  unfold diffAt
  by_cases hOffset : offset12 = 2
  -- the voltage comes from the signature that `offset12` selects
  · have hVoltage : ∀ q < out.Samples, 0 ≤ k2 + tailOffset start_end current out + (q : ℕ) ∧
        k2 + tailOffset start_end current out + (q : ℕ) < current.Samples := by
      rwa [Int.add_comm]
    simp only [if_pos hOffset]
    rw [diffLoop_spec hInside1 hInside2 hVoltage, pure_bind]
  · have hVoltage : ∀ q < out.Samples, 0 ≤ k1 + tailOffset start_end prior out + (q : ℕ) ∧
        k1 + tailOffset start_end prior out + (q : ℕ) < prior.Samples := by
      rwa [Int.add_comm]
    simp only [if_neg hOffset]
    rw [diffLoop_spec hInside1 hInside2 hVoltage, pure_bind]

/-- A search that ends at the first value reads the one before it. -/
theorem waveformDiff_pos {res : List (F × F) × VISignature F}
    (hFind1 : Computes (fun m => findZero (m := m) prior.Samples prior.V_Waveform 512) k1)
    (hFind2 : Computes (fun m => findZero (m := m) current.Samples current.V_Waveform 512) k2)
    (h : waveformDiff (m := Except Fault) prior current out offset12 start_end = .ok res) :
    1 ≤ k1 ∧ 1 ≤ k2 := by
  rw [waveformDiff, hFind1.checked, bind_eq_ok] at h
  obtain ⟨_, ⟨⟩, h⟩ := h
  rw [hFind2.checked, bind_eq_ok] at h
  obtain ⟨_, ⟨⟩, h⟩ := h
  rw [bind_eq_ok] at h
  obtain ⟨_, hBefore1, h⟩ := h
  rw [bind_eq_ok] at h
  obtain ⟨_, hBefore2, -⟩ := h
  -- the values before the crossings have been read
  have hInside1 := inside_of_load hBefore1
  have hInside2 := inside_of_load hBefore2
  omega

/-- **When `WaveformDiff` stays inside its signatures.** Every element that it reads is
inside, and it writes exactly the samples of the output, if and only if both voltages
begin with a positive or a negative value: else the value before the crossing that it
prints is the one before the array. -/
theorem waveformDiff_inside_iff (hPrior : out.Samples + 512 ≤ prior.Samples)
    (hCurrent : out.Samples + 512 ≤ current.Samples) (offset12 start_end : ℤ) :
    (∃ k1 < 512, ∃ k2 < 512, ∃ printed,
      waveformDiff (m := Except Fault) prior current out offset12 start_end =
        .ok (printed, diffAt prior current out offset12 start_end k1 k2)) ↔
      (prior.V_Waveform 0 < 0 ∨ 0 < prior.V_Waveform 0) ∧
        (current.V_Waveform 0 < 0 ∨ 0 < current.V_Waveform 0) := by
  obtain ⟨k1, hk1, hSign1, hFind1⟩ := search_spec (s := prior) (by omega)
  obtain ⟨k2, hk2, hSign2, hFind2⟩ := search_spec (s := current) (by omega)
  rw [← hSign1, ← hSign2]
  constructor
  · rintro ⟨_, -, _, -, printed, hRun⟩
    exact waveformDiff_pos hFind1 hFind2 hRun
  · -- both crossings have a value before them
    rintro ⟨h1, h2⟩
    have hRun := waveformDiff_spec offset12 start_end hPrior hCurrent hFind1 hFind2
      ⟨h1, hk1⟩ ⟨h2, hk2⟩
    exact ⟨k1, hk1, k2, hk2, _, hRun.checked⟩

end Diff

/-- Signatures of `Samples` values, with a voltage that does not change. -/
def flat (voltage : ℤ) (Samples : ℕ) : VISignature ℤ := ⟨fun _ => voltage, fun p => p, Samples⟩

/-- A positive voltage: one sample of output. -/
theorem waveformDiff_inside_iff_flat : ∃ k1 < 512, ∃ k2 < 512, ∃ printed,
    waveformDiff (m := Except Fault) (flat 1 513) (flat 1 513) (flat 0 1) 2 1 =
      .ok (printed, diffAt (flat 1 513) (flat 1 513) (flat 0 1) 2 1 k1 k2) :=
  (waveformDiff_inside_iff (by decide) (by decide) 2 1).mpr
    ⟨Or.inr (by decide), Or.inr (by decide)⟩

/-- **A read before the array.** Where the voltage begins with zero, the value before
the crossing is printed from the index `-1`. -/
theorem waveformDiff_outside :
    waveformDiff (m := Except Fault) (flat 0 513) (flat 1 513) (flat 0 1) 2 1 =
      .error .outOfBounds := by
  obtain ⟨k1, -, hSign1, hFind1⟩ := search_spec (s := flat 0 513) (by decide)
  obtain ⟨k2, -, -, hFind2⟩ := search_spec (s := flat 1 513) (by decide)
  have hFind1' : findZero (flat 0 513).Samples (flat 0 513).V_Waveform 512 = Except.ok k1 :=
    hFind1.checked
  have hFind2' : findZero (flat 1 513).Samples (flat 1 513).V_Waveform 512 = Except.ok k2 :=
    hFind2.checked
  obtain rfl : k1 = 0 := by
    have hPos := mt hSign1.mp (by decide)
    omega
  -- the read at `-1` stops the program
  rw [waveformDiff, hFind1', hFind2']
  rfl

end EnergyMeter.Meter
