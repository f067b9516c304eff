import EnergyMeter.Lib.Partial

/-!
# Scans of an array

* `WithNaN` — numbers and a value that is none: a comparison with it is false. This
  is what a program that only compares sees of floating point.
* `load` — a read of an array, checked against its size.
* `scan` — the loop `do { c = *p++; k++; } while (test c && k < len)`.
* `Stops` — where such a loop stops; `scan_spec` says that it reads no other entry.
* `written` — an array whose first entries a loop has overwritten.
-/

namespace EnergyMeter.Lib

/-! ## Values that may be no number -/

inductive WithNaN (R : Type)
  | nan
  | number (x : R)

namespace WithNaN

variable {R : Type}

instance [Zero R] : Zero (WithNaN R) := ⟨number 0⟩

/-- A comparison with a value that is no number is false. -/
protected def Holds (rel : R → R → Prop) : WithNaN R → WithNaN R → Prop
  | number x, number y => rel x y
  | _, _ => False

instance [LT R] : LT (WithNaN R) := ⟨WithNaN.Holds (· < ·)⟩

instance [LE R] : LE (WithNaN R) := ⟨WithNaN.Holds (· ≤ ·)⟩

instance [LT R] [DecidableLT R] : DecidableLT (WithNaN R)
  | number x, number y => inferInstanceAs (Decidable (x < y))
  | nan, _ => isFalse id
  | number _, nan => isFalse id

/-- A difference with a value that is no number is none. -/
instance [Sub R] : Sub (WithNaN R) where
  sub
    | number x, number y => number (x - y)
    | _, _ => nan

section Sign

variable [Zero R] [LinearOrder R] {x : WithNaN R}

theorem le_zero_of_neg (h : x < 0) : x ≤ 0 := by
  cases x with
  | nan => exact h
  | number x => exact le_of_lt (α := R) h

theorem not_le_zero_of_pos (h : 0 < x) : ¬x ≤ 0 := by
  cases x with
  | nan => exact id
  | number x => exact not_le_of_gt (α := R) h

theorem not_neg_of_pos (h : 0 < x) : ¬x < 0 := by
  intro hNeg
  exact not_le_zero_of_pos h (le_zero_of_neg hNeg)

/-- What is neither negative nor positive is zero or no number. -/
theorem neg_or_pos_iff : x < 0 ∨ 0 < x ↔ x ≠ 0 ∧ x ≠ nan := by
  cases x with
  | nan => exact ⟨fun h => h.elim False.elim False.elim, fun h => absurd rfl h.2⟩
  | number x =>
    have hSign : x < 0 ∨ 0 < x ↔ x ≠ 0 := lt_or_lt_iff_ne
    refine hSign.trans ⟨fun h => ⟨fun hEq => h (number.inj hEq), nofun⟩, fun h hEq => h.1 ?_⟩
    rw [hEq]
    rfl

end Sign

end WithNaN

/-! ## Reads and loops -/

section Scan

variable {m : Type → Type} [Monad m] [MonadRequire m] {F : Type}

/-- The entry at `p` of an array of `size` entries. -/
def load (size : ℕ) (w : ℤ → F) (p : ℤ) : m F := do
  require (0 ≤ p ∧ p < size) .outOfBounds
  return w p

/-- `do { c = *p++; k++; } while (test c && k < len)`: the pointer and the counter
afterwards. -/
def scan (test : F → Prop) [DecidablePred test] (read : ℤ → m F) (len : ℕ) (p : ℤ) (k : ℕ) :
    m (ℤ × ℕ) := do
  let c ← read p
  if _h : test c ∧ k + 1 < len then
    scan test read len (p + 1) (k + 1)
  else
    return (p + 1, k + 1)
termination_by len - k

end Scan

theorem load_of {m : Type → Type} [Monad m] [LawfulMonad m] [MonadRequire m] [LawfulRequire m]
    {F : Type} {size : ℕ} {w : ℤ → F} {p : ℤ} (h : 0 ≤ p ∧ p < size) :
    (load size w p : m F) = pure (w p) := by
  rw [load, require_of h, pure_bind]

/-- A checked read that returns was inside the array. -/
theorem inside_of_load {F : Type} {size : ℕ} {w : ℤ → F} {p : ℤ} {c : F}
    (h : load size w p = (.ok c : Except Fault F)) : 0 ≤ p ∧ p < size := by
  rw [load, bind_eq_ok] at h
  obtain ⟨_, hRequire, -⟩ := h
  exact of_require_eq_ok hRequire

section Stops

variable {F : Type} {test : F → Prop} {w : ℤ → F} {len size i j : ℕ}

/-- The first index from `i` on at which the test fails, or the last index. -/
structure Stops (test : F → Prop) (w : ℤ → F) (len i j : ℕ) : Prop where
  start_le : i ≤ j
  lt_len : j < len
  before : ∀ q : ℕ, i ≤ q → q < j → test (w q)
  last : test (w j) → j + 1 = len

/-- A loop that starts inside reads up to the index at which it stops. -/
theorem scan_spec [DecidablePred test] (hi : i < len) (hSize : len ≤ size) :
    ∃ j, Stops test w len i j ∧
      Computes (fun m => scan (m := m) test (load size w) len i i) (j + 1, j + 1) := by
  have hRead : 0 ≤ (i : ℤ) ∧ (i : ℤ) < size := by omega
  -- induction on the entries that are left
  induction hn : len - i generalizing i with
  | zero => omega
  | succ n ih =>
    -- the loop goes on, and stops where it stops from the next entry on, or ends here
    by_cases hGo : test (w i) ∧ i + 1 < len
    · obtain ⟨j, hStops, hRun⟩ := ih hGo.2 (by omega) (by omega)
      refine ⟨j, ⟨by have := hStops.start_le; omega, hStops.lt_len, fun q hq hqj => ?_,
        hStops.last⟩, ?_⟩
      · rcases Nat.eq_or_lt_of_le hq with rfl | hlt
        · exact hGo.1
        · exact hStops.before q hlt hqj
      · intro m _ _ _ _
        dsimp only
        rw [scan, load_of hRead, pure_bind, dif_pos hGo, ← Nat.cast_succ]
        exact hRun m
    · refine ⟨i, ⟨le_rfl, hi, fun q hq hqi => by omega, fun hTest => ?_⟩, ?_⟩
      · have hEnd : ¬i + 1 < len := fun hlt => hGo ⟨hTest, hlt⟩
        omega
      · intro m _ _ _ _
        dsimp only
        rw [scan, load_of hRead, pure_bind, dif_neg hGo]

end Stops

/-! ## Writes -/

section Written

variable {m : Type → Type} [Monad m] [LawfulMonad m] {F : Type} {n : ℕ} {f g : ℤ → F}

/-- The array `x` with its first `n` entries overwritten by those of `f`. -/
def written (n : ℕ) (f x : ℤ → F) : ℤ → F := fun p => if 0 ≤ p ∧ p < n then f p else x p

theorem written_zero (f x : ℤ → F) : written 0 f x = x := by
  funext p
  exact if_neg (by omega)

theorem update_written (x : ℤ → F) :
    Function.update (written n f x) n (f n) = written (n + 1) f x := by
  funext p
  unfold written
  by_cases hp : p = n
  · rw [hp, Function.update_self, if_pos (by omega)]
  · rw [Function.update_of_ne hp]
    have hIff : (0 ≤ p ∧ p < ((n + 1 : ℕ) : ℤ)) ↔ (0 ≤ p ∧ p < n) := by omega
    simp only [hIff]

/-- A counted loop whose round `k` writes entry `k` of two arrays. -/
theorem foldlM_range_written {body : (ℤ → F) × (ℤ → F) → ℕ → m ((ℤ → F) × (ℤ → F))}
    (h : ∀ k < n, ∀ x y, body (x, y) k =
      pure (Function.update x (k : ℤ) (f k), Function.update y (k : ℤ) (g k)))
    (x y : ℤ → F) : (List.range n).foldlM body (x, y) = pure (written n f x, written n g y) := by
  induction n with
  | zero => rw [written_zero, written_zero, List.range_zero, List.foldlM_nil]
  | succ n ih =>
    -- the last round writes the last entry of both
    rw [List.range_succ, List.foldlM_append, ih fun k hk => h k (by omega), pure_bind,
      List.foldlM_cons, h n (Nat.lt_succ_self n), pure_bind, List.foldlM_nil, update_written,
      update_written]

end Written

end EnergyMeter.Lib
