import Mathlib.Data.List.Nodup
import Mathlib.Logic.Function.Basic

/-!
# Tables in a flat list

A table of rows of one width, written row after row into a flat list, and read
back by cutting the list at the multiples of the width. The columns that matter
are named by keys; what stands in the others is arbitrary.

* `foldl_update_of_mem`, `foldl_update_of_not_mem` — a loop that changes one
  entry of an array in every round.
* `storeAll` — a sequence of stores into an array; `storeAll_of_mem` and
  `storeAll_of_not_mem` say what it leaves there.
* `Rows` — the table; `Rows.append` puts two of them together, `Rows.of_map`
  makes one from an array and `Rows.slice` reads a row.
-/

namespace EnergyMeter.Lib

/-! ## Stores -/

section Stores

variable {ι β γ : Type*} [DecidableEq β]

/-- A loop that changes the entry `key i` in round `i` changes no other entry. -/
theorem foldl_update_of_not_mem {key : ι → β} {g : ι → γ → γ} {l : List ι} {d : β → γ} {b : β}
    (h : b ∉ l.map key) :
    l.foldl (fun d i => Function.update d (key i) (g i (d (key i)))) d b = d b := by
  induction l generalizing d with
  | nil => rfl
  | cons i l ih =>
    rw [List.map_cons, List.mem_cons, not_or] at h
    rw [List.foldl_cons, ih h.2, Function.update_of_ne h.1]

/-- Where the rounds do not share entries, an entry is changed by its own round
only. -/
theorem foldl_update_of_mem {key : ι → β} {g : ι → γ → γ} {l : List ι} {d : β → γ} {i : ι}
    (hNodup : (l.map key).Nodup) (hi : i ∈ l) :
    l.foldl (fun d i => Function.update d (key i) (g i (d (key i)))) d (key i) =
      g i (d (key i)) := by
  induction l generalizing d with
  | nil => cases hi
  | cons j l ih =>
    obtain ⟨hFresh, hNodup⟩ := List.nodup_cons.mp hNodup
    rw [List.foldl_cons]
    rcases List.mem_cons.mp hi with rfl | hi
    · -- the first entry is changed by no later round
      rw [foldl_update_of_not_mem hFresh, Function.update_self]
    · have hne : key i ≠ key j := fun hEq => hFresh (hEq ▸ List.mem_map_of_mem hi)
      rw [ih hNodup hi, Function.update_of_ne hne]

/-- The array `d` after the stores of `fs`, in order. -/
def storeAll (d : β → γ) (fs : List (β × γ)) : β → γ :=
  fs.foldl (fun d f => Function.update d f.1 f.2) d

theorem storeAll_of_not_mem {d : β → γ} {fs : List (β × γ)} {b : β}
    (h : b ∉ fs.map Prod.fst) : storeAll d fs b = d b :=
  foldl_update_of_not_mem (g := fun (f : β × γ) (_ : γ) => f.2) h

theorem storeAll_of_mem {d : β → γ} {fs : List (β × γ)} {b : β} {v : γ}
    (hNodup : (fs.map Prod.fst).Nodup) (h : (b, v) ∈ fs) : storeAll d fs b = v :=
  foldl_update_of_mem (g := fun (f : β × γ) (_ : γ) => f.2) hNodup h

end Stores

/-! ## Rows -/

section Rows

variable {F κ : Type*} {w N M : ℕ} {pos : κ → ℕ} {cell : ℕ → κ → F} {raw raw' : List F}

/-- `N` rows of width `w`, in which key `k` has `cell r k` at position `pos k` of
row `r`. -/
structure Rows (w : ℕ) (pos : κ → ℕ) (cell : ℕ → κ → F) (N : ℕ) (raw : List F) : Prop where
  length : raw.length = w * N
  entry : ∀ r < N, ∀ k, raw[w * r + pos k]? = some (cell r k)

theorem rows_nil : Rows w pos cell 0 [] :=
  ⟨rfl, fun r hr => absurd hr (Nat.not_lt_zero r)⟩

/-- A position inside a row is inside the list. -/
theorem row_lt {r j : ℕ} (hr : r < N) (hj : j < w) : w * r + j < w * N := by
  have hNext : w * (r + 1) ≤ w * N := Nat.mul_le_mul_left w hr
  rw [Nat.mul_add, Nat.mul_one] at hNext
  omega

theorem Rows.append (hPos : ∀ k, pos k < w) (h : Rows w pos cell N raw)
    (h' : Rows w pos (fun r => cell (N + r)) M raw') : Rows w pos cell (N + M) (raw ++ raw') where
  length := by rw [List.length_append, h.length, h'.length, Nat.mul_add]
  entry r hr k := by
    rcases Nat.lt_or_ge r N with hLt | hGe
    · rw [List.getElem?_append_left (by rw [h.length]; exact row_lt hLt (hPos k))]
      exact h.entry r hLt k
    · -- the row is one of the second table
      obtain ⟨q, rfl⟩ := Nat.exists_eq_add_of_le hGe
      have hIndex : w * (N + q) + pos k = w * N + (w * q + pos k) := by
        rw [Nat.mul_add, Nat.add_assoc]
      rw [hIndex, List.getElem?_append_right (by rw [h.length]; omega), h.length,
        Nat.add_sub_cancel_left]
      exact h'.entry q (by omega) k

/-- An array written row by row is written in order. -/
theorem flatMap_range_map (params : ℕ → F) (w N : ℕ) :
    ((List.range N).flatMap fun i => (List.range w).map fun c => params (w * i + c)) =
      (List.range (w * N)).map params := by
  induction N with
  | zero => rfl
  | succ N ih =>
    rw [List.range_succ, List.flatMap_append, ih, Nat.mul_succ, List.range_add, List.map_append,
      List.map_map, List.flatMap_singleton]
    rfl

theorem Rows.of_map {params : ℕ → F} (hPos : ∀ k, pos k < w)
    (h : ∀ r < N, ∀ k, params (w * r + pos k) = cell r k) :
    Rows w pos cell N ((List.range N).flatMap fun i =>
      (List.range w).map fun c => params (w * i + c)) := by
  rw [flatMap_range_map]
  refine ⟨by rw [List.length_map, List.length_range], fun r hr k => ?_⟩
  rw [List.getElem?_map, List.getElem?_range (row_lt hr (hPos k)), Option.map_some, h r hr k]

/-- A row that is cut out of the list. -/
theorem Rows.slice (hPos : ∀ k, pos k < w) (h : Rows w pos cell N raw) {r : ℕ} (hr : r < N)
    (k : κ) : ((raw.drop (r * w)).take w)[pos k]? = some (cell r k) := by
  rw [List.getElem?_take_of_lt (hPos k), List.getElem?_drop, Nat.mul_comm]
  exact h.entry r hr k

end Rows

end EnergyMeter.Lib
