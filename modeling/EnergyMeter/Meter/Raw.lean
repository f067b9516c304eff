import EnergyMeter.Lib.Table
import EnergyMeter.Meter.Model

/-!
# EnergyMeter — the stores of a record of raw parameters

`update_raw_values` writes one record into `params`: for every phase its eleven
attributes, and behind them an entry that stays unused.

* `rawIndex` — where an attribute of a phase stands in a record;
  `rawIndex_inj` says that no two of them share an entry.
* `updateRawValues_spec` — the stores stay within `params` and are `rawStores`.
-/

namespace EnergyMeter.Meter

open Lib Cpt EAttributes

/-- The field of a phase that stands for an attribute. -/
def fieldOf {R : Type} (p : TPhase R) : EAttributes → R
  | ATTR_VOLTAGE_RMS => p.V_rms
  | ATTR_CURRENT_RMS => p.I_rms
  | ATTR_POWER_APPARENT => p.A
  | ATTR_POWER_ACTIVE => p.P_avg
  | ATTR_ENERGY_REACTIVE => p.Q
  | ATTR_CURRENT_ACTIVE => p.Iba_rms
  | ATTR_CURRENT_REACTIVE => p.Ibr_rms
  | ATTR_CURRENT_VOID => p.Iv_rms
  | ATTR_PF => p.PF
  | ATTR_QF => p.QF
  | ATTR_VF => p.VF

/-! ## Entries of a record -/

/-- The position of an attribute of a phase in a record. -/
def rawIndex (k : Fin 3 × EAttributes) : ℕ := k.1.val * rawParam + k.2.toNat

theorem rawIndex_lt (k : Fin 3 × EAttributes) : rawIndex k < paramsLen := by
  have hi := k.1.isLt
  have ha := k.2.toNat_lt
  unfold rawIndex paramsLen rawParam attrMax at *
  omega

theorem rawIndex_inj : Function.Injective rawIndex := by
  rintro ⟨i, a⟩ ⟨i', a'⟩ h
  have ha := a.toNat_lt
  have ha' := a'.toNat_lt
  -- the unused entry keeps the last attribute of a phase off the next phase
  have hi : i.val = i'.val := by
    simp only [rawIndex, rawParam, attrMax] at h ha ha'
    omega
  have hNat : a.toNat = a'.toNat := by
    simp only [rawIndex, hi] at h
    omega
  exact Prod.ext (Fin.ext hi) (EAttributes.toNat_inj hNat)

/-- The attributes of the phases in the order in which they are stored. -/
def rawKeys : List (Fin 3 × EAttributes) :=
  (List.finRange 3).flatMap fun i => attributes.map fun a => (i, a)

theorem mem_rawKeys (k : Fin 3 × EAttributes) : k ∈ rawKeys :=
  List.mem_flatMap.mpr ⟨k.1, List.mem_finRange k.1,
    List.mem_map.mpr ⟨k.2, mem_attributes k.2, rfl⟩⟩

theorem rawKeys_nodup : rawKeys.Nodup := by decide

/-- The entries of the record at `offset`. -/
def rawEntries (offset : ℕ) : List ℕ := rawKeys.map fun k => offset + rawIndex k

theorem rawEntries_nodup (offset : ℕ) : (rawEntries offset).Nodup :=
  rawKeys_nodup.map fun _ _ h => rawIndex_inj (Nat.add_left_cancel h)

/-- The stores of the record at `offset`: entry and value. -/
def rawStores {R : Type} (CPT : TCPT R) (offset : ℕ) : List (ℕ × R) :=
  rawKeys.map fun k => (offset + rawIndex k, fieldOf (CPT.Phase k.1) k.2)

/-- The stores after sample `idx`: those of a record where it is the last sample
of one. -/
def recordStores {R : Type} (idx : ℕ) (CPT : TCPT R) (offset : ℕ) : List (ℕ × R) :=
  if rawParamFreqCount ≤ idx % rawParamFreqCount + 1 then rawStores CPT offset else []

/-! ## `update_raw_values` -/

section Stores

variable {F : Type} {single : ℝ → F}

/-- The array `params` after some stores. -/
def storeParams (single : ℝ → F) (params : ℕ → F) (l : List (ℕ × ℝ)) : ℕ → F :=
  storeAll params (l.map fun s => (s.1, single s.2))

/-- The stores of `update_raw_values` are those of a record. -/
theorem updateRawValues_eq {m : Type → Type} [Monad m] [LawfulMonad m] [MonadRequire m]
    (CPT : TCPT ℝ) (offset : ℕ) (params : ℕ → F) :
    (updateRawValues single CPT offset params : m (ℕ → F)) =
      (rawStores CPT offset).foldlM (fun params s => storeParam single params s.1 s.2) params := by
  have hKeys : (List.finRange 3) = [0, 1, 2] := by decide
  simp only [updateRawValues, updateRawValuesBody, phaseOrder_eq, rawStores, rawKeys, hKeys,
    attributes, rawIndex, fieldOf, List.flatMap_cons, List.flatMap_nil, List.map_cons,
    List.map_nil, List.cons_append, List.nil_append, List.foldlM_cons, List.foldlM_nil, bind_pure,
    bind_assoc, Nat.add_assoc]

/-- Stores within `params`. -/
theorem storeParams_spec (single : ℝ → F) {l : List (ℕ × ℝ)}
    (h : ∀ s ∈ l, s.1 < rawParamFreq * paramsLen) (params : ℕ → F) :
    Computes (fun m => l.foldlM (m := m) (fun params s => storeParam single params s.1 s.2) params)
      (storeParams single params l) := by
  induction l generalizing params with
  | nil => exact Computes.pure _
  | cons s l ih =>
    obtain ⟨hIndex, hRest⟩ := List.forall_mem_cons.mp h
    have hStore : Computes (fun m => storeParam (m := m) single params s.1 s.2)
        (Function.update params s.1 (single s.2)) := by
      intro m _ _ _ _
      simp only [storeParam, require_of hIndex, pure_bind]
    exact hStore.bind (ih hRest _)

/-- **The stores of a record** stay within `params`. -/
theorem updateRawValues_spec (single : ℝ → F) (params : ℕ → F) (CPT : TCPT ℝ) {offset : ℕ}
    (hOffset : offset + paramsLen ≤ rawParamFreq * paramsLen) :
    Computes (fun m => updateRawValues (m := m) single CPT offset params)
      (storeParams single params (rawStores CPT offset)) := by
  have hBound : ∀ s ∈ rawStores CPT offset, s.1 < rawParamFreq * paramsLen := by
    intro s hs
    obtain ⟨k, -, rfl⟩ := List.mem_map.mp hs
    have hk := rawIndex_lt k
    dsimp only
    omega
  intro m _ _ _ _
  exact (updateRawValues_eq CPT offset params).trans (storeParams_spec single hBound params m)

/-! ## What the stores leave -/

theorem storeParams_own (single : ℝ → F) (params : ℕ → F) (CPT : TCPT ℝ) (offset : ℕ)
    (k : Fin 3 × EAttributes) :
    storeParams single params (rawStores CPT offset) (offset + rawIndex k) =
      single (fieldOf (CPT.Phase k.1) k.2) := by
  refine storeAll_of_mem ?_ ?_
  · rw [rawStores, List.map_map, List.map_map]
    exact rawEntries_nodup offset
  · rw [rawStores, List.map_map]
    exact List.mem_map.mpr ⟨k, mem_rawKeys k, rfl⟩

theorem storeParams_other {params : ℕ → F} {CPT : TCPT ℝ} {offset e : ℕ}
    (h : e ∉ rawEntries offset) : storeParams single params (rawStores CPT offset) e = params e := by
  refine storeAll_of_not_mem ?_
  rw [rawStores, List.map_map, List.map_map]
  exact h

/-- Entries of two records of a second. -/
theorem record_eq_of_entry {q q' : ℕ} {k k' : Fin 3 × EAttributes}
    (h : q * paramsLen + rawIndex k = q' * paramsLen + rawIndex k') : q = q' := by
  have hDiv : ∀ (q : ℕ) (k : Fin 3 × EAttributes), (q * paramsLen + rawIndex k) / paramsLen = q := by
    intro q k
    rw [Nat.mul_comm, Nat.mul_add_div (by decide), Nat.div_eq_of_lt (rawIndex_lt k), Nat.add_zero]
  rw [← hDiv q k, h, hDiv]

theorem not_mem_rawEntries {q q' : ℕ} (h : q ≠ q') (k : Fin 3 × EAttributes) :
    q * paramsLen + rawIndex k ∉ rawEntries (q' * paramsLen) := by
  intro hMem
  obtain ⟨k', -, hEq⟩ := List.mem_map.mp hMem
  exact h (record_eq_of_entry hEq.symm)

end Stores

end EnergyMeter.Meter
