import EnergyMeter.Meter.Means

/-!
# EnergyMeter — the raw log of a run

Forty times a second the attributes of the phases enter `params`, one record
behind the other, and at the end of the second all records are appended to the
log. The offset of a record is reset every second, so a record is overwritten
by none of its own second, and by the record of the next second only after it
has been written.

* `storedEntries` — the entries of `params` that a second stores to;
  `storedEntries_nodup` says that none is stored to twice.
* `sampleLoop_records` — the records in `params` after a part of a second.

Main result:

* `meterRun_raw` — the log of a whole run is a table of records, each of them
  after another 384 updates of the theory.
-/

namespace EnergyMeter.Meter

open Lib Cpt EAttributes

/-- What the log is to have in record `r` for an attribute of a phase: the value
after update number `rawParamFreqCount * (r + 1)` of the run, as a `float`. -/
noncomputable def rawCell {F : Type} (single : ℝ → F) (CPT : TCPT ℝ) (ch : ℕ → Channels ℝ) (r : ℕ)
    (k : Fin 3 × EAttributes) : F :=
  single (fieldOf ((cptAfter CPT ch (rawParamFreqCount * (r + 1))).Phase k.1) k.2)

section Second

variable {F : Type} {single : ℝ → F} {ch : ℕ → Channels ℝ} {CPT : TCPT ℝ} {s idx : ℕ}
  {start : MainState ℝ F} {st : Cycle ℝ F}

/-! ## Records in `params` -/

/-- The first `N` records of second `s`. -/
def RecordsAt (single : ℝ → F) (CPT : TCPT ℝ) (ch : ℕ → Channels ℝ) (s N : ℕ) (params : ℕ → F) :
    Prop :=
  ∀ q < N, ∀ k, params (q * paramsLen + rawIndex k) =
    rawCell single CPT ch (s * rawParamFreq + q) k

theorem record_end (hEnd : rawParamFreqCount ≤ idx % rawParamFreqCount + 1) :
    s * sampleRate + idx + 1 =
      rawParamFreqCount * (s * rawParamFreq + idx / rawParamFreqCount + 1) :=
  period_end (by decide) (by decide) hEnd

/-- The stores after one sample: a record more where one ends. -/
theorem RecordsAt.step {params : ℕ → F}
    (h : RecordsAt single CPT ch s (idx / rawParamFreqCount) params) :
    RecordsAt single CPT ch s ((idx + 1) / rawParamFreqCount)
      (storeParams single params (recordStores idx (cptAfter CPT ch (s * sampleRate + idx + 1))
        (idx / rawParamFreqCount * paramsLen))) := by
  have hDiv := div_succ_of_wrap (L := rawParamFreqCount) (by decide) idx
  unfold recordStores
  by_cases hEnd : rawParamFreqCount ≤ idx % rawParamFreqCount + 1
  · rw [if_pos hEnd] at hDiv
    rw [if_pos hEnd, hDiv]
    intro q hq k
    rcases Nat.lt_succ_iff_lt_or_eq.mp hq with hLt | rfl
    · -- a record that is complete already
      rw [storeParams_other (not_mem_rawEntries hLt.ne k)]
      exact h q hLt k
    · rw [storeParams_own, rawCell, record_end hEnd]
  · rw [if_neg hEnd] at hDiv
    rw [if_neg hEnd, hDiv]
    exact h

/-- **The records after a part of a second.** -/
theorem sampleLoop_records (single : ℝ → F) (hConfig : Configured CPT)
    (h : CycleAt CPT ch s start 0 st) (hIdx : idx ≤ sampleRate) :
    ∃ st', Computes (fun m => sampleLoop (m := m) single (ch s) st idx) st' ∧
      CycleAt CPT ch s start idx st' ∧
      RecordsAt single CPT ch s (idx / rawParamFreqCount) st'.params := by
  induction idx with
  | zero => exact ⟨st, Computes.pure _, h, fun q hq => absurd hq (Nat.not_lt_zero q)⟩
  | succ idx ih =>
    obtain ⟨st₁, hLoop, h₁, hRecords⟩ := ih (Nat.le_of_succ_le hIdx)
    obtain ⟨st₂, hBody, h₂, hParams⟩ := sampleBody_spec single hConfig h₁ hIdx
    refine ⟨st₂, hLoop.bind hBody, h₂, ?_⟩
    rw [hParams, h₂.CPT_eq, h₁.offset_eq, ← Nat.add_assoc]
    exact hRecords.step

/-! ## No entry is stored to twice -/

/-- The entries of `params` that the first `idx` samples of a second store to, in
order. -/
noncomputable def storedEntries (single : ℝ → F) (ch : Channels ℝ) (st : Cycle ℝ F) : ℕ → List ℕ
  | 0 => []
  | idx + 1 =>
    let cycle := (sampleLoop (m := Id) single ch st idx).run
    storedEntries single ch st idx ++
      if cycle.n + 1 ≥ rawParamFreqCount then rawEntries cycle.offset else []

theorem storedEntries_eq (single : ℝ → F) (hConfig : Configured CPT)
    (h : CycleAt CPT ch s start 0 st) (hIdx : idx ≤ sampleRate) :
    storedEntries single (ch s) st idx =
      (List.range (idx / rawParamFreqCount)).flatMap fun q => rawEntries (q * paramsLen) := by
  induction idx with
  | zero => rfl
  | succ idx ih =>
    obtain ⟨cycle, hLoop, hCycle⟩ := sampleLoop_spec single hConfig h (Nat.le_of_succ_le hIdx)
    have hDiv := div_succ_of_wrap (L := rawParamFreqCount) (by decide) idx
    have hRun : (sampleLoop (m := Id) single (ch s) st idx).run = cycle := hLoop.total
    rw [storedEntries, hRun, ih (Nat.le_of_succ_le hIdx), hCycle.n_eq, hCycle.offset_eq]
    -- a record is stored where the counter `n` comes to its end
    by_cases hEnd : rawParamFreqCount ≤ idx % rawParamFreqCount + 1
    · rw [if_pos hEnd] at hDiv
      rw [if_pos hEnd, hDiv, List.range_succ, List.flatMap_append, List.flatMap_singleton]
    · rw [if_neg hEnd] at hDiv
      rw [if_neg hEnd, hDiv, List.append_nil]

/-- **The stores of a second** are within `params`, and no two of them share an
entry. -/
theorem storedEntries_nodup (single : ℝ → F) (hConfig : Configured CPT)
    (h : CycleAt CPT ch s start 0 st) :
    (storedEntries single (ch s) st sampleRate).Nodup ∧
      ∀ e ∈ storedEntries single (ch s) st sampleRate, e < rawParamFreq * paramsLen := by
  rw [storedEntries_eq single hConfig h le_rfl,
    show sampleRate / rawParamFreqCount = rawParamFreq by decide]
  constructor
  · rw [List.nodup_flatMap]
    refine ⟨fun q _ => rawEntries_nodup _, List.nodup_range.imp fun {q q'} hne e he he' => ?_⟩
    -- an entry belongs to one record
    obtain ⟨k, -, rfl⟩ := List.mem_map.mp he
    exact not_mem_rawEntries hne k he'
  · intro e he
    obtain ⟨q, hq, he⟩ := List.mem_flatMap.mp he
    obtain ⟨k, -, rfl⟩ := List.mem_map.mp he
    rw [Nat.mul_comm q, Nat.mul_comm rawParamFreq]
    exact row_lt (List.mem_range.mp hq) (rawIndex_lt k)

end Second

/-! ## The log of a run -/

section Run

variable {F : Type} {single : ℝ → F} {ch : ℕ → Channels ℝ} {CPT : TCPT ℝ} {s : ℕ}

/-- A second appends its records. -/
theorem second_raw {st : MainState ℝ F} (hConfig : Configured CPT) (h : MainAt CPT ch s st)
    (hRaw : Rows paramsLen rawIndex (rawCell single CPT ch) (s * rawParamFreq) st.raw) :
    Rows paramsLen rawIndex (rawCell single CPT ch) ((s + 1) * rawParamFreq)
      (second (m := Id) single st (ch s)).run.raw := by
  obtain ⟨cycle, hLoop, hCycle, hRecords⟩ :=
    sampleLoop_records single hConfig h.cycleAt le_rfl
  have hSecond : (second (m := Id) single st (ch s)).run.raw =
      writeLog cycle.raw cycle.params paramsLen rawParamFreq := by
    have hRun : sampleLoop (m := Id) single (ch s) { st with m := 0, n := 0, offset := 0 }
        sampleRate = pure cycle := hLoop Id
    rw [second, hRun, pure_bind]
    rfl
  rw [hSecond, hCycle.raw, writeLog, Nat.succ_mul]
  -- the loop has left the log alone and put the records of the second into `params`
  refine hRaw.append rawIndex_lt (Rows.of_map rawIndex_lt fun q hq k => ?_)
  rw [Nat.mul_comm]
  exact hRecords q hq k

theorem meterRun_rows {st : MainState ℝ F} (hConfig : Configured CPT) (h : MainAt CPT ch 0 st)
    (hRaw : st.raw = []) (s : ℕ) :
    Rows paramsLen rawIndex (rawCell single CPT ch) (s * rawParamFreq)
      (meterRun (m := Id) single st ch s).run.raw := by
  induction s with
  | zero =>
    show Rows _ _ _ _ st.raw
    rw [hRaw, Nat.zero_mul]
    exact rows_nil
  | succ s ih =>
    rw [meterRun]
    exact second_raw hConfig (meterRun_spec hConfig h s) ih

end Run

section Init

variable {F : Type} [Zero F] {raw : ℕ → Option (ℕ → ℝ)}

theorem initMeter_raw {CPT : TCPT ℝ} {alloc : Allocator ℝ} {st : MainState ℝ F}
    (h : initMeter (m := Except Fault) CPT alloc raw = .ok (some st)) : st.raw = [] := by
  rw [initMeter, bind_eq_ok] at h
  obtain ⟨cpt?, -, h⟩ := h
  rcases cpt? with _ | cpt
  · cases h
  · rcases hMafs : initMafs raw (3 * (phaseRawBuffers + cptRawBuffers)) with _ | mafs
    · simp only [hMafs] at h
      cases h
    · simp only [hMafs] at h
      cases h
      rfl

/-- **The raw log of a whole run**, from an empty log: one record after every
`rawParamFreqCount` updates. -/
theorem meterRun_raw (single : ℝ → F) {CPT : TCPT ℝ} {alloc : Allocator ℝ} {st : MainState ℝ F}
    (hInit : initMeter (m := Except Fault) CPT alloc raw = .ok (some st)) (ch : ℕ → Channels ℝ)
    (s : ℕ) :
    Rows paramsLen rawIndex (rawCell single st.CPT ch) (s * rawParamFreq)
      (meterRun (m := Id) single st ch s).run.raw := by
  obtain ⟨hConfig, hMain⟩ := initMeter_spec hInit ch
  exact meterRun_rows hConfig hMain (initMeter_raw hInit) s

end Init

end EnergyMeter.Meter
