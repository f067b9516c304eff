import EnergyMeter.Datalogger.Framing
import EnergyMeter.Meter.Log
import Mathlib.Tactic.FinCases

/-!
# Datalogger — the reader of the raw log

`convert_raw.py` reads the log that the meter has written as a table of records
of one `f4` for every name of a file of columns. The layout is written down a
second time in that file: the meter leaves an entry unused behind the attributes
of a phase, and the file has to have a column for it.

* `fromFile` — the records of a log, `none` where `numpy` refuses the columns.
* `RawColumns` — a file of columns that fits the meter.

Main result:

* `rawLog_roundTrip` — the records of a whole run, and the stores behind them.
-/

namespace EnergyMeter.Datalogger

open EnergyMeter.Lib EnergyMeter.Cpt EnergyMeter.Meter EAttributes

/-! ## `convert_raw.py` -/

/-- `data_type`: the columns of the file without the time. -/
def dataType (line : Text) : List Text := (line.splitOn ',').filter (· ≠ "time".toList)

/-- `np.fromfile(.., dtype=dt)`: all whole records of the file. The names have to
be different ones, and there has to be one. -/
def fromFile {F : Type} (fields : List Text) (raw : List F) : Option (List (List F)) :=
  if fields ≠ [] ∧ fields.Nodup then
    some ((List.range (raw.length / fields.length)).map fun r =>
      (raw.drop (r * fields.length)).take fields.length)
  else none

/-- What a record has in a column. -/
def column {F : Type} (fields : List Text) (record : List F) (name : Text) : Option F :=
  record[fields.idxOf name]?

/-- The columns that are written to the output. -/
def outputColumns (fields : List Text) : List Text :=
  fields.filter fun item => ¬"dummy_".toList <:+: item

/-! ## Files of columns -/

/-- The name of an attribute of a phase. -/
def attrName (k : Fin 3 × EAttributes) : Text := paramName k.2 ++ [phase k.1]

/-- The columns of a record: for every phase its attributes and one column more. -/
def rawColumns (dummy : Fin 3 → Text) : List Text :=
  (List.finRange 3).flatMap fun c => (attributes.map fun a => attrName (c, a)) ++ [dummy c]

/-- A file that lists the time and the columns of a record. The columns without
an attribute have names of their own, with `dummy_` in them. -/
structure RawColumns (line : Text) (dummy : Fin 3 → Text) : Prop where
  columns : line.splitOn ',' = "time".toList :: rawColumns dummy
  named : ∀ c, "dummy_".toList <:+: dummy c
  inj : Function.Injective dummy

theorem columnNames_no_dummy : ∀ n ∈ columnNames, ¬"dummy_".toList <:+: n := by decide +kernel

theorem attrName_mem (k : Fin 3 × EAttributes) : attrName k ∈ columnNames :=
  List.mem_flatMap.mpr ⟨k.1, List.mem_finRange k.1, List.mem_map.mpr ⟨k.2, mem_attributes k.2, rfl⟩⟩

section Columns

variable {dummy : Fin 3 → Text}

theorem rawColumns_eq (dummy : Fin 3 → Text) : rawColumns dummy =
    (attributes.map fun a => attrName (0, a)) ++ [dummy 0] ++
      ((attributes.map fun a => attrName (1, a)) ++ [dummy 1] ++
        ((attributes.map fun a => attrName (2, a)) ++ [dummy 2])) := rfl

theorem mem_rawColumns {name : Text} (h : name ∈ rawColumns dummy) :
    name ∈ columnNames ∨ ∃ c, name = dummy c := by
  obtain ⟨c, -, h⟩ := List.mem_flatMap.mp h
  rcases List.mem_append.mp h with h | h
  · obtain ⟨a, -, rfl⟩ := List.mem_map.mp h
    exact .inl (attrName_mem (c, a))
  · exact .inr ⟨c, List.mem_singleton.mp h⟩

/-- The columns without the dummies are those of the attributes. -/
theorem outputColumns_raw (hDummy : ∀ c, "dummy_".toList <:+: dummy c) :
    outputColumns (rawColumns dummy) = columnNames := by
  have hKeep : ∀ c, (attributes.map fun a => attrName (c, a)).filter
      (fun item => ¬"dummy_".toList <:+: item) = attributes.map fun a => attrName (c, a) := by
    intro c
    refine List.filter_eq_self.mpr fun n hn => ?_
    obtain ⟨a, -, rfl⟩ := List.mem_map.mp hn
    exact decide_eq_true (columnNames_no_dummy _ (attrName_mem (c, a)))
  have hDrop : ∀ c, [dummy c].filter (fun item => ¬"dummy_".toList <:+: item) = [] := by
    intro c
    rw [List.filter_singleton, decide_eq_false (not_not.mpr (hDummy c))]
    rfl
  simp only [outputColumns, rawColumns_eq, List.filter_append, hKeep, hDrop, List.append_nil]
  rfl

theorem RawColumns.nodup {line : Text} (h : RawColumns line dummy) : (rawColumns dummy).Nodup := by
  have hAttr : ∀ c, (attributes.map fun a => attrName (c, a)).Nodup := by decide
  have hNotDummy : ∀ (k : Fin 3 × EAttributes) (c : Fin 3), attrName k ≠ dummy c := by
    intro k c hEq
    exact columnNames_no_dummy _ (attrName_mem k) (hEq ▸ h.named c)
  have hOther : ∀ c c' : Fin 3, c ≠ c' → ∀ a a', attrName (c, a) ≠ attrName (c', a') := by
    intro c c' hne a a' hEq
    -- the last letter is that of the phase
    have hLast : phase c = phase c' := by
      have hChars := congrArg List.getLast? hEq
      simpa [attrName] using hChars
    have hInj : Function.Injective phase := by decide
    exact hne (hInj hLast)
  rw [rawColumns, List.nodup_flatMap]
  constructor
  · intro c _
    refine (hAttr c).append (List.nodup_singleton _) fun n hn hn' => ?_
    obtain ⟨a, -, rfl⟩ := List.mem_map.mp hn
    exact hNotDummy _ _ (List.mem_singleton.mp hn')
  · refine (List.nodup_finRange 3).imp fun {c c'} hne n hn hn' => ?_
    rcases List.mem_append.mp hn with hn | hn <;> rcases List.mem_append.mp hn' with hn' | hn'
    · obtain ⟨a, -, rfl⟩ := List.mem_map.mp hn
      obtain ⟨a', -, hEq⟩ := List.mem_map.mp hn'
      exact hOther c c' hne a a' hEq.symm
    · obtain ⟨a, -, rfl⟩ := List.mem_map.mp hn
      exact hNotDummy _ _ (List.mem_singleton.mp hn')
    · obtain ⟨a, -, rfl⟩ := List.mem_map.mp hn'
      exact hNotDummy _ _ (List.mem_singleton.mp hn)
    · exact hne (h.inj ((List.mem_singleton.mp hn).symm.trans (List.mem_singleton.mp hn')))

theorem rawColumns_length (dummy : Fin 3 → Text) : (rawColumns dummy).length = paramsLen := rfl

/-- The reader has the columns where the meter has the entries. -/
theorem rawColumns_getElem (dummy : Fin 3 → Text) (k : Fin 3 × EAttributes) :
    (rawColumns dummy)[rawIndex k]? = some (attrName k) := by
  obtain ⟨c, a⟩ := k
  fin_cases c <;> cases a <;> rfl

theorem RawColumns.idxOf {line : Text} (h : RawColumns line dummy) (k : Fin 3 × EAttributes) :
    (rawColumns dummy).idxOf (attrName k) = rawIndex k := by
  obtain ⟨hLt, hEq⟩ := List.getElem?_eq_some_iff.mp (rawColumns_getElem dummy k)
  rw [← hEq]
  exact h.nodup.idxOf_getElem _ hLt

theorem RawColumns.dataType {line : Text} (h : RawColumns line dummy) :
    dataType line = rawColumns dummy := by
  have hTime : ∀ n ∈ rawColumns dummy, n ≠ "time".toList := by
    intro n hn
    rcases mem_rawColumns hn with hn | ⟨c, rfl⟩
    · exact (columnNames_ok n hn).2.2.2.2.2
    · intro hEq
      have hInfix := h.named c
      rw [hEq] at hInfix
      exact absurd hInfix (by decide)
  rw [Datalogger.dataType, h.columns, List.filter_cons_of_neg (by simp)]
  exact List.filter_eq_self.mpr fun n hn => decide_eq_true (hTime n hn)

end Columns

/-! ## The round trip -/

/-- A table is read row by row. -/
theorem fromFile_rows {F : Type} {line : Text} {dummy : Fin 3 → Text} (h : RawColumns line dummy)
    {cell : ℕ → Fin 3 × EAttributes → F} {N : ℕ} {raw : List F}
    (hRows : Rows paramsLen rawIndex cell N raw) :
    ∃ records, fromFile (dataType line) raw = some records ∧ records.length = N ∧
      ∀ r (hr : r < records.length), ∀ k,
        column (dataType line) records[r] (attrName k) = some (cell r k) := by
  -- `numpy` accepts the names, and as many values as make whole records
  have hDtype : rawColumns dummy ≠ [] ∧ (rawColumns dummy).Nodup :=
    ⟨List.cons_ne_nil _ _, h.nodup⟩
  have hCount : raw.length / paramsLen = N := by
    rw [hRows.length, Nat.mul_div_cancel_left N (by decide)]
  rw [h.dataType]
  refine ⟨_, if_pos hDtype, ?_, ?_⟩
  · rw [List.length_map, List.length_range, rawColumns_length, hCount]
  · intro r hr k
    rw [List.length_map, List.length_range, rawColumns_length, hCount] at hr
    rw [column, h.idxOf, List.getElem_map, List.getElem_range, rawColumns_length]
    exact hRows.slice rawIndex_lt hr k

/-- **The raw log over whole runs.** After `S` seconds from an empty log, and
with a file of columns that fits, the log is read as `40 * S` records; record `r`
has, under the name of every attribute of every phase, that attribute after
update number `384 * (r + 1)` as a `float`; the columns of the output are those
of the attributes. In every second the loop over the samples runs without a
fault; the stores it makes to `params` are within the array, and no two of them
are to the same entry. -/
theorem rawLog_roundTrip {F : Type} [Zero F] (single : ℝ → F) {CPT : TCPT ℝ} {alloc : Allocator ℝ}
    {rings : ℕ → Option (ℕ → ℝ)} {st : MainState ℝ F}
    (hInit : initMeter (m := Except Fault) CPT alloc rings = .ok (some st)) (ch : ℕ → Channels ℝ)
    {line : Text} {dummy : Fin 3 → Text} (hLine : RawColumns line dummy) (S : ℕ) :
    (∃ records, fromFile (dataType line) (meterRun (m := Id) single st ch S).run.raw =
        some records ∧ records.length = 40 * S ∧
      ∀ r (hr : r < records.length), ∀ c a,
        column (dataType line) records[r] (paramName a ++ [phase c]) =
          some (single (fieldOf ((cptAfter st.CPT ch (384 * (r + 1))).Phase c) a))) ∧
    outputColumns (dataType line) = columnNames ∧
    ∀ s < S,
      let start := { (meterRun (m := Id) single st ch s).run with m := 0, n := 0, offset := 0 }
      (∃ cycle, sampleLoop (m := Except Fault) single (ch s) start sampleRate = .ok cycle) ∧
        (storedEntries single (ch s) start sampleRate).Nodup ∧
        ∀ e ∈ storedEntries single (ch s) start sampleRate, e < 40 * 36 := by
  obtain ⟨hConfig, hMain⟩ := initMeter_spec hInit ch
  refine ⟨?_, ?_, fun s _ => ?_⟩
  · obtain ⟨records, hRead, hLength, hCells⟩ := fromFile_rows hLine (meterRun_raw single hInit ch S)
    refine ⟨records, hRead, ?_, fun r hr c a => hCells r hr (c, a)⟩
    rw [hLength, Nat.mul_comm]
    rfl
  · rw [hLine.dataType]
    exact outputColumns_raw hLine.named
  -- a second starts over with its counters, so its loop is that of a state at index zero
  · have hStart : CycleAt st.CPT ch s _ 0 (meterRun (m := Id) single st ch s).run.cycle :=
      (meterRun_spec hConfig hMain s).cycleAt
    obtain ⟨cycle, hLoop, -⟩ := sampleLoop_spec single hConfig hStart le_rfl
    exact ⟨⟨cycle, hLoop.checked⟩, storedEntries_nodup single hConfig hStart⟩

/-- The name of the column behind the attributes of a phase. -/
def dummyName (c : Fin 3) : Text := "dummy_".toList ++ [phase c]

/-- A file of columns for the raw log. -/
def cmeterParamsRaw : Text := [ ','].intercalate ("time".toList :: rawColumns dummyName)

theorem cmeterParamsRaw_columns : RawColumns cmeterParamsRaw dummyName where
  columns := List.splitOn_intercalate ',' (by decide) (List.cons_ne_nil _ _)
  named c := List.infix_append' [] _ [phase c]
  inj := by decide

/-- Two seconds with enough memory: eighty records. -/
theorem rawLog_roundTrip_two : ∃ st : MainState ℝ ℝ,
    initMeter (m := Except Fault) default .plenty (fun _ => some default) = .ok (some st) ∧
    ∃ records, fromFile (dataType cmeterParamsRaw)
        (meterRun (m := Id) id st (fun _ => ⟨fun _ _ => 1, fun _ _ => 1⟩) 2).run.raw =
          some records ∧ records.length = 40 * 2 := by
  obtain ⟨st, hInit⟩ := initMeter_plenty (F := ℝ)
  obtain ⟨⟨records, hRead, hLength, -⟩, -⟩ := rawLog_roundTrip id hInit
    (fun _ => ⟨fun _ _ => 1, fun _ _ => 1⟩) cmeterParamsRaw_columns 2
  exact ⟨st, hInit, records, hRead, hLength⟩

end EnergyMeter.Datalogger
