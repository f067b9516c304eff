import EnergyMeter.Datalogger.Model

/-!
# Datalogger — what the parser accepts

`process_input` takes whatever does not raise in it for a message. What that is
can be said without the parser: a dollar sign and arguments with commas between
them, each a label and a value with a colon between them, where the labels `esp`
and `bbb` have a number for their value.

* `IsArgument`, `IsMessage` — the grammar.
* `boardOf`, `valueArgs` — the board, and the arguments that are values.
* `Python.processArg_eq_some_iff` — the parser on one argument.

Main result: `Python.processInput_eq_some_iff` — the parser accepts the grammar
and nothing else, and what it returns is the last value of every label, and the
last board.
-/

namespace EnergyMeter.Datalogger

open EnergyMeter.Lib

/-! ## Separators -/

theorem not_mem_of_mem_splitOn {sep : Char} {s p : Text} (h : p ∈ s.splitOn sep) : sep ∉ p := by
  induction s generalizing p with
  | nil =>
    rw [List.splitOn_nil, List.mem_singleton] at h
    subst h
    exact List.not_mem_nil
  | cons x s ih =>
    rw [List.splitOn_cons_eq_if_modifyHead] at h
    -- a separator opens a new piece, every other character joins the first one
    split at h
    · rcases List.mem_cons.mp h with rfl | h
      · exact List.not_mem_nil
      · exact ih h
    · rename_i hSep
      obtain ⟨hd, tl, hEq⟩ := List.exists_cons_of_ne_nil (List.splitOn_ne_nil sep s)
      rw [hEq] at h ih
      rcases List.mem_cons.mp h with rfl | h
      · -- the head has been put before the first piece
        rw [List.mem_cons, not_or]
        refine ⟨fun hx => hSep (by simp [hx]), ih (List.mem_cons_self ..)⟩
      · exact ih (List.mem_cons_of_mem _ h)

/-- An argument is a label and a value if there is one colon in it. -/
theorem splitOn_colon_iff {arg lbl value : Text} :
    arg.splitOn ':' = [lbl, value] ↔ arg = lbl ++ ':' :: value ∧ ':' ∉ lbl ∧ ':' ∉ value := by
  constructor
  · intro h
    refine ⟨?_, not_mem_of_mem_splitOn (h ▸ List.mem_cons_self ..),
      not_mem_of_mem_splitOn (h ▸ List.mem_cons_of_mem _ (List.mem_cons_self ..))⟩
    have hJoin : [ ':'].intercalate (arg.splitOn ':') = arg := List.intercalate_splitOn ':'
    rw [h] at hJoin
    rw [← hJoin]
    simp
  · rintro ⟨rfl, hLbl, hValue⟩
    rw [List.splitOn_append_cons_self_of_not_mem hLbl, List.splitOn_eq_singleton hValue]

/-! ## The grammar -/

/-- A field as it is sent. -/
def encode (f : Text × Text) : Text := f.1 ++ ':' :: f.2

/-- The dictionary that `process_input` starts with. -/
def startDict (now : DateTime) : Dict :=
  Function.update (fun _ => none) "time".toList (some (strftime now))

/-- The labels that give the board. -/
def IsBoard (lbl : Text) : Prop := lbl = "esp".toList ∨ lbl = "bbb".toList

instance (lbl : Text) : Decidable (IsBoard lbl) := inferInstanceAs (Decidable (_ ∨ _))

/-- The board that an argument gives. -/
def Python.boardNumber (py : Python) (f : Text × Text) : Option ℤ :=
  if f.1 = "esp".toList then (py.int f.2).map fun n => 3 + n
  else if f.1 = "bbb".toList then py.int f.2
  else none

/-- An argument: a label and a value, without colons. -/
structure IsArgument (py : Python) (f : Text × Text) : Prop where
  label : ':' ∉ f.1
  value : ':' ∉ f.2
  number : IsBoard f.1 → (py.boardNumber f).isSome

/-- A message with the arguments `fs`. -/
structure IsMessage (py : Python) (text : Text) (fs : List (Text × Text)) : Prop where
  nonempty : fs ≠ []
  arguments : ∀ f ∈ fs, IsArgument py f
  comma : ∀ f ∈ fs, ',' ∉ encode f
  text_eq : text = '$' :: [ ','].intercalate (fs.map encode)

/-- The board of a message: the last one given, or 0. -/
def boardOf (py : Python) (fs : List (Text × Text)) : ℤ :=
  (fs.filterMap py.boardNumber).getLast?.getD 0

/-- The arguments of a message that are values. -/
def valueArgs (fs : List (Text × Text)) : List (Text × Text) :=
  fs.filter fun f => ¬IsBoard f.1

theorem startDict_eq_some {now : DateTime} {lbl v : Text} (h : startDict now lbl = some v) :
    lbl = "time".toList ∧ v = strftime now := by
  unfold startDict at h
  by_cases hTime : lbl = "time".toList
  · subst hTime
    rw [Function.update_self] at h
    exact ⟨rfl, (Option.some.inj h).symm⟩
  · rw [Function.update_of_ne hTime] at h
    cases h

/-! ## The parser -/

namespace Python

variable {py : Python} {st st' : Dict × ℤ}

/-- What an argument does to the dictionary and the board. -/
def setField (py : Python) (st : Dict × ℤ) (f : Text × Text) : Dict × ℤ :=
  if IsBoard f.1 then (st.1, (py.boardNumber f).getD st.2)
  else (Function.update st.1 f.1 (some f.2), st.2)

/-- The parser on a label and a value. -/
theorem processArg_encode {f : Text × Text} (hLabel : ':' ∉ f.1) (hValue : ':' ∉ f.2) :
    py.processArg st (encode f) = some st' ↔
      (IsBoard f.1 → (py.boardNumber f).isSome) ∧ st' = py.setField st f := by
  have hSplit : (encode f).splitOn ':' = [f.1, f.2] :=
    splitOn_colon_iff.mpr ⟨rfl, hLabel, hValue⟩
  unfold processArg setField boardNumber IsBoard
  rw [hSplit]
  -- the three branches of the source, by the label; only the first two read a number
  by_cases hEsp : f.1 = "esp".toList
  · cases hInt : py.int f.2 <;> simp [hEsp, hInt, eq_comm]
  by_cases hBbb : f.1 = "bbb".toList
  · cases hInt : py.int f.2 <;> simp [hBbb, hInt, eq_comm]
  · simp only [hEsp, hBbb, or_self, if_false, false_imp_iff, true_and, Option.some.injEq]
    exact eq_comm

theorem processArg_eq_some_iff {arg : Text} :
    py.processArg st arg = some st' ↔
      ∃ f, IsArgument py f ∧ arg = encode f ∧ st' = py.setField st f := by
  constructor
  · intro h
    -- `[lbl, value] = ...` raises for any other number of pieces
    have hPair : ∃ lbl value, arg.splitOn ':' = [lbl, value] := by
      unfold processArg at h
      split at h
      · exact ⟨_, _, ‹_›⟩
      · cases h
    obtain ⟨lbl, value, hSplit⟩ := hPair
    obtain ⟨rfl, hLabel, hValue⟩ := splitOn_colon_iff.mp hSplit
    obtain ⟨hNumber, hSet⟩ := (processArg_encode (f := (lbl, value)) hLabel hValue).mp h
    exact ⟨(lbl, value), ⟨hLabel, hValue, hNumber⟩, rfl, hSet⟩
  · rintro ⟨f, hf, rfl, hSet⟩
    exact (processArg_encode hf.label hf.value).mpr ⟨hf.number, hSet⟩

/-- The induction over the arguments. -/
theorem processArgs_eq_some_iff {args : List Text} :
    args.foldlM py.processArg st = some st' ↔
      ∃ fs : List (Text × Text), (∀ f ∈ fs, IsArgument py f) ∧
        args = fs.map encode ∧ st' = fs.foldl py.setField st := by
  induction args generalizing st with
  | nil =>
    constructor
    · intro h
      exact ⟨[], nofun, rfl, (Option.some.inj h).symm⟩
    · rintro ⟨fs, -, hArgs, rfl⟩
      obtain rfl := List.map_eq_nil_iff.mp hArgs.symm
      rfl
  | cons arg args ih =>
    rw [List.foldlM_cons]
    -- the first argument is read by itself, the others from the state it leaves
    constructor
    · intro h
      obtain ⟨st₁, hArg, hArgs⟩ := Option.bind_eq_some_iff.mp h
      obtain ⟨f, hf, rfl, rfl⟩ := processArg_eq_some_iff.mp hArg
      obtain ⟨fs, hfs, rfl, rfl⟩ := ih.mp hArgs
      exact ⟨f :: fs, List.forall_mem_cons.mpr ⟨hf, hfs⟩, rfl, rfl⟩
    · rintro ⟨fs, hfs, hArgs, rfl⟩
      obtain ⟨f, fs, rfl, rfl, rfl⟩ := List.map_eq_cons_iff.mp hArgs.symm
      obtain ⟨hf, hfs⟩ := List.forall_mem_cons.mp hfs
      rw [processArg_eq_some_iff.mpr ⟨f, hf, rfl, rfl⟩]
      exact ih.mpr ⟨fs, hfs, rfl, rfl⟩

/-- All arguments together: the last one of a label counts. -/
theorem foldl_setField (py : Python) (st : Dict × ℤ) (fs : List (Text × Text)) :
    fs.foldl py.setField st =
      (fill st.1 (valueArgs fs), (fs.filterMap py.boardNumber).getLast?.getD st.2) := by
  induction fs generalizing st with
  | nil => rfl
  | cons f fs ih =>
    rw [List.foldl_cons, ih]
    by_cases hBoard : IsBoard f.1
    · have hValue : valueArgs (f :: fs) = valueArgs fs := List.filter_cons_of_neg (by simpa)
      rw [hValue, setField, if_pos hBoard]
      -- its number counts if none follows
      cases hNumber : py.boardNumber f with
      | none => rw [List.filterMap_cons_none hNumber]; rfl
      | some n => rw [List.filterMap_cons_some hNumber, List.getLast?_cons]; rfl
    · have hNumber : py.boardNumber f = none := by
        obtain ⟨hEsp, hBbb⟩ := not_or.mp hBoard
        rw [boardNumber, if_neg hEsp, if_neg hBbb]
      have hValue : valueArgs (f :: fs) = f :: valueArgs fs := List.filter_cons_of_pos (by simpa)
      rw [hValue, setField, if_neg hBoard, List.filterMap_cons_none hNumber]
      rfl

/-- **What the parser accepts**, and what it returns. -/
theorem processInput_eq_some_iff {now : DateTime} {text : Text} {d : Dict} {board : ℤ} :
    py.processInput now text = some (d, board) ↔
      ∃ fs, IsMessage py text fs ∧ d = fill (startDict now) (valueArgs fs) ∧
        board = boardOf py fs := by
  constructor
  · intro h
    unfold processInput at h
    split at h
    · cases h
    rename_i ch rest
    split at h
    · rename_i hch
      obtain ⟨fs, hfs, hSplit, hSet⟩ := processArgs_eq_some_iff.mp h
      rw [foldl_setField] at hSet
      obtain ⟨rfl, rfl⟩ := Prod.mk.inj hSet
      refine ⟨fs, ⟨?_, hfs, fun f hf => ?_, ?_⟩, rfl, rfl⟩
      -- a text is split into at least one piece, and no piece has the separator in it
      · rintro rfl
        exact List.splitOn_ne_nil ',' rest hSplit
      · exact not_mem_of_mem_splitOn (hSplit ▸ List.mem_map_of_mem hf)
      · rw [hch, ← hSplit, List.intercalate_splitOn]
    · cases h
  · rintro ⟨fs, hMessage, rfl, rfl⟩
    -- arguments without commas are split where they were joined
    have hSplit : ([ ','].intercalate (fs.map encode)).splitOn ',' = fs.map encode := by
      refine List.splitOn_intercalate ',' ?_ (mt List.map_eq_nil_iff.mp hMessage.nonempty)
      intro arg hArg
      obtain ⟨f, hf, rfl⟩ := List.mem_map.mp hArg
      exact hMessage.comma f hf
    rw [hMessage.text_eq]
    unfold processInput
    simp only [if_true]
    rw [hSplit]
    exact processArgs_eq_some_iff.mpr
      ⟨fs, hMessage.arguments, rfl, (foldl_setField py (startDict now, 0) fs).symm⟩

end Python

theorem ascii_processArg : Python.ascii.processArg = processArg := rfl

theorem ascii_processInput : Python.ascii.processInput = processInput := rfl

/-! ## The line of a record -/

theorem comma_not_mem_pad (width n : ℕ) : ',' ∉ pad width n := by
  unfold pad List.leftpad
  rw [List.mem_append, not_or]
  refine ⟨fun h => ?_, fun h => ?_⟩
  · exact absurd (List.eq_of_mem_replicate h) (by decide)
  · exact absurd (Nat.isDigit_of_mem_toDigits (by decide) le_rfl h) (by decide)

theorem comma_not_mem_strftime (t : DateTime) : ',' ∉ strftime t := by
  simp only [strftime, List.mem_append, List.mem_cons, comma_not_mem_pad, or_false, false_or]
  decide

/-- No value that the parser finds has a comma in it. -/
theorem IsMessage.comma_not_mem {py : Python} {text : Text} {fs : List (Text × Text)}
    (h : IsMessage py text fs) {now : DateTime} {lbl value : Text}
    (hd : fill (startDict now) (valueArgs fs) lbl = some value) : ',' ∉ value := by
  rcases fill_eq_some hd with hTime | hMem
  · rw [(startDict_eq_some hTime).2]
    exact comma_not_mem_strftime now
  · -- a part of an argument
    have hNot := h.comma _ (List.mem_of_mem_filter hMem)
    rw [encode, List.mem_append, List.mem_cons, not_or, not_or] at hNot
    exact hNot.2.2

end EnergyMeter.Datalogger
