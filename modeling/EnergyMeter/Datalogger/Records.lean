import EnergyMeter.Datalogger.Framing
import Mathlib.Data.Rat.Floor
import Mathlib.Tactic.NormNum

/-!
# Datalogger — when the records are the messages

What `client_thread` appends to the file of the site meter, for every sequence
of messages and every way to cut their bytes into the results of `recv`.

* `recordLines` — the lines of the file after the header.
* `record_spec`, `clientStep_cases` — what a parsed message does, and what a step.
* `clientThread_append` — lines are only appended, and no more of them than
  dollar signs are received.
* `clientStep_message` — a message alone is recorded with its values.
* `clientStep_cut` — anything else at the front of the stream is not.

Main result: `clientThread_records_iff` — one record per message, in order, each
with the values of its message, if and only if every call of `recv` returned
exactly one message.
-/

namespace EnergyMeter.Datalogger

open EnergyMeter.Lib EnergyMeter.Meter EAttributes

variable {params : Utils} {s : Client}

/-! ## One record -/

/-- The records in the file of the site meter: its lines after the header. -/
def recordLines (s : Client) : List Text := (s.files siteMeter).tail

/-- The file of the site meter is untouched until a file is opened. -/
def Fresh (s : Client) : Prop := s.f = false → s.files siteMeter = []

/-- The site meter is the only board so far, and no exception was raised. -/
structure Serving (s : Client) : Prop where
  alive : s.failed = false
  fresh : Fresh s
  header : s.f = true → s.files siteMeter ≠ []

theorem filename_ne {boardId : ℤ} (h : boardId ≠ 1) : filename boardId ≠ siteMeter := by
  rw [filename, if_neg h]
  intro hEq
  have hChar : some 'c' = some 's' := congrArg (fun l => l[10]?) hEq
  exact absurd hChar (by decide)

/-- The line that is written for the values of the columns. -/
def lineOf (values : List Text) : Text := (values.flatMap (· ++ [ ','])).dropLast

/-- The files once the file of a board is open. -/
def opened (params : Utils) (s : Client) (boardId : ℤ) : Text → List Text :=
  if s.f then s.files
  else Function.update s.files (filename boardId) [params.header boardId]

/-- **What a message does** to the files: the file of its board is opened, and then
either a column has no value, which is an exception, or the record is appended. -/
theorem record_spec (params : Utils) (s : Client) (d : Dict) (boardId : ℤ) :
    (s.record params d boardId).f = true ∧
      ((params.columns boardId).mapM d = none ∧ (s.record params d boardId).failed = true ∧
          (s.record params d boardId).files = opened params s boardId ∨
        ∃ values, (params.columns boardId).mapM d = some values ∧
          (s.record params d boardId).failed = s.failed ∧
          (s.record params d boardId).files =
            Function.update (opened params s boardId) (filename boardId)
              (opened params s boardId (filename boardId) ++ [lineOf values])) := by
  -- the answer to a smart plug changes none of these
  have hOpen : ((s.reply boardId).openFile params boardId).f = true ∧
      ((s.reply boardId).openFile params boardId).failed = s.failed ∧
      ((s.reply boardId).openFile params boardId).files = opened params s boardId := by
    unfold Client.openFile Client.reply opened
    by_cases hBoard : boardId = 1 <;> by_cases hf : s.f = true <;> simp [hBoard, hf]
  obtain ⟨hf, hFailed, hFiles⟩ := hOpen
  unfold Client.record
  dsimp only
  cases hCols : (params.columns boardId).mapM d with
  | none => exact ⟨hf, .inl ⟨rfl, rfl, hFiles⟩⟩
  | some values =>
    refine ⟨hf, .inr ⟨values, rfl, hFailed, ?_⟩⟩
    rw [← hFiles]
    rfl

/-- A message with all its columns: the file is opened, which empties it for the
first message of a connection, and the record is appended. -/
theorem record_files {t : Client} {d : Dict} {board : ℤ} {values : List Text}
    (hCols : (params.columns board).mapM d = some values) :
    (t.record params d board).f = true ∧
      (t.record params d board).files = Function.update t.files (filename board)
        ((if t.f then t.files (filename board) else [params.header board]) ++ [lineOf values]) := by
  obtain ⟨hf, ⟨hNone, -⟩ | ⟨values', hSome, -, hFiles⟩⟩ := record_spec params t d board
  · rw [hCols] at hNone
    cases hNone
  · obtain rfl := Option.some.inj (hCols.symm.trans hSome)
    refine ⟨hf, hFiles.trans ?_⟩
    unfold opened
    by_cases h : t.f = true
    · rw [if_pos h, if_pos h]
    · -- the header is written first, and the record over it
      rw [if_neg h, if_neg h, Function.update_self, Function.update_idem]

variable (params s) in
/-- A message of another board leaves the file of the site meter as it is. -/
theorem record_other (d : Dict) {boardId : ℤ} (h : boardId ≠ 1) :
    (s.record params d boardId).files siteMeter = s.files siteMeter ∧
      (s.record params d boardId).f = true := by
  have hNe := (filename_ne h).symm
  have hOpened : opened params s boardId siteMeter = s.files siteMeter := by
    unfold opened
    split
    · rfl
    · exact Function.update_of_ne hNe _ _
  obtain ⟨hf, ⟨-, -, hFiles⟩ | ⟨values, -, -, hFiles⟩⟩ := record_spec params s d boardId
  · exact ⟨(congrFun hFiles siteMeter).trans hOpened, hf⟩
  · refine ⟨?_, hf⟩
    rw [hFiles, Function.update_of_ne hNe, hOpened]

/-- The file of the site meter once it is open. -/
def openLines (params : Utils) (s : Client) : List Text :=
  if s.f then s.files siteMeter else [params.cmeterColumnsStr]

theorem openLines_ofLine (line : Text) (s : Client) :
    openLines (Utils.ofLine line) s = if s.f then s.files siteMeter else [line] := rfl

theorem opened_site (params : Utils) (s : Client) :
    opened params s 1 siteMeter = openLines params s := by
  unfold opened openLines
  split
  · rfl
  · exact Function.update_self siteMeter _ s.files

theorem columns_site (params : Utils) : params.columns 1 = params.cmeterColumns :=
  if_neg (by decide)

/-- A message of the site meter: a record, or an exception for a column without
a value. -/
theorem record_site (params : Utils) (s : Client) (d : Dict) :
    (s.record params d 1).f = true ∧
      (params.cmeterColumns.mapM d = none ∧ (s.record params d 1).failed = true ∧
          (s.record params d 1).files siteMeter = openLines params s ∨
        ∃ values, params.cmeterColumns.mapM d = some values ∧
          (s.record params d 1).failed = s.failed ∧
          (s.record params d 1).files siteMeter = openLines params s ++ [lineOf values]) := by
  have hSpec := record_spec params s d 1
  rw [columns_site] at hSpec
  obtain ⟨hf, ⟨hNone, hFailed, hFiles⟩ | ⟨values, hSome, hFailed, hFiles⟩⟩ := hSpec
  · refine ⟨hf, .inl ⟨hNone, hFailed, ?_⟩⟩
    rw [hFiles, opened_site]
  · refine ⟨hf, .inr ⟨values, hSome, hFailed, ?_⟩⟩
    rw [hFiles, ← opened_site]
    exact Function.update_self siteMeter _ _

/-! ## One message -/

/-- A step does nothing, or records what it has parsed. -/
theorem clientStep_cases (params : Utils) (s : Client) (recv : DateTime × Text) :
    ((s.failed = true ∨ receiveInput recv.1 recv.2 = none) ∧ clientStep params s recv = s) ∨
    ∃ d boardId, s.failed = false ∧ receiveInput recv.1 recv.2 = some (d, boardId) ∧
      clientStep params s recv = s.record params d boardId := by
  unfold clientStep
  cases hFailed : s.failed with
  | true => exact .inl ⟨.inl rfl, rfl⟩
  | false =>
    cases hReceive : receiveInput recv.1 recv.2 with
    | none => exact .inl ⟨.inr rfl, rfl⟩
    | some result => exact .inr ⟨result.1, result.2, rfl, rfl, rfl⟩

/-- A parsed message of the site meter with a value for every column. -/
theorem clientStep_site {now : DateTime} {message : Text} {d : Dict} {values : List Text}
    (hAlive : s.failed = false) (hReceive : receiveInput now message = some (d, 1))
    (hCols : params.cmeterColumns.mapM d = some values) :
    (clientStep params s (now, message)).failed = false ∧
      (clientStep params s (now, message)).files siteMeter =
        openLines params s ++ [lineOf values] := by
  have hStep : clientStep params s (now, message) = s.record params d 1 := by
    obtain ⟨hNot, -⟩ | ⟨d', board, -, hReceive', hStep⟩ := clientStep_cases params s (now, message)
    · simp [hAlive, hReceive] at hNot
    · obtain ⟨rfl, rfl⟩ := Prod.mk.inj (Option.some.inj (hReceive.symm.trans hReceive'))
      exact hStep
  rw [hStep]
  obtain ⟨-, ⟨hNone, -⟩ | ⟨values', hSome, hFailed, hFiles⟩⟩ := record_site params s d
  · -- no column is missing
    rw [hCols] at hNone
    cases hNone
  · obtain rfl := Option.some.inj (hCols.symm.trans hSome)
    exact ⟨hFailed.trans hAlive, hFiles⟩

theorem Serving.openLines_ne_nil (h : Serving s) : openLines params s ≠ [] := by
  unfold openLines
  split
  · exact h.header ‹_›
  · exact List.cons_ne_nil _ _

variable (params) in
theorem openLines_tail (h : Fresh s) : (openLines params s).tail = recordLines s := by
  unfold openLines recordLines
  cases hf : s.f with
  | true => rfl
  | false => rw [h hf]; rfl

/-! ## Lines are only appended -/

/-- Only what begins with a dollar sign is parsed. -/
theorem dollar_of_receiveInput {now : DateTime} {text : Text} {d : Dict} {boardId : ℤ}
    (h : receiveInput now text = some (d, boardId)) : 1 ≤ text.count '$' := by
  unfold receiveInput processInput at h
  split at h
  · cases h
  · rename_i ch rest hStrip
    split at h
    · rename_i hch
      have hMem : '$' ∈ rstrip text := by
        rw [hStrip, hch]
        exact List.mem_cons_self ..
      exact List.count_pos_iff.mpr ((List.rdropWhile_prefix _ _).subset hMem)
    · cases h

variable (params) in
/-- A step appends at most one record, and that for a dollar sign. -/
theorem clientStep_append (hFresh : Fresh s) (recv : DateTime × Text) :
    Fresh (clientStep params s recv) ∧
      ∃ new, recordLines (clientStep params s recv) = recordLines s ++ new ∧
        new.length ≤ recv.2.count '$' := by
  obtain ⟨-, hSame⟩ | ⟨d, boardId, -, hRecv, hStep⟩ := clientStep_cases params s recv
  · rw [hSame]
    exact ⟨hFresh, [], (List.append_nil _).symm, Nat.zero_le _⟩
  have hDollar := dollar_of_receiveInput hRecv
  rw [hStep]
  -- only the site meter writes to the file of the records
  by_cases hBoard : boardId = 1
  · subst hBoard
    obtain ⟨hf, ⟨-, -, hFiles⟩ | ⟨values, -, -, hFiles⟩⟩ := record_site params s d
    · refine ⟨fun h => absurd (hf.symm.trans h) nofun, [], ?_, Nat.zero_le _⟩
      rw [recordLines, hFiles, openLines_tail params hFresh, List.append_nil]
    · refine ⟨fun h => absurd (hf.symm.trans h) nofun, ?_⟩
      rw [recordLines, hFiles, ← openLines_tail params hFresh]
      cases hOpen : openLines params s with
      | nil => exact ⟨[], rfl, Nat.zero_le _⟩
      | cons hd tl => exact ⟨[lineOf values], rfl, hDollar⟩
  · obtain ⟨hFiles, hf⟩ := record_other params s d hBoard
    refine ⟨fun h => absurd (hf.symm.trans h) nofun, [], ?_, Nat.zero_le _⟩
    rw [recordLines, hFiles, List.append_nil]
    rfl

variable (params) in
theorem clientThread_append (hFresh : Fresh s) (recvs : List (DateTime × Text)) :
    ∃ new, recordLines (clientThread params s recvs) = recordLines s ++ new ∧
      new.length ≤ (recvs.map Prod.snd).flatten.count '$' := by
  induction recvs generalizing s with
  | nil => exact ⟨[], (List.append_nil _).symm, Nat.zero_le _⟩
  | cons recv recvs ih =>
    obtain ⟨hFresh', new, hNew, hLen⟩ := clientStep_append params hFresh recv
    obtain ⟨more, hMore, hLen'⟩ := ih hFresh'
    refine ⟨new ++ more, ?_, ?_⟩
    · show recordLines (clientThread params (clientStep params s recv) recvs) = _
      rw [hMore, hNew, List.append_assoc]
    · rw [List.map_cons, List.flatten_cons, List.count_append, List.length_append]
      omega

/-! ## The line of a record -/

theorem lineOf_eq {values : List Text} (h : values ≠ []) :
    lineOf values = [ ','].intercalate values :=
  dropLast_flatMap_comma h

/-- No value that the parser finds has a comma in it. -/
theorem comma_not_mem_dict {now : DateTime} {c : Text} {d : Dict} {boardId : ℤ}
    (h : processInput now c = some (d, boardId)) {lbl value : Text} (hd : d lbl = some value) :
    ',' ∉ value := by
  obtain ⟨fs, hMessage, rfl, -⟩ :=
    Python.processInput_eq_some_iff.mp (ascii_processInput ▸ h)
  exact hMessage.comma_not_mem hd

section Framing

variable {R : Type} [Field R] [LinearOrder R] [FloorRing R] {value : Fin 3 → EAttributes → R}

/-- The line of a record with the values of a message, at some time. -/
def IsRecord (value : Fin 3 → EAttributes → R) (line : Text) : Prop :=
  ∃ t, line = [ ','].intercalate (strftime t :: rowValues value)

theorem comma_not_mem_row (t : DateTime) : ∀ l ∈ strftime t :: rowValues value, ',' ∉ l := by
  refine List.forall_mem_cons.mpr ⟨comma_not_mem_strftime t, fun l hl => ?_⟩
  rw [← fields_values, List.mem_map] at hl
  obtain ⟨f, hf, rfl⟩ := hl
  obtain ⟨-, c, a, hv⟩ := mem_fields hf
  rw [hv]
  exact not_mem_twoDecimals (by simp only [valueChar]; decide) _

/-- A record with the values of a message gives the last column its value. -/
theorem lastColumn_of_isRecord {now : DateTime} {c : Text} {d : Dict} {boardId : ℤ}
    (h : processInput now c = some (d, boardId)) {values : List Text}
    (hCols : ("time".toList :: columnNames).mapM d = some values)
    (hRecord : IsRecord value (lineOf values)) :
    d lastColumn = some (twoDecimals (value 2 ATTR_VF)) := by
  obtain ⟨t, hLine⟩ := hRecord
  have hForall := mapM_eq_some_iff.mp hCols
  have hNe : values ≠ [] := by
    rintro rfl
    cases hForall
  have hComma : ∀ l ∈ values, ',' ∉ l := by
    intro l hl
    obtain ⟨lbl, hd⟩ := exists_of_mem_mapM hCols hl
    exact comma_not_mem_dict h hd
  -- both sides are split at their commas again
  have hValues : values = strftime t :: rowValues value := by
    have hSplit := congrArg (List.splitOn ',') (lineOf_eq hNe ▸ hLine)
    rwa [List.splitOn_intercalate ',' hComma hNe,
      List.splitOn_intercalate ',' (comma_not_mem_row t) (List.cons_ne_nil _ _)] at hSplit
  rw [hValues, List.forall₂_cons, ← fields_names value, ← fields_values,
    forall₂_fields_iff] at hForall
  obtain ⟨init, hFields, -⟩ := fields_last value
  exact hForall.2 (lastColumn, _) (hFields ▸ List.mem_append_right _ (List.mem_singleton_self _))

/-! ## The front of the stream -/

variable (value) in
/-- A message alone is recorded with its values. -/
theorem clientStep_message (h : Serving s)
    (hCols : params.cmeterColumns = "time".toList :: columnNames) (now : DateTime) :
    Serving (clientStep params s (now, messageText value)) ∧
      ∃ line, IsRecord value line ∧
        recordLines (clientStep params s (now, messageText value)) = recordLines s ++ [line] := by
  have hMapM : params.cmeterColumns.mapM (fill (startDict now) (fields value)) =
      some (strftime now :: rowValues value) := hCols ▸ mapM_message value now
  obtain ⟨hAlive, hFiles⟩ := clientStep_site h.alive (receiveInput_message value now) hMapM
  obtain ⟨hFresh, -⟩ := clientStep_append params h.fresh (now, messageText value)
  refine ⟨⟨hAlive, hFresh, fun _ => ?_⟩, lineOf (strftime now :: rowValues value), ?_, ?_⟩
  · rw [hFiles]
    exact List.append_ne_nil_of_right_ne_nil _ (List.cons_ne_nil _ _)
  · exact ⟨now, lineOf_eq (List.cons_ne_nil _ _)⟩
  · rw [recordLines, hFiles, List.tail_append_of_ne_nil h.openLines_ne_nil,
      openLines_tail params h.fresh]

/-- What is received at the front of the stream, and is not the message, gives
no record, or one without the values of the message. -/
theorem clientStep_cut (h : Serving s)
    (hCols : params.cmeterColumns = "time".toList :: columnNames) {recv : DateTime × Text}
    {t : Text} (hCut : recv.2 <+: messageText value ++ t) (ht : Follows t)
    (hPrint : ∀ ch ∈ recv.2, 33 ≤ ch.toNat) (hNe : recv.2 ≠ messageText value) :
    recordLines (clientStep params s recv) = recordLines s ∨
      ∃ line, ¬IsRecord value line ∧
        recordLines (clientStep params s recv) = recordLines s ++ [line] := by
  obtain ⟨-, hSame⟩ | ⟨d, boardId, -, hReceive, hStep⟩ := clientStep_cases params s recv
  · exact .inl (by rw [hSame])
  have hParse : processInput recv.1 recv.2 = some (d, boardId) := by
    rwa [receiveInput, rstrip_of_printable hPrint] at hReceive
  rw [hStep]
  by_cases hBoard : boardId = 1
  · subst hBoard
    obtain ⟨-, ⟨-, -, hFiles⟩ | ⟨values, hSome, -, hFiles⟩⟩ := record_site params s d
    · -- a column without a value: the file is opened, but nothing is recorded
      exact .inl (by rw [recordLines, hFiles, openLines_tail params h.fresh])
    · refine .inr ⟨lineOf values, fun hRecord => hNe ?_, ?_⟩
      · exact processInput_cut hCut ht hParse
          (lastColumn_of_isRecord hParse (hCols ▸ hSome) hRecord)
      · rw [recordLines, hFiles, List.tail_append_of_ne_nil h.openLines_ne_nil,
          openLines_tail params h.fresh]
  -- another board has another file
  · exact .inl (by rw [recordLines, (record_other params s d hBoard).1]; rfl)

/-! ## The stream -/

theorem count_messageText (value : Fin 3 → EAttributes → R) : (messageText value).count '$' = 1 := by
  have hNot : '$' ∉ [ ','].intercalate (args value) := by
    intro h
    rcases mem_intercalate_comma h with h | ⟨arg, hArg, h⟩
    · exact absurd h (by decide)
    · exact dollar_not_mem_args arg hArg h
  rw [messageText_args, List.count_cons_self, List.count_eq_zero_of_not_mem hNot]

theorem count_messages (vs : List (Fin 3 → EAttributes → R)) :
    ((vs.map messageText).flatten).count '$' = vs.length := by
  induction vs with
  | nil => rfl
  | cons v vs ih =>
    rw [List.map_cons, List.flatten_cons, List.count_append, count_messageText, ih, List.length_cons]
    omega

theorem follows_messages (vs : List (Fin 3 → EAttributes → R)) :
    Follows (vs.map messageText).flatten := by
  cases vs with
  | nil => exact .inl rfl
  | cons v vs =>
    refine .inr ⟨[ ','].intercalate (items v) ++ (vs.map messageText).flatten, ?_⟩
    rw [List.map_cons, List.flatten_cons, messageText_eq]
    rfl

theorem messages_printable (vs : List (Fin 3 → EAttributes → R)) :
    ∀ ch ∈ (vs.map messageText).flatten, 33 ≤ ch.toNat := by
  intro ch hch
  obtain ⟨l, hl, hch⟩ := List.mem_flatten.mp hch
  obtain ⟨v, -, rfl⟩ := List.mem_map.mp hl
  exact (messageText_printable ch hch).1

/-- A message received alone: its record comes first, and the rest is as if the
stream began there. -/
theorem records_message (h : Serving s)
    (hCols : params.cmeterColumns = "time".toList :: columnNames) {recv : DateTime × Text}
    {v : Fin 3 → EAttributes → R} (vs : List (Fin 3 → EAttributes → R))
    (recvs : List (DateTime × Text)) (hEq : recv.2 = messageText v) :
    Serving (clientStep params s recv) ∧
      ((∃ new, recordLines (clientThread params (clientStep params s recv) recvs) =
          recordLines s ++ new ∧ List.Forall₂ IsRecord (v :: vs) new) ↔
        ∃ new, recordLines (clientThread params (clientStep params s recv) recvs) =
          recordLines (clientStep params s recv) ++ new ∧ List.Forall₂ IsRecord vs new) := by
  obtain ⟨hServing, line, hRecord, hLine⟩ := clientStep_message v h hCols recv.1
  rw [← hEq] at hServing hLine
  refine ⟨hServing, ?_⟩
  rw [hLine]
  constructor
  -- the first record is the one of this message, for lines are only appended
  · rintro ⟨new, hNew, hAll⟩
    obtain ⟨more, hMore, -⟩ := clientThread_append params hServing.fresh recvs
    cases hAll with
    | cons hFirst hAll =>
      rw [hMore, hLine, List.append_assoc, List.append_cancel_left_eq] at hNew
      obtain ⟨rfl, rfl⟩ := List.cons.inj hNew
      exact ⟨more, by rw [hMore, hLine], hAll⟩
  · rintro ⟨new, hNew, hAll⟩
    exact ⟨line :: new, by rw [hNew, List.append_assoc]; rfl, .cons hRecord hAll⟩

/-- Something else at the front of the stream: there is no record, or a wrong one,
and what is left cannot make up for it. -/
theorem records_cut (h : Serving s)
    (hCols : params.cmeterColumns = "time".toList :: columnNames) {recv : DateTime × Text}
    {v : Fin 3 → EAttributes → R} {vs : List (Fin 3 → EAttributes → R)}
    {recvs : List (DateTime × Text)}
    (hStream : recv.2 ++ (recvs.map Prod.snd).flatten =
      messageText v ++ (vs.map messageText).flatten)
    (hNonempty : recv.2 ≠ []) (hNe : recv.2 ≠ messageText v) :
    ¬∃ new, recordLines (clientThread params (clientStep params s recv) recvs) =
      recordLines s ++ new ∧ List.Forall₂ IsRecord (v :: vs) new := by
  rintro ⟨new, hNew, hAll⟩
  have hCut : recv.2 <+: messageText v ++ (vs.map messageText).flatten := ⟨_, hStream⟩
  have hPrint : ∀ ch ∈ recv.2, 33 ≤ ch.toNat := fun ch hch =>
    messages_printable (v :: vs) ch (hCut.subset hch)
  -- the rest of the run adds at most one record for a dollar sign that is left
  obtain ⟨more, hMore, hLen⟩ := clientThread_append params
    (clientStep_append params h.fresh recv).1 recvs
  rw [hMore] at hNew
  rcases clientStep_cut h hCols hCut (follows_messages vs) hPrint hNe with
    hSame | ⟨line, hNot, hLine⟩
  · -- the dollar sign of this message is gone
    rw [hSame, List.append_cancel_left_eq] at hNew
    subst hNew
    have hRecords := hAll.length_eq
    have hCount := congrArg (List.count '$') hStream
    rw [List.count_append, List.count_append, count_messageText, count_messages] at hCount
    have hDollar : 1 ≤ recv.2.count '$' := by
      have hRest : messageText v = '$' :: _ := messageText_args
      obtain ⟨ch, tail, hRecv⟩ := List.exists_cons_of_ne_nil hNonempty
      rw [hRecv, hRest, List.cons_append, List.cons_prefix_cons] at hCut
      rw [hRecv, hCut.1, List.count_cons_self]
      omega
    rw [List.length_cons] at hRecords
    omega
  · rw [hLine, List.append_assoc, List.append_cancel_left_eq] at hNew
    subst hNew
    cases hAll with
    | cons hFirst _ => exact hNot hFirst

/-- The induction over the messages, from any state in which the thread serves
the site meter. -/
theorem clientThread_records (hCols : params.cmeterColumns = "time".toList :: columnNames)
    (vs : List (Fin 3 → EAttributes → R)) {recvs : List (DateTime × Text)} (h : Serving s)
    (hStream : (recvs.map Prod.snd).flatten = (vs.map messageText).flatten)
    (hNonempty : ∀ recv ∈ recvs, recv.2 ≠ []) :
    (∃ new, recordLines (clientThread params s recvs) = recordLines s ++ new ∧
      List.Forall₂ IsRecord vs new) ↔ recvs.map Prod.snd = vs.map messageText := by
  induction vs generalizing s recvs with
  | nil =>
    cases recvs with
    | nil => exact ⟨fun _ => rfl, fun _ => ⟨[], (List.append_nil _).symm, .nil⟩⟩
    | cons recv recvs =>
      exact absurd (List.append_eq_nil_iff.mp hStream).1 (hNonempty recv (List.mem_cons_self ..))
  | cons v vs ih =>
    cases recvs with
    | nil =>
      rw [List.map_cons, List.flatten_cons, messageText_args] at hStream
      cases hStream
    | cons recv recvs =>
      obtain ⟨hFirst, hRest⟩ := List.forall_mem_cons.mp hNonempty
      simp only [List.map_cons, List.flatten_cons] at hStream ⊢
      show (∃ new, recordLines (clientThread params (clientStep params s recv) recvs) = _ ∧ _) ↔ _
      -- the first result is the first message, or it is cut or joined to the next
      by_cases hEq : recv.2 = messageText v
      · obtain ⟨hServing, hIff⟩ := records_message h hCols vs recvs hEq
        rw [hEq, List.append_cancel_left_eq] at hStream
        rw [hIff, ih hServing hStream hRest, hEq, List.cons_inj_right]
      · exact iff_of_false (records_cut h hCols hStream hFirst hEq)
          fun hMap => hEq (List.cons.inj hMap).1

/-- **When the records are the messages.** For every sequence of messages and
every way in which the network cuts and joins their bytes into the non-empty
results of `recv`: the records are one per message, in order, each with the
values of its message, if and only if each result is exactly one message. -/
theorem clientThread_records_iff (vs : List (Fin 3 → EAttributes → R))
    {recvs : List (DateTime × Text)}
    (hStream : (recvs.map Prod.snd).flatten = (vs.map messageText).flatten)
    (hNonempty : ∀ recv ∈ recvs, recv.2 ≠ []) :
    List.Forall₂ IsRecord vs
        (recordLines (clientThread (Utils.ofLine cmeterParamsTri) Client.start recvs)) ↔
      recvs.map Prod.snd = vs.map messageText := by
  have hStart : Serving Client.start := ⟨rfl, fun _ => rfl, nofun⟩
  rw [← clientThread_records cmeterColumns_tri vs hStart hStream hNonempty]
  constructor
  · intro h
    exact ⟨_, (List.nil_append _).symm, h⟩
  · rintro ⟨new, hNew, hAll⟩
    rw [hNew]
    exact hAll

end Framing

/-- A second in which every mean is zero. -/
def zeroMeans : Fin 3 → EAttributes → ℚ := fun _ _ => 0

def noon : DateTime := { year := 2020, month := 6, day := 28, hour := 12, minute := 0, second := 0 }

def zeroText : Text :=
  messageHeader ++ [ ','].intercalate (columnNames.map fun n => encode (n, "0.00".toList))

theorem messageText_zeroMeans : messageText zeroMeans = zeroText := by
  have hZero : twoDecimals (0 : ℚ) = "0.00".toList := by
    simp [twoDecimals, roundHalfEven]
  rw [messageText_eq, items_eq, zeroText]
  simp only [fields, zeroMeans, hZero, columnNames]
  rfl

theorem clientThread_records_iff_two :
    List.Forall₂ IsRecord [zeroMeans, zeroMeans]
      (recordLines (clientThread (Utils.ofLine cmeterParamsTri) Client.start
        [(noon, messageText zeroMeans), (noon, messageText zeroMeans)])) :=
  (clientThread_records_iff [zeroMeans, zeroMeans] rfl (by simp [messageText_args])).mpr rfl

set_option maxRecDepth 4000 in
/-- One message in two parts, the first of ten bytes: nothing is recorded. -/
theorem clientThread_cut_message :
    let recvs := [(noon, zeroText.take 10), (noon, zeroText.drop 10)]
    (recvs.map Prod.snd).flatten = ([zeroMeans].map messageText).flatten ∧
      (∀ recv ∈ recvs, recv.2 ≠ [] ∧ recv.2.length ≤ 500) ∧
      recordLines (clientThread (Utils.ofLine cmeterParamsTri) Client.start recvs) = [] ∧
      ¬List.Forall₂ IsRecord [zeroMeans]
        (recordLines (clientThread (Utils.ofLine cmeterParamsTri) Client.start recvs)) := by
  intro recvs
  have hNone : recordLines (clientThread (Utils.ofLine cmeterParamsTri) Client.start recvs) = [] :=
    rfl
  refine ⟨?_, by decide, hNone, ?_⟩
  · rw [List.map_singleton, messageText_zeroMeans]
    simp [recvs]
  · rw [hNone]
    exact nofun

end EnergyMeter.Datalogger
