import EnergyMeter.Datalogger.Records
import EnergyMeter.Lib.Run
import Mathlib.Data.Set.Finite.Basic
import Mathlib.Order.Interval.Finset.Nat

/-!
# Datalogger — what a thread survives

`process_input` catches whatever is raised in it, and nothing else of the loop
is inside a `try`: bytes that do not decode, a column without a value, a board
that has gone or a file that cannot be opened end the thread, and the end of the
stream does not.

* `clientRound_*` — a round that does not decode, that brings no message, and
  that brings one.
* `Serves`, `InOrder` — what a message needs for nothing to be raised, and for
  the file to be as it is meant to.

Main results:

* `clientRounds_survives_iff` — all rounds of a run go as they are meant to,
  exactly where all chunks decode and all messages are complete and in order.
* `iterations_finite_iff` — the loop ends, after the client has gone, exactly if
  something the client had sent has raised an exception.
-/

namespace EnergyMeter.Datalogger

open EnergyMeter.Lib EnergyMeter.Meter

/-! ## Bytes -/

/-- `text.encode("utf8")`. -/
def utf8 (text : Text) : List UInt8 := text.flatMap String.utf8EncodeChar

/-- The strict decoder takes what is the encoding of a text. -/
theorem decode_eq_some_iff {bytes : List UInt8} {text : Text} :
    decode bytes = some text ↔ bytes = utf8 text := by
  have hEncode : text.utf8Encode = (utf8 text).toByteArray := rfl
  unfold decode
  constructor
  · intro h
    obtain ⟨chars, hChars, rfl⟩ := Option.map_eq_some_iff.mp h
    -- what decodes is encoded to the same bytes again
    have hSome : bytes.toByteArray.utf8Decode?.isSome := by rw [hChars]; rfl
    have hBytes := ByteArray.utf8Encode_get_utf8Decode? (h := hSome)
    simp only [hChars, Option.get_some, hEncode] at hBytes
    have hData := congrArg (fun b => b.data.toList) hBytes
    simp only [List.toList_data_toByteArray] at hData
    exact hData.symm
  · rintro rfl
    rw [← hEncode, List.utf8Decode?_utf8Encode]
    rfl

theorem decode_eq_none_iff {bytes : List UInt8} :
    decode bytes = none ↔ ∀ text, bytes ≠ utf8 text := by
  rw [Option.eq_none_iff_forall_ne_some]
  exact forall_congr' fun text => not_congr decode_eq_some_iff

namespace Round

variable {py : Python} {r : Round} {fs : List (Text × Text)}

/-- The message that a round accepts. -/
def message (py : Python) (r : Round) : Option (Dict × ℤ) :=
  (decode r.bytes).bind (py.receiveInput r.now)

/-- What is received is a message with the arguments `fs`, and perhaps white
space behind it. -/
def Brings (py : Python) (r : Round) (fs : List (Text × Text)) : Prop :=
  ∃ text, r.bytes = utf8 text ∧ IsMessage py (py.rstrip text) fs

theorem message_eq_some_iff {d : Dict} {board : ℤ} :
    r.message py = some (d, board) ↔
      ∃ fs, r.Brings py fs ∧ d = fill (startDict r.now) (valueArgs fs) ∧ board = boardOf py fs := by
  unfold message Brings
  rw [Option.bind_eq_some_iff]
  constructor
  · rintro ⟨text, hDecode, hReceive⟩
    obtain ⟨fs, hMessage, hd, hBoard⟩ := Python.processInput_eq_some_iff.mp hReceive
    exact ⟨fs, ⟨text, decode_eq_some_iff.mp hDecode, hMessage⟩, hd, hBoard⟩
  · rintro ⟨fs, ⟨text, hBytes, hMessage⟩, hd, hBoard⟩
    exact ⟨text, decode_eq_some_iff.mpr hBytes,
      Python.processInput_eq_some_iff.mpr ⟨fs, hMessage, hd, hBoard⟩⟩

theorem not_brings (h : r.message py = none) : ¬r.Brings py fs := by
  intro hBrings
  have hSome := message_eq_some_iff.mpr ⟨fs, hBrings, rfl, rfl⟩
  exact absurd (h.symm.trans hSome) nofun

/-- A round brings one message. -/
theorem forall_brings_iff {P : Dict → ℤ → Prop} {d : Dict} {board : ℤ}
    (h : r.message py = some (d, board)) :
    (∀ fs, r.Brings py fs → P (fill (startDict r.now) (valueArgs fs)) (boardOf py fs)) ↔
      P d board := by
  constructor
  · intro hAll
    obtain ⟨fs, hBrings, rfl, rfl⟩ := message_eq_some_iff.mp h
    exact hAll fs hBrings
  · intro hP fs hBrings
    have hSame := message_eq_some_iff.mpr ⟨fs, hBrings, rfl, rfl⟩
    obtain ⟨rfl, rfl⟩ := Prod.mk.inj (Option.some.inj (h.symm.trans hSame))
    exact hP

/-- No value of a message has a comma in it. -/
theorem comma_not_mem_of_message {d : Dict} {board : ℤ} (h : r.message py = some (d, board))
    {lbl value : Text} (hd : d lbl = some value) : ',' ∉ value := by
  obtain ⟨fs, ⟨text, -, hMessage⟩, rfl, -⟩ := message_eq_some_iff.mp h
  exact hMessage.comma_not_mem hd

/-- A text that is received with nothing in the way of an answer and of a file. -/
def ofText (now : DateTime) (text : Text) : Round :=
  { now, bytes := utf8 text, sends := true, opens := fun _ => true, writes := true }

theorem decode_ofText (now : DateTime) (text : Text) :
    decode (ofText now text).bytes = some text :=
  decode_eq_some_iff.mpr rfl

theorem bytes_ofText_cons (now : DateTime) (ch : Char) (text : Text) :
    (ofText now (ch :: text)).bytes ≠ [] := by
  intro hNil
  have hDecode : decode [] = some (ch :: text) := hNil ▸ decode_ofText now (ch :: text)
  cases (decode_eq_some_iff.mpr rfl : decode [] = some []).symm.trans hDecode

theorem message_ofText (now : DateTime) (text : Text) :
    (ofText now text).message py = py.receiveInput now text := by
  rw [message, decode_ofText]
  rfl

/-- Once the client has gone. -/
def ended (r : Round) : Round := { r with bytes := [] }

theorem decode_ended (r : Round) : decode r.ended.bytes = some [] :=
  decode_eq_some_iff.mpr rfl

/-- The end of the stream looks like a message that is not accepted. -/
theorem message_ended (py : Python) (r : Round) : r.ended.message py = none := by
  rw [message, decode_ended]
  rfl

end Round

/-! ## A round -/

section Round

variable {py : Python} {params : Utils} {s : Client} {r : Round} {d : Dict} {board : ℤ}

theorem clientRound_failed (h : s.failed = true) : clientRound py params s r = s := if_pos h

theorem clientRound_undecodable (hAlive : s.failed = false) (h : decode r.bytes = none) :
    clientRound py params s r = { s with failed := true } := by
  rw [clientRound, hAlive, h]
  rfl

theorem clientRound_rejected (hAlive : s.failed = false) {text : Text}
    (hDecode : decode r.bytes = some text) (h : r.message py = none) :
    clientRound py params s r = s := by
  have hReceive : py.receiveInput r.now text = none := by
    rwa [Round.message, hDecode] at h
  rw [clientRound, hAlive, hDecode]
  simp only [hReceive]
  rfl

theorem clientRound_message (hAlive : s.failed = false) (h : r.message py = some (d, board)) :
    clientRound py params s r = s.serve params r d board := by
  obtain ⟨text, hDecode, hReceive⟩ := Option.bind_eq_some_iff.mp h
  rw [clientRound, hAlive, hDecode]
  simp only [hReceive]
  rfl

/-- What a round does: no message changes nothing, or ends the thread, and a message
is served. -/
theorem clientRound_cases (py : Python) (params : Utils) (s : Client) (r : Round) :
    ((s.failed = true ∨ r.message py = none) ∧
      (clientRound py params s r = s ∨ clientRound py params s r = { s with failed := true })) ∨
    ∃ d board, s.failed = false ∧ r.message py = some (d, board) ∧
      clientRound py params s r = s.serve params r d board := by
  cases hFailed : s.failed with
  | true => exact .inl ⟨.inl rfl, .inl (clientRound_failed hFailed)⟩
  | false =>
    cases hMessage : r.message py with
    | some result => exact .inr ⟨_, _, rfl, rfl, clientRound_message hFailed hMessage⟩
    | none =>
      refine .inl ⟨.inr rfl, ?_⟩
      cases hDecode : decode r.bytes with
      | none => exact .inr (clientRound_undecodable hFailed hDecode)
      | some text => exact .inl (clientRound_rejected hFailed hDecode hMessage)

theorem serve_ofText (now : DateTime) (text : Text) :
    s.serve params (Round.ofText now text) d board = s.record params d board := by
  rw [Client.serve, if_neg (by simp [Round.ofText]), if_neg (by simp [Round.ofText])]
  exact if_pos rfl

/-- On ASCII, and with nothing in the way, a round is the step for its text. -/
theorem clientRound_ascii (params : Utils) (s : Client) (now : DateTime) (text : Text) :
    clientRound Python.ascii params s (Round.ofText now text) =
      clientStep params s (now, text) := by
  unfold clientRound clientStep
  simp only [Round.decode_ofText, serve_ofText]
  rfl

/-! ## A message -/

/-- The answer to a message can be sent, and its file opened. -/
structure Round.Opens (r : Round) (board : ℤ) : Prop where
  sends : board = 1 ∨ r.sends = true
  opens : r.opens (filename board) = true

/-- The system lets a message through: the file can be written as well. -/
structure Round.Reaches (r : Round) (board : ℤ) : Prop extends r.Opens board where
  writes : r.writes = true

/-- Nothing raises where a message is served: it is let through, and every column
has a value. -/
structure Serves (params : Utils) (r : Round) (d : Dict) (board : ℤ) : Prop
    extends r.Reaches board where
  columns : ∀ c ∈ params.columns board, ∃ v, d c = some v

/-- The values do not break their line, and the first message of a connection
finds its file new, or with nothing but its header, and a later one does not
find it new. -/
structure InOrder (params : Utils) (s : Client) (d : Dict) (board : ℤ) : Prop where
  unbroken : ∀ c ∈ params.columns board, ∀ v, d c = some v → '\n' ∉ v ∧ '\r' ∉ v
  first : s.f = false →
    s.files (filename board) = [] ∨ s.files (filename board) = [params.header board]
  later : s.f = true → s.files (filename board) ≠ []

/-- The value of a field of one line. -/
def IsField (v : Text) : Prop := ',' ∉ v ∧ '\n' ∉ v ∧ '\r' ∉ v

/-- The lines of a board's file, or the header where there are none. -/
def linesOrHeader (params : Utils) (s : Client) (board : ℤ) : List Text :=
  if s.files (filename board) = [] then [params.header board] else s.files (filename board)

/-- One line with one field for every column, in their order, is appended to the
file of the board, after the header if the file is new. -/
def Appended (params : Utils) (s s' : Client) (d : Dict) (board : ℤ) : Prop :=
  ∃ fields, List.Forall₂ (fun c v => d c = some v ∧ IsField v) (params.columns board) fields ∧
    s'.files = Function.update s.files (filename board)
      (linesOrHeader params s board ++ [[ ','].intercalate fields])

variable (params s r d board) in
/-- **What the system does with a message**: it lets it through to the record, or
the thread ends, and the file is left as it was, or emptied by the first `open`
of the thread. -/
theorem serve_reaches :
    (r.Reaches board ∧ s.serve params r d board = s.record params d board) ∨
    ¬r.Reaches board ∧ (s.serve params r d board).failed = true ∧
      ((r.Opens board ∧ s.f = false ∧
          (s.serve params r d board).files = Function.update s.files (filename board) []) ∨
        ¬(r.Opens board ∧ s.f = false) ∧ (s.serve params r d board).files = s.files) := by
  unfold Client.serve
  have hReply : (s.reply board).files = s.files ∧ (s.reply board).f = s.f := by
    unfold Client.reply
    split <;> exact ⟨rfl, rfl⟩
  by_cases hSends : board ≠ 1 ∧ r.sends = false
  -- the board has gone before its answer
  · have hNot : ¬r.Opens board := by
      intro h
      rcases h.sends with hBoard | hTrue
      · exact hSends.1 hBoard
      · exact absurd (hSends.2.symm.trans hTrue) nofun
    rw [if_pos hSends]
    exact .inr ⟨fun h => hNot h.toOpens, rfl, .inr ⟨fun h => hNot h.1, rfl⟩⟩
  rw [if_neg hSends]
  cases hOpens : r.opens (filename board) with
  | false =>
    have hNot : ¬r.Opens board := fun h => absurd (hOpens.symm.trans h.opens) nofun
    rw [if_pos rfl]
    exact .inr ⟨fun h => hNot h.toOpens, rfl, .inr ⟨fun h => hNot h.1, hReply.1⟩⟩
  | true =>
    have hAnswer : board = 1 ∨ r.sends = true := by
      rcases not_and_or.mp hSends with h | h
      · exact .inl (not_not.mp h)
      · exact .inr (Bool.not_eq_false _ |>.mp h)
    rw [if_neg Bool.noConfusion]
    cases hWrites : r.writes with
    | true =>
      rw [if_pos rfl]
      exact .inl ⟨⟨⟨hAnswer, hOpens⟩, hWrites⟩, rfl⟩
    | false =>
      rw [if_neg Bool.noConfusion]
      refine .inr ⟨fun h => absurd (hWrites.symm.trans h.writes) nofun, rfl, ?_⟩
      dsimp only
      rw [Client.truncate, hReply.1, hReply.2]
      cases hf : s.f with
      | true => exact .inr ⟨fun h => absurd h.2 nofun, hReply.1⟩
      | false => exact .inl ⟨⟨hAnswer, hOpens⟩, rfl, rfl⟩

variable (s r) in
/-- The file of a message that has all its columns. -/
theorem serve_lines {values : List Text} (hCols : (params.columns board).mapM d = some values) :
    ∃ lines, (s.serve params r d board).files = Function.update s.files (filename board) lines ∧
      ((r.Reaches board ∧ (s.serve params r d board).f = true ∧
          lines = (if s.f then s.files (filename board) else [params.header board]) ++
            [lineOf values]) ∨
        ¬r.Reaches board ∧ (s.serve params r d board).failed = true ∧
          ((r.Opens board ∧ s.f = false ∧ lines = []) ∨
            ¬(r.Opens board ∧ s.f = false) ∧ lines = s.files (filename board))) := by
  obtain ⟨hReaches, hServe⟩ | ⟨hNot, hFailed, ⟨hOpens, hf, hFiles⟩ | ⟨hLeft, hFiles⟩⟩ :=
    serve_reaches params s r d board
  · obtain ⟨hf, hFiles⟩ := record_files (t := s) hCols
    rw [hServe]
    exact ⟨_, hFiles, .inl ⟨hReaches, hf, rfl⟩⟩
  · exact ⟨[], hFiles, .inr ⟨hNot, hFailed, .inl ⟨hOpens, hf, rfl⟩⟩⟩
  · refine ⟨s.files (filename board), ?_, .inr ⟨hNot, hFailed, .inr ⟨hLeft, rfl⟩⟩⟩
    rw [hFiles, Function.update_eq_self]

variable (params r d board) in
/-- **What serving a message does**: the record is written, or the thread ends. -/
theorem serve_cases (hAlive : s.failed = false) :
    (¬Serves params r d board ∧ (s.serve params r d board).failed = true) ∨
    ∃ values, Serves params r d board ∧ (params.columns board).mapM d = some values ∧
      (s.serve params r d board).failed = false ∧
      (s.serve params r d board).files = Function.update s.files (filename board)
        ((if s.f then s.files (filename board) else [params.header board]) ++
          [lineOf values]) := by
  obtain ⟨hReaches, hServe⟩ | ⟨hNot, hFailed, -⟩ := serve_reaches params s r d board
  · rw [hServe]
    obtain ⟨-, ⟨hNone, hFailed, -⟩ | ⟨values, hSome, hFailed, -⟩⟩ := record_spec params s d board
    · -- `KeyError`, after the file has been opened
      refine .inl ⟨fun h => ?_, hFailed⟩
      obtain ⟨values, hAll⟩ := exists_forall₂_iff.mpr h.columns
      exact absurd (hNone.symm.trans (mapM_eq_some_iff.mpr hAll)) nofun
    · have hAll := exists_forall₂_iff.mp ⟨values, mapM_eq_some_iff.mp hSome⟩
      exact .inr ⟨values, ⟨hReaches, hAll⟩, hSome, hFailed.trans hAlive, (record_files hSome).2⟩
  · exact .inl ⟨fun h => hNot h.toReaches, hFailed⟩

theorem serve_failed_iff (hAlive : s.failed = false) :
    (s.serve params r d board).failed = true ↔ ¬Serves params r d board := by
  obtain ⟨hNot, hFailed⟩ | ⟨values, hServes, -, hFailed, -⟩ := serve_cases params r d board hAlive
  · exact iff_of_true hFailed hNot
  · rw [hFailed]
    exact iff_of_false nofun (not_not.mpr hServes)

/-- The file is what it is meant to be where the message comes in order. -/
theorem linesOrHeader_eq_iff :
    (if s.f then s.files (filename board) else [params.header board]) =
        linesOrHeader params s board ↔
      (s.f = false →
        s.files (filename board) = [] ∨ s.files (filename board) = [params.header board]) ∧
      (s.f = true → s.files (filename board) ≠ []) := by
  unfold linesOrHeader
  cases s.f <;> by_cases hFile : s.files (filename board) = [] <;> simp [hFile, eq_comm]

theorem serve_appended_iff (hAlive : s.failed = false)
    (hComma : ∀ c v, d c = some v → ',' ∉ v) :
    ((s.serve params r d board).failed = false ∧
        Appended params s (s.serve params r d board) d board) ↔
      Serves params r d board ∧ InOrder params s d board := by
  obtain ⟨hNot, hFailed⟩ | ⟨values, hServes, hSome, hFailed, hFiles⟩ :=
    serve_cases params r d board hAlive
  · refine iff_of_false (fun h => ?_) fun h => hNot h.1
    exact absurd (hFailed.symm.trans h.1) nofun
  have hValues := mapM_eq_some_iff.mp hSome
  have hLine : lineOf values = [ ','].intercalate values := by
    cases values with
    | nil => rfl
    | cons v values => exact lineOf_eq (List.cons_ne_nil v values)
  unfold Appended
  rw [hFiles, hLine]
  constructor
  · rintro ⟨-, fields, hFields, hEq⟩
    -- the two files are compared at the board, without their last lines
    have hLines := congrFun hEq (filename board)
    rw [Function.update_self, Function.update_self] at hLines
    obtain ⟨hFirst, hLater⟩ := linesOrHeader_eq_iff.mp (List.append_inj_left' hLines rfl)
    refine ⟨hServes, ⟨fun c hc v hv => ?_, hFirst, hLater⟩⟩
    obtain ⟨v', hv', -, hBreaks⟩ := exists_forall₂_iff.mp ⟨fields, hFields⟩ c hc
    obtain rfl := Option.some.inj (hv.symm.trans hv')
    exact hBreaks
  · rintro ⟨-, hOrder⟩
    refine ⟨hFailed, values, ?_, ?_⟩
    · refine (List.forall₂_iff_zip.mpr ⟨hValues.length_eq, fun {c v} hMem => ?_⟩)
      have hv := (List.forall₂_iff_zip.mp hValues).2 hMem
      exact ⟨hv, hComma c v hv, hOrder.unbroken c (List.of_mem_zip hMem).1 v hv⟩
    · rw [linesOrHeader_eq_iff.mpr ⟨hOrder.first, hOrder.later⟩]

/-! ## What is meant to happen -/

/-- A round goes as it is meant to: the thread goes on, and a message that is
accepted is one line of its file, and what is not leaves the files alone. -/
def Survives (py : Python) (params : Utils) (s : Client) (r : Round) : Prop :=
  (clientRound py params s r).failed = false ∧
    match r.message py with
    | none => (clientRound py params s r).files = s.files
    | some (d, board) => Appended params s (clientRound py params s r) d board

/-- What is received decodes, and if it is a message, nothing raises where it is
served, and it comes in order. -/
def Sound (py : Python) (params : Utils) (s : Client) (r : Round) : Prop :=
  (∃ text, r.bytes = utf8 text) ∧
    ∀ fs, r.Brings py fs →
      Serves params r (fill (startDict r.now) (valueArgs fs)) (boardOf py fs) ∧
        InOrder params s (fill (startDict r.now) (valueArgs fs)) (boardOf py fs)

/-- For a message, that is what serving it needs. -/
theorem sound_iff {text : Text} (hDecode : decode r.bytes = some text)
    (hMessage : r.message py = some (d, board)) :
    Sound py params s r ↔ Serves params r d board ∧ InOrder params s d board := by
  unfold Sound
  rw [and_iff_right ⟨text, decode_eq_some_iff.mp hDecode⟩]
  exact Round.forall_brings_iff (P := fun d b => Serves params r d b ∧ InOrder params s d b)
    hMessage

theorem survives_iff (hAlive : s.failed = false) :
    Survives py params s r ↔ Sound py params s r := by
  unfold Survives
  cases hDecode : decode r.bytes with
  | none =>
    rw [clientRound_undecodable hAlive hDecode]
    refine iff_of_false (fun h => absurd h.1 nofun) fun ⟨⟨text, hBytes⟩, _⟩ => ?_
    exact decode_eq_none_iff.mp hDecode text hBytes
  | some text =>
    cases hMessage : r.message py with
    | none =>
      rw [clientRound_rejected hAlive hDecode hMessage]
      exact iff_of_true ⟨hAlive, rfl⟩ ⟨⟨text, decode_eq_some_iff.mp hDecode⟩,
        fun fs hBrings => absurd hBrings (Round.not_brings hMessage)⟩
    | some result =>
      obtain ⟨d, board⟩ := result
      -- the parser has split at the commas, so the fields of the line are the values
      have hComma : ∀ c v, d c = some v → ',' ∉ v := fun _ _ =>
        Round.comma_not_mem_of_message hMessage
      rw [clientRound_message hAlive hMessage, sound_iff hDecode hMessage]
      exact serve_appended_iff hAlive hComma

/-- **What a thread survives.** All rounds of a run go as they are meant to, if
and only if everything received decodes and every message is complete, can be
answered and written, and comes in order. -/
theorem clientRounds_survives_iff (hAlive : s.failed = false) (rounds : List Round) :
    (∀ n, (hn : n < rounds.length) →
        Survives py params ((rounds.take n).foldl (clientRound py params) s) rounds[n]) ↔
      ∀ n, (hn : n < rounds.length) →
        Sound py params ((rounds.take n).foldl (clientRound py params) s) rounds[n] := by
  have hStep : ∀ s r, s.failed = false → (Survives py params s r ↔ Sound py params s r) := by
    intro s r hAlive
    exact survives_iff hAlive
  -- a round that goes as it is meant to leaves the thread for the next one
  have hKeep : ∀ s r, s.failed = false → Survives py params s r →
      (clientRound py params s r).failed = false := by
    intro s r _ hSurvives
    exact hSurvives.1
  exact foldl_steps_iff (I := fun s => s.failed = false) hStep hKeep hAlive

/-! ## The end of the stream -/

/-- What raises, whatever the files hold: bytes that do not decode, and a message
that cannot be served. -/
def Raises (py : Python) (params : Utils) (r : Round) : Prop :=
  (∀ text, r.bytes ≠ utf8 text) ∨
    ∃ fs, r.Brings py fs ∧
      ¬Serves params r (fill (startDict r.now) (valueArgs fs)) (boardOf py fs)

theorem raises_iff {text : Text} (hDecode : decode r.bytes = some text)
    (hMessage : r.message py = some (d, board)) :
    Raises py params r ↔ ¬Serves params r d board := by
  unfold Raises
  rw [or_iff_right fun h => h text (decode_eq_some_iff.mp hDecode),
    ← Round.forall_brings_iff (P := Serves params r) hMessage]
  simp only [not_forall, exists_prop]

theorem clientRound_failed_iff (hAlive : s.failed = false) :
    (clientRound py params s r).failed = true ↔ Raises py params r := by
  -- the cases of a round: `decode` raises, the text is rejected, or a message is served
  cases hDecode : decode r.bytes with
  | none =>
    rw [clientRound_undecodable hAlive hDecode]
    exact iff_of_true rfl (.inl (decode_eq_none_iff.mp hDecode))
  | some text =>
    cases hMessage : r.message py with
    | none =>
      rw [clientRound_rejected hAlive hDecode hMessage, hAlive]
      refine iff_of_false nofun ?_
      rintro (hBytes | ⟨fs, hBrings, -⟩)
      · exact hBytes text (decode_eq_some_iff.mp hDecode)
      · exact Round.not_brings hMessage hBrings
    | some result =>
      rw [clientRound_message hAlive hMessage, serve_failed_iff hAlive,
        raises_iff hDecode hMessage]

/-- The thread before round `n`, where round `n` is `recv n`. -/
def threadAt (py : Python) (params : Utils) (s : Client) (recv : ℕ → Round) : ℕ → Client
  | 0 => s
  | n + 1 => clientRound py params (threadAt py params s recv n) (recv n)

/-- The iterations of the loop, while `ev_exit` is not set. -/
def iterations (py : Python) (params : Utils) (s : Client) (recv : ℕ → Round) : Set ℕ :=
  { n | (threadAt py params s recv n).failed = false }

/-- A client sends its chunks and is gone. -/
def stream (chunks : List Round) (idle : ℕ → Round) (n : ℕ) : Round :=
  match chunks[n]? with
  | some r => r
  | none => (idle n).ended

/-- Iteration `n` takes place if no round before it has raised. -/
theorem mem_iterations_iff {recv : ℕ → Round} (hAlive : s.failed = false) (n : ℕ) :
    n ∈ iterations py params s recv ↔ ∀ k < n, ¬Raises py params (recv k) := by
  show (threadAt py params s recv n).failed = false ↔ _
  induction n with
  | zero => exact iff_of_true hAlive fun k hk => absurd hk (Nat.not_lt_zero k)
  | succ n ih =>
    -- the rounds before the last one decide whether there is a thread to raise in it
    simp only [Nat.lt_succ_iff_lt_or_eq, or_imp, forall_and, forall_eq]
    rw [← ih]
    show (clientRound py params (threadAt py params s recv n) (recv n)).failed = false ↔ _
    cases hFailed : (threadAt py params s recv n).failed with
    | true =>
      rw [clientRound_failed hFailed, hFailed]
      exact iff_of_false nofun fun h => absurd h.1 nofun
    | false =>
      rw [← Bool.not_eq_true, clientRound_failed_iff hFailed]
      exact (and_iff_right rfl).symm

theorem not_raises_ended (r : Round) : ¬Raises py params r.ended := by
  rintro (hBytes | ⟨fs, hBrings, -⟩)
  · exact hBytes [] rfl
  · exact Round.not_brings (Round.message_ended py r) hBrings

theorem exists_raises_stream_iff (chunks : List Round) (idle : ℕ → Round) :
    (∃ n, Raises py params (stream chunks idle n)) ↔ ∃ r ∈ chunks, Raises py params r := by
  constructor
  · rintro ⟨n, hRaises⟩
    unfold stream at hRaises
    split at hRaises
    · exact ⟨_, List.mem_of_getElem? ‹_›, hRaises⟩
    · exact absurd hRaises (not_raises_ended _)
  · rintro ⟨r, hr, hRaises⟩
    obtain ⟨n, hn⟩ := List.mem_iff_getElem?.mp hr
    refine ⟨n, ?_⟩
    rwa [stream, hn]

/-- Nothing raises: the loop goes on for ever. -/
theorem iterations_eq_univ {recv : ℕ → Round} (hAlive : s.failed = false)
    (h : ∀ n, ¬Raises py params (recv n)) : iterations py params s recv = Set.univ :=
  Set.eq_univ_of_forall fun n => (mem_iterations_iff hAlive n).mpr fun k _ => h k

/-- **When the thread ends with its connection.** For every list of chunks, behind
which the client closes the connection: the loop has finitely many iterations if
and only if one of the chunks has raised an exception. -/
theorem iterations_finite_iff (hAlive : s.failed = false) (chunks : List Round)
    (idle : ℕ → Round) :
    (iterations py params s (stream chunks idle)).Finite ↔ ∃ r ∈ chunks, Raises py params r := by
  rw [← exists_raises_stream_iff chunks idle]
  constructor
  · intro hFinite
    -- otherwise every number is an iteration
    by_contra hNone
    rw [iterations_eq_univ hAlive (not_exists.mp hNone)] at hFinite
    exact Set.infinite_univ hFinite
  · rintro ⟨n, hRaises⟩
    -- no iteration comes after that round
    refine (Set.finite_le_nat n).subset fun k hk => ?_
    by_contra hLt
    exact (mem_iterations_iff hAlive k).mp hk n (Nat.lt_of_not_le hLt) hRaises

end Round

/-- A message with one value, of the site meter. -/
def oneValue : Text := "$bbb:1,V_rms_A:230.00".toList

theorem message_oneValue : (Round.ofText noon oneValue).message Python.ascii =
    some (Function.update (startDict noon) "V_rms_A".toList (some "230.00".toList), 1) := by
  rw [Round.message_ofText]
  rfl

theorem columns_tri : (Utils.ofLine cmeterParamsTri).columns 1 = "time".toList :: columnNames :=
  (columns_site _).trans cmeterColumns_tri

/-- It lacks, among others, the current. -/
theorem not_serves_oneValue : ¬Serves (Utils.ofLine cmeterParamsTri) (Round.ofText noon oneValue)
    (Function.update (startDict noon) "V_rms_A".toList (some "230.00".toList)) 1 := by
  intro h
  have hMem : "I_rms_A".toList ∈ (Utils.ofLine cmeterParamsTri).columns 1 := by
    rw [columns_tri]
    decide
  obtain ⟨v, hv⟩ := h.columns "I_rms_A".toList hMem
  rw [Function.update_of_ne (by decide)] at hv
  exact absurd (startDict_eq_some hv).1 (by decide)

theorem clientRounds_survives_iff_one :
    let rounds := [Round.ofText noon oneValue]
    let params := Utils.ofLine "time,V_rms_A".toList
    ∀ n, (hn : n < rounds.length) →
      Survives Python.ascii params
        ((rounds.take n).foldl (clientRound Python.ascii params) Client.start) rounds[n] := by
  intro rounds params
  refine (clientRounds_survives_iff rfl rounds).mpr fun n hn => ?_
  obtain rfl : n = 0 := Nat.lt_one_iff.mp hn
  have hColumns : params.columns 1 = ["time".toList, "V_rms_A".toList] := by decide
  refine (sound_iff (Round.decode_ofText noon oneValue) message_oneValue).mpr
    ⟨⟨⟨⟨.inl rfl, rfl⟩, rfl⟩, ?_⟩, ⟨?_, fun _ => .inl rfl, nofun⟩⟩
  · rw [hColumns, List.forall_mem_cons, List.forall_mem_singleton]
    exact ⟨⟨strftime noon, rfl⟩, "230.00".toList, rfl⟩
  · rw [hColumns, List.forall_mem_cons, List.forall_mem_singleton]
    constructor
    · intro v hv
      obtain rfl : strftime noon = v := Option.some.inj hv
      decide
    · intro v hv
      obtain rfl : "230.00".toList = v := Option.some.inj hv
      decide

/-- A message without its columns: the file is emptied and gets its header, and
then the thread ends. -/
theorem clientRound_missingColumn :
    let r := Round.ofText noon oneValue
    let params := Utils.ofLine cmeterParamsTri
    (clientRound Python.ascii params Client.start r).failed = true ∧
      (clientRound Python.ascii params Client.start r).files siteMeter = [cmeterParamsTri] ∧
      ¬Survives Python.ascii params Client.start r := by
  intro r params
  have hFailed : (clientRound Python.ascii params Client.start r).failed = true := by
    rw [clientRound_message rfl message_oneValue, serve_failed_iff rfl]
    exact not_serves_oneValue
  refine ⟨hFailed, ?_, fun h => ?_⟩
  · rw [clientRound_message rfl message_oneValue] at hFailed ⊢
    rw [serve_ofText] at hFailed ⊢
    -- the round that writes a record does not fail
    obtain ⟨-, ⟨-, -, hFiles⟩ | ⟨values, -, hAlive, -⟩⟩ := record_site params Client.start
      (Function.update (startDict noon) "V_rms_A".toList (some "230.00".toList))
    · rw [hFiles, openLines_ofLine]
      exact if_neg Bool.false_ne_true
    · exact absurd (hFailed.symm.trans hAlive) nofun
  · exact absurd (hFailed.symm.trans h.1) nofun

/-- The thread ends with the message, so its loop does. -/
theorem iterations_finite_iff_oneValue :
    (iterations Python.ascii (Utils.ofLine cmeterParamsTri) Client.start
      (stream [Round.ofText noon oneValue] fun _ => Round.ofText noon [])).Finite := by
  refine (iterations_finite_iff rfl _ _).mpr ⟨_, List.mem_singleton_self _, ?_⟩
  exact (raises_iff (Round.decode_ofText noon oneValue) message_oneValue).mpr not_serves_oneValue

/-- Nothing raises for a message that is received whole. -/
theorem not_raises_message {R : Type} [Field R] [LinearOrder R] [FloorRing R] (now : DateTime)
    (value : Fin 3 → EAttributes → R) :
    ¬Raises Python.ascii (Utils.ofLine cmeterParamsTri) (Round.ofText now (messageText value)) := by
  have hMessage : (Round.ofText now (messageText value)).message Python.ascii =
      some (fill (startDict now) (fields value), 1) := by
    rw [Round.message_ofText]
    exact receiveInput_message value now
  rw [raises_iff (Round.decode_ofText now _) hMessage, not_not]
  refine ⟨⟨⟨.inl rfl, rfl⟩, rfl⟩, ?_⟩
  rw [columns_tri]
  exact exists_forall₂_iff.mp ⟨_, mapM_eq_some_iff.mp (mapM_message value now)⟩

/-- The client has sent one message and is gone: the loop goes on for ever. -/
theorem iterations_message :
    let chunks := [Round.ofText noon (messageText zeroMeans)]
    (∀ r ∈ chunks, r.bytes ≠ []) ∧
      ¬(iterations Python.ascii (Utils.ofLine cmeterParamsTri) Client.start
        (stream chunks fun _ => Round.ofText noon [])).Finite := by
  intro chunks
  constructor
  · intro r hr
    obtain rfl := List.mem_singleton.mp hr
    rw [messageText_args]
    exact Round.bytes_ofText_cons noon '$' _
  · -- neither the message nor the empty reads behind it end the thread
    have hNone : ¬∃ r ∈ chunks, Raises Python.ascii (Utils.ofLine cmeterParamsTri) r := by
      rintro ⟨r, hr, hRaises⟩
      obtain rfl := List.mem_singleton.mp hr
      exact not_raises_message noon zeroMeans hRaises
    rw [← exists_raises_stream_iff chunks (fun _ => Round.ofText noon []), not_exists] at hNone
    rw [iterations_eq_univ rfl hNone]
    exact Set.infinite_univ

end EnergyMeter.Datalogger
