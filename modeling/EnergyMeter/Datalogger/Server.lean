import EnergyMeter.Datalogger.Survival
import Std.Data.String.ToInt

/-!
# Datalogger — the server

`start_server` runs one thread of `client_thread` for every connection it
accepts, and none of them ends when its client goes: `recv` returns nothing
from then on, which is no message. The files are shared between the threads, a
file for every board, but whether a file is emptied and gets its header is
decided by `f`, of which every thread has its own.

* `serverStep` — connections come and go, and anything arrives on them, which the
  thread serves as `clientRound` says: where the client has gone before its
  answer, or the file cannot be written, the thread ends.
* `Server.Logged` — no record is lost.
* `Server.InTurn` — a message reaches its file, the first message of a connection
  is the first of its board, and a later one is not, or finds the header in its
  file.

Main results:

* `serverRun_logged_iff` — no record is lost exactly where every message is in
  turn.
* `serverRun_reconnect` — a board that reconnects loses its records.
-/

namespace EnergyMeter.Datalogger

open EnergyMeter.Lib

/-! ## Connections and files -/

/-- A connection and the variables of its thread. `closed` says that the client
has gone. -/
structure Connection where
  f : Bool
  sent : List Text
  failed : Bool
  closed : Bool

/-- A connection that has just been accepted. -/
def Connection.start : Connection := { f := false, sent := [], failed := false, closed := false }

/-- History: a message that was accepted, by its connection, its board and the
line of its record. -/
structure Accepted where
  conn : ℕ
  board : ℤ
  line : Text

/-- The connections in the order they were accepted, the lines of the files, and
the history of the messages. -/
structure Server where
  conns : List Connection
  files : Text → List Text
  log : List Accepted

/-- The server when it starts: the files are as an earlier one left them. -/
def Server.start (files : Text → List Text) : Server := { conns := [], files, log := [] }

inductive Event
  | accept
  | recv (k : ℕ) (r : Round)
  | close (k : ℕ)

/-- What `recv` returns on a connection. -/
def Connection.received (c : Connection) (r : Round) : Round := if c.closed then r.ended else r

/-- The thread of a connection, as `clientRound` sees it. -/
def Connection.client (c : Connection) (files : Text → List Text) : Client :=
  { f := c.f, files, sent := c.sent, failed := c.failed }

/-- The message that an event brings, where its thread accepts it and finds all
the columns of its board. -/
def Server.accepted (py : Python) (params : Utils) (s : Server) : Event → Option Accepted
  | .recv k r => do
    let c ← s.conns[k]?
    if c.failed then none
    else
      let (d, board) ← (c.received r).message py
      let values ← (params.columns board).mapM d
      return { conn := k, board, line := lineOf values }
  | .accept => none
  | .close _ => none

def serverStep (py : Python) (params : Utils) (s : Server) (e : Event) : Server :=
  let log := s.log ++ (s.accepted py params e).toList
  match e with
  | .accept => { s with conns := s.conns ++ [Connection.start], log }
  | .recv k r =>
    match s.conns[k]? with
    | none => { s with log }
    | some c =>
      let client := clientRound py params (c.client s.files) (c.received r)
      { conns := s.conns.set k
          { c with f := client.f, sent := client.sent, failed := client.failed }
        files := client.files
        log }
  | .close k => { s with conns := s.conns.modify k fun c => { c with closed := true }, log }

def serverRun (py : Python) (params : Utils) (s : Server) (events : List Event) : Server :=
  events.foldl (serverStep py params) s

/-! ## What the files are to hold -/

/-- The records of a board since the server started, in order. -/
def Server.lines (s : Server) (board : ℤ) : List Text :=
  (s.log.filter fun a => a.board = board).map Accepted.line

/-- The file of every board that has sent a message is its header and all the
records of its messages. -/
def Server.Logged (params : Utils) (s : Server) : Prop :=
  ∀ board, s.lines board ≠ [] → s.files (filename board) = params.header board :: s.lines board

/-- The messages that are accepted have all the columns of their board. -/
def Event.Complete (py : Python) (params : Utils) : Event → Prop
  | .recv _ r => ∀ d board, r.message py = some (d, board) →
    ∃ values, (params.columns board).mapM d = some values
  | _ => True

/-- The answer to the message of an event can be sent, and its file opened. -/
def Event.Opens (e : Event) (board : ℤ) : Prop :=
  match e with
  | .recv _ r => r.Opens board
  | _ => True

/-- The message of an event is let through to its file. -/
def Event.Reaches (e : Event) (board : ℤ) : Prop :=
  match e with
  | .recv _ r => r.Reaches board
  | _ => True

/-- A message before which its connection has brought one. -/
def Server.Later (s : Server) (a : Accepted) : Prop := ∃ b ∈ s.log, b.conn = a.conn

/-- A message reaches its file; if it is the first of its connection, it is the
first of its board, and if it is not, it finds the file of its board started, or
with nothing but its header. -/
def Server.Kept (params : Utils) (s : Server) (e : Event) (a : Accepted) : Prop :=
  e.Reaches a.board ∧ (¬s.Later a → s.lines a.board = []) ∧
    (s.Later a → s.lines a.board ≠ [] ∨ s.files (filename a.board) = [params.header a.board])

/-- A message does not reach its file, and by chance an earlier server has left its
record there, where nothing has emptied the file. -/
def Server.Found (params : Utils) (s : Server) (e : Event) (a : Accepted) : Prop :=
  ¬e.Reaches a.board ∧ (e.Opens a.board → s.Later a) ∧
    s.files (filename a.board) = params.header a.board :: (s.lines a.board ++ [a.line])

/-- What is needed of a message for its record to be where it belongs. -/
def Server.InTurn (py : Python) (params : Utils) (s : Server) (e : Event) : Prop :=
  ∀ a, s.accepted py params e = some a → s.Kept params e a ∨ s.Found params e a

/-! ## File names -/

theorem filename_injective : Function.Injective filename := by
  intro b b' h
  by_cases hb : b = 1
  · by_contra hne
    exact filename_ne (fun h1 => hne (hb.trans h1.symm)) (h.symm.trans (by rw [hb]; rfl))
  · have hb' : b' ≠ 1 := by
      rintro rfl
      exact filename_ne hb h
    rw [filename, filename, if_neg hb, if_neg hb', List.append_cancel_right_eq,
      List.append_cancel_left_eq, String.toList_inj] at h
    exact Int.repr_injective h

/-! ## One step -/

section Step

variable {py : Python} {params : Utils} {s : Server}

/-- How the connections change without a message. -/
inductive Idle : List Connection → List Connection → Prop
  | same (conns) : Idle conns conns
  | accept (conns) : Idle conns (conns ++ [Connection.start])
  | close (conns) (k : ℕ) : Idle conns (conns.modify k fun c => { c with closed := true })
  | thread (conns) {k : ℕ} {c c' : Connection} (hc : conns[k]? = some c) (hf : c'.f = c.f)
      (hFailed : c'.failed = false → c.failed = false) : Idle conns (conns.set k c')

/-- A round without a message changes no file, and at most ends its thread. -/
theorem recv_idle {k : ℕ} {r : Round} {c : Connection} {client : Client}
    (hc : s.conns[k]? = some c) (hNone : s.accepted py params (.recv k r) = none)
    (hClient : clientRound py params (c.client s.files) (c.received r) = client)
    (hSame : client = c.client s.files ∨ client = { c.client s.files with failed := true }) :
    Idle s.conns (serverStep py params s (.recv k r)).conns ∧
      (serverStep py params s (.recv k r)).files = s.files ∧
      (serverStep py params s (.recv k r)).log = s.log := by
  rw [serverStep, hNone]
  simp only [hc, hClient]
  rcases hSame with rfl | rfl
  · exact ⟨.thread _ hc rfl id, rfl, List.append_nil _⟩
  · exact ⟨.thread _ hc rfl nofun, rfl, List.append_nil _⟩

/-- **What a step does**: it is idle, or it brings a message, which is appended to
the file of its board, or ends its thread. -/
theorem serverStep_cases {e : Event} (he : e.Complete py params) :
    (s.accepted py params e = none ∧ Idle s.conns (serverStep py params s e).conns ∧
      (serverStep py params s e).files = s.files ∧ (serverStep py params s e).log = s.log) ∨
    ∃ a c c' lines, s.accepted py params e = some a ∧ s.conns[a.conn]? = some c ∧
      c.failed = false ∧
      serverStep py params s e =
        { conns := s.conns.set a.conn c'
          files := Function.update s.files (filename a.board) lines
          log := s.log ++ [a] } ∧
      ((e.Reaches a.board ∧ c'.f = true ∧
          lines = (if c.f then s.files (filename a.board) else [params.header a.board]) ++
            [a.line]) ∨
        ¬e.Reaches a.board ∧ c'.failed = true ∧
          ((e.Opens a.board ∧ c.f = false ∧ lines = []) ∨
            ¬(e.Opens a.board ∧ c.f = false) ∧ lines = s.files (filename a.board))) := by
  cases e with
  | accept => exact .inl ⟨rfl, .accept _, rfl, List.append_nil _⟩
  | close k => exact .inl ⟨rfl, .close _ k, rfl, List.append_nil _⟩
  | recv k r =>
    cases hc : s.conns[k]? with
    | none =>
      have hNone : s.accepted py params (.recv k r) = none := by
        rw [Server.accepted, hc]
        rfl
      refine .inl ⟨hNone, ?_⟩
      rw [serverStep, hNone]
      simp only [hc]
      exact ⟨.same _, trivial, List.append_nil _⟩
    | some c =>
      obtain ⟨hNot, hSame⟩ | ⟨d, board, hAlive, hMessage, hServe⟩ :=
        clientRound_cases py params (c.client s.files) (c.received r)
      · -- nothing is accepted where the thread does nothing
        have hNone : s.accepted py params (.recv k r) = none := by
          rcases hNot with hFailed | hMessage
          · have hFailed : c.failed = true := hFailed
            simp [Server.accepted, hc, hFailed]
          · simp [Server.accepted, hc, hMessage]
        exact .inl ⟨hNone, recv_idle hc hNone rfl hSame⟩
      · have hAlive : c.failed = false := hAlive
        -- what a closed connection returns is no message
        have hOpen : c.received r = r := by
          cases hClosed : c.closed with
          | true =>
            rw [Connection.received, if_pos hClosed, Round.message_ended] at hMessage
            cases hMessage
          | false => rw [Connection.received, if_neg (by simp [hClosed])]
        rw [hOpen] at hMessage hServe
        obtain ⟨values, hCols⟩ := he d board hMessage
        have hSome : s.accepted py params (.recv k r) = some ⟨k, board, lineOf values⟩ := by
          simp [Server.accepted, hc, hAlive, hOpen, hMessage, hCols]
        obtain ⟨lines, hFiles, hLines⟩ := serve_lines (c.client s.files) r hCols
        refine .inr ⟨_, c, { c with
          f := ((c.client s.files).serve params r d board).f
          sent := ((c.client s.files).serve params r d board).sent
          failed := ((c.client s.files).serve params r d board).failed }, lines,
          hSome, hc, hAlive, ?_, hLines⟩
        rw [serverStep, hSome]
        simp only [hc, hOpen, hServe, hFiles]
        rfl

end Step

/-! ## The history of a connection -/

/-- A thread that goes on has opened a file exactly if a message has been accepted
on its connection. -/
structure Server.Historic (s : Server) : Prop where
  f : ∀ k c, s.conns[k]? = some c → c.failed = false →
    (c.f = true ↔ ∃ b ∈ s.log, b.conn = k)
  bound : ∀ b ∈ s.log, b.conn < s.conns.length

section History

variable {py : Python} {params : Utils} {s : Server}

theorem Idle.length_le {conns conns' : List Connection} (h : Idle conns conns') :
    conns.length ≤ conns'.length := by
  cases h with
  | same => exact le_rfl
  | accept => simp
  | close k => simp
  | thread => simp

/-- An idle step opens no file. -/
theorem Idle.f {conns conns' : List Connection} (h : Idle conns conns') {k : ℕ} {c : Connection}
    (hc : conns'[k]? = some c) (hAlive : c.failed = false) :
    (∃ c₀, conns[k]? = some c₀ ∧ c₀.failed = false ∧ c.f = c₀.f) ∨
      (conns.length ≤ k ∧ c.f = false) := by
  cases h with
  | same => exact .inl ⟨c, hc, hAlive, rfl⟩
  | accept =>
    -- the new connection is the last one
    rcases Nat.lt_or_ge k conns.length with hk | hk
    · rw [List.getElem?_append_left hk] at hc
      exact .inl ⟨c, hc, hAlive, rfl⟩
    · rw [List.getElem?_append_right hk, List.getElem?_singleton] at hc
      split at hc
      · obtain rfl := Option.some.inj hc
        exact .inr ⟨hk, rfl⟩
      · cases hc
  | close j =>
    rw [List.getElem?_modify] at hc
    obtain ⟨c₀, hc₀, rfl⟩ := Option.map_eq_some_iff.mp hc
    refine .inl ⟨c₀, hc₀, ?_⟩
    split at hAlive <;> exact ⟨hAlive, by split <;> rfl⟩
  | @thread j c₁ c₁' hj hf hFailed =>
    by_cases hk : k = j
    · subst hk
      rw [List.getElem?_set_self (List.getElem?_eq_some_iff.mp hj).1] at hc
      obtain rfl := Option.some.inj hc
      exact .inl ⟨c₁, hj, hFailed hAlive, hf⟩
    · rw [List.getElem?_set_ne (Ne.symm hk)] at hc
      exact .inl ⟨c, hc, hAlive, rfl⟩

theorem Server.Historic.step (h : s.Historic) {e : Event} (he : e.Complete py params) :
    (serverStep py params s e).Historic := by
  obtain ⟨-, hIdle, -, hLog⟩ | ⟨a, c, c', lines, -, hc, -, hStep, hEffect⟩ :=
    serverStep_cases (s := s) he
  · refine ⟨fun k c hc hAlive => ?_, fun b hb => ?_⟩
    · rw [hLog]
      rcases hIdle.f hc hAlive with ⟨c₀, hc₀, hAlive₀, hf⟩ | ⟨hk, hf⟩
      · rw [hf]
        exact h.f k c₀ hc₀ hAlive₀
      · -- a connection that is new has no messages
        rw [hf]
        refine iff_of_false nofun ?_
        rintro ⟨b, hb, rfl⟩
        exact absurd (h.bound b hb) (not_lt.mpr hk)
    · rw [hLog] at hb
      exact (h.bound b hb).trans_le hIdle.length_le
  · have ha : a.conn < s.conns.length := (List.getElem?_eq_some_iff.mp hc).1
    rw [hStep]
    refine ⟨fun k c₁ hc₁ hAlive => ?_, fun b hb => ?_⟩
    · dsimp only at hc₁ ⊢
      by_cases hk : k = a.conn
      · subst hk
        rw [List.getElem?_set_self ha] at hc₁
        obtain rfl := Option.some.inj hc₁
        -- the thread goes on, so the message has reached its file
        obtain ⟨-, hf, -⟩ | ⟨-, hFailed, -⟩ := hEffect
        · refine iff_of_true hf ⟨a, ?_, rfl⟩
          exact List.mem_append_right _ (List.mem_singleton_self a)
        · exact absurd (hAlive.symm.trans hFailed) nofun
      · rw [List.getElem?_set_ne (Ne.symm hk)] at hc₁
        rw [h.f k c₁ hc₁ hAlive]
        -- the new message is one of another connection
        constructor
        · rintro ⟨b, hb, hEq⟩
          exact ⟨b, List.mem_append_left _ hb, hEq⟩
        · rintro ⟨b, hb, hEq⟩
          rcases List.mem_append.mp hb with hb | hb
          · exact ⟨b, hb, hEq⟩
          · rw [List.mem_singleton.mp hb] at hEq
            exact absurd hEq.symm hk
    · rw [List.length_set]
      rcases List.mem_append.mp hb with hb | hb
      · exact h.bound b hb
      · rw [List.mem_singleton.mp hb]
        exact ha

end History

/-! ## When no record is lost -/

section Logged

variable {params : Utils} {s : Server}

theorem lines_append (log : List Accepted) (a : Accepted) (board : ℤ) :
    ((log ++ [a]).filter fun b => b.board = board).map Accepted.line =
      (log.filter fun b => b.board = board).map Accepted.line ++
        if a.board = board then [a.line] else [] := by
  rw [List.filter_append, List.map_append]
  congr 1
  by_cases h : a.board = board
  · simp [h]
  · simp [h]

/-- A message keeps every record exactly if it leaves the header and the records in
the file of its own board: the files of the other boards are others. -/
theorem logged_append_iff {s' : Server} {a : Accepted} {lines : List Text}
    (h : s.Logged params) (hLog : s'.log = s.log ++ [a])
    (hFiles : s'.files = Function.update s.files (filename a.board) lines) :
    s'.Logged params ↔ lines = params.header a.board :: (s.lines a.board ++ [a.line]) := by
  have hLines : ∀ board, s'.lines board =
      s.lines board ++ if a.board = board then [a.line] else [] := by
    intro board
    rw [Server.lines, hLog, lines_append]
    rfl
  constructor
  · intro hLogged
    have hOwn := hLogged a.board (by simp [hLines])
    rwa [hFiles, Function.update_self, hLines, if_pos rfl] at hOwn
  · intro hOwn board hBoard
    rw [hFiles]
    -- the file of another board is another file, and no line of that board is new
    by_cases hEq : board = a.board
    · subst hEq
      rw [Function.update_self, hLines, if_pos rfl, hOwn]
    · rw [hLines, if_neg (Ne.symm hEq), List.append_nil] at hBoard ⊢
      rw [Function.update_of_ne fun hName => hEq (filename_injective hName)]
      exact h board hBoard

/-- What is left of the file when it is opened is the header and the records exactly
if the first message of a connection is the first of its board, and a later one is
not, or finds the header. -/
theorem opened_eq_iff {board : ℤ} {f : Bool} (h : s.Logged params) :
    (if f then s.files (filename board) else [params.header board]) =
        params.header board :: s.lines board ↔
      (f = false → s.lines board = []) ∧
        (f = true → s.lines board ≠ [] ∨ s.files (filename board) = [params.header board]) := by
  cases f with
  | false =>
    -- the file is emptied, so no record was to be kept
    rw [if_neg Bool.false_ne_true, List.cons_inj_right]
    exact ⟨fun hNil => ⟨fun _ => hNil.symm, nofun⟩, fun hFirst => (hFirst.1 rfl).symm⟩
  | true =>
    rw [if_pos rfl]
    by_cases hLines : s.lines board = []
    -- without records the header is all there is to be
    · rw [hLines]
      exact ⟨fun hFile => ⟨nofun, fun _ => .inr hFile⟩,
        fun hLater => (hLater.2 rfl).resolve_left (not_not.mpr rfl)⟩
    · exact iff_of_true (h board hLines) ⟨nofun, fun _ => .inl hLines⟩

/-- A message that reaches its file. -/
theorem kept_iff {e : Event} {a : Accepted} {f : Bool} (h : s.Logged params)
    (hf : f = true ↔ s.Later a) (hReaches : e.Reaches a.board) :
    (if f then s.files (filename a.board) else [params.header a.board]) ++ [a.line] =
        params.header a.board :: (s.lines a.board ++ [a.line]) ↔
      s.Kept params e a ∨ s.Found params e a := by
  have hFound : ¬s.Found params e a := fun hFound => hFound.1 hReaches
  rw [← List.cons_append, List.append_cancel_right_eq, opened_eq_iff h, hf,
    ← Bool.not_eq_true, hf, or_iff_left hFound]
  exact (and_iff_right hReaches).symm

/-- A message that does not. -/
theorem found_iff {e : Event} {a : Accepted} {f : Bool} {lines : List Text}
    (hf : f = true ↔ s.Later a) (hNot : ¬e.Reaches a.board)
    (hLines : (e.Opens a.board ∧ f = false ∧ lines = []) ∨
      ¬(e.Opens a.board ∧ f = false) ∧ lines = s.files (filename a.board)) :
    lines = params.header a.board :: (s.lines a.board ++ [a.line]) ↔
      s.Kept params e a ∨ s.Found params e a := by
  have hNew : f = false ↔ ¬s.Later a := by rw [← Bool.not_eq_true, hf]
  rw [or_iff_right fun hKept => hNot hKept.1, Server.Found, and_iff_right hNot]
  rcases hLines with ⟨hOpens, hFalse, rfl⟩ | ⟨hLeft, rfl⟩
  -- the file is emptied
  · exact iff_of_false nofun fun h => hNew.mp hFalse (h.1 hOpens)
  · refine (and_iff_right fun hOpens => ?_).symm
    by_contra hLater
    exact hLeft ⟨hOpens, hNew.mpr hLater⟩

/-- A step keeps every record exactly if its message is in turn. -/
theorem serverStep_logged_iff {py : Python} {e : Event} (he : e.Complete py params)
    (hHistory : s.Historic) (h : s.Logged params) :
    (serverStep py params s e).Logged params ↔ s.InTurn py params e := by
  obtain ⟨hNone, -, hFiles, hLog⟩ | ⟨a, c, c', lines, hSome, hc, hAlive, hStep, hEffect⟩ :=
    serverStep_cases (s := s) he
  · -- no message: files and records are as before
    refine iff_of_true (fun board hLines => ?_) fun a ha => ?_
    · rw [Server.lines, hLog] at hLines ⊢
      rw [hFiles]
      exact h board hLines
    · rw [hNone] at ha
      cases ha
  · -- `f` says whether the connection has brought a message before
    have hf : c.f = true ↔ s.Later a := hHistory.f a.conn c hc hAlive
    have hTurn : s.InTurn py params e ↔ s.Kept params e a ∨ s.Found params e a := by
      constructor
      · intro hTurn
        exact hTurn a hSome
      · intro hTurn a' ha'
        obtain rfl := Option.some.inj (hSome.symm.trans ha')
        exact hTurn
    rw [hStep, logged_append_iff h rfl rfl, hTurn]
    obtain ⟨hReaches, -, rfl⟩ | ⟨hNot, -, hLines⟩ := hEffect
    · exact kept_iff h hf hReaches
    · exact found_iff hf hNot hLines

end Logged

/-- **When no record is lost.** For every sequence of connections, disconnections and
messages with all their columns: at every moment the file of every board that has
sent a message is its header and all the records since the server started, in
order, if and only if every message was in turn. -/
theorem serverRun_logged_iff (py : Python) (params : Utils) (files : Text → List Text)
    {events : List Event} (hComplete : ∀ e ∈ events, e.Complete py params) :
    (∀ n ≤ events.length,
        (serverRun py params (Server.start files) (events.take n)).Logged params) ↔
      ∀ n, (hn : n < events.length) →
        (serverRun py params (Server.start files) (events.take n)).InTurn py params events[n] := by
  have hHistoric : (Server.start files).Historic := by
    refine ⟨fun k c hc => ?_, fun b hb => ?_⟩
    · cases hc
    · cases hb
  have hLogged : (Server.start files).Logged params := by
    intro board hLines
    exact absurd rfl hLines
  -- the history of the connections is the invariant that the step needs
  have hKeep : ∀ (s : Server) e, e.Complete py params → s.Historic →
      (serverStep py params s e).Historic := by
    intro s e he hHistory
    exact hHistory.step he
  have hStep : ∀ (s : Server) e, e.Complete py params → s.Historic → s.Logged params →
      ((serverStep py params s e).Logged params ↔ s.InTurn py params e) := by
    intro s e he hHistory h
    exact serverStep_logged_iff he hHistory h
  exact foldl_prefix_iff hKeep hStep hComplete hHistoric hLogged

/-- A message of the first smart plug. -/
def plugRound : Round := Round.ofText noon "$esp:1,Irms:0.52".toList

theorem message_plugRound : plugRound.message Python.ascii =
    some (Function.update (startDict noon) "Irms".toList (some "0.52".toList), 4) := by
  rw [plugRound, Round.message_ofText]
  rfl

/-- It has the columns of its board. -/
theorem plugRound_complete (k : ℕ) :
    (Event.recv k plugRound).Complete Python.ascii (Utils.ofLine cmeterParamsTri) := by
  intro d board h
  obtain ⟨rfl, rfl⟩ := Prod.mk.inj (Option.some.inj (message_plugRound.symm.trans h))
  exact ⟨[strftime noon, "0.52".toList], rfl⟩

/-- A plug that sends two messages on one connection. -/
theorem serverRun_logged_iff_plug :
    let events := [Event.accept, .recv 0 plugRound, .recv 0 plugRound]
    (∀ n ≤ events.length, (serverRun Python.ascii (Utils.ofLine cmeterParamsTri)
        (Server.start fun _ => []) (events.take n)).Logged (Utils.ofLine cmeterParamsTri)) ↔
      ∀ n, (hn : n < events.length) → (serverRun Python.ascii (Utils.ofLine cmeterParamsTri)
        (Server.start fun _ => []) (events.take n)).InTurn Python.ascii
          (Utils.ofLine cmeterParamsTri) events[n] :=
  serverRun_logged_iff _ _ _ fun e he => by
    simp only [List.mem_cons, List.not_mem_nil, or_false] at he
    rcases he with rfl | rfl | rfl
    · trivial
    · exact plugRound_complete 0
    · exact plugRound_complete 0

/-- **A board that reconnects loses its records.** The plug sends a message, goes,
comes back and sends another: two messages were accepted, and the file has the
header and one record. -/
theorem serverRun_reconnect :
    let s := serverRun Python.ascii (Utils.ofLine cmeterParamsTri) (Server.start fun _ => [])
      [.accept, .recv 0 plugRound, .close 0, .accept, .recv 1 plugRound]
    (s.lines 4).length = 2 ∧ (s.files (filename 4)).length = 2 ∧
      ¬s.Logged (Utils.ofLine cmeterParamsTri) := by
  intro s
  have hLines : (s.lines 4).length = 2 := by rfl
  have hFile : (s.files (filename 4)).length = 2 := by rfl
  refine ⟨hLines, hFile, fun h => ?_⟩
  have hNe : s.lines 4 ≠ [] := by
    intro hNil
    rw [hNil] at hLines
    cases hLines
  rw [h 4 hNe, List.length_cons, hLines] at hFile
  cases hFile

end EnergyMeter.Datalogger
