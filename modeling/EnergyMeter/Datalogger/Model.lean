import EnergyMeter.Lib.Fields
import EnergyMeter.Meter.Message
import Mathlib.Data.List.DropRight

/-!
# Datalogger — model of `datalogger.py`

A thread of the datalogger serves one meter. Whatever a call of `recv` returns
is taken for one message: it is split at commas into arguments and these at
colons into label and value, and the values of the columns are appended to the
file of the board.

* `processInput` — the parser; `none` is the pair `None, -1`, on which the
  caller does nothing.
* `clientStep`, `clientThread` — the loop of `client_thread` over what the
  calls of `recv` return. A column without a value raises `KeyError`, which
  nothing catches: the thread ends.

A text stands for its bytes: what the meter sends is printable ASCII
(`messageText_printable`), where decoding does not change anything. Anybody else
may send any bytes, and what is asked of Python there goes beyond ASCII: that is
the parser over a `Python`, of which the one above is `Python.ascii`.

* `decode` — the strict decoder; `none` is a `UnicodeDecodeError`.
* `clientRound` — the body of the loop for any bytes, where the calls to the
  system may raise as well.
-/

namespace EnergyMeter.Datalogger

open EnergyMeter.Lib

abbrev Text := List Char

abbrev Dict := Text → Option Text

/-! ## Of Python -/

/-- White space for `rstrip`, of ASCII. -/
def isSpace (c : Char) : Bool :=
  (9 ≤ c.toNat && c.toNat ≤ 13) || (28 ≤ c.toNat && c.toNat ≤ 32)

/-- `s.rstrip()`. -/
def rstrip (s : Text) : Text := s.rdropWhile isSpace

/-- White space for `int`, of ASCII: that of C, without the separators 28 to
31. -/
def isBlank (c : Char) : Bool := (9 ≤ c.toNat && c.toNat ≤ 13) || c.toNat = 32

/-- The digits of `int`, in groups between underscores. -/
def intDigits (s : Text) : Option ℕ :=
  (s.splitOn '_').foldlM (fun n group =>
    if group ≠ [] ∧ group.all Char.isDigit then
      some (group.foldl (fun n c => 10 * n + (c.toNat - 48)) n)
    else none) 0

/-- `int(s)` of an ASCII text; `none` is a `ValueError`. -/
def int (s : Text) : Option ℤ :=
  match (s.dropWhile isBlank).rdropWhile isBlank with
  | '-' :: s => (intDigits s).map fun n => -(n : ℤ)
  | '+' :: s => (intDigits s).map fun n => (n : ℤ)
  | s => (intDigits s).map fun n => (n : ℤ)

/-- `datetime`, to the second. -/
structure DateTime where
  year : ℕ
  month : ℕ
  day : ℕ
  hour : ℕ
  minute : ℕ
  second : ℕ

def pad (width n : ℕ) : Text := (Nat.toDigits 10 n).leftpad width '0'

/-- `t.replace(microsecond=0).strftime('%Y-%m-%d %H:%M:%S.%f')`. -/
def strftime (t : DateTime) : Text :=
  pad 4 t.year ++ '-' :: pad 2 t.month ++ '-' :: pad 2 t.day ++ ' ' :: pad 2 t.hour ++
    ':' :: pad 2 t.minute ++ ':' :: pad 2 t.second ++ '.' :: pad 6 0

/-! ## `Utils` -/

structure Utils where
  cmeterColumns : List Text
  cmeterColumnsStr : Text
  iplugColumns : List Text
  iplugColumnsStr : Text

/-- `get_cmeter_params` of a file with the first line `line`, and
`get_iplug_params`. -/
def Utils.ofLine (line : Text) : Utils where
  cmeterColumns := line.splitOn ','
  cmeterColumnsStr := line
  iplugColumns := ["time".toList, "Irms".toList]
  iplugColumnsStr := "time,I_rms".toList

/-- `cmeter_params_tri.txt`, which `run_datalogger_tri.sh` names. -/
def cmeterParamsTri : Text :=
  ("time,V_rms_A,I_rms_A,A_A,P_A,Q_A,Iba_rms_A,Ibr_rms_A,Iv_rms_A,PF_A,QF_A,VF_A," ++
    "V_rms_B,I_rms_B,A_B,P_B,Q_B,Iba_rms_B,Ibr_rms_B,Iv_rms_B,PF_B,QF_B,VF_B," ++
    "V_rms_C,I_rms_C,A_C,P_C,Q_C,Iba_rms_C,Ibr_rms_C,Iv_rms_C,PF_C,QF_C,VF_C").toList

/-! ## `process_input` -/

/-- The body of the loop over the arguments. -/
def processArg (st : Dict × ℤ) (arg : Text) : Option (Dict × ℤ) :=
  match arg.splitOn ':' with
  | [lbl, value] =>
    if lbl = "esp".toList then (int value).map fun n => (st.1, 3 + n)
    else if lbl = "bbb".toList then (int value).map fun n => (st.1, n)
    else some (Function.update st.1 lbl (some value), st.2)
  | _ => none

/-- `process_input`, at the time `now`. -/
def processInput (now : DateTime) (inputStr : Text) : Option (Dict × ℤ) :=
  match inputStr with
  | [] => none
  | ch :: rest =>
    if ch = '$' then
      (rest.splitOn ',').foldlM processArg
        (Function.update (fun _ => none) "time".toList (some (strftime now)), 0)
    else none

/-- `receive_input`. -/
def receiveInput (now : DateTime) (clientInput : Text) : Option (Dict × ℤ) :=
  processInput now (rstrip clientInput)

/-! ## `client_thread` -/

/-- `f`, the lines of the output files, what has been sent back, and whether an
exception has ended the thread. -/
structure Client where
  f : Bool
  files : Text → List Text
  sent : List Text
  failed : Bool

/-- At the start of the thread, with no output files. -/
def Client.start : Client := { f := false, files := fun _ => [], sent := [], failed := false }

def siteMeter : Text := "./outputs/site_meter.dat".toList

def filename (boardId : ℤ) : Text :=
  if boardId = 1 then siteMeter
  else "./outputs/channel_".toList ++ (toString boardId).toList ++ "_raw.dat".toList

/-- The header of a board's file: from 4 on the boards are smart plugs. -/
def Utils.header (params : Utils) (boardId : ℤ) : Text :=
  if boardId > 3 then params.iplugColumnsStr else params.cmeterColumnsStr

def Utils.columns (params : Utils) (boardId : ℤ) : List Text :=
  if boardId > 3 then params.iplugColumns else params.cmeterColumns

/-- The answer to a board other than the site meter. -/
def Client.reply (s : Client) (boardId : ℤ) : Client :=
  if boardId = 1 then s else { s with sent := s.sent ++ ["received".toList] }

/-- The file is opened: the first time it is emptied and gets the header. -/
def Client.openFile (params : Utils) (s : Client) (boardId : ℤ) : Client :=
  if s.f then s
  else { s with
    f := true
    files := Function.update s.files (filename boardId) [params.header boardId] }

/-- The body of the loop for a message that has been parsed. -/
def Client.record (params : Utils) (s : Client) (clientInput : Dict) (boardId : ℤ) : Client :=
  let s := (s.reply boardId).openFile params boardId
  match (params.columns boardId).mapM clientInput with
  | none => { s with failed := true }
  | some values =>
    let line := (values.flatMap (· ++ [ ','])).dropLast
    { s with
      files := Function.update s.files (filename boardId) (s.files (filename boardId) ++ [line]) }

/-- The body of the loop of `client_thread`; `recv` is the time and the text of
what was received. -/
def clientStep (params : Utils) (s : Client) (recv : DateTime × Text) : Client :=
  if s.failed then s
  else
    match receiveInput recv.1 recv.2 with
    | none => s
    | some (clientInput, boardId) => s.record params clientInput boardId

def clientThread (params : Utils) (s : Client) (recvs : List (DateTime × Text)) : Client :=
  recvs.foldl (clientStep params) s

/-! ## Any bytes -/

/-- What the parser uses of Python: which characters `rstrip` takes for white
space, and `int`, where `none` is a `ValueError`. -/
structure Python where
  isSpace : Char → Bool
  int : Text → Option ℤ

namespace Python

/-- On ASCII. -/
def ascii : Python := { isSpace := Datalogger.isSpace, int := Datalogger.int }

variable (py : Python)

def rstrip (s : Text) : Text := s.rdropWhile py.isSpace

def processArg (st : Dict × ℤ) (arg : Text) : Option (Dict × ℤ) :=
  match arg.splitOn ':' with
  | [lbl, value] =>
    if lbl = "esp".toList then (py.int value).map fun n => (st.1, 3 + n)
    else if lbl = "bbb".toList then (py.int value).map fun n => (st.1, n)
    else some (Function.update st.1 lbl (some value), st.2)
  | _ => none

def processInput (now : DateTime) (inputStr : Text) : Option (Dict × ℤ) :=
  match inputStr with
  | [] => none
  | ch :: rest =>
    if ch = '$' then
      (rest.splitOn ',').foldlM py.processArg
        (Function.update (fun _ => none) "time".toList (some (strftime now)), 0)
    else none

/-- `receive_input` after `decode`. -/
def receiveInput (now : DateTime) (decodedInput : Text) : Option (Dict × ℤ) :=
  py.processInput now (py.rstrip decodedInput)

end Python

/-- `bytes.decode("utf8")`. -/
def decode (bytes : List UInt8) : Option Text :=
  bytes.toByteArray.utf8Decode?.map Array.toList

/-- A round of the loop: the time, what `recv` returns, whether `sendall` gets
through, which files can be opened, and whether `f.write` and `f.close` get
through. -/
structure Round where
  now : DateTime
  bytes : List UInt8
  sends : Bool
  opens : Text → Bool
  writes : Bool

/-- The file is opened and nothing is written to it: the first time it is
emptied. -/
def Client.truncate (s : Client) (boardId : ℤ) : Client :=
  if s.f then s
  else { s with f := true, files := Function.update s.files (filename boardId) [] }

/-- The body of the loop for a message that has been parsed, up to the first
exception. -/
def Client.serve (params : Utils) (s : Client) (r : Round) (clientInput : Dict) (boardId : ℤ) :
    Client :=
  -- the answer comes before the file is opened
  if boardId ≠ 1 ∧ r.sends = false then { s with failed := true }
  else if r.opens (filename boardId) = false then { s.reply boardId with failed := true }
  else if r.writes then s.record params clientInput boardId
  -- what is written is kept in a buffer, which is lost
  else { (s.reply boardId).truncate boardId with failed := true }

/-- The body of the loop of `client_thread`. -/
def clientRound (py : Python) (params : Utils) (s : Client) (r : Round) : Client :=
  if s.failed then s
  else
    match decode r.bytes with
    -- outside the `try` of `process_input`
    | none => { s with failed := true }
    | some decodedInput =>
      match py.receiveInput r.now decodedInput with
      | none => s
      | some (clientInput, boardId) => s.serve params r clientInput boardId

end EnergyMeter.Datalogger
