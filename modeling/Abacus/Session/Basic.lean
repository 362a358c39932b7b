import Abacus.Environment.Rounding
import Abacus.Format
import Abacus.Session.Log
import Abacus.Session.Sink

/-!
Sessions: lines evaluated one after the other in one environment.

For each line that is not blank a session writes one line: `= ` and the value, `()` for a definition, or
`Error: ` and a message. With `echo` the tree comes first.
-/

namespace Abacus

structure Config where
  /-- The format of values; if it is empty, `%g`. -/
  format : Text := []
  echo : Bool := false
  color : Bool := false

/-- What could not be written or read, or that there is no terminal. -/
inductive SessionError where
  | writingTree
  | writingResult
  | writingError
  | readingInput
  | lineTooLong
  | readingLine
  | pastedLine
  | noTerminal
deriving DecidableEq

namespace SessionError

def message : SessionError → String
  | .writingTree => "writing parse tree: disk full"
  | .writingResult => "writing result: disk full"
  | .writingError => "writing error: disk full"
  | .readingInput => "reading input: broken pipe"
  | .lineTooLong => "reading input: bufio.Scanner: token too long"
  | .readingLine => "reading line: broken pipe"
  | .pastedLine => "reading line: terminal: ErrPasteIndicator not correctly handled"
  | .noTerminal => "making terminal raw: inappropriate ioctl for device"

end SessionError

inductive SessionStop where
  | error (e : SessionError)
  | fault (f : Fault)
deriving DecidableEq

structure Session where
  env : Environment
  config : Config
  lines : Nat := 0
  /-- What happened so far, the last event first. -/
  history : List Event := []
  sink : Sink := {}

namespace Session

def format (s : Session) : Text :=
  if s.config.format.isEmpty then .ofString "%g" else s.config.format

def events (s : Session) : List Event :=
  s.history.reverse

def note (event : Event) (s : Session) : Session :=
  { s with history := event :: s.history }

@[simp] theorem events_note (event : Event) (s : Session) : (s.note event).events = s.events ++ [event] := by
  simp [note, events]

/-- Writes a text; `failure` is the error if that fails. -/
def write (failure : SessionError) (t : Text) (s : Session) : Except SessionStop Unit × Session :=
  let (fitted, sink) := s.sink.write t
  (if fitted then .ok () else .error (.error failure), { s with sink })

def errorLine (color : Bool) (message : String) : Text :=
  let line := "Error: " ++ message
  .ofString ((if color then "\x1b[31m" ++ line ++ "\x1b[0m" else line) ++ "\n")

def writeError (message : String) (s : Session) : Except SessionStop Unit × Session :=
  s.write .writingError (errorLine s.config.color message)

def resultLine (format : Text) (rounding : Ordering) : Result → Text
  | .defined => .ofString "()\n"
  | .value x => .ofString "= " ++ Format.render format x rounding ++ .ofString "\n"

def resultEvent (line : Nat) (source : Text) (tree : Tree) : Result → Event
  | .defined => .functionDefined line source tree
  | .value x => .evaluated line source tree x

/-- How the value of a line is rounded, if the format shows that. -/
def shownRounding (line : Line) (s : Session) : Ordering :=
  if Format.showsRounding s.format then s.env.rounding line else .eq

/-- Evaluates a line that was read, and writes what it gives. Whatever the format, the value has to have a
shortest text. -/
def evaluateLine (source : Text) (line : Line) (s : Session) : Except SessionStop Unit × Session :=
  let rounding := s.shownRounding line
  let (result, env) := s.env.evaluate line
  let s := { s with env }
  match result with
  | .error (.fault f) => (.error (.fault f), s)
  | .error (.error e) =>
    (s.note (.evaluationFailed s.lines source line.tree e)).writeError e.message
  | .ok result =>
    if result.isShowable then
      (s.note (resultEvent s.lines source line.tree result)).write .writingResult
        (resultLine s.format rounding result)
    else (.error (.fault .noShortText), s)

def echoTree (line : Line) (s : Session) : Except SessionStop Unit × Session :=
  if s.config.echo then s.write .writingTree (.ofString (line.tree.text ++ " : "))
  else (.ok (), s)

/-- Evaluates one line and writes its result. A blank line does nothing. -/
def line (source : Text) (s : Session) : Except SessionStop Unit × Session :=
  if source.isAllBlank then (.ok (), s)
  else
    let s := { s with lines := s.lines + 1 }
    match Parser.parseText source with
    | .error e => (s.note (.parseFailed s.lines source e)).writeError e.message
    | .ok line =>
      match s.echoTree line with
      | (.error stop, s) => (.error stop, s)
      | (.ok _, s) => s.evaluateLine source line

end Session

end Abacus
