import Abacus.Session.Basic
import Abacus.Terminal.Editor

/-!
Sessions on a terminal: a prompt for every line, and the line editor to read it.
-/

namespace Abacus.Session

/-- Sends what the terminal has to show. Whether that succeeds does not matter. -/
def flush (t : Editor) (s : Session) : Editor × Session :=
  ({ t with pending := [] },
    { s with sink := (s.sink.put (Text.toBytes (t.pending.map .char))).2 })

/-- Shows the prompt, unless there is something on the row already. -/
def showPrompt (t : Editor) (s : Session) : Editor × Session :=
  if t.column = 0 ∧ t.row = 0 then s.flush (t.showChars t.prompt) else (t, s)

/-- Reads and evaluates lines up to the end of the input. -/
def terminalLines (broken : Bool) (t : Editor) (input : List Symbol) (s : Session) :
    Except SessionStop Unit × Session :=
  let shown := s.showPrompt t
  let s := shown.2
  match _read : shown.1.readKeys shown.1.pasting input with
  | (.ended, _, _) => (.ok (), s.note (.ended s.lines))
  | (.exhausted, t, _) =>
    let s := (s.flush t).2
    if broken then (.error (.error .readingLine), s) else (.ok (), s.note (.ended s.lines))
  | (.pasted, t, _) => (.error (.error .pastedLine), (s.flush t).2)
  | (.line chars, t, rest) =>
    let flushed := s.flush t
    match flushed.2.line (chars.map .char) with
    | (.ok _, s) => terminalLines broken flushed.1 rest s
    | (.error stop, s) => (.error stop, s)
termination_by input.length
decreasing_by exact Editor.readKeys_length _read

/-- Runs a session on a terminal that sends `input`, and then nothing more or, if it is `broken`, a failure. -/
def runTerminal (prompt : Text) (input : List UInt8) (broken : Bool) (s : Session) :
    Except SessionStop Unit × Session :=
  let s := { s with sink := { s.sink with carriageReturns := true } }.note .terminalStarted
  terminalLines broken { prompt := prompt.toChars } (Text.ofBytes input) s

end Abacus.Session
