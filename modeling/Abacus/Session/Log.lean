import Abacus.Environment.Evaluation

/-!
The log of a session: what happened, line by line.
-/

namespace Abacus

/-- How important an event is, from the least on. -/
inductive Level where
  | trace
  | debug
  | info
  | warning
deriving DecidableEq

namespace Level

def name : Level → String
  | .trace => "trace"
  | .debug => "debug"
  | .info => "info"
  | .warning => "warning"

def rank : Level → Nat
  | .trace => 0
  | .debug => 1
  | .info => 2
  | .warning => 3

def ofName? (name : String) : Option Level :=
  [Level.trace, .debug, .info, .warning].find? fun level => level.name = name

end Level

/-- What can happen in a session. Lines are counted from 1. -/
inductive Event where
  | started
  | terminalStarted
  | ended (lines : Nat)
  | parseFailed (line : Nat) (source : Text) (e : InputError)
  | evaluationFailed (line : Nat) (source : Text) (tree : Tree) (e : EvalError)
  | functionDefined (line : Nat) (source : Text) (tree : Tree)
  | evaluated (line : Nat) (source : Text) (tree : Tree) (x : Number)

namespace Event

/-- The value of a field. -/
inductive Field where
  | count (n : Nat)
  | text (t : Text)

def level : Event → Level
  | .started => .info
  | .terminalStarted => .info
  | .ended _ => .info
  | _ => .debug

def message : Event → String
  | .started => "session started"
  | .terminalStarted => "terminal session started"
  | .ended _ => "session ended"
  | .parseFailed _ _ _ => "parse failed"
  | .evaluationFailed _ _ _ _ => "evaluation failed"
  | .functionDefined _ _ _ => "defined function"
  | .evaluated _ _ _ _ => "evaluated"

/-- What is known about an event, in the order of the names. -/
def fields : Event → List (String × Field)
  | .started => []
  | .terminalStarted => []
  | .ended lines => [("lines", .count lines)]
  | .parseFailed line source e =>
    [("error", .text (.ofString e.message)), ("line", .count line), ("src", .text source)]
  | .evaluationFailed line source tree e =>
    [("error", .text (.ofString e.message)), ("line", .count line), ("src", .text source),
     ("tree", .text (.ofString tree.text))]
  | .functionDefined line source tree =>
    [("line", .count line), ("src", .text source), ("tree", .text (.ofString tree.text))]
  | .evaluated line source tree x =>
    [("line", .count line), ("result", .text (.ofString x.shortText)), ("src", .text source),
     ("tree", .text (.ofString tree.text))]

/-- The events that are as important as `threshold` at least. -/
def atLeast (threshold : Level) (events : List Event) : List Event :=
  events.filter fun event => threshold.rank ≤ event.level.rank

/-- The characters that a value can have without quotes. -/
def isPlain (c : Char) : Bool :=
  c.isAlphanum || c == '-' || c == '.' || c == '_' || c == '/' || c == '@' || c == '^' || c == '+'

/-- A value as a log line shows it. -/
def valueText (t : Text) : String :=
  if t.all fun s => match s with | .char c => isPlain c | .stray _ => false then t.toString
  else Text.quote t

def Field.toText : Field → Text
  | .count n => .ofString n.repr
  | .text t => t

/-- Puts a field in the order of the names. -/
def insertField (field : String × Field) : List (String × Field) → List (String × Field)
  | [] => [field]
  | other :: rest =>
    if field.1 < other.1 then field :: other :: rest else other :: insertField field rest

/-- The event as a line of the log of a session. -/
def logLine (session : String) (event : Event) : String :=
  let fields := insertField ("session", .text (.ofString session)) event.fields
  let pair (key : String) (value : Text) : String := key ++ "=" ++ valueText value
  let words := pair "level" (.ofString event.level.name) :: pair "msg" (.ofString event.message)
    :: fields.map fun (key, value) => pair key value.toText
  " ".intercalate words ++ "\n"

end Event

end Abacus
