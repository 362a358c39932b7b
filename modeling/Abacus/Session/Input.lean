import Abacus.Session.Basic

/-!
Sessions over an input that is given in whole lines.
-/

namespace Abacus

namespace Input

/-- A line may have this many bytes, with the newline that ends it. -/
def longestLine : Nat := 65536

inductive Item where
  | line (bytes : List UInt8)
  /-- A line that is longer than a line may be. The input ends with it. -/
  | tooLong

/-- A line without the carriage return at its end. The bytes come last first. -/
def lineOf (taken : List UInt8) : Item :=
  match taken with
  | b :: rest => if b = Sink.carriageReturn then .line rest.reverse else .line taken.reverse
  | [] => .line []

/-- The lines of an input, after the first `count` bytes of a line were `taken`. A newline at the very end
begins no further line. -/
def itemsFrom (taken : List UInt8) (count : Nat) : List UInt8 → List Item
  | [] => if count ≥ longestLine then [.tooLong] else if count = 0 then [] else [lineOf taken]
  | b :: rest =>
    if count ≥ longestLine then [.tooLong]
    else if b = Sink.newline then lineOf taken :: itemsFrom [] 0 rest
    else itemsFrom (b :: taken) (count + 1) rest

def items (bytes : List UInt8) : List Item :=
  itemsFrom [] 0 bytes

end Input

namespace Session

def evaluateItems (s : Session) : List Input.Item → Except SessionStop Unit × Session
  | [] => (.ok (), s)
  | .tooLong :: _ => (.error (.error .lineTooLong), s)
  | .line bytes :: rest =>
    match s.line (.ofBytes bytes) with
    | (.ok _, s) => evaluateItems s rest
    | (.error stop, s) => (.error stop, s)

/-- Runs a session over an input. A `broken` input ends in a failure, after its last line. -/
def run (input : List UInt8) (broken : Bool) (s : Session) : Except SessionStop Unit × Session :=
  match (s.note .started).evaluateItems (Input.items input) with
  | (.error stop, s) => (.error stop, s)
  | (.ok _, s) =>
    if broken then (.error (.error .readingInput), s) else (.ok (), s.note (.ended s.lines))

end Session

end Abacus
