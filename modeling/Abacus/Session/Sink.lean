import Abacus.Text.Basic

/-!
Where output goes. A sink may have room for only so many bytes; a write that does not fit is cut off and
fails, and so is every later one that is not empty.
-/

namespace Abacus

structure Sink where
  /-- What was written so far, the last write first. -/
  blocks : List (List UInt8) := []
  /-- The number of bytes that still fit, if there is a limit. -/
  room : Option Nat := none
  /-- A newline is written as a carriage return and a newline. -/
  carriageReturns : Bool := false

namespace Sink

def written (sink : Sink) : List UInt8 :=
  sink.blocks.reverse.flatten

def fitting (bytes : List UInt8) (sink : Sink) : List UInt8 :=
  match sink.room with
  | none => bytes
  | some room => bytes.take room

def fits (bytes : List UInt8) (sink : Sink) : Bool :=
  match sink.room with
  | none => true
  | some room => bytes.length ≤ room

/-- Writes bytes as they are, and says whether all of them fitted. -/
def put (bytes : List UInt8) (sink : Sink) : Bool × Sink :=
  (sink.fits bytes,
    { sink with
      blocks := sink.fitting bytes :: sink.blocks
      room := sink.room.map (· - bytes.length) })

@[simp] theorem written_put (bytes : List UInt8) (sink : Sink) :
    (sink.put bytes).2.written = sink.written ++ sink.fitting bytes := by
  simp [put, written]

def takeWritten (sink : Sink) : List UInt8 × Sink :=
  (sink.written, { sink with blocks := [] })

def newline : UInt8 := 10

def carriageReturn : UInt8 := 13

def lineBytes (carriageReturns : Bool) (b : UInt8) : List UInt8 :=
  if carriageReturns && b == newline then [carriageReturn, newline] else [b]

/-- Writes a text, with the ends of lines as the sink wants them. -/
def write (t : Text) (sink : Sink) : Bool × Sink :=
  sink.put (t.toBytes.flatMap (lineBytes sink.carriageReturns))

end Sink

end Abacus
