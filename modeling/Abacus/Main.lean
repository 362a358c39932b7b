import Abacus.Command.Basic

/-!
The command line program.
-/

namespace Abacus.Main

/-- Reads a stream to its end. -/
partial def readAll (stream : IO.FS.Stream) (read : ByteArray) : IO ByteArray := do
  let chunk ← stream.read 65536
  if chunk.isEmpty then return read else readAll stream (read ++ chunk)

/-- A name for the session in the log. -/
def sessionName : IO String := do
  let n ← IO.rand 0 ((1 <<< 64) - 1)
  return String.ofList (Text.hexDigits 16 n)

def writeBytes (stream : IO.FS.Stream) (bytes : List UInt8) : IO Unit := do
  stream.write bytes.toByteArray
  stream.flush

end Abacus.Main

open Abacus in
def main (args : List String) : IO UInt32 := do
  let input ← Main.readAll (← IO.getStdin) .empty
  let report := Command.run (← Main.sessionName) args input.toList .standard
  Main.writeBytes (← IO.getStdout) report.output
  Main.writeBytes (← IO.getStderr) report.errors
  return report.exit.toUInt32
