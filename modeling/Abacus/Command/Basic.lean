import Abacus.Command.Flags
import Abacus.Command.Given
import Abacus.Session.Input

/-!
The command: a session over the standard input, set up by flags.
-/

namespace Abacus.Command

/-- The lines that describe the flags, in the order of their declaration. -/
def flagLines : List String :=
  ["   --prec value, -p value           precision of calculations in bits (default: 64)\n",
   "   --fmt value                      result formatting verb (default: \"%g\")\n",
   "   --given value [ --given value ]  name=value variable definition (any number of times)\n",
   "   --echo                           print parse trees (default: false)\n",
   "   --constants                      predefine pi and e (default: false)\n",
   "   --prompt value                   prompt shown on a terminal (default: \"> \")\n",
   "   --verbose, -v                    log each evaluated line to stderr (default: false)\n",
   "   --help, -h                       show help (default: false)\n"]

/-- What the command does and how it is used. The commands that it knows are listed after the blanks
`margin`. -/
def summary (margin : String) : String :=
  "NAME:\n   calc - Arbitrary-precision calculator with variables and functions.\n\n" ++
  "USAGE:\n   calc [options] < lines\n\n" ++
  "COMMANDS:\n" ++ margin ++ "help, h  Shows a list of commands or help for one command\n\n"

/-- The help of the whole command, with its flags in alphabetical order. -/
def helpText : String :=
  summary "   " ++ "GLOBAL OPTIONS:\n" ++ String.join (Tree.sortNames flagLines) ++ "   \n"

def namelessHelpText : String :=
  summary "     " ++ "OPTIONS:\n" ++ String.join flagLines ++ "   \n"

def helpCommandText : String :=
  "NAME:\n    - Shows a list of commands or help for one command\n\n" ++
  "USAGE:\n    [command options] [command]\n\n" ++
  "OPTIONS:\n   --help, -h  show help (default: false)\n   \n"

structure Report where
  output : List UInt8 := []
  errors : List UInt8 := []
  exit : Nat := 0

def bytesOf (s : String) : List UInt8 :=
  (Text.ofString s).toBytes

def shown (output : String) : Report :=
  { output := bytesOf output }

def failed (output message : String) : Report :=
  { output := bytesOf output, errors := bytesOf (message ++ "\n"), exit := 1 }

def environment (constants : Constants) (options : Options) : Except String Environment :=
  let settings := if options.constants then [Setting.prec options.prec]
    else [.prec options.prec, .noConstants]
  match Environment.create settings constants with
  | .error f => .error f.message
  | .ok env => (env.giveAll options.given).mapError GivenError.message

/-- The session that the flags ask for, or why there is none. -/
def session (constants : Constants) (options : Options) : Except String Session :=
  let format := Text.ofString options.format
  if options.prec = 0 then .error "precision must be positive"
  else if !Format.isValid format then .error (Format.invalidMessage format)
  else (environment constants options).map fun env => { env, config := { format, echo := options.echo } }

def threshold (options : Options) : Level :=
  if options.verbose then .debug else .warning

/-- Runs a session over the input. The log goes to the errors, under the name `id`. -/
def runSession (constants : Constants) (id : String) (options : Options) (input : List UInt8) : Report :=
  match session constants options with
  | .error message => failed "" message
  | .ok s =>
    let (result, s) := s.run input false
    let log := (Event.atLeast (threshold options) s.events).flatMap fun e => bytesOf (e.logLine id)
    let report : Report := { output := s.sink.written, errors := log }
    match result with
    | .ok _ => report
    | .error (.error e) => { report with errors := log ++ bytesOf (e.message ++ "\n"), exit := 1 }
    | .error (.fault f) => { report with errors := log ++ bytesOf (f.message ++ "\n"), exit := 2 }

def isHelp (name : String) : Bool :=
  name = "help" || name = "h"

/-- The help on a command, of which there is only `help` itself. -/
def helpOn (topic : String) : Report :=
  if topic = "" then shown namelessHelpText
  else if isHelp topic then shown helpCommandText
  else { errors := bytesOf ("No help topic for '" ++ topic ++ "'\n"), exit := 3 }

def runHelp (args : List String) : Report :=
  let (progress, result) := Flags.read Flags.helpKind? {} args
  let misused (e : FlagError) : Report :=
    failed ("Incorrect Usage: " ++ e.message ++ "\n\n" ++ helpCommandText) e.message
  match result, Flags.doubled? progress.used with
  | .error e, _ => misused e
  | .ok _, some e => misused e
  | .ok rest, none =>
    if progress.options.help then shown helpCommandText
    else match rest with
      | [] => shown helpText
      | topic :: _ => helpOn topic

def run (id : String) (args : List String) (input : List UInt8) (constants : Constants := .standard) : Report :=
  let (progress, result) := Flags.read Flags.kind? {} args
  match Flags.doubled? progress.used, result with
  | some e, _ => failed (e.message ++ "\n" ++ helpText) e.message
  | none, .error e => failed ("Incorrect Usage. " ++ e.message ++ "\n\n" ++ helpText) e.message
  | none, .ok rest =>
    if progress.options.help then shown helpText
    else match rest with
      | [] => runSession constants id progress.options input
      | name :: args => if isHelp name then runHelp args else runSession constants id progress.options input

end Abacus.Command
