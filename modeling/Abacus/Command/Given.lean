import Abacus.Environment.Evaluation

/-!
Variables given as `name=value` before a session begins.
-/

namespace Abacus

/-- Why a variable could not be given. -/
inductive GivenError where
  | shape (definition : Text)
  | badName (name : Text)
  | input (name : String) (e : InputError)
  | definesFunction (name : String)
  | evaluation (name : String) (e : EvalError)
  | fault (f : Fault)
deriving DecidableEq

namespace GivenError

def message : GivenError → String
  | .shape definition => "variable definitions must be \"name=value\", not " ++ Text.quote definition
  | .badName name => "invalid variable name " ++ Text.quote name
  | .input name e => "setting " ++ name ++ ": " ++ e.message
  | .definesFunction name => "setting " ++ name ++ ": value is a function definition"
  | .evaluation name e => "setting " ++ name ++ ": " ++ e.message
  | .fault f => f.message

end GivenError

namespace Environment

/-- Evaluates the value of a variable and binds the variable to it. -/
def giveValue (env : Environment) (name : String) (line : Line) :
    Except GivenError Unit × Environment :=
  match env.evaluate line with
  | (.error (.error e), env) => (.error (.evaluation name e), env)
  | (.error (.fault f), env) => (.error (.fault f), env)
  | (.ok .defined, env) => (.error (.definesFunction name), env)
  | (.ok (.value x), env) =>
    match env.set name x with
    | .ok env => (.ok (), env)
    | .error f => (.error (.fault f), env)

/-- Gives a variable by the text `name=value`. The value may use the variables given before. -/
def give (env : Environment) (definition : Text) : Except GivenError Unit × Environment :=
  match definition.cut? '=' with
  | none => (.error (.shape definition), env)
  | some (before, value) =>
    let name := before.trim
    if name.isName then
      match Parser.parseText value with
      | .error e => (.error (.input name.toString e), env)
      | .ok line =>
        if line.isDefinition then (.error (.definesFunction name.toString), env)
        else env.giveValue name.toString line
    else (.error (.badName name), env)

/-- Gives variables in order, up to the first that fails. -/
def giveAll (env : Environment) : List Text → Except GivenError Environment
  | [] => .ok env
  | definition :: rest =>
    match env.give definition with
    | (.ok _, env) => giveAll env rest
    | (.error e, _) => .error e

end Environment

end Abacus
