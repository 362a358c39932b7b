import Abacus.Bindings
import Abacus.Environment.Stack
import Abacus.Number.Constants
import Abacus.Tree.Printer

/-!
Environments: what a line is evaluated in, and what it may change.

Variables and functions are separate; a name can be bound as both. Numbers are computed to the precision of
the environment. Precision 0 means that values keep the precision they come with.
-/

namespace Abacus

/-- A function. Its body refers to the parameters by position and calls no other function, since
defining it has put the bodies of the functions it calls in the place of the calls. -/
structure Func where
  name : String
  params : List String
  body : Tree

namespace Func

def vars (f : Func) : List String :=
  f.body.vars

def print (f : Func) : Except Fault String :=
  f.body.write false (f.name ++ Tree.spaced f.params ++ " => ")

end Func

structure Environment where
  prec : Nat
  vars : Bindings Number
  functions : Bindings Func
  /-- The values of the literals met so far; an environment that was never set up has no table. -/
  literals : Option (Bindings Number)
  stack : Stack

/-- What an environment can be set up with. -/
inductive Setting where
  | prec (n : Nat)
  | noConstants
  | var (name : String) (value : Number)
  | vars (bindings : List (String × Number))
  | nothing
  | unknown

namespace Setting

def prec? : Setting → Option Nat
  | .prec n => some n
  | _ => none

/-- The last precision that is asked for, looked for from the end. -/
def lastPrec? (settings : List Setting) : Option Nat :=
  settings.reverse.findSome? prec?

end Setting

namespace Environment

def numberPrec (prec : Nat) : Nat :=
  min prec Number.maxPrec

/-- A value as the environment keeps it. -/
def keep (prec : Nat) (x : Number) : Number :=
  x.atPrec (numberPrec prec)

/-- An environment that was never set up: no precision, no bindings, and no table of literals. -/
def bare : Environment :=
  { prec := 0, vars := .empty, functions := .empty, literals := none, stack := .empty }

def chosenPrec (default : Nat) (settings : List Setting) : Nat :=
  settings.foldl (fun prec s => s.prec?.getD prec) default

def applySetting (prec : Nat) (vars : Bindings Number) :
    Setting → Except Fault (Bindings Number)
  | .var name value => .ok (vars.insert name (keep prec value))
  | .vars bindings =>
    .ok (vars.insertAll (bindings.map fun (name, value) => (name, keep prec value)))
  | .unknown => .error .unknownOption
  | _ => .ok vars

/-- The remembered literals of a copy. They are dropped if the precision rises, since they would lack digits then. -/
def literalsAt (env : Environment) (prec : Nat) : Bindings Number :=
  if prec ≤ env.prec then (env.literals.getD .empty).map (keep prec) else .empty

/-- The variables of a copy. At the same precision they are taken over as they are. -/
def varsAt (env : Environment) (prec : Nat) : Bindings Number :=
  if prec = env.prec then env.vars else env.vars.map (keep prec)

/-- A copy with other settings. The stack starts empty. -/
def clone (env : Environment) (settings : List Setting) : Except Fault Environment := do
  let prec := (Setting.lastPrec? settings).getD env.prec
  let vars ← settings.foldlM (applySetting prec) (env.varsAt prec)
  return { prec, vars, functions := env.functions, literals := some (env.literalsAt prec), stack := .empty }

def predefined (constants : Constants) (prec : Nat) : Bindings Number :=
  (Bindings.empty.insert "e" (constants.euler (numberPrec prec))).insert "pi" (constants.pi (numberPrec prec))

def refusesConstants : Setting → Bool
  | .noConstants => true
  | _ => false

/-- What a new environment is a copy of. Its precision is 64 and the constants are bound, unless a setting says
otherwise. -/
def initial (settings : List Setting) (constants : Constants) : Environment :=
  let prec := chosenPrec 64 settings
  let vars := if settings.any refusesConstants then .empty else predefined constants prec
  { prec, vars, functions := .empty, literals := some .empty, stack := .empty }

def create (settings : List Setting) (constants : Constants := .standard) : Except Fault Environment :=
  (initial settings constants).clone settings

def set (env : Environment) (name : String) (value : Number) : Except Fault Environment :=
  if env.stack.live.isEmpty then
    .ok { env with vars := env.vars.insert name (keep env.prec value) }
  else .error .setInUse

def push (env : Environment) : Environment :=
  { env with stack := env.stack.push (.zero (numberPrec env.prec)) }

end Environment

end Abacus
