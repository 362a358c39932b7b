import Abacus.Environment.Definition
import Abacus.Tree.Parser

/-!
Evaluation of lines.

Values are computed on the stack of the environment. Assignments are collected first, and change the
variables only if the whole line succeeds; until then they already count for what is evaluated after
them in the same line. After an error the stack is empty again; after a fault it is left as it was.
-/

namespace Abacus

/-- What an evaluation works on. -/
structure Machine where
  stack : Stack
  literals : Option (Bindings Number)
  /-- The assignments so far. -/
  writes : Bindings Number

abbrev Evaluation := EStateM Stop Machine

namespace Evaluation

/-- Puts a place of the stack into use. -/
def push (env : Environment) : Evaluation Unit :=
  modify fun m => { m with stack := m.stack.push (.zero (Environment.numberPrec env.prec)) }

/-- Stores a value in the top place. -/
def store (x : Number) : Evaluation Unit :=
  modify fun m => { m with stack := m.stack.store x }

/-- Replaces the value of the top place. -/
def replace (x : Number) : Evaluation Unit :=
  modify fun m => { m with stack := m.stack.replace x }

def drop (n : Nat) : Evaluation Unit :=
  modify fun m => { m with stack := m.stack.drop n }

/-- The value on top of the stack. -/
def top : Evaluation Number := do
  match (← get).stack.live with
  | [] => throw (.fault (.inconsistentStack 0))
  | x :: _ => return x

/-- The value of a literal, which is computed once. -/
def literal (env : Environment) (text : String) : Evaluation Number := do
  let m ← get
  match m.literals.bind (·.find? text) with
  | some x => return x
  | none =>
    match Number.parse env.prec text, m.literals with
    | .error e, _ => throw (.fault (.invalidNumber text e))
    | .ok _, none => throw (.fault .noLiteralTable)
    | .ok x, some table =>
      set { m with literals := some (table.insert text x) }
      return x

/-- The value of a variable; the assignments so far come first. -/
def lookup (env : Environment) (name : String) : Evaluation (Option Number) := do
  match (← get).writes.find? name with
  | some x => return some x
  | none => return env.vars.find? name

/-- Notes an assignment. -/
def assign (env : Environment) (name : String) (x : Number) : Evaluation Unit :=
  modify fun m => { m with writes := m.writes.insert name (Environment.keep env.prec x) }

/-- Evaluates a body with the `count` values on top of the stack as its arguments. Its value then goes
to the place below them, and the places above that are given back. -/
def enterBody (count : Nat) (body : List Number → Evaluation Unit) : Evaluation Unit := do
  let m ← get
  body (m.stack.live.take count).reverse
  let x ← top
  drop (count + 1)
  store x

/-- The check that a function is called with as many arguments as it takes. -/
def checkArity (f : Func) (given : Nat) : Evaluation Unit :=
  if given = f.params.length then return
  else throw (.error (.arity f.name f.params.length given))

/-- Applies an operator to the two values on top of the stack. The result takes the place of the left one. -/
def operate (op : BinaryOp) : Evaluation Unit := do
  let y ← top
  drop 1
  let x ← top
  let (z, failure) := op.arith x y
  replace z
  match failure with
  | none => return
  | some e => throw (.error e)

mutual

/-- Pushes the value of a tree, where `combine` applies an operator to the values of its operands. The arguments of
the function whose body it is are in `frame`; `call` says how to evaluate a body with given arguments, and is missing
inside of a body, where all calls have been replaced. -/
def evalWith (combine : BinaryOp → Evaluation Unit) (env : Environment)
    (call : Option (Func → List Number → Evaluation Unit)) (frame : List Number) : Tree → Evaluation Unit
  | .number text => do
    push env
    store (← literal env text)
  | .ident name => do
    match ← lookup env name, call, env.functions.find? name with
    | some x, _, _ =>
      push env
      store x
    | none, some call, some f =>
      checkArity f 0
      push env
      enterBody 0 (call f)
    | _, _, _ => throw (.error (.undefinedVariable name))
  | .param index _ => do
    push env
    match Tree.argument frame index with
    | .ok x => store x
    | .error fault => throw (.fault fault)
  | .assign name value => do
    evalWith combine env call frame value
    assign env name (← top)
  | .call function args => do
    match env.functions.find? function, call with
    | none, _ => throw (.error (.undefinedFunction function))
    | some f, some call =>
      checkArity f args.length
      push env
      evalAllWith combine env (some call) frame args
      enterBody args.length (call f)
    | some _, none => throw (.fault (.invalidNode (Tree.call function args).kindName))
  | .define _ _ _ => throw (.fault .definitionEvaluated)
  | .unary op operand => do
    evalWith combine env call frame operand
    replace (op.apply (← top))
  | .binary op left right => do
    evalWith combine env call frame left
    evalWith combine env call frame right
    combine op
  | .absent => throw (.fault .missing)
  | .malformed code _ _ => throw (.fault (.invalidNode (Tree.kindNameOfCode code)))
  | .extended node _ _ _ _ => evalWith combine env call frame node

/-- Pushes the values of the trees one after the other. -/
def evalAllWith (combine : BinaryOp → Evaluation Unit) (env : Environment)
    (call : Option (Func → List Number → Evaluation Unit)) (frame : List Number) : List Tree → Evaluation Unit
  | [] => return
  | t :: rest => do
    evalWith combine env call frame t
    evalAllWith combine env call frame rest

end

/-- Pushes the value of a tree. -/
def eval (env : Environment) (call : Option (Func → List Number → Evaluation Unit)) (frame : List Number) (t : Tree) :
    Evaluation Unit :=
  evalWith operate env call frame t

def evalAll (env : Environment) (call : Option (Func → List Number → Evaluation Unit)) (frame : List Number)
    (ts : List Tree) : Evaluation Unit :=
  evalAllWith operate env call frame ts

/-- Evaluates the body of a function. There are no calls in it. -/
def callBody (env : Environment) (f : Func) (args : List Number) : Evaluation Unit :=
  eval env none args f.body

/-- Evaluates the tree of a line. -/
def evalLine (env : Environment) (t : Tree) : Evaluation Unit :=
  eval env (some (callBody env)) [] t

end Evaluation

/-- What a line gives. -/
inductive Result where
  | defined
  | value (x : Number)
deriving DecidableEq

namespace Result

/-- Whether the result can be shown. -/
def isShowable : Result → Bool
  | .defined => true
  | .value x => x.hasShortText

/-- The result as it is shown. -/
def print : Result → Except Fault String
  | .defined => .ok "()"
  | .value x => x.print.map ("= " ++ ·)

end Result

/-- Why a line was not carried out. -/
inductive Failure where
  | input (e : InputError)
  | evaluation (e : EvalError)
  | fault (f : Fault)
deriving DecidableEq

namespace Failure

def ofStop : Stop → Failure
  | .error e => .evaluation e
  | .fault f => .fault f

def message : Failure → String
  | .input e => e.message
  | .evaluation e => e.message
  | .fault f => f.message

end Failure

namespace Environment

/-- The environment with what an evaluation left behind. -/
def settle (env : Environment) (m : Machine) : Environment :=
  { env with stack := m.stack, literals := m.literals }

/-- Takes the value of a line from the stack and carries out its assignments. -/
def commit (env : Environment) (m : Machine) : Except Stop Result × Environment :=
  match m.stack.live with
  | [x] =>
    (.ok (.value x),
      { settle env { m with stack := m.stack.drop 1 } with
        vars := env.vars.overriddenBy m.writes })
  | live => (.error (.fault (.inconsistentStack live.length)), settle env m)

/-- Evaluates a line: stores the function it defines, or computes its value. -/
def evaluate (env : Environment) (line : Line) : Except Stop Result × Environment :=
  if !env.stack.live.isEmpty then (.error (.fault .evaluationInUse), env)
  else match line.tree.core with
    | .define function params body =>
      match env.define function params body with
      | .ok f => (.ok .defined, { env with functions := env.functions.insert function f })
      | .error stop => (.error stop, env)
    | tree =>
      let start : Machine := { stack := env.stack, literals := env.literals, writes := .empty }
      match Evaluation.evalLine env tree start with
      | .ok _ m => commit env m
      | .error (.error e) m => (.error (.error e), settle env { m with stack := m.stack.clear })
      | .error (.fault f) m => (.error (.fault f), settle env m)

/-- Reads and evaluates a line. -/
def exec (env : Environment) (text : Text) : Except Failure Result × Environment :=
  match Parser.parseText text with
  | .error e => (.error (.input e), env)
  | .ok line =>
    let (result, env) := env.evaluate line
    (result.mapError .ofStop, env)

end Environment

end Abacus
