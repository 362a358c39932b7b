import Abacus.Environment.Evaluation
import Abacus.Number.Exact

/-!
Which way the value of a line was rounded.

What counts is the last step that gave the value: an operation, or storing a value in a place of the stack that
has a lower precision. To change the sign is a step of its own, which is exact, and so is every operation on
an infinite operand. A plus sign and an assignment are no steps.
-/

namespace Abacus

def BinaryOp.exactValue? (op : BinaryOp) (x y : Number) : Option Exact := do
  let a ← Exact.ofNumber? x
  let b ← Exact.ofNumber? y
  return match op with
    | .add => a.add b
    | .sub => a.add b.neg
    | .mul => a.mul b
    | .div => a.div b
    | .mod => .ofInt (x.truncate.tmod y.truncate)

/-- Whether a number is below, at or above an exact value, if there is one. -/
def Number.roundingFrom (x : Number) : Option Exact → Ordering
  | some a => a.roundingTo x
  | none => .eq

/-- How the result `z` of an operation was rounded. A number subtracted from zero is rounded before its sign
changes. -/
def BinaryOp.rounding (op : BinaryOp) (x y z : Number) : Ordering :=
  if op = .sub ∧ x.isZero then z.negate.roundingFrom (Exact.ofNumber? y)
  else z.roundingFrom (op.exactValue? x y)

namespace Evaluation

/-- How the value on top of the stack was rounded, if it was stored there from `x`. -/
def storing (x : Number) : Evaluation Ordering := do
  return (← top).roundingFrom (Exact.ofNumber? x)

/-- How the value of a call was rounded. The value of the body is above it and above the arguments. -/
def returning (count : Nat) : Evaluation Ordering := do
  match (← get).stack.spare[count]? with
  | some x => storing x
  | none => return .eq

/-- Evaluates as much of a tree as it takes to know how its value was rounded. -/
def rounding (env : Environment) : Tree → Evaluation Ordering
  | .unary .neg _ => return .eq
  | .unary .pos operand => rounding env operand
  | .assign _ value => rounding env value
  | .extended node _ _ _ _ => rounding env node
  | .binary op left right => do
    evalLine env left
    evalLine env right
    let y ← top
    drop 1
    let x ← top
    match op.apply x y with
    | .ok z => return op.rounding x y z
    | .error e => throw (.error e)
  | .number text => do
    evalLine env (.number text)
    storing (← literal env text)
  | .ident name => do
    evalLine env (.ident name)
    match ← lookup env name with
    | some x => storing x
    | none => returning 0
  | .call function args => do
    evalLine env (.call function args)
    returning args.length
  | _ => return .eq

end Evaluation

namespace Environment

/-- How the value of a line is rounded: down, not at all, or up. -/
def rounding (env : Environment) (line : Line) : Ordering :=
  let start : Machine := { stack := env.stack, literals := env.literals, writes := .empty }
  match Evaluation.rounding env line.tree start with
  | .ok direction _ => direction
  | .error _ _ => .eq

end Environment

end Abacus
