import Abacus.Error
import Abacus.Token.Basic

/-!
The operators: which sign stands for which operation, how tightly it binds, and what it computes.
-/

namespace Abacus

/-- The operations on two numbers. -/
inductive BinaryOp where
  | add
  | sub
  | mul
  | div
  | mod
deriving DecidableEq

/-- The operations on one number. -/
inductive UnaryOp where
  | neg
  | pos
deriving DecidableEq

/-- How tightly an operator binds. -/
structure Binding where
  /-- Operators of a higher level bind more tightly. -/
  level : Int
  /-- Operators of one level group to the right. -/
  right : Bool
deriving DecidableEq

namespace Binding

/-- Whether an operator takes the operand before it away from the operator `other` before that. -/
def tighterThan (b other : Binding) : Bool :=
  if b.level ≠ other.level then b.level > other.level else b.right

/-- Weaker than every operator: a whole expression. -/
def expression : Binding := { level := -128, right := true }

def sum : Binding := { level := 1, right := false }

def product : Binding := { level := 5, right := false }

def unary : Binding := { level := 10, right := true }

end Binding

namespace BinaryOp

def sign : BinaryOp → Sign
  | .add => .plus
  | .sub => .minus
  | .mul => .times
  | .div => .divide
  | .mod => .percent

def ofSign : Sign → BinaryOp
  | .plus => .add
  | .minus => .sub
  | .times => .mul
  | .divide => .div
  | .percent => .mod

def text (op : BinaryOp) : String :=
  op.sign.text

def binding : BinaryOp → Binding
  | .add => .sum
  | .sub => .sum
  | _ => .product

/-- The place of the left operand after `value?` has been computed in it, and the error if there is no value. The
place has been cleared by then, so what was in it is known only from a copy. -/
def settle (op : BinaryOp) (copy : Option Number) (x y : Number) (value? : Option Number) : Number × Option EvalError :=
  match value? with
  | some z => (z, none)
  | none => (x.cleared y, some (.domain op.text (copy.getD (x.cleared y)) y))

/-- Computes an operation in the place of its left operand: what the place holds then, and the error if it fails. -/
def arith (op : BinaryOp) (x y : Number) : Number × Option EvalError :=
  -- only operations on infinite operands can turn out to have no value
  let copy := if x.isInfinite || y.isInfinite then some x else none
  match op with
  | .add => op.settle copy x y (x.add? y)
  | .sub => op.settle copy x y (x.sub? y)
  | .mul => op.settle copy x y (x.mul? y)
  | .div =>
    if y.isZero then (x, some (.zeroDivision op.text))
    else if x.isInfinite && y.isInfinite then (x, some (.domain op.text x y))
    else op.settle copy x y (x.div? y)
  | .mod =>
    if x.isInfinite || y.isInfinite then
      (x, some (if y.isZero then .zeroDivision op.text else .domain op.text x y))
    else if y.truncate = 0 then (x, some (.zeroDivision op.text))
    else (x.rem y, none)

/-- The value of an operation. -/
def apply (op : BinaryOp) (x y : Number) : Except EvalError Number :=
  match op.arith x y with
  | (z, none) => .ok z
  | (_, some e) => .error e

end BinaryOp

namespace UnaryOp

def sign : UnaryOp → Sign
  | .neg => .minus
  | .pos => .plus

/-- The signs that have a form with one operand. -/
def ofSign? : Sign → Option UnaryOp
  | .plus => some .pos
  | .minus => some .neg
  | _ => none

def text (op : UnaryOp) : String :=
  op.sign.text

def apply : UnaryOp → Number → Number
  | .neg, x => x.negate
  | .pos, x => x

end UnaryOp

end Abacus
