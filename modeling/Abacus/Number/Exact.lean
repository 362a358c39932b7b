import Abacus.Number.Basic

/-!
Exact values: what the result of an operation is before it is rounded.

An exact value is a ratio times a power of two. It has no precision and no least or largest exponent. Compared
with it, a number shows which way it was rounded.
-/

namespace Abacus

/-- The value `num / den * 2 ^ exp`, where `den` is not 0. -/
structure Exact where
  num : Int
  den : Nat
  exp : Int

namespace Exact

def ofInt (z : Int) : Exact :=
  { num := z, den := 1, exp := 0 }

/-- The value of a number, if it is not infinite. -/
def ofNumber? (x : Number) : Option Exact :=
  match x.mag with
  | .zero => some (ofInt 0)
  | .finite m e => some { num := Number.signed x.neg m, den := 1, exp := e }
  | .infinite => none

/-- The ratio of a value to the power of two with a smaller exponent, times its denominator. -/
def numAt (a : Exact) (exp : Int) : Int :=
  a.num <<< (a.exp - exp).toNat

def neg (a : Exact) : Exact :=
  { a with num := -a.num }

def add (a b : Exact) : Exact :=
  let exp := min a.exp b.exp
  { num := a.numAt exp * b.den + b.numAt exp * a.den, den := a.den * b.den, exp }

def mul (a b : Exact) : Exact :=
  { num := a.num * b.num, den := a.den * b.den, exp := a.exp + b.exp }

/-- The quotient by a value other than 0. -/
def div (a b : Exact) : Exact :=
  { num := a.num * b.num.sign * b.den, den := a.den * b.num.natAbs, exp := a.exp - b.exp }

/-- Whether a value is below, at or above 0. -/
def direction (a : Exact) : Ordering :=
  compare a.num 0

/-- Whether a number is below, at or above the value that it was rounded from. -/
def roundingTo (a : Exact) (x : Number) : Ordering :=
  match ofNumber? x with
  | some b => (b.add a.neg).direction
  | none => if x.neg then .lt else .gt

end Exact

end Abacus
