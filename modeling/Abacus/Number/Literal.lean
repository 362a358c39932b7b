import Abacus.Number.Arithmetic
import Abacus.Text.Quoted

/-!
Reading a number from its decimal text.

The text is a sign, decimal digits with at most one point, and an exponent: of ten after `e`, or of two
after `p`. The words `Inf` and `inf`, with or without a sign, stand for infinity. The digits without
the point are an exact integer; it is scaled by the power of two, and by a power of five that
itself is computed with 64 bits more than the result has, and the scaled value is rounded once. So
a text with many digits after the point need not give the nearest number.
-/

namespace Abacus

inductive LiteralError where
  | empty
  | noDigits
  | exponentTooLong (digits : String)
  | exponentOutOfRange
  | trailing (c : Char)
deriving DecidableEq

namespace LiteralError

/-- A character that ends the text too early is shown by its first byte alone. -/
def firstByte (c : Char) : Char :=
  match String.utf8EncodeChar c with
  | b :: _ => Char.ofNat b.toNat
  | [] => c

def message : LiteralError → String
  | .empty => "EOF"
  | .noDigits => "number has no digits"
  | .exponentTooLong digits =>
    "strconv.ParseInt: parsing " ++ Text.quoteString digits ++ ": value out of range"
  | .exponentOutOfRange => "exponent overflow"
  | .trailing c => "expected end of string, found " ++ Text.quoteChar (firstByte c)

end LiteralError

namespace Number

def decimalValue (digits : List Char) : Nat :=
  digits.foldl (fun n c => 10 * n + (c.toNat - '0'.toNat)) 0

/-- A precision that can be asked for: 0 stands for 64, and there is a largest one. -/
def literalPrec (prec : Nat) : Nat :=
  if prec = 0 then 64 else min prec maxPrec

inductive Scale where
  | ten (e : Int)
  | two (e : Int)

structure Literal where
  neg : Bool
  whole : List Char
  fraction : List Char
  scale : Scale

def readExponent (text : List Char) : Except LiteralError (Int × List Char) :=
  let (neg, text) := match text with
    | '-' :: rest => (true, rest)
    | '+' :: rest => (false, rest)
    | _ => (false, text)
  let digits := text.takeWhile Char.isDigit
  let rest := text.dropWhile Char.isDigit
  let e : Int := signed neg (decimalValue digits)
  if digits.isEmpty then .error .noDigits
  else if e < -9223372036854775808 ∨ e > 9223372036854775807 then
    .error (.exponentTooLong (String.ofList (if neg then '-' :: digits else digits)))
  else .ok (e, rest)

def readScale : List Char → Except LiteralError (Scale × List Char)
  | [] => .ok (.ten 0, [])
  | c :: rest =>
    if c = 'e' ∨ c = 'E' then (readExponent rest).map fun (e, rest) => (.ten e, rest)
    else if c = 'p' ∨ c = 'P' then (readExponent rest).map fun (e, rest) => (.two e, rest)
    else .ok (.ten 0, c :: rest)

/-- Reads the sign, the digits and the exponent, and returns what follows them. -/
def readLiteral (text : List Char) : Except LiteralError (Literal × List Char) :=
  match text with
  | [] => .error .empty
  | first :: rest =>
    let neg := first = '-'
    let text := if first = '-' ∨ first = '+' then rest else text
    let whole := text.takeWhile Char.isDigit
    let (fraction, text) := match text.dropWhile Char.isDigit with
      | '.' :: rest => (rest.takeWhile Char.isDigit, rest.dropWhile Char.isDigit)
      | text => ([], text)
    if whole.isEmpty ∧ fraction.isEmpty then .error .noDigits
    else (readScale text).map fun (scale, rest) => ({ neg, whole, fraction, scale }, rest)

/-- The product of `z` and `f ^ n` by repeated squaring, each product rounded. -/
def mulPow (z f : Number) (n : Nat) : Number :=
  if n = 0 then z
  else
    let z := if n % 2 = 1 then (mul? z f).getD z else z
    mulPow z ((mul? f f).getD f) (n / 2)
termination_by n

/-- An approximation of `5 ^ n`: exact up to `5 ^ 27` but for the rounding to `prec`, and from there on
by products rounded to `prec`, of squares rounded to 64 bits more. -/
def powerOfFive (prec n : Nat) : Number :=
  if n ≤ 27 then ofScaled prec false (Nat.pow 5 n) 0
  else mulPow (ofScaled prec false (Nat.pow 5 27) 0) (ofScaled (prec + 64) false 5 0) (n - 27)

/-- The number `±n * 2 ^ e * 5 ^ f` at precision `prec`, rounded once, with the power of five taken from
`powerOfFive`. -/
def ofPowers (prec : Nat) (neg : Bool) (n : Nat) (e f : Int) : Number :=
  if f = 0 then ofScaled prec neg n e
  else
    let power := powerOfFive (prec + 64) f.natAbs
    match power.mag with
    | .finite m k =>
      if f < 0 then ofRatio prec neg n m (e - k) (wordCount prec)
      else ofRatio prec neg (n * m) 1 (e + k) (wordCount (bitLength n) + power.words)
    | _ => if f < 0 then special prec neg .zero else special prec neg .infinite

def Literal.toNumber (prec : Nat) (l : Literal) : Except LiteralError Number :=
  let n := decimalValue (l.whole ++ l.fraction)
  let places : Int := l.fraction.length
  if n = 0 then .ok (special prec l.neg .zero)
  else
    let (e, f) := match l.scale with
      | .ten e => (e - places, e - places)
      | .two e => (e - places, -places)
    if Magnitude.exponentOf n e < Magnitude.minExponent ∨ Magnitude.exponentOf n e > Magnitude.maxExponent then
      .error .exponentOutOfRange
    else .ok (ofPowers prec l.neg n e f)

/-- The number that a whole text denotes at precision `prec`; 0 stands for a precision of 64, but leaves
an infinity without one. -/
def parse (prec : Nat) (text : String) : Except LiteralError Number :=
  if text = "Inf" ∨ text = "inf" ∨ text = "+Inf" ∨ text = "+inf" then
    .ok (special (min prec maxPrec) false .infinite)
  else if text = "-Inf" ∨ text = "-inf" then
    .ok (special (min prec maxPrec) true .infinite)
  else match readLiteral text.toList with
    | .error e => .error e
    | .ok (literal, rest) =>
      match literal.toNumber (literalPrec prec), rest with
      | .error e, _ => .error e
      | .ok _, c :: _ => .error (.trailing c)
      | .ok x, [] => .ok x

end Number

end Abacus
