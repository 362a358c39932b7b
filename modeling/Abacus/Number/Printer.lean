import Abacus.Number.Decimal

/-!
The written forms of a number: scientific, fixed, general, and three with a binary exponent.
-/

namespace Abacus

inductive Style where
  | scientific (upper : Bool)
  | fixed
  | general (upper : Bool)
  /-- The significand as a decimal integer that uses all bits of the precision. -/
  | integerBinary
  /-- A hexadecimal significand that begins with 1. -/
  | hexBinary
  /-- A hexadecimal significand below 1. -/
  | hexFraction
deriving DecidableEq

namespace Decimal

/-- The first `n` of the digits that follow, with zeros after the last. -/
def firstDigits (n : Nat) (digits : List Nat) : List Char :=
  ((digits.take n).rightpad n 0).map Nat.digitChar

def fraction (d : Decimal) : List Nat :=
  if 0 ≤ d.point then d.digits.drop d.point.toNat
  else List.replicate (-d.point).toNat 0 ++ d.digits

def pointAndDigits (places : Nat) (digits : List Nat) : List Char :=
  if places = 0 then [] else '.' :: firstDigits places digits

def exponentText (e : Int) : String :=
  let digits := Nat.toDigits 10 e.natAbs
  (if e < 0 then "-" else "+") ++ String.ofList (if digits.length < 2 then '0' :: digits else digits)

def scientific (letter : Char) (d : Decimal) (places : Nat) : String :=
  let e := if d.digits.isEmpty then 0 else d.point - 1
  String.ofList (firstDigits 1 d.digits ++ pointAndDigits places d.digits.tail ++ [letter])
    ++ exponentText e

def fixed (d : Decimal) (places : Nat) : String :=
  let whole := if d.point ≤ 0 then ['0'] else firstDigits d.point.toNat d.digits
  String.ofList (whole ++ pointAndDigits places d.fraction)

/-- General notation for `n` significant digits: scientific for a large or a small exponent, and else
fixed without trailing zeros. Where the digits are the shortest ones, the exponent counts as
large from 6 digits on. -/
def general (letter : Char) (d : Decimal) (shortest : Bool) (n : Nat) : String :=
  let length := d.digits.length
  let limit : Int :=
    if shortest then 6 else if length < n ∧ d.point ≤ length then length else n
  if d.point - 1 < -4 ∨ limit ≤ d.point - 1 then scientific letter d (min n length - 1)
  else
    let n := if d.point < n then length else n
    fixed d (n - d.point).toNat

end Decimal

namespace Number

def exponentLetter (upper : Bool) : Char :=
  if upper then 'E' else 'e'

def signedExponent (e : Int) : String :=
  (if e < 0 then "-" else "+") ++ Nat.repr e.natAbs

/-- The significand as a decimal integer of exactly `prec` bits, and the exponent of two. -/
def integerBinaryText (prec : Nat) : Magnitude → String
  | .finite m e =>
    let extra := prec - bitLength m
    Nat.repr (m <<< extra) ++ "p" ++ signedExponent (e - extra)
  | _ => "0"

def hexBinaryText (places : Nat) (x : Number) : String :=
  let fractionOf (digits : List Char) : List Char := if places = 0 then [] else '.' :: digits
  match (x.atPrec (1 + 4 * places)).mag with
  | .finite m e =>
    let digits := (Decimal.digitsOf 16 (m <<< (1 + 4 * places - bitLength m))).map Nat.digitChar
    String.ofList ('0' :: 'x' :: '1' :: fractionOf digits.tail) ++ "p"
      ++ Decimal.exponentText (Magnitude.exponentOf m e - 1)
  | _ => String.ofList ('0' :: 'x' :: '0' :: fractionOf (List.replicate places '0')) ++ "p+00"

/-- The exact size as a hexadecimal fraction in `[1/2, 1)` times a power of two. -/
def hexFractionText : Magnitude → String
  | .finite m e =>
    let digits := (Decimal.digitsOf 16 (m <<< ((4 - bitLength m % 4) % 4))).map Nat.digitChar
    "0x." ++ String.ofList digits ++ "p" ++ signedExponent (Magnitude.exponentOf m e)
  | _ => "0"

/-- The size of a finite number. Without `places` the general style takes the shortest digits and the
others take six places. -/
def sizeText (style : Style) (places : Option Nat) (x : Number) : String :=
  match style, places with
  | .scientific upper, _ =>
    let n := places.getD 6
    ((Decimal.ofMagnitude x.mag).round (1 + n)).scientific (exponentLetter upper) n
  | .fixed, _ =>
    let n := places.getD 6
    let d := Decimal.ofMagnitude x.mag
    (d.round (d.point + n)).fixed n
  | .general upper, none =>
    let d := Decimal.shortest x
    d.general (exponentLetter upper) true d.digits.length
  | .general upper, some n =>
    let n := max n 1
    ((Decimal.ofMagnitude x.mag).round n).general (exponentLetter upper) false n
  | .integerBinary, _ => integerBinaryText x.prec x.mag
  | .hexBinary, _ => hexBinaryText (places.getD 6) x
  | .hexFraction, _ => hexFractionText x.mag

/-- The number in the given style. Infinity always shows its sign. -/
def text (style : Style) (places : Option Nat) (x : Number) : String :=
  if x.isInfinite then (if x.neg then "-Inf" else "+Inf")
  else (if x.neg then "-" else "") ++ sizeText style places x

/-- Whether a number has a shortest text. To find one takes one bit more than the precision, which the greatest
precision leaves no room for. -/
def hasShortText (x : Number) : Bool :=
  x.prec < maxPrec || !x.mag.isFinite

/-- Whether a number can be written in a style. Only the shortest digits can be out of reach. -/
def hasText (style : Style) (places : Option Nat) (x : Number) : Bool :=
  match style, places with
  | .general _, none => x.hasShortText
  | _, _ => true

/-- The shortest general text, as results are shown. -/
def shortText (x : Number) : String :=
  x.text (.general false) none

/-- Ten significant digits, as operands are shown in messages. -/
def operandText (x : Number) : String :=
  x.text (.general false) (some 10)

def exactText (x : Number) : String :=
  x.text .hexFraction none

end Number

end Abacus
