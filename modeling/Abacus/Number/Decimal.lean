import Abacus.Number.Basic

/-!
Exact decimal expansions of binary numbers, and their rounding.

A `Decimal` is `0.D * 10 ^ point` for a list `D` of digits that does not end in zero; no digits at all is
zero. Every finite binary number has one.
-/

namespace Abacus

/-- The value `0.digits * 10 ^ point`. -/
structure Decimal where
  digits : List Nat
  point : Int
deriving DecidableEq, Inhabited

namespace Decimal

/-- The `2 ^ k` lowest digits of `n` in a base, most significant first, before the digits `after`. -/
def lowDigits (base : Nat) : (k n : Nat) → (after : List Nat) → List Nat
  | 0, n, after => n % base :: after
  | k + 1, n, after =>
    let half := base.pow (1 <<< k)
    lowDigits base k (n / half) (lowDigits base k (n % half) after)

/-- The digits of `n` in a base of 2 or more, most significant first; zero has none. There are no more of them
than there are binary digits. -/
def digitsOf (base n : Nat) : List Nat :=
  (lowDigits base (bitLength (bitLength n)) n []).dropWhile (· == 0)

def dropTrailingZeros (digits : List Nat) : List Nat :=
  (digits.reverse.dropWhile (· == 0)).reverse

def ofScaled (m : Nat) (e : Int) : Decimal :=
  if m = 0 then { digits := [], point := 0 }
  else
    -- below the point, `m / 2 ^ k` is `m * 5 ^ k / 10 ^ k`
    let digits := digitsOf 10 (if 0 ≤ e then m <<< e.toNat else m * Nat.pow 5 (-e).toNat)
    { digits := dropTrailingZeros digits, point := digits.length + min e 0 }

/-- The exact size of a number; infinity has none and gives zero. -/
def ofMagnitude : Magnitude → Decimal
  | .finite m e => ofScaled m e
  | _ => { digits := [], point := 0 }

def roundDown (d : Decimal) (n : Nat) : Decimal :=
  if d.digits.length ≤ n then d
  else match dropTrailingZeros (d.digits.take n) with
    | [] => { digits := [], point := 0 }
    | digits => { d with digits }

def roundUp (d : Decimal) (n : Nat) : Decimal :=
  if d.digits.length ≤ n then d
  else match (d.digits.take n).reverse.dropWhile (· == 9) with
    | [] => { digits := [1], point := d.point + 1 }
    | last :: before => { d with digits := before.reverse ++ [last + 1] }

/-- Whether the nearest expansion of `n` digits lies above: a half goes to the even digit, and with no
digit to keep it goes down. -/
def roundsUp (d : Decimal) (n : Nat) : Bool :=
  match d.digits.drop n with
  | [] => false
  | [5] => n ≠ 0 && d.digits.getD (n - 1) 0 % 2 == 1
  | next :: _ => next ≥ 5

/-- The nearest expansion of `n` digits. Fewer than none leaves the expansion as it is. -/
def round (d : Decimal) (n : Int) : Decimal :=
  if n < 0 then d
  else if d.roundsUp n.toNat then d.roundUp n.toNat else d.roundDown n.toNat

inductive Cut where
  | down
  | up
  | nearest

/-- Walks along the digits of a number, of the lower and of the upper end of the interval that rounds to
it, up to the first place where cutting stays inside the interval. The walk goes by place, whatever
the three points are. `inclusive` says that the ends round to the number too. -/
def firstCut? (inclusive : Bool) (lowerLength upperLength : Nat) (place : Nat) :
    List Nat → List Nat → List Nat → Option (Nat × Cut)
  | [], _, _ => none
  | m :: digits, lower, upper =>
    let l := lower.headD 0
    let u := upper.headD 0
    let down := l ≠ m || (inclusive && place + 1 == lowerLength)
    let up := m ≠ u &&
      (inclusive || m + 1 < u || place + 1 < upperLength || (place ≥ upperLength && m < 9))
    match down, up with
    | true, true => some (place + 1, .nearest)
    | true, false => some (place + 1, .down)
    | false, true => some (place + 1, .up)
    | false, false =>
      firstCut? inclusive lowerLength upperLength (place + 1) digits lower.tail upper.tail

/-- A short expansion that reads back as the same number at its precision. -/
def shortest (x : Number) : Decimal :=
  match x.mag with
  | .finite m e =>
    let d := ofScaled m e
    -- one bit more than the precision, so that one unit is half of the last place
    let extra : Int := x.prec + 1 - bitLength m
    let mid := m <<< extra.toNat
    let lower := ofScaled (mid - 1) (e - extra)
    let upper := ofScaled (mid + 1) (e - extra)
    let inclusive := mid / 2 % 2 == 0
    match firstCut? inclusive lower.digits.length upper.digits.length 0
        d.digits lower.digits upper.digits with
    | some (n, .nearest) => d.round n
    | some (n, .down) => d.roundDown n
    | some (n, .up) => d.roundUp n
    | none => d
  | _ => { digits := [], point := 0 }

end Decimal

end Abacus
