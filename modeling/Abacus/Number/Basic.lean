import Abacus.Number.Magnitude

/-!
Binary floating-point numbers of any precision.

A number has a sign, a precision in bits, and a size that there is at that precision. Zero and infinity are there at
every precision, also at 0; all other sizes need a bit at least.
-/

namespace Abacus

/-- A signed number with its precision in bits. -/
structure Number where
  prec : Nat
  neg : Bool
  mag : Magnitude
  /-- How many words of 64 bits the significand takes up; zero and infinity have none. It depends on how the
  number was computed, and nothing but the record of a number shows it. -/
  words : Nat
  proper : mag.Proper prec := by decide
deriving DecidableEq

/-- The number of words that it takes to hold so many bits. -/
def wordCount (bits : Nat) : Nat :=
  (bits + 63) / 64

namespace Number

/-- No number has more bits than this. -/
def maxPrec : Nat := 4294967295

/-- A number without a significand: a zero, or else an infinity. -/
def special (prec : Nat) (neg : Bool) (mag : Magnitude)
    (unsized : mag.isFinite = false := by first | exact Magnitude.isFinite_zero | exact Magnitude.isFinite_infinite) :
    Number :=
  { prec, neg, mag, words := 0, proper := Magnitude.proper_of_not_isFinite unsized }

def zero (prec : Nat) : Number :=
  special prec false .zero

instance : Inhabited Number :=
  ⟨zero 0⟩

/-- The number of precision `prec ≥ 1` nearest to `n / d * 2 ^ e`, with a sign. It takes up the given number of
words, or as many as the precision needs, if that is less. -/
def ofRatio (prec : Nat) (neg : Bool) (n d : Nat) (e : Int) (words : Nat) : Number :=
  let mag := Magnitude.ofRatio prec n d e
  { prec, neg, mag, words := if mag.isFinite then min words (wordCount prec) else 0
    proper := Magnitude.proper_ofRatio prec n d e }

/-- The number of precision `prec ≥ 1` nearest to `n * 2 ^ e`, with a sign, in the words that `n` takes up. -/
def ofScaled (prec : Nat) (neg : Bool) (n : Nat) (e : Int) : Number :=
  ofRatio prec neg n 1 e (wordCount (bitLength n))

/-- The value of `x` at precision `prec`, rounded only if that is lower than the precision of `x`.
Precision 0 asks for none in particular and leaves `x` as it is. -/
def atPrec (prec : Nat) (x : Number) : Number :=
  if prec = 0 then x
  else if room : x.prec ≤ prec then { x with prec, proper := x.proper.mono room }
  else match x.mag with
    | .finite m e => ofRatio prec x.neg m 1 e x.words
    | .zero => special prec x.neg .zero
    | .infinite => special prec x.neg .infinite

/-- At its own precision a number is not rounded. -/
@[simp] theorem atPrec_self (x : Number) : x.atPrec x.prec = x := by
  simp [atPrec]

@[simp] theorem atPrec_zero (x : Number) : x.atPrec 0 = x := by
  simp [atPrec]

theorem prec_atPrec {prec : Nat} (positive : prec ≠ 0) (x : Number) :
    (x.atPrec prec).prec = prec := by
  rw [atPrec, if_neg positive]
  split
  · rfl
  · split <;> rfl

def negate (x : Number) : Number :=
  { x with neg := !x.neg }

def isZero (x : Number) : Bool :=
  x.mag == .zero

def isInfinite (x : Number) : Bool :=
  x.mag == .infinite

/-- The significand with the sign of `x`, for a finite size. -/
def signed (neg : Bool) (m : Nat) : Int :=
  if neg then -(m : Int) else m

/-- The size of the integer part, toward zero, as a significand and an exponent. Infinity has none and
gives 0. -/
def integerParts (x : Number) : Nat × Nat :=
  match x.mag with
  | .finite m e => if 0 ≤ e then (m, e.toNat) else (m >>> (-e).toNat, 0)
  | _ => (0, 0)

/-- The integer part, toward zero. -/
def truncate (x : Number) : Int :=
  signed x.neg (x.integerParts.1 <<< x.integerParts.2)

end Number

end Abacus
