import Abacus.Number.Basic

/-!
Sum, difference, product, quotient and integer remainder.

The result of an operation has the precision of its left operand, or that of the right one if the left
has none. An operation without a value (infinity minus infinity, zero times infinity, a quotient
of two zeros or of two infinities) gives `none`.
-/

namespace Abacus.Number

/-- The precision of a result. -/
def resultPrec (x y : Number) : Nat :=
  if x.prec = 0 then y.prec else x.prec

/-- The exact sum of `m * 2 ^ e` and `n * 2 ^ f` with the signs `xneg` and `yneg`, as a multiple of
`2 ^ min e f`. -/
def alignedSum (xneg : Bool) (m : Nat) (e : Int) (yneg : Bool) (n : Nat) (f : Int) : Int :=
  signed xneg (m <<< (e - min e f).toNat) + signed yneg (n <<< (f - min e f).toNat)

/-- The exponent of the lowest bit in the words of a number with the size `m * 2 ^ e`. -/
def lowestExponent (words m : Nat) (e : Int) : Int :=
  Magnitude.exponentOf m e - 64 * words

/-- The number of words of a sum, which is `s * 2 ^ e`. Its lowest bit is the lowest one of both operands. -/
def sumWords (s : Nat) (e lowest : Int) : Nat :=
  wordCount (bitLength s + (e - lowest).toNat)

/-- A sum that vanishes is `+0`, unless both operands are `-0`. -/
def add? (x y : Number) : Option Number :=
  let prec := resultPrec x y
  match x.mag, y.mag with
  | .infinite, .infinite => if x.neg = y.neg then some (x.atPrec prec) else none
  | .zero, .zero => some (special prec (x.neg && y.neg) .zero)
  | .infinite, _ => some (x.atPrec prec)
  | _, .zero => some (x.atPrec prec)
  | .finite m e, .finite n f =>
    let s := alignedSum x.neg m e y.neg n f
    let lowest := min (lowestExponent x.words m e) (lowestExponent y.words n f)
    some (ofRatio prec (s < 0) s.natAbs 1 (min e f) (sumWords s.natAbs (min e f) lowest))
  | _, _ => some (y.atPrec prec)

def sub? (x y : Number) : Option Number :=
  add? x y.negate

def mul? (x y : Number) : Option Number :=
  let prec := resultPrec x y
  let neg := x.neg != y.neg
  match x.mag, y.mag with
  | .finite m e, .finite n f => some (ofRatio prec neg (m * n) 1 (e + f) (x.words + y.words))
  | .zero, .infinite => none
  | .infinite, .zero => none
  | .infinite, _ => some (special prec neg .infinite)
  | _, .infinite => some (special prec neg .infinite)
  | _, _ => some (special prec neg .zero)

def div? (x y : Number) : Option Number :=
  let prec := resultPrec x y
  let neg := x.neg != y.neg
  match x.mag, y.mag with
  | .finite m e, .finite n f => some (ofRatio prec neg m n (e - f) (wordCount prec))
  | .zero, .zero => none
  | .infinite, .infinite => none
  | .zero, _ => some (special prec neg .zero)
  | _, .infinite => some (special prec neg .zero)
  | _, _ => some (special prec neg .infinite)

/-- The remainder of `m * 2 ^ e` by `n * 2 ^ f`, as a significand and an exponent. The power of two that both
have in common is left out of the division. -/
def scaledRem (m e n f : Nat) : Nat × Nat :=
  let common := min e f
  ((m <<< (e - common)) % (n <<< (f - common)), common)

theorem scaledRem_value (m e n f : Nat) :
    (scaledRem m e n f).1 <<< (scaledRem m e n f).2 = (m <<< e) % (n <<< f) := by
  have left : m * 2 ^ e = m * 2 ^ (e - min e f) * 2 ^ min e f := by
    rw [Nat.mul_assoc, ← Nat.pow_add]
    congr 2
    omega
  have right : n * 2 ^ f = n * 2 ^ (f - min e f) * 2 ^ min e f := by
    rw [Nat.mul_assoc, ← Nat.pow_add]
    congr 2
    omega
  rw [Nat.shiftLeft_eq, Nat.shiftLeft_eq, Nat.shiftLeft_eq, left, right, Nat.mul_mod_mul_right]
  simp only [scaledRem, Nat.shiftLeft_eq]

/-- The remainder of the integer parts, with the sign of the dividend; zero is `+0`. A dividend without
a precision leaves room for the whole remainder, and for 64 bits at least. -/
def rem (x y : Number) : Number :=
  let (m, e) := x.integerParts
  let (n, f) := y.integerParts
  let (r, k) := scaledRem m e n f
  let bits := if r = 0 then 0 else bitLength r + k
  ofRatio (if x.prec = 0 then max bits 64 else x.prec) (x.neg && r ≠ 0) r 1 k (wordCount bits)

/-- What an operation without a value leaves in the place of its left operand: `+0`, at the precision
that the result would have had. -/
def cleared (x y : Number) : Number :=
  zero (resultPrec x y)

end Abacus.Number
