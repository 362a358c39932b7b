import Abacus.Number.Basic

/-!
The predefined constants.

An environment takes them as they are given: all that is asked of them is that they have the precision that they are
computed to. The standard ones take the circle constant from `π = 16 arctan (1/5) - 4 arctan (1/239)`, in integer
arithmetic with guard bits, and know the base of the natural logarithms to 53 bits only.
-/

namespace Abacus

/-- How the constants are computed, for each precision. -/
structure Constants where
  pi : Nat → Number
  euler : Nat → Number
  prec_pi : ∀ prec, 0 < prec → (pi prec).prec = prec
  prec_euler : ∀ prec, 0 < prec → (euler prec).prec = prec

namespace Number

/-- The alternating sum of `power / k` over `k`, `k + 2`, and so on, where each power is the one before over
`square`, and there are `terms` terms. -/
def arctanSeries (square : Nat) : (terms : Nat) → (power k : Nat) → Int
  | 0, _, _ => 0
  | terms + 1, power, k =>
    (power / k : Nat) - arctanSeries square terms (power / square) (k + 2)

/-- An approximation of `2 ^ bits * arctan (1 / n)`. Each term gains two bits at least. -/
def arctanInverse (bits n : Nat) : Int :=
  arctanSeries (n * n) (bits / 2 + 1) ((1 <<< bits) / n) 1

/-- An approximation of `2 ^ bits * π`. -/
def scaledPi (bits : Nat) : Nat :=
  (16 * arctanInverse bits 5 - 4 * arctanInverse bits 239).toNat

/-- The circle constant at precision `prec`; without a precision there is only zero. -/
def pi (prec : Nat) : Number :=
  if prec = 0 then zero 0
  else
    let bits := prec + 64
    ofScaled prec false (scaledPi bits) (-bits)

/-- The base of the natural logarithms to 53 bits, at precision `prec`; without a precision it keeps
the 53 bits. -/
def euler (prec : Nat) : Number :=
  atPrec prec (ofScaled 53 false 0x15BF0A8B145769 (-51))

theorem prec_pi {prec : Nat} (positive : 0 < prec) : (pi prec).prec = prec := by
  rw [pi, if_neg (Nat.ne_of_gt positive)]
  rfl

end Number

def Constants.standard : Constants where
  pi := Number.pi
  euler := Number.euler
  prec_pi _ := Number.prec_pi
  prec_euler _ positive := Number.prec_atPrec (Nat.ne_of_gt positive) _

end Abacus
