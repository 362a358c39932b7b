import Abacus.Proofs.Operator
import Mathlib

/-!
The precision of what is computed: literals have that of the environment, and an operation on two
numbers of one precision gives a number of that precision.
-/

namespace Abacus

namespace Number

variable {p : Nat} {x y z : Number}

theorem prec_powers (prec : Nat) (neg : Bool) (n : Nat) (e f : Int) :
    (ofPowers prec neg n e f).prec = prec := by
  unfold ofPowers
  split
  · rfl
  · dsimp only
    split <;> split <;> rfl

theorem prec_toNumber {prec : Nat} {l : Literal} (success : l.toNumber prec = .ok x) :
    x.prec = prec := by
  obtain ⟨neg, whole, fraction, scale⟩ := l
  unfold Literal.toNumber at success
  cases scale with
  | ten e | two e =>
    dsimp only at success
    by_cases nothing : decimalValue (whole ++ fraction) = 0
    · rw [if_pos nothing] at success
      cases success
      rfl
    · rw [if_neg nothing] at success
      split at success
      · cases success
      · cases success
        exact prec_powers ..

/-- A literal is read at the precision that is asked for. -/
theorem prec_parse {prec : Nat} {text : String} (positive : 0 < prec)
    (success : parse prec text = .ok x) : x.prec = min prec maxPrec := by
  have asked : literalPrec prec = min prec maxPrec := if_neg (by omega)
  unfold parse at success
  split at success
  · cases success
    rfl
  · split at success
    · cases success
      rfl
    · split at success
      · cases success
      · rename_i literal rest _
        split at success
        · cases success
        · cases success
        · rename_i read _
          cases success
          rw [prec_toNumber read, asked]

theorem resultPrec_of_pos (positive : 0 < x.prec) : resultPrec x y = x.prec :=
  if_neg (by omega)

theorem prec_add? (positive : 0 < x.prec) (success : add? x y = some z) : z.prec = x.prec := by
  have nonzero : x.prec ≠ 0 := by omega
  unfold add? at success
  rw [resultPrec_of_pos positive] at success
  dsimp only at success
  split at success
  · split at success
    · cases success
      exact prec_atPrec nonzero x
    · cases success
  · cases success
    rfl
  · cases success
    exact prec_atPrec nonzero x
  · cases success
    exact prec_atPrec nonzero x
  · cases success
    rfl
  · cases success
    exact prec_atPrec nonzero y

theorem prec_mul? (positive : 0 < x.prec) (success : mul? x y = some z) : z.prec = x.prec := by
  unfold mul? at success
  rw [resultPrec_of_pos positive] at success
  dsimp only at success
  split at success <;> cases success <;> rfl

theorem prec_div? (positive : 0 < x.prec) (success : div? x y = some z) : z.prec = x.prec := by
  unfold div? at success
  rw [resultPrec_of_pos positive] at success
  dsimp only at success
  split at success <;> cases success <;> rfl

theorem prec_rem (positive : 0 < x.prec) : (rem x y).prec = x.prec := by
  have nonzero : x.prec ≠ 0 := by omega
  change (if x.prec = 0 then _ else x.prec) = x.prec
  exact if_neg nonzero

end Number

namespace BinaryOp

variable {op : BinaryOp} {x y z : Number}

theorem prec_value? (positive : 0 < x.prec) (success : op.value? x y = some z) : z.prec = x.prec := by
  cases op with
  | add => exact Number.prec_add? positive success
  | sub => exact Number.prec_add? positive success
  | mul => exact Number.prec_mul? positive success
  | div => exact Number.prec_div? positive success
  | mod =>
    change (if _ then none else some (x.rem y)) = some z at success
    split at success
    · cases success
    · cases success
      exact Number.prec_rem positive

theorem prec_leftAfterFailure (op : BinaryOp) (y : Number) (positive : 0 < x.prec) :
    (op.leftAfterFailure x y).prec = x.prec := by
  cases op with
  | add | sub | mul => exact Number.resultPrec_of_pos positive
  | div | mod => rfl

/-- The place of the left operand keeps its precision, whether the operation succeeds or not. -/
theorem prec_arith (op : BinaryOp) (y : Number) (positive : 0 < x.prec) : (op.arith x y).1.prec = x.prec := by
  obtain ⟨-, computed⟩ | ⟨-, z, value, computed⟩ | ⟨-, -, computed⟩ := op.arith_cases x y
  · rw [computed]
    exact op.prec_leftAfterFailure y positive
  · rw [computed]
    exact prec_value? positive value
  · rw [computed]
    exact op.prec_leftAfterFailure y positive

/-- An operation rounds to the precision of its left operand. -/
theorem prec_apply (positive : 0 < x.prec) (success : op.apply x y = .ok z) : z.prec = x.prec := by
  have kept := op.prec_arith y positive
  rwa [arith_of_ok success] at kept

end BinaryOp

theorem UnaryOp.prec_apply (op : UnaryOp) (x : Number) : (op.apply x).prec = x.prec := by
  cases op <;> rfl

namespace Environment

variable {prec : Nat} {x : Number}

theorem numberPrec_pos (positive : 0 < prec) : 0 < numberPrec prec := by
  unfold numberPrec Number.maxPrec
  omega

theorem prec_keep (positive : 0 < prec) (x : Number) : (keep prec x).prec = numberPrec prec :=
  Number.prec_atPrec (Nat.ne_of_gt (numberPrec_pos positive)) x

theorem keep_of_prec (same : x.prec = numberPrec prec) : keep prec x = x := by
  rw [keep, ← same, Number.atPrec_self]

end Environment

end Abacus
