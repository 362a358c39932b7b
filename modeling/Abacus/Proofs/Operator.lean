import Abacus.Environment.Evaluation
import Mathlib

/-!
What an operation computes in the place of its left operand.

A sum, a difference or a product that has no value is noticed only when the place has been cleared. The error still
reports the operand that was there: such an operation has an infinite operand, so there is a copy.
-/

namespace Abacus

variable {x y z : Number}

theorem Number.isInfinite_of_add? (no_value : x.add? y = none) : x.isInfinite = true := by
  obtain ⟨x_prec, x_neg, x_mag, x_words⟩ := x
  obtain ⟨y_prec, y_neg, y_mag, y_words⟩ := y
  cases x_mag <;> cases y_mag <;> first | rfl | simp [Number.add?] at no_value

theorem Number.isInfinite_of_mul? (no_value : x.mul? y = none) : x.isInfinite = true ∨ y.isInfinite = true := by
  obtain ⟨x_prec, x_neg, x_mag, x_words⟩ := x
  obtain ⟨y_prec, y_neg, y_mag, y_words⟩ := y
  cases x_mag <;> cases y_mag <;> first | exact .inl rfl | exact .inr rfl | simp [Number.mul?] at no_value

theorem Number.isInfinite_of_div? (divisible : y.isZero = false) (no_value : x.div? y = none) :
    x.isInfinite = true ∧ y.isInfinite = true := by
  obtain ⟨x_prec, x_neg, x_mag, x_words⟩ := x
  obtain ⟨y_prec, y_neg, y_mag, y_words⟩ := y
  cases y_mag with
  | zero => cases divisible
  | finite | infinite => cases x_mag <;> first | exact ⟨rfl, rfl⟩ | simp [Number.div?] at no_value

theorem Number.div?_of_isInfinite (x_infinite : x.isInfinite = true) (y_infinite : y.isInfinite = true) :
    x.div? y = none := by
  rw [Number.div?, beq_iff_eq.mp x_infinite, beq_iff_eq.mp y_infinite]

theorem Number.truncate_of_isZero (zero : x.isZero = true) : x.truncate = 0 := by
  rw [Number.truncate, Number.integerParts, beq_iff_eq.mp zero]
  cases x.neg <;> rfl

namespace BinaryOp

variable {op : BinaryOp}

/-- The value of an operation without the checks for division by zero. -/
def value? : BinaryOp → Number → Number → Option Number
  | .add => Number.add?
  | .sub => Number.sub?
  | .mul => Number.mul?
  | .div => Number.div?
  | .mod => fun x y => if x.isInfinite || y.isInfinite then none else some (x.rem y)

/-- Whether the operation divides by zero: for a remainder the integer part of a finite divisor counts, but
an infinite dividend only divides by a true zero. -/
def dividesByZero : BinaryOp → Number → Number → Bool
  | .div, _, y => y.isZero
  | .mod, x, y => y.isZero || (!x.isInfinite && !y.isInfinite && y.truncate == 0)
  | _, _, _ => false

/-- What the place of the left operand holds after a failed operation. Only a sum, a difference or a
product that has no value changes it. -/
def leftAfterFailure (op : BinaryOp) (x y : Number) : Number :=
  match op with
  | .div => x
  | .mod => x
  | _ => Number.cleared x y

/-- With a copy of the left operand, the error is about the operands themselves. -/
theorem settle_of_copy {copy value : Option Number} (no_value : value = none) (copied : copy = some x) :
    op.settle copy x y value = (x.cleared y, some (.domain op.text x y)) := by
  rw [no_value, copied]
  rfl

theorem arith_of_dividesByZero (zero : op.dividesByZero x y = true) :
    op.arith x y = (x, some (.zeroDivision op.text)) := by
  cases op with
  | add | sub | mul => cases zero
  | div => exact if_pos zero
  | mod =>
    simp only [dividesByZero, Bool.or_eq_true, Bool.and_eq_true, Bool.not_eq_true', beq_iff_eq] at zero
    by_cases infinite : (x.isInfinite || y.isInfinite) = true
    · have y_zero : y.isZero = true := zero.resolve_right fun finite => by simp [finite.1.1, finite.1.2] at infinite
      simp [arith, infinite, y_zero]
    · have no_integer : y.truncate = 0 := zero.elim Number.truncate_of_isZero And.right
      simp [arith, infinite, no_integer]

theorem arith_of_value (divisible : op.dividesByZero x y = false) (value : op.value? x y = some z) :
    op.arith x y = (z, none) := by
  cases op with
  | add => exact congrArg (settle _ _ x y) value
  | sub => exact congrArg (settle _ _ x y) value
  | mul => exact congrArg (settle _ _ x y) value
  | div =>
    have inside : ¬(x.isInfinite && y.isInfinite) = true := by
      intro infinite
      obtain ⟨x_infinite, y_infinite⟩ := Bool.and_eq_true_iff.mp infinite
      exact Option.some_ne_none z (value.symm.trans (Number.div?_of_isInfinite x_infinite y_infinite))
    refine (if_neg (Bool.eq_false_iff.mp divisible)).trans ((if_neg inside).trans ?_)
    exact congrArg (settle _ _ x y) value
  | mod =>
    change (if _ then none else some (x.rem y)) = some z at value
    split at value
    · cases value
    · rename_i finite
      cases value
      have some_integer : ¬y.truncate = 0 := fun no_integer => by
        simp [dividesByZero, not_or.mp (mt Bool.or_eq_true_iff.mpr finite), no_integer] at divisible
      exact (if_neg finite).trans (if_neg some_integer)

theorem arith_of_no_value (divisible : op.dividesByZero x y = false) (no_value : op.value? x y = none) :
    op.arith x y = (op.leftAfterFailure x y, some (.domain op.text x y)) := by
  cases op with
  | add => exact settle_of_copy no_value (if_pos (by simp [Number.isInfinite_of_add? no_value]))
  | sub => exact settle_of_copy no_value (if_pos (by simp [Number.isInfinite_of_add? no_value]))
  | mul => exact settle_of_copy no_value (if_pos (by simpa using Number.isInfinite_of_mul? no_value))
  | div =>
    obtain ⟨x_infinite, y_infinite⟩ := Number.isInfinite_of_div? divisible no_value
    exact (if_neg (Bool.eq_false_iff.mp divisible)).trans (if_pos (by rw [x_infinite, y_infinite]; rfl))
  | mod =>
    change (if _ then none else some (x.rem y)) = none at no_value
    split at no_value
    · rename_i infinite
      have nonzero : ¬y.isZero = true := fun zero => by simp [dividesByZero, zero] at divisible
      refine (if_pos infinite).trans ?_
      rw [if_neg nonzero]
      rfl
    · cases no_value

/-- A division by zero is found before the left operand changes. -/
theorem leftAfterFailure_of_dividesByZero (zero : op.dividesByZero x y = true) : op.leftAfterFailure x y = x := by
  cases op with
  | add | sub | mul => cases zero
  | div | mod => rfl

/-- All that an operation does: it divides by zero, has a value, or is outside of its domain. In each case it is known
what the place of the left operand holds then. -/
theorem arith_cases (op : BinaryOp) (x y : Number) :
    (op.dividesByZero x y = true ∧ op.arith x y = (op.leftAfterFailure x y, some (.zeroDivision op.text))) ∨
    (op.dividesByZero x y = false ∧ ∃ z, op.value? x y = some z ∧ op.arith x y = (z, none)) ∨
    (op.dividesByZero x y = false ∧ op.value? x y = none ∧
      op.arith x y = (op.leftAfterFailure x y, some (.domain op.text x y))) := by
  cases zero : op.dividesByZero x y with
  | true =>
    rw [leftAfterFailure_of_dividesByZero zero]
    exact .inl ⟨rfl, arith_of_dividesByZero zero⟩
  | false =>
    cases value : op.value? x y with
    | some z => exact .inr (.inl ⟨rfl, z, rfl, arith_of_value zero value⟩)
    | none => exact .inr (.inr ⟨rfl, rfl, arith_of_no_value zero value⟩)

theorem apply_eq (op : BinaryOp) (x y : Number) :
    op.apply x y =
      if op.dividesByZero x y then .error (.zeroDivision op.text)
      else match op.value? x y with
        | some z => .ok z
        | none => .error (.domain op.text x y) := by
  obtain ⟨zero, computed⟩ | ⟨divisible, z, value, computed⟩ | ⟨divisible, no_value, computed⟩ := op.arith_cases x y
  · rw [apply, computed, zero]
    rfl
  · rw [apply, computed, divisible, value]
    rfl
  · rw [apply, computed, divisible, no_value]
    rfl

theorem arith_of_ok (success : op.apply x y = .ok z) : op.arith x y = (z, none) := by
  unfold apply at success
  split at success
  · cases success
    assumption
  · cases success

theorem arith_of_error {e : EvalError} (failed : op.apply x y = .error e) :
    op.arith x y = (op.leftAfterFailure x y, some e) := by
  obtain ⟨-, computed⟩ | ⟨-, z, -, computed⟩ | ⟨-, -, computed⟩ := op.arith_cases x y
  · rw [apply, computed] at failed
    cases failed
    exact computed
  · rw [apply, computed] at failed
    cases failed
  · rw [apply, computed] at failed
    cases failed
    exact computed

end BinaryOp

/-- What an operation on the two values on top of the stack leaves behind, by its outcome. -/
theorem Evaluation.operate_eq (op : BinaryOp) :
    operate op = (do
      let y ← top
      drop 1
      let x ← top
      match op.apply x y with
      | .ok z => replace z
      | .error e =>
        replace (op.leftAfterFailure x y)
        throw (.error e)) := by
  unfold operate
  congr 1
  funext y
  congr 1
  funext _
  congr 1
  funext x
  cases applied : op.apply x y with
  | ok z =>
    rw [BinaryOp.arith_of_ok applied]
    rfl
  | error e =>
    rw [BinaryOp.arith_of_error applied]

end Abacus
