import Abacus.Proofs.Machine
import Abacus.Proofs.Remainder
import Mathlib

/-!
An operation fails exactly outside of its domain, and its error reports the operands as they were before it.
Everywhere else it gives the exact result, rounded.
-/

namespace Abacus

variable {op : BinaryOp} {x y z : Number}

namespace BinaryOp

/-- Divisions by zero. For a remainder of two finite numbers the integer part of the divisor counts. -/
def ZeroDivisor : BinaryOp → Number → Number → Prop
  | .div, _, y => y.mag = .zero
  | .mod, x, y => y.mag = .zero ∨ x.mag ≠ .infinite ∧ y.mag ≠ .infinite ∧ towardZero y.value = 0
  | _, _, _ => False

/-- Operands for which there is no value, by their signs and sizes. -/
def OutsideDomain : BinaryOp → Number → Number → Prop
  | .add, x, y => x.mag = .infinite ∧ y.mag = .infinite ∧ x.neg ≠ y.neg
  | .sub, x, y => x.mag = .infinite ∧ y.mag = .infinite ∧ x.neg = y.neg
  | .mul, x, y => x.mag = .zero ∧ y.mag = .infinite ∨ x.mag = .infinite ∧ y.mag = .zero
  | .div, x, y => x.mag = .infinite ∧ y.mag = .infinite
  | .mod, x, y => (x.mag = .infinite ∨ y.mag = .infinite) ∧ y.mag ≠ .zero

theorem dividesByZero_iff : op.dividesByZero x y = true ↔ op.ZeroDivisor x y := by
  cases op with
  | add | sub | mul => exact iff_of_false Bool.false_ne_true id
  | div => exact beq_iff_eq
  | mod =>
    simp [dividesByZero, ZeroDivisor, Number.isZero, Number.isInfinite, Number.truncate_eq, and_assoc]

theorem OutsideDomain.not_zeroDivisor (outside : op.OutsideDomain x y) : ¬op.ZeroDivisor x y := by
  cases op with
  | add | sub | mul => exact id
  | div =>
    intro zero
    exact absurd (outside.2.symm.trans zero) (by simp)
  | mod =>
    rintro (zero | ⟨x_finite, y_finite, -⟩)
    · exact outside.2 zero
    · exact outside.1.elim x_finite y_finite

theorem add?_eq_none_iff : Number.add? x y = none ↔ OutsideDomain .add x y := by
  obtain ⟨x_prec, x_neg, x_mag, x_words⟩ := x
  obtain ⟨y_prec, y_neg, y_mag, y_words⟩ := y
  cases x_mag <;> cases y_mag <;> simp [Number.add?, OutsideDomain]

theorem mul?_eq_none_iff : Number.mul? x y = none ↔ OutsideDomain .mul x y := by
  obtain ⟨x_prec, x_neg, x_mag, x_words⟩ := x
  obtain ⟨y_prec, y_neg, y_mag, y_words⟩ := y
  cases x_mag <;> cases y_mag <;> simp [Number.mul?, OutsideDomain]

theorem div?_eq_none_iff (divisible : y.mag ≠ .zero) : Number.div? x y = none ↔ OutsideDomain .div x y := by
  obtain ⟨x_prec, x_neg, x_mag, x_words⟩ := x
  obtain ⟨y_prec, y_neg, y_mag, y_words⟩ := y
  cases y_mag with
  | zero => exact absurd rfl divisible
  | finite | infinite => cases x_mag <;> simp [Number.div?, OutsideDomain]

theorem value?_eq_none_iff (divisible : ¬op.ZeroDivisor x y) :
    op.value? x y = none ↔ op.OutsideDomain x y := by
  cases op with
  | add => exact add?_eq_none_iff
  | sub =>
    refine add?_eq_none_iff.trans ?_
    simp [OutsideDomain, Number.negate]
  | mul => exact mul?_eq_none_iff
  | div => exact div?_eq_none_iff divisible
  | mod =>
    have nonzero : y.mag ≠ .zero := fun zero => divisible (.inl zero)
    simp [value?, OutsideDomain, Number.isInfinite, nonzero, or_iff_not_imp_left]

/-- What an operation gives is its exact result, rounded to the precision of the left operand. -/
theorem roundsTo_value? (some_bits : 0 < x.prec) (divisible : ¬op.ZeroDivisor x y)
    (success : op.value? x y = some z) : (op.ideal x y).RoundsTo z := by
  cases op with
  | add | sub => exact Number.roundsTo_add? some_bits success
  | mul => exact Number.roundsTo_mul? some_bits success
  | div => exact Number.roundsTo_div? some_bits divisible success
  | mod =>
    change (if _ then none else some (x.rem y)) = some z at success
    split at success
    · cases success
    · cases success
      exact Number.roundsTo_rem some_bits y

theorem apply_of_zeroDivisor (zero : op.ZeroDivisor x y) : op.apply x y = .error (.zeroDivision op.text) := by
  rw [apply_eq, if_pos (dividesByZero_iff.mpr zero)]

theorem apply_of_outsideDomain (outside : op.OutsideDomain x y) :
    op.apply x y = .error (.domain op.text x y) := by
  have divisible := outside.not_zeroDivisor
  rw [apply_eq, if_neg (mt dividesByZero_iff.mp divisible), (value?_eq_none_iff divisible).mpr outside]

theorem exists_apply (divisible : ¬op.ZeroDivisor x y) (inside : ¬op.OutsideDomain x y) :
    ∃ z, op.value? x y = some z ∧ op.apply x y = .ok z := by
  obtain ⟨z, computed⟩ := Option.ne_none_iff_exists'.mp (mt (value?_eq_none_iff divisible).mp inside)
  refine ⟨z, computed, ?_⟩
  rw [apply_eq, if_neg (mt dividesByZero_iff.mp divisible), computed]

end BinaryOp

/-- The machine after an operation on the two values on top of its stack: `z` is in the place of the left one, and
the place of the right one, which is out of use, still holds `y`. -/
def Machine.reduced (m : Machine) (below : List Number) (z y : Number) : Machine :=
  { m with stack := { live := z :: below, spare := y :: m.stack.spare } }

namespace Evaluation

variable {m : Machine} {below : List Number}

theorem drop_one (live : m.stack.live = y :: below) :
    drop 1 m = .ok () { m with stack := { live := below, spare := y :: m.stack.spare } } := by
  change EStateM.Result.ok () { m with stack := m.stack.drop 1 } = _
  rw [Stack.drop, live]
  rfl

theorem operate_of_ok (live : m.stack.live = y :: x :: below) (applied : op.apply x y = .ok z) :
    operate op m = .ok () (m.reduced below z y) := by
  rw [operate_eq, bind_ok (top_of_live live), bind_ok (drop_one live), bind_ok (top_of_live rfl), applied]
  rfl

theorem operate_of_error {e : EvalError} (live : m.stack.live = y :: x :: below)
    (applied : op.apply x y = .error e) :
    operate op m = .error (.error e) (m.reduced below (op.leftAfterFailure x y) y) := by
  rw [operate_eq, bind_ok (top_of_live live), bind_ok (drop_one live), bind_ok (top_of_live rfl), applied]
  rfl

/-- An operation on the two values on top of the stack fails exactly if it divides by zero or has no value. The error
then reports the operands as they were, though a sum, a difference or a product has cleared the place of the left one.
Otherwise the left place holds the exact result, rounded to its precision. The right operand stays as it is. -/
theorem operate_outcomes (op : BinaryOp) (live : m.stack.live = y :: x :: below) :
    (∀ stop m', operate op m = .error stop m' ↔
      op.ZeroDivisor x y ∧ stop = .error (.zeroDivision op.text) ∧ m' = m.reduced below x y ∨
      op.OutsideDomain x y ∧ stop = .error (.domain op.text x y) ∧
        m' = m.reduced below (op.leftAfterFailure x y) y) ∧
    (¬op.ZeroDivisor x y → ¬op.OutsideDomain x y →
      ∃ z, operate op m = .ok () (m.reduced below z y) ∧
        (1 ≤ x.prec → z.prec = x.prec ∧ (op.ideal x y).RoundsTo z)) := by
  by_cases zero : op.ZeroDivisor x y
  · have failed := operate_of_error live (BinaryOp.apply_of_zeroDivisor zero)
    rw [BinaryOp.leftAfterFailure_of_dividesByZero (BinaryOp.dividesByZero_iff.mpr zero)] at failed
    have inside : ¬op.OutsideDomain x y := fun outside => outside.not_zeroDivisor zero
    refine ⟨fun stop m' => ?_, fun divisible => absurd zero divisible⟩
    rw [failed]
    simp [zero, inside, eq_comm]
  · by_cases outside : op.OutsideDomain x y
    · have failed := operate_of_error live (BinaryOp.apply_of_outsideDomain outside)
      refine ⟨fun stop m' => ?_, fun _ inside => absurd outside inside⟩
      rw [failed]
      simp [zero, outside, eq_comm]
    · obtain ⟨z, computed, applied⟩ := BinaryOp.exists_apply zero outside
      have succeeded := operate_of_ok live applied
      refine ⟨fun stop m' => ?_, fun _ _ => ⟨z, succeeded, fun some_bits => ?_⟩⟩
      · rw [succeeded]
        simp [zero, outside]
      · exact ⟨BinaryOp.prec_value? some_bits computed, BinaryOp.roundsTo_value? some_bits zero computed⟩

/-- The product of `-0` and infinity leaves `+0` behind, and reports `-0`. -/
theorem operate_outcomes_cleared :
    operate .mul
        { stack := { live := [.special 9 false .infinite, .special 4 true .zero], spare := [] },
          literals := none, writes := .empty } =
      .error (.error (.domain "*" (some (.special 4 true .zero)) (some (.special 9 false .infinite))))
        { stack := { live := [.zero 4], spare := [.special 9 false .infinite] },
          literals := none, writes := .empty } := by
  exact ((operate_outcomes .mul rfl).1 _ _).mpr (.inr ⟨.inl ⟨rfl, rfl⟩, rfl, rfl⟩)

end Evaluation

end Abacus
