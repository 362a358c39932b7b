import Abacus.Proofs.Operator
import Mathlib

/-!
How many words a number takes up does not matter.

It is the one part of a number that depends on how the number was computed. Operations on numbers that differ in
nothing else give numbers, or errors, that differ in nothing else, and the texts of these are equal.
-/

namespace Abacus

namespace Number

variable {x x' y y' : Number}

/-- The numbers have the same value and precision. -/
structure Same (x x' : Number) : Prop where
  prec : x.prec = x'.prec
  neg : x.neg = x'.neg
  mag : x.mag = x'.mag

theorem Same.refl (x : Number) : Same x x :=
  ⟨rfl, rfl, rfl⟩

theorem Same.exists_words (same : Same x x') : ∃ words, x' = { x with words } := by
  obtain ⟨prec, neg, mag, words⟩ := x
  obtain ⟨prec', neg', mag', words'⟩ := x'
  obtain ⟨prec_same, neg_same, mag_same⟩ := same
  dsimp only at prec_same neg_same mag_same
  subst prec_same neg_same mag_same
  exact ⟨words', rfl⟩

theorem Same.print_eq (same : Same x x') : x.print = x'.print := by
  obtain ⟨words, rfl⟩ := same.exists_words
  rfl

theorem Same.operandText_eq (same : Same x x') : x.operandText = x'.operandText := by
  obtain ⟨words, rfl⟩ := same.exists_words
  rfl

theorem Same.negate (same : Same x x') : Same x.negate x'.negate :=
  ⟨same.prec, congrArg not same.neg, same.mag⟩

theorem same_ofRatio (prec : Nat) (neg : Bool) (n d : Nat) (e : Int) (words words' : Nat) :
    Same (ofRatio prec neg n d e words) (ofRatio prec neg n d e words') :=
  ⟨rfl, rfl, rfl⟩

theorem Same.atPrec (same : Same x x') (prec : Nat) : Same (x.atPrec prec) (x'.atPrec prec) := by
  obtain ⟨words, rfl⟩ := same.exists_words
  obtain ⟨x_prec, neg, mag, x_words⟩ := x
  unfold Number.atPrec
  by_cases nothing : prec = 0
  · rw [if_pos nothing, if_pos nothing]
    exact same
  · rw [if_neg nothing, if_neg nothing]
    by_cases room : x_prec ≤ prec
    · rw [dif_pos room, dif_pos room]
      exact ⟨rfl, rfl, rfl⟩
    · rw [dif_neg room, dif_neg room]
      cases mag with
      | finite m e => exact same_ofRatio ..
      | zero | infinite => exact ⟨rfl, rfl, rfl⟩

theorem Same.resultPrec_eq (left : Same x x') (right : Same y y') : resultPrec x y = resultPrec x' y' := by
  rw [resultPrec, resultPrec, left.prec, right.prec]

theorem Same.add? (left : Same x x') (right : Same y y') : Option.Rel Same (add? x y) (add? x' y') := by
  have prec_same := left.resultPrec_eq right
  unfold Number.add?
  rw [← prec_same, ← left.mag, ← right.mag, ← left.neg, ← right.neg]
  have left_rounded := left.atPrec (resultPrec x y)
  have right_rounded := right.atPrec (resultPrec x y)
  cases x.mag with
  | zero =>
    cases y.mag with
    | zero => exact .some (.refl _)
    | finite | infinite => exact .some right_rounded
  | finite m e =>
    cases y.mag with
    | zero => exact .some left_rounded
    | finite n f => exact .some (same_ofRatio ..)
    | infinite => exact .some right_rounded
  | infinite =>
    cases y.mag with
    | zero | finite => exact .some left_rounded
    | infinite =>
      dsimp only
      split
      · exact .some left_rounded
      · exact .none

theorem Same.mul? (left : Same x x') (right : Same y y') : Option.Rel Same (mul? x y) (mul? x' y') := by
  unfold Number.mul?
  rw [← left.resultPrec_eq right, ← left.mag, ← right.mag, ← left.neg, ← right.neg]
  cases x.mag with
  | zero =>
    cases y.mag with
    | zero | finite => exact .some (.refl _)
    | infinite => exact .none
  | finite m e =>
    cases y.mag with
    | finite n f => exact .some (same_ofRatio ..)
    | zero | infinite => exact .some (.refl _)
  | infinite =>
    cases y.mag with
    | zero => exact .none
    | finite | infinite => exact .some (.refl _)

/-- A quotient does not depend on the words of its operands at all. -/
theorem Same.div?_eq (left : Same x x') (right : Same y y') : div? x y = div? x' y' := by
  unfold Number.div?
  rw [← left.resultPrec_eq right, ← left.mag, ← right.mag, ← left.neg, ← right.neg]

theorem Same.integerParts_eq (same : Same x x') : x.integerParts = x'.integerParts := by
  rw [integerParts, integerParts, same.mag]

theorem Same.rem_eq (left : Same x x') (right : Same y y') : x.rem y = x'.rem y' := by
  unfold rem
  rw [left.integerParts_eq, right.integerParts_eq, left.prec, left.neg]

theorem optionRel_same_refl (found : Option Number) : Option.Rel Same found found := by
  cases found with
  | none => exact .none
  | some x => exact .some (.refl x)

end Number

/-- The errors differ at most in how their operands are stored. -/
inductive EvalError.Same : EvalError → EvalError → Prop
  | refl (e : EvalError) : Same e e
  | domain (op : String) {x x' y y' : Number} (left : x.Same x') (right : y.Same y') :
      Same (.domain op x y) (.domain op x' y')

theorem EvalError.operand_eq {x x' : Number} (same : x.Same x') : operand x = operand x' := by
  rw [operand, operand, same.operandText_eq]

theorem EvalError.Same.message_eq {e e' : EvalError} (same : Same e e') : e.message = e'.message := by
  cases same with
  | refl => rfl
  | domain op left right =>
    exact congrArg₂ (fun shown shown' => shown ++ " " ++ op ++ " " ++ shown' ++ " outside domain of " ++ op)
      (EvalError.operand_eq left) (EvalError.operand_eq right)

inductive Stop.Same : Stop → Stop → Prop
  | error {e e' : EvalError} (same : e.Same e') : Same (.error e) (.error e')
  | fault (f : Fault) : Same (.fault f) (.fault f)

theorem Stop.Same.refl (stop : Stop) : Same stop stop := by
  cases stop with
  | error e => exact .error (.refl e)
  | fault f => exact .fault f

/-- Results, or errors, that differ at most in how numbers are stored. -/
inductive ExceptRel {ε ε' α α' : Type} (errors : ε → ε' → Prop) (values : α → α' → Prop) :
    Except ε α → Except ε' α' → Prop
  | ok {a : α} {a' : α'} (same : values a a') : ExceptRel errors values (.ok a) (.ok a')
  | error {e : ε} {e' : ε'} (same : errors e e') : ExceptRel errors values (.error e) (.error e')

namespace BinaryOp

variable {x x' y y' : Number}

theorem same_value? (op : BinaryOp) (left : x.Same x') (right : y.Same y') :
    Option.Rel Number.Same (op.value? x y) (op.value? x' y') := by
  cases op with
  | add => exact left.add? right
  | sub => exact left.add? right.negate
  | mul => exact left.mul? right
  | div =>
    change Option.Rel _ (Number.div? x y) (Number.div? x' y')
    rw [left.div?_eq right]
    exact Number.optionRel_same_refl _
  | mod =>
    change Option.Rel _ (if x.isInfinite || y.isInfinite then none else some (x.rem y))
      (if x'.isInfinite || y'.isInfinite then none else some (x'.rem y'))
    rw [Number.isInfinite, Number.isInfinite, Number.isInfinite, Number.isInfinite, left.mag, right.mag,
      left.rem_eq right]
    exact Number.optionRel_same_refl _

theorem dividesByZero_eq (op : BinaryOp) (left : x.Same x') (right : y.Same y') :
    op.dividesByZero x y = op.dividesByZero x' y' := by
  have truncated : y.truncate = y'.truncate := by
    rw [Number.truncate, Number.truncate, right.neg, right.integerParts_eq]
  cases op with
  | div =>
    change y.isZero = y'.isZero
    rw [Number.isZero, Number.isZero, right.mag]
  | mod =>
    simp only [dividesByZero, Number.isZero, Number.isInfinite, left.mag, right.mag, truncated]
  | add | sub | mul => rfl

/-- Operations on numbers that are stored differently give the same. -/
theorem same_apply (op : BinaryOp) (left : x.Same x') (right : y.Same y') :
    ExceptRel EvalError.Same Number.Same (op.apply x y) (op.apply x' y') := by
  have values := op.same_value? left right
  rw [apply_eq, apply_eq, ← op.dividesByZero_eq left right]
  split
  · exact .error (.refl _)
  · generalize op.value? x y = value, op.value? x' y' = value' at values
    cases values with
    | some same => exact .ok same
    | none => exact .error (.domain op.text left right)

end BinaryOp

theorem UnaryOp.same_apply (op : UnaryOp) {x x' : Number} (same : x.Same x') :
    (op.apply x).Same (op.apply x') := by
  cases op with
  | neg => exact same.negate
  | pos => exact same

end Abacus
