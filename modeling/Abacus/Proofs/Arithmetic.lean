import Abacus.Environment.Evaluation
import Abacus.Proofs.Rounding
import Abacus.Proofs.Precision
import Mathlib

/-!
Where the operations on two numbers have a value, and that it is the exact one, rounded.
-/

namespace Abacus

variable {prec n d : ℕ} {q : ℚ} {e : ℤ} {x y z : Number}

/-- The integer part of a ratio, toward zero. -/
def towardZero (q : ℚ) : ℤ :=
  if 0 ≤ q then ⌊q⌋ else ⌈q⌉

theorem towardZero_neg (q : ℚ) : towardZero (-q) = -towardZero q := by
  unfold towardZero
  rcases lt_trichotomy q 0 with below | rfl | above
  · rw [if_pos (by linarith), if_neg (by linarith), Int.floor_neg]
  · simp
  · rw [if_neg (by linarith), if_pos (by linarith), Int.ceil_neg]

namespace Number

/-- The value of a number; infinity has none and gives 0. -/
def value (x : Number) : ℚ :=
  if x.neg then -x.mag.value else x.mag.value

theorem mag_value_nonneg (mag : Magnitude) : 0 ≤ mag.value := by
  cases mag with
  | finite m e => exact mul_nonneg (Nat.cast_nonneg m) (two_zpow_pos e).le
  | zero | infinite => exact le_refl _

theorem abs_value (x : Number) : |x.value| = x.mag.value := by
  unfold value
  split
  · rw [abs_neg, abs_of_nonneg (mag_value_nonneg _)]
  · exact abs_of_nonneg (mag_value_nonneg _)

theorem value_neg_iff (nonzero : x.value ≠ 0) : x.value < 0 ↔ x.neg = true := by
  have size := mag_value_nonneg x.mag
  unfold value at *
  split_ifs at * with negative
  · simpa [negative] using lt_of_le_of_ne size fun same => nonzero (by rw [← same, neg_zero])
  · simpa [negative] using size

theorem value_pos_iff (nonzero : x.value ≠ 0) : 0 < x.value ↔ x.neg = false := by
  rw [← Bool.not_eq_true, ← value_neg_iff nonzero, not_lt]
  exact ⟨le_of_lt, fun le => le.lt_of_ne nonzero.symm⟩

/-- The size of the integer part is the integer part of the size. -/
theorem integerParts_value (x : Number) :
    ((x.integerParts.1 <<< x.integerParts.2 : ℕ) : ℤ) = ⌊x.mag.value⌋ := by
  unfold integerParts
  cases x.mag with
  | zero | infinite => simp [Magnitude.value]
  | finite m e =>
    dsimp only [Magnitude.value]
    by_cases whole : 0 ≤ e
    · obtain ⟨k, rfl⟩ := Int.eq_ofNat_of_zero_le whole
      have integer : (m : ℚ) * 2 ^ (k : ℤ) = ((m <<< k : ℕ) : ℤ) := by
        rw [Nat.shiftLeft_eq, zpow_natCast]
        push_cast
        rfl
      rw [if_pos whole, integer, Int.floor_intCast]
      rfl
    · obtain ⟨k, same⟩ := Int.eq_ofNat_of_zero_le (Int.le_of_not_le whole |> neg_nonneg.mpr)
      have ratio : (m : ℚ) * 2 ^ e = m / (2 ^ k : ℕ) := by
        rw [← neg_neg e, same, zpow_neg, zpow_natCast, div_eq_mul_inv]
        push_cast
        rfl
      rw [if_neg whole, ratio, same, Nat.shiftLeft_zero, Nat.shiftRight_eq_div_pow]
      exact (Rat.floor_natCast_div_natCast m (2 ^ k)).symm

theorem truncate_eq (x : Number) : x.truncate = towardZero x.value := by
  have size : ((x.integerParts.1 <<< x.integerParts.2 : ℕ) : ℤ) = towardZero x.mag.value := by
    rw [integerParts_value, towardZero, if_pos (mag_value_nonneg _)]
  unfold truncate signed value
  split
  · rw [size, towardZero_neg]
  · exact size

end Number

/-- The exact result of an operation. -/
inductive Ideal where
  | infinite (neg : Bool)
  /-- A ratio, and the sign that it has if it is zero. -/
  | ratio (q : ℚ) (zeroNeg : Bool)

/-- `z` is the exact result, rounded to the precision of `z`. -/
inductive Ideal.RoundsTo (z : Number) : Ideal → Prop
  | infinite {neg : Bool} (sign : z.neg = neg) (size : z.mag = .infinite) : RoundsTo z (.infinite neg)
  | zero {zeroNeg : Bool} (sign : z.neg = zeroNeg) (size : z.mag = .zero) : RoundsTo z (.ratio 0 zeroNeg)
  | ratio {q : ℚ} {zeroNeg : Bool} (nonzero : q ≠ 0) (sign : z.neg = true ↔ q < 0)
      (size : Magnitude.Rounds z.prec |q| z.mag) : RoundsTo z (.ratio q zeroNeg)

namespace Number

/-- The result that is put together from its sign and its size. -/
theorem roundsTo_ofRatio {neg zeroNeg : Bool} {words : ℕ} (some_bits : 0 < prec) (d_pos : 0 < d)
    (size : |q| = n / d * 2 ^ e) (sign : q ≠ 0 → (neg = true ↔ q < 0)) (zero_sign : q = 0 → neg = zeroNeg) :
    (Ideal.ratio q zeroNeg).RoundsTo (ofRatio prec neg n d e words) := by
  have vanishes : (n : ℚ) / d * 2 ^ e = 0 ↔ n = 0 := by
    have d_ne : (d : ℚ) ≠ 0 := by exact_mod_cast d_pos.ne'
    simp [d_ne, (two_zpow_pos e).ne']
  by_cases nothing : q = 0
  · have n_zero : n = 0 := by
      rw [← vanishes, ← size, nothing, abs_zero]
    subst nothing n_zero
    exact .zero (zero_sign rfl) rfl
  · have n_pos : 0 < n := by
      rw [Nat.pos_iff_ne_zero, ne_eq, ← vanishes, ← size]
      exact abs_ne_zero.mpr nothing
    refine .ratio nothing (sign nothing) ?_
    rw [size]
    exact Magnitude.rounds_ofRatio some_bits n_pos d_pos e

theorem proper_of_finite {m : ℕ} (finite : x.mag = .finite m e) : (Magnitude.finite m e).Proper x.prec :=
  finite ▸ x.proper

theorem pos_of_finite {m : ℕ} (finite : x.mag = .finite m e) : 0 < m := by
  have odd := (proper_of_finite finite).1
  omega

theorem value_ne_zero {m : ℕ} (finite : x.mag = .finite m e) : x.value ≠ 0 := by
  rw [← abs_ne_zero, abs_value, finite]
  exact mul_ne_zero (by exact_mod_cast (pos_of_finite finite).ne') (two_zpow_pos e).ne'

theorem abs_value_finite {m : ℕ} (finite : x.mag = .finite m e) : |x.value| = m / (1 : ℕ) * 2 ^ e := by
  rw [abs_value, finite, Nat.cast_one, div_one]
  rfl

/-- The result that is an operand, stored at the precision of the result. -/
theorem roundsTo_atPrec {m : ℕ} {zeroNeg : Bool} (some_bits : 0 < prec) (finite : x.mag = .finite m e) :
    (Ideal.ratio x.value zeroNeg).RoundsTo (x.atPrec prec) := by
  have nonzero := value_ne_zero finite
  have size := abs_value_finite finite
  unfold atPrec
  rw [if_neg some_bits.ne']
  split_ifs with room
  · have proper := (proper_of_finite finite).mono room
    have wider := proper.2.1
    have low := proper.2.2.1
    have large : (2 : ℚ) ^ (Magnitude.minExponent - 1) ≤ m * 2 ^ e :=
      (two_zpow_le_iff.mpr (by omega)).trans (inBinade_scaled (pos_of_finite finite) e).le
    refine .ratio nonzero (value_neg_iff nonzero).symm ?_
    dsimp only
    rw [abs_value, finite]
    exact .finite large (Magnitude.fits_of_bitLength wider e).nearestEven proper
  · rw [finite]
    exact roundsTo_ofRatio some_bits Nat.one_pos size (fun _ => (value_neg_iff nonzero).symm)
      (fun zero => absurd zero nonzero)

theorem roundsTo_atPrec_infinite (prec : ℕ) (unbounded : x.mag = .infinite) :
    (Ideal.infinite x.neg).RoundsTo (x.atPrec prec) := by
  unfold atPrec
  split_ifs
  · exact .infinite rfl unbounded
  · exact .infinite rfl unbounded
  · rw [unbounded]
    exact .infinite rfl rfl

/-- The sum of two sizes at their common exponent. -/
theorem alignedSum_value {m n : ℕ} {e f : ℤ} (x_finite : x.mag = .finite m e) (y_finite : y.mag = .finite n f) :
    (alignedSum x.neg m e y.neg n f : ℚ) * 2 ^ min e f = x.value + y.value := by
  have aligned : ∀ (neg : Bool) (k : ℕ) {g : ℤ}, min e f ≤ g →
      (signed neg (k <<< (g - min e f).toNat) : ℚ) * 2 ^ min e f = if neg then -(k * 2 ^ g : ℚ) else k * 2 ^ g := by
    intro neg k g le
    have power : (2 : ℚ) ^ g = 2 ^ (g - min e f).toNat * 2 ^ min e f := by
      rw [← zpow_natCast, ← two_zpow_add]
      congr 1
      omega
    rw [Nat.shiftLeft_eq, power]
    cases neg <;> simp [signed, mul_assoc]
  unfold alignedSum value
  rw [x_finite, y_finite]
  push_cast
  rw [add_mul, aligned x.neg m (min_le_left e f), aligned y.neg n (min_le_right e f)]
  rfl

end Number

namespace Ideal

/-- The exact sum. It is `+0` if the values are opposite, and `-0` only if both are `-0`. -/
def sum (x y : Number) : Ideal :=
  if x.mag = .infinite then .infinite x.neg
  else if y.mag = .infinite then .infinite y.neg
  else .ratio (x.value + y.value) (x.neg && y.neg)

def product (x y : Number) : Ideal :=
  if x.mag = .infinite ∨ y.mag = .infinite then .infinite (x.neg != y.neg)
  else .ratio (x.value * y.value) (x.neg != y.neg)

def quotient (x y : Number) : Ideal :=
  if x.mag = .infinite then .infinite (x.neg != y.neg)
  else if y.mag = .infinite then .ratio 0 (x.neg != y.neg)
  else .ratio (x.value / y.value) (x.neg != y.neg)

/-- The remainder of the integer parts, which is `+0` if it vanishes. -/
def remainder (x y : Number) : Ideal :=
  .ratio ((towardZero x.value).tmod (towardZero y.value) : ℤ) false

end Ideal

/-- The exact result of an operation. -/
def BinaryOp.ideal : BinaryOp → Number → Number → Ideal
  | .add, x, y => .sum x y
  | .sub, x, y => .sum x y.negate
  | .mul, x, y => .product x y
  | .div, x, y => .quotient x y
  | .mod, x, y => .remainder x y

namespace Number

theorem value_of_zero (vanishes : x.mag = .zero) : x.value = 0 := by
  rw [← abs_eq_zero, abs_value, vanishes]
  rfl

theorem roundsTo_add_finite {m n : ℕ} {e f : ℤ} {words : ℕ} (some_bits : 0 < prec)
    (x_mag : x.mag = .finite m e) (y_mag : y.mag = .finite n f) :
    (Ideal.ratio (x.value + y.value) (x.neg && y.neg)).RoundsTo
      (ofRatio prec (alignedSum x.neg m e y.neg n f < 0) (alignedSum x.neg m e y.neg n f).natAbs 1
        (min e f) words) := by
  have power_pos := two_zpow_pos (min e f)
  have same_sign : x.neg = true → y.neg = true → x.value + y.value ≠ 0 := by
    intro x_neg y_neg
    have x_below := (value_neg_iff (value_ne_zero x_mag)).mpr x_neg
    have y_below : y.value ≤ 0 := by
      rw [value, if_pos y_neg]
      exact neg_nonpos.mpr (mag_value_nonneg _)
    linarith
  have sum := alignedSum_value x_mag y_mag
  generalize alignedSum x.neg m e y.neg n f = s at *
  refine roundsTo_ofRatio some_bits Nat.one_pos ?_ (fun _ => ?_) (fun zero => ?_)
  · rw [← sum, abs_mul, abs_of_pos power_pos, Nat.cast_one, div_one, Nat.cast_natAbs, Int.cast_abs]
  · rw [← sum, decide_eq_true_eq, mul_neg_iff, Int.cast_lt_zero]
    simp [power_pos, power_pos.le]
  · have s_zero : s = 0 := by simpa [← sum, power_pos.ne'] using zero
    have apart : ¬(x.neg = true ∧ y.neg = true) := fun both => same_sign both.1 both.2 zero
    rw [s_zero, decide_eq_false (lt_irrefl _)]
    simpa using apart

theorem roundsTo_add? (some_bits : 0 < x.prec) (success : add? x y = some z) : (Ideal.sum x y).RoundsTo z := by
  unfold add? at success
  rw [resultPrec_of_pos some_bits] at success
  unfold Ideal.sum
  cases x_mag : x.mag with
  | infinite =>
    rw [if_pos rfl]
    cases y_mag : y.mag with
    | infinite =>
      simp only [x_mag, y_mag] at success
      split at success
      · cases success
        exact roundsTo_atPrec_infinite _ x_mag
      · cases success
    | zero | finite =>
      simp only [x_mag, y_mag] at success
      cases success
      exact roundsTo_atPrec_infinite _ x_mag
  | zero =>
    rw [if_neg (by simp)]
    cases y_mag : y.mag with
    | infinite =>
      simp only [x_mag, y_mag] at success
      cases success
      rw [if_pos rfl]
      exact roundsTo_atPrec_infinite _ y_mag
    | zero =>
      simp only [x_mag, y_mag] at success
      cases success
      rw [if_neg (by simp), value_of_zero x_mag, value_of_zero y_mag, add_zero]
      exact .zero rfl rfl
    | finite n f =>
      simp only [x_mag, y_mag] at success
      cases success
      rw [if_neg (by simp), value_of_zero x_mag, zero_add]
      exact roundsTo_atPrec some_bits y_mag
  | finite m e =>
    rw [if_neg (by simp)]
    cases y_mag : y.mag with
    | infinite =>
      simp only [x_mag, y_mag] at success
      cases success
      rw [if_pos rfl]
      exact roundsTo_atPrec_infinite _ y_mag
    | zero =>
      simp only [x_mag, y_mag] at success
      cases success
      rw [if_neg (by simp), value_of_zero y_mag, add_zero]
      exact roundsTo_atPrec some_bits x_mag
    | finite n f =>
      simp only [x_mag, y_mag] at success
      cases success
      rw [if_neg (by simp)]
      exact roundsTo_add_finite some_bits x_mag y_mag

theorem sign_differs_iff (x_ne : x.value ≠ 0) (y_ne : y.value ≠ 0) :
    (x.neg != y.neg) = true ↔ 0 < x.value ∧ y.value < 0 ∨ x.value < 0 ∧ 0 < y.value := by
  rw [value_pos_iff x_ne, value_pos_iff y_ne, value_neg_iff x_ne, value_neg_iff y_ne]
  cases x.neg <;> cases y.neg <;> simp

theorem roundsTo_mul? (some_bits : 0 < x.prec) (success : mul? x y = some z) : (Ideal.product x y).RoundsTo z := by
  unfold mul? at success
  rw [resultPrec_of_pos some_bits] at success
  unfold Ideal.product
  cases x_mag : x.mag with
  | infinite =>
    rw [if_pos (.inl rfl)]
    cases y_mag : y.mag with
    | zero =>
      simp only [x_mag, y_mag] at success
      cases success
    | infinite | finite =>
      simp only [x_mag, y_mag] at success
      cases success
      exact .infinite rfl rfl
  | zero =>
    cases y_mag : y.mag with
    | infinite =>
      simp only [x_mag, y_mag] at success
      cases success
    | zero | finite =>
      simp only [x_mag, y_mag] at success
      cases success
      rw [if_neg (by simp), value_of_zero x_mag, zero_mul]
      exact .zero rfl rfl
  | finite m e =>
    cases y_mag : y.mag with
    | infinite =>
      simp only [x_mag, y_mag] at success
      cases success
      rw [if_pos (.inr rfl)]
      exact .infinite rfl rfl
    | zero =>
      simp only [x_mag, y_mag] at success
      cases success
      rw [if_neg (by simp), value_of_zero y_mag, mul_zero]
      exact .zero rfl rfl
    | finite n f =>
      simp only [x_mag, y_mag] at success
      cases success
      rw [if_neg (by simp)]
      have x_ne := value_ne_zero x_mag
      have y_ne := value_ne_zero y_mag
      refine roundsTo_ofRatio some_bits Nat.one_pos ?_ (fun _ => ?_) (fun _ => rfl)
      · rw [abs_mul, abs_value, abs_value, x_mag, y_mag, two_zpow_add]
        dsimp only [Magnitude.value]
        push_cast
        ring
      · rw [mul_neg_iff]
        exact sign_differs_iff x_ne y_ne

theorem roundsTo_div? (some_bits : 0 < x.prec) (divisible : y.mag ≠ .zero) (success : div? x y = some z) :
    (Ideal.quotient x y).RoundsTo z := by
  unfold div? at success
  rw [resultPrec_of_pos some_bits] at success
  unfold Ideal.quotient
  cases x_mag : x.mag with
  | infinite =>
    rw [if_pos rfl]
    cases y_mag : y.mag with
    | infinite =>
      simp only [x_mag, y_mag] at success
      cases success
    | zero | finite =>
      simp only [x_mag, y_mag] at success
      cases success
      exact .infinite rfl rfl
  | zero =>
    rw [if_neg (by simp)]
    cases y_mag : y.mag with
    | infinite =>
      simp only [x_mag, y_mag] at success
      cases success
      exact .zero rfl rfl
    | zero => exact absurd y_mag divisible
    | finite =>
      simp only [x_mag, y_mag] at success
      cases success
      rw [if_neg (by simp), value_of_zero x_mag, zero_div]
      exact .zero rfl rfl
  | finite m e =>
    rw [if_neg (by simp)]
    cases y_mag : y.mag with
    | infinite =>
      simp only [x_mag, y_mag] at success
      cases success
      exact .zero rfl rfl
    | zero => exact absurd y_mag divisible
    | finite n f =>
      simp only [x_mag, y_mag] at success
      cases success
      rw [if_neg (by simp)]
      have x_ne := value_ne_zero x_mag
      have y_ne := value_ne_zero y_mag
      refine roundsTo_ofRatio some_bits (pos_of_finite y_mag) ?_ (fun _ => ?_) (fun _ => rfl)
      · rw [abs_div, abs_value, abs_value, x_mag, y_mag, zpow_sub₀ two_ne_zero, div_mul_div_comm]
        rfl
      · rw [div_neg_iff]
        exact sign_differs_iff x_ne y_ne

end Number

end Abacus
