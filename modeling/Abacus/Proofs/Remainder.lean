import Abacus.Proofs.Arithmetic
import Mathlib

/-!
A remainder is never rounded.

The integer parts of two numbers are significands times powers of two. If the power of the dividend is the smaller
one, the remainder is a multiple of it and no greater than the dividend; otherwise it is a multiple of the power of
the divisor, and smaller than the divisor. Either way it has no more bits than the operand it is measured by.
-/

namespace Abacus

variable {prec m n : ℕ} {q : ℚ} {x y z : Number}

/-- What fits, and is in range, is not rounded. -/
theorem Magnitude.Rounds.exact {mag : Magnitude} (rounds : Rounds prec q mag) (fits : Fits prec q)
    (low : 2 ^ (minExponent - 1) ≤ q) (high : q < 2 ^ maxExponent) :
    mag.value = q ∧ mag ≠ .infinite := by
  have unchanged : ∀ {v}, NearestEven prec q v → v = q := by
    intro v nearest
    have distance := nearest.nearest q fits
    rw [sub_self, abs_zero, abs_nonpos_iff, sub_eq_zero] at distance
    exact distance.symm
  cases rounds with
  | zero small => exact absurd low (not_le.mpr small)
  | finite large nearest proper => exact ⟨unchanged nearest, by simp⟩
  | infinite nearest large => exact absurd high (not_lt.mpr (unchanged nearest ▸ large))

theorem Ideal.RoundsTo.of_zero {zeroNeg : Bool} (rounds : (Ideal.ratio q zeroNeg).RoundsTo z)
    (vanishes : q = 0) : z.neg = zeroNeg ∧ z.mag = .zero := by
  cases rounds with
  | zero sign size => exact ⟨sign, size⟩
  | ratio nonzero => exact absurd vanishes nonzero

namespace Number

theorem signed_tmod (neg neg' : Bool) (a b : ℕ) :
    (signed neg a).tmod (signed neg' b) = signed neg (a % b) := by
  have naturals : (a : ℤ).tmod b = (a % b : ℕ) := rfl
  cases neg <;> cases neg' <;> simp [signed, Int.neg_tmod, Int.tmod_neg, naturals]

/-- The remainder of the integer parts as a significand and an exponent. -/
def remParts (x y : Number) : ℕ × ℕ :=
  scaledRem x.integerParts.1 x.integerParts.2 y.integerParts.1 y.integerParts.2

theorem truncate_tmod (x y : Number) :
    x.truncate.tmod y.truncate = signed x.neg ((remParts x y).1 <<< (remParts x y).2) := by
  unfold truncate remParts
  rw [signed_tmod, scaledRem_value]

theorem rem_eq (some_bits : 0 < x.prec) (y : Number) :
    x.rem y = ofRatio x.prec (x.neg && (remParts x y).1 ≠ 0) (remParts x y).1 1 (remParts x y).2
      (wordCount (if (remParts x y).1 = 0 then 0 else bitLength (remParts x y).1 + (remParts x y).2)) := by
  have nonzero : x.prec ≠ 0 := some_bits.ne'
  change ofRatio (if x.prec = 0 then _ else x.prec) _ _ _ _ _ = _
  rw [if_neg nonzero]
  rfl

theorem roundsTo_rem (some_bits : 0 < x.prec) (y : Number) : (Ideal.remainder x y).RoundsTo (x.rem y) := by
  rw [rem_eq some_bits y, Ideal.remainder, ← truncate_eq, ← truncate_eq, truncate_tmod, Nat.shiftLeft_eq]
  generalize (remParts x y).1 = r, (remParts x y).2 = k
  by_cases nothing : r = 0
  · subst nothing
    refine roundsTo_ofRatio some_bits Nat.one_pos (by simp [signed]) (fun nonzero => ?_) (by simp)
    simp [signed] at nonzero
  · have positive : (0 : ℚ) < r * 2 ^ k := by positivity
    refine roundsTo_ofRatio some_bits Nat.one_pos ?_ (fun _ => ?_) (fun zero => ?_)
    · cases x.neg <;> simp [signed]
    · cases x.neg
      · simp [signed]
      · simpa [signed, nothing] using Nat.pos_of_ne_zero nothing
    · cases neg : x.neg <;> simp [neg, signed, nothing] at zero

/-- The significand of an integer part has no more bits than the precision. -/
theorem integerParts_lt (x : Number) : x.integerParts.1 < 2 ^ x.prec := by
  unfold integerParts
  cases x_mag : x.mag with
  | zero | infinite => exact Nat.two_pow_pos _
  | finite m e =>
    have small := bitLength_le_iff_lt_two_pow.mp (proper_of_finite x_mag).2.1
    dsimp only
    split
    · exact small
    · rw [Nat.shiftRight_eq_div_pow]
      exact (Nat.div_le_self _ _).trans_lt small

/-- A remainder has no more bits than its operands. -/
theorem scaledRem_lt {e f : ℕ} {bound : ℕ} (n_pos : 0 < n) (m_lt : m < bound) (n_lt : n < bound) :
    (scaledRem m e n f).1 < bound := by
  unfold scaledRem
  dsimp only
  rcases le_total e f with dividend | divisor
  · -- the dividend is not shifted, and no remainder exceeds it
    rw [min_eq_left dividend, Nat.sub_self, Nat.shiftLeft_zero]
    exact (Nat.mod_le _ _).trans_lt m_lt
  · rw [min_eq_right divisor, Nat.sub_self, Nat.shiftLeft_zero]
    exact (Nat.mod_lt _ n_pos).trans n_lt

theorem value_lt_two_zpow (x : Number) : |x.value| < 2 ^ Magnitude.maxExponent := by
  rw [abs_value]
  cases x_mag : x.mag with
  | zero | infinite => exact two_zpow_pos _
  | finite m e =>
    have high := (proper_of_finite x_mag).2.2.2
    exact (inBinade_scaled (pos_of_finite x_mag) e).lt.trans_le (two_zpow_le_iff.mpr high)

/-- No remainder exceeds the dividend. -/
theorem remParts_le (x y : Number) : ((remParts x y).1 : ℚ) * 2 ^ ((remParts x y).2 : ℤ) ≤ |x.value| := by
  have shifted : (remParts x y).1 * 2 ^ (remParts x y).2 ≤ x.integerParts.1 <<< x.integerParts.2 := by
    rw [← Nat.shiftLeft_eq, remParts, scaledRem_value]
    exact Nat.mod_le _ _
  rw [abs_value, zpow_natCast]
  calc ((remParts x y).1 : ℚ) * 2 ^ (remParts x y).2
      ≤ ((x.integerParts.1 <<< x.integerParts.2 : ℕ) : ℤ) := by exact_mod_cast shifted
    _ = (⌊x.mag.value⌋ : ℚ) := by rw [integerParts_value]
    _ ≤ x.mag.value := Int.floor_le _

theorem integerParts_pos (some_integer : y.truncate ≠ 0) : 0 < y.integerParts.1 := by
  rw [Nat.pos_iff_ne_zero]
  intro nothing
  apply some_integer
  rw [truncate, nothing, Nat.zero_shiftLeft]
  cases y.neg <;> rfl

/-- The remainder fits the precision of its operands. -/
theorem fits_remParts (same_prec : x.prec = y.prec) (some_integer : y.truncate ≠ 0) :
    Fits x.prec ((remParts x y).1 * 2 ^ ((remParts x y).2 : ℤ)) := by
  refine Magnitude.fits_of_bitLength (bitLength_le_iff_lt_two_pow.mpr ?_) _
  refine scaledRem_lt (integerParts_pos some_integer) (integerParts_lt x) ?_
  rw [same_prec]
  exact integerParts_lt y

theorem rem_exact (some_bits : 0 < x.prec) (same_prec : x.prec = y.prec) (some_integer : y.truncate ≠ 0) :
    (x.rem y).value = x.truncate.tmod y.truncate ∧ (x.rem y).mag ≠ .infinite := by
  have rounds := roundsTo_rem some_bits y
  have prec : (x.rem y).prec = x.prec := prec_rem some_bits
  have fits := fits_remParts same_prec some_integer
  have small := (remParts_le x y).trans_lt (value_lt_two_zpow x)
  have parts := truncate_tmod x y
  rw [Ideal.remainder, ← truncate_eq, ← truncate_eq] at rounds
  generalize x.truncate.tmod y.truncate = r at *
  have size : |(r : ℚ)| = (remParts x y).1 * 2 ^ ((remParts x y).2 : ℤ) := by
    rw [parts, Nat.shiftLeft_eq, zpow_natCast]
    cases x.neg <;> simp [signed]
  rw [← size] at fits small
  generalize ratio : (r : ℚ) = q at *
  cases rounds with
  | zero sign vanishes => exact ⟨value_of_zero vanishes, by simp [vanishes]⟩
  | ratio nonzero sign rounds =>
    have large : (2 : ℚ) ^ (Magnitude.minExponent - 1) ≤ |q| := by
      have one_le : 1 ≤ |r| := Int.one_le_abs (by rintro rfl; exact nonzero (by simpa using ratio.symm))
      calc (2 : ℚ) ^ (Magnitude.minExponent - 1) ≤ 2 ^ (0 : ℤ) := two_zpow_le_iff.mpr (by decide)
        _ = 1 := zpow_zero 2
        _ ≤ |q| := by
          rw [← ratio]
          exact_mod_cast one_le
    rw [prec] at rounds
    obtain ⟨exact_size, bounded⟩ := rounds.exact fits large small
    refine ⟨?_, bounded⟩
    rw [value, exact_size]
    split_ifs with negative
    · rw [abs_of_neg (sign.mp negative), neg_neg]
    · exact abs_of_nonneg (not_lt.mp fun below => negative (sign.mpr below))

end Number

/-- The remainder of two numbers of one precision is that of their integer parts, exactly. -/
theorem mod_exact {p : ℕ} (some_bits : 1 ≤ p) (x_prec : x.prec = p) (y_prec : y.prec = p)
    (x_finite : x.mag ≠ .infinite) (y_finite : y.mag ≠ .infinite) :
    (towardZero y.value = 0 → BinaryOp.mod.apply x y = .error (.zeroDivision "%")) ∧
    (towardZero y.value ≠ 0 → ∃ (z : Number) (m q : ℤ), BinaryOp.mod.apply x y = .ok z ∧
      z.prec = p ∧ z.mag.Proper p ∧ z.mag ≠ .infinite ∧ z.value = m ∧
      towardZero x.value = q * towardZero y.value + m ∧ |m| < |towardZero y.value| ∧
      (m = 0 → z.neg = false ∧ z.mag = .zero) ∧ (m ≠ 0 → m.sign = (towardZero x.value).sign)) := by
  have x_bits : 0 < x.prec := by omega
  rw [← Number.truncate_eq, ← Number.truncate_eq]
  constructor
  · intro nothing
    have divides : BinaryOp.mod.dividesByZero x y = true := by
      simp [BinaryOp.dividesByZero, Number.isInfinite, x_finite, y_finite, nothing]
    rw [BinaryOp.apply_eq, if_pos divides]
    rfl
  · intro some_integer
    have nonzero : y.mag ≠ .zero := by
      intro vanishes
      apply some_integer
      rw [Number.truncate_eq, Number.value_of_zero vanishes]
      rfl
    obtain ⟨value, bounded⟩ := Number.rem_exact x_bits (by omega) some_integer
    have prec : (x.rem y).prec = p := (Number.prec_rem x_bits).trans x_prec
    have divides : BinaryOp.mod.dividesByZero x y = false := by
      simp [BinaryOp.dividesByZero, Number.isZero, nonzero, some_integer]
    have computed : BinaryOp.mod.value? x y = some (x.rem y) := by
      simp [BinaryOp.value?, Number.isInfinite, x_finite, y_finite]
    have applied : BinaryOp.mod.apply x y = .ok (x.rem y) := by
      rw [BinaryOp.apply_eq, divides, computed]
      rfl
    have smaller : |x.truncate.tmod y.truncate| < |y.truncate| := by
      rw [Int.abs_eq_natAbs, Int.abs_eq_natAbs, Int.natAbs_tmod]
      exact_mod_cast Nat.mod_lt _ (Int.natAbs_pos.mpr some_integer)
    refine ⟨x.rem y, _, _, applied, prec, prec ▸ (x.rem y).proper, bounded, value, (Int.tdiv_mul_add_tmod _ _).symm,
      smaller, ?_, ?_⟩
    · intro vanishes
      refine (Number.roundsTo_rem x_bits y).of_zero ?_
      rw [← Number.truncate_eq, ← Number.truncate_eq, vanishes, Int.cast_zero]
    · intro remains
      rw [Int.sign_tmod, if_neg]
      exact fun divides => remains (Int.tmod_eq_zero_of_dvd divides)

/-- Three bits are enough for the remainder of `-224` by `5`, which is `-4`. -/
theorem mod_exact_three_bits :
    ∃ z : Number,
      BinaryOp.mod.apply { prec := 3, neg := true, mag := .finite 7 5, words := 1 }
          { prec := 3, neg := false, mag := .finite 5 0, words := 1 } = .ok z ∧
        z.prec = 3 ∧ z.value = -4 := by
  have dividend : towardZero (Number.value { prec := 3, neg := true, mag := .finite 7 5, words := 1 }) = -224 := by
    rw [← Number.truncate_eq]
    decide
  have divisor : towardZero (Number.value { prec := 3, neg := false, mag := .finite 5 0, words := 1 }) = 5 := by
    rw [← Number.truncate_eq]
    decide
  have found := (mod_exact (x := { prec := 3, neg := true, mag := .finite 7 5, words := 1 })
    (y := { prec := 3, neg := false, mag := .finite 5 0, words := 1 }) (by decide) rfl rfl (by decide) (by decide)).2
      (by rw [divisor]; decide)
  rw [dividend, divisor] at found
  obtain ⟨z, m, q, applied, prec, -, -, value, split, small, -, sign⟩ := found
  have negative : m < 0 := by
    rw [← Int.sign_eq_neg_one_iff_neg]
    exact sign (by rintro rfl; omega)
  have remainder : m = -4 := by
    rw [abs_lt, abs_of_pos (by decide : (0 : ℤ) < 5)] at small
    omega
  refine ⟨z, applied, prec, ?_⟩
  rw [value, remainder]
  norm_num

end Abacus
