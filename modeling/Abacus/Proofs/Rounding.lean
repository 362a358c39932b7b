import Abacus.Number.Basic
import Mathlib

/-!
What rounding gives: of all values with so many bits the nearest one, and of two that are equally near the one
that is even in the last place.

Sizes are compared by their values, which are ratios. That the result of `Magnitude.ofRatio` is the nearest is
shown on the grid of multiples of the last place: a value with as many bits that is not on the grid lies below
the power of two where the grid begins, and so further away.
-/

namespace Abacus

variable {prec n d m k : ℕ} {q v w : ℚ} {top e : ℤ}

/-! ### Powers of two -/

theorem bitLength_le_iff_lt_two_pow : bitLength n ≤ k ↔ n < 2 ^ k := by
  rw [bitLength_le_iff, Nat.one_shiftLeft]

theorem natCast_lt_two_zpow (n : ℕ) : (n : ℚ) < 2 ^ (bitLength n : ℤ) := by
  rw [zpow_natCast]
  exact_mod_cast bitLength_le_iff_lt_two_pow.mp (Nat.le_refl (bitLength n))

theorem two_zpow_le_natCast (positive : 0 < n) : (2 : ℚ) ^ ((bitLength n : ℤ) - 1) ≤ n := by
  have length : ((bitLength n : ℤ) - 1) = (n.log2 : ℕ) := by
    rw [bitLength, if_neg (by omega)]
    omega
  rw [length, zpow_natCast]
  exact_mod_cast Nat.log2_self_le (by omega)

theorem two_zpow_pos (e : ℤ) : (0 : ℚ) < 2 ^ e :=
  zpow_pos two_pos e

theorem two_zpow_le_iff {a b : ℤ} : (2 : ℚ) ^ a ≤ 2 ^ b ↔ a ≤ b :=
  zpow_le_zpow_iff_right₀ one_lt_two

theorem two_zpow_lt_iff {a b : ℤ} : (2 : ℚ) ^ a < 2 ^ b ↔ a < b :=
  zpow_lt_zpow_iff_right₀ one_lt_two

theorem two_zpow_add (a b : ℤ) : (2 : ℚ) ^ (a + b) = 2 ^ a * 2 ^ b :=
  zpow_add₀ two_ne_zero a b

/-- Shifting by an exponent of either sign multiplies a ratio by a power of two. -/
theorem shifted_ratio (n d : ℕ) (k : ℤ) :
    ((n <<< (-k).toNat : ℕ) : ℚ) / ((d <<< k.toNat : ℕ) : ℚ) = n / d * 2 ^ (-k) := by
  rw [Nat.shiftLeft_eq, Nat.shiftLeft_eq]
  push_cast
  rcases le_total 0 k with up | down
  · obtain ⟨j, rfl⟩ := Int.eq_ofNat_of_zero_le up
    simp [div_eq_mul_inv, mul_comm, mul_assoc]
  · obtain ⟨j, same⟩ := Int.eq_ofNat_of_zero_le (neg_nonneg.mpr down)
    have none_up : k.toNat = 0 := by omega
    rw [same, none_up]
    simp [div_eq_mul_inv, mul_right_comm]

/-- The value has the exponent `top`. -/
structure InBinade (q : ℚ) (top : ℤ) : Prop where
  le : (2 : ℚ) ^ (top - 1) ≤ q
  lt : q < 2 ^ top

theorem InBinade.pos (binade : InBinade q top) : 0 < q :=
  (two_zpow_pos _).trans_le binade.le

theorem InBinade.scale (binade : InBinade q top) (e : ℤ) : InBinade (q * 2 ^ e) (top + e) := by
  have positive := two_zpow_pos e
  constructor
  · rw [show top + e - 1 = top - 1 + e by ring, two_zpow_add]
    exact mul_le_mul_of_nonneg_right binade.le positive.le
  · rw [two_zpow_add]
    exact mul_lt_mul_of_pos_right binade.lt positive

theorem inBinade_natCast (positive : 0 < n) : InBinade n (bitLength n) :=
  ⟨two_zpow_le_natCast positive, natCast_lt_two_zpow n⟩

theorem inBinade_scaled (positive : 0 < m) (e : ℤ) :
    InBinade (m * 2 ^ e) (Magnitude.exponentOf m e) := by
  rw [Magnitude.exponentOf, add_comm]
  exact (inBinade_natCast positive).scale e

theorem inBinade_binaryExponent (n_pos : 0 < n) (d_pos : 0 < d) :
    InBinade (n / d) (binaryExponent n d) := by
  generalize place : binaryExponent n d = k
  obtain ⟨above, below⟩ := binaryExponent_bounds (p := k.toNat) (q := (-k).toNat) n_pos d_pos (by omega)
  rw [Nat.shiftLeft_succ] at above
  have shifted_pos : (0 : ℚ) < (d <<< k.toNat : ℕ) := by exact_mod_cast Nat.zero_lt_of_lt below
  have scaled : InBinade (n / d * 2 ^ (-k)) 0 := by
    rw [← shifted_ratio]
    constructor
    · have half : ((d <<< k.toNat : ℕ) : ℚ) ≤ 2 * (n <<< (-k).toNat : ℕ) := by exact_mod_cast above
      rw [le_div_iff₀ shifted_pos, zero_sub, zpow_neg_one]
      linarith
    · rw [zpow_zero, div_lt_one shifted_pos]
      exact_mod_cast below
  have binade := scaled.scale k
  rwa [mul_assoc, ← two_zpow_add, neg_add_cancel, zpow_zero, mul_one, zero_add] at binade

/-! ### The nearest value -/

/-- The value has at most `prec` significant bits. -/
def Fits (prec : ℕ) (v : ℚ) : Prop :=
  ∃ k e : ℤ, |k| < 2 ^ prec ∧ v = k * 2 ^ e

/-- Of all values that have at most `prec` significant bits `v` is nearest to `q`. Where another one is as near,
`v` is an even multiple of the last place of `q`. -/
structure NearestEven (prec : ℕ) (q v : ℚ) : Prop where
  fits : Fits prec v
  nearest : ∀ w, Fits prec w → |q - v| ≤ |q - w|
  even : ∀ w, Fits prec w → w ≠ v → |q - w| = |q - v| →
    ∃ top, InBinade q top ∧ ∃ k : ℤ, Even k ∧ v = k * 2 ^ (top - prec)

/-- A multiple of the last place that is no further away than half of it; at half of it, it is even. -/
structure OnGrid (q unit : ℚ) (k : ℤ) : Prop where
  near : |q - k * unit| ≤ unit / 2
  even : |q - k * unit| = unit / 2 → Even k

theorem OnGrid.nearest {unit : ℚ} {k : ℤ} (grid : OnGrid q unit k) (positive : 0 < unit) {j : ℤ}
    (other : j ≠ k) : unit / 2 ≤ |q - j * unit| := by
  have apart : (1 : ℚ) ≤ |(k : ℚ) - j| := by
    have integers : 1 ≤ |k - j| := Int.one_le_abs (sub_ne_zero.mpr other.symm)
    exact_mod_cast integers
  have distance : unit ≤ |k * unit - j * unit| := by
    rw [← sub_mul, abs_mul, abs_of_pos positive]
    exact le_mul_of_one_le_left positive.le apart
  have triangle := abs_sub_le (k * unit) q (j * unit)
  have near := grid.near
  rw [abs_sub_comm] at near
  linarith

/-- A value with as many bits that is not on the grid is further away than where the binade begins. -/
theorem Fits.grid_or_far (fits : Fits prec w) (binade : InBinade q top) :
    (∃ j : ℤ, w = j * 2 ^ (top - prec)) ∨ |q - 2 ^ (top - 1)| < |q - w| := by
  obtain ⟨j, f, small, rfl⟩ := fits
  by_cases coarse : top - prec ≤ f
  · obtain ⟨shift, same⟩ := Int.eq_ofNat_of_zero_le (sub_nonneg.mpr coarse)
    refine .inl ⟨j * 2 ^ shift, ?_⟩
    rw [show f = (shift : ℤ) + (top - prec) by omega, two_zpow_add]
    push_cast
    rw [zpow_natCast, mul_assoc]
  · right
    have below : (j : ℚ) * 2 ^ f < 2 ^ (top - 1) :=
      calc (j : ℚ) * 2 ^ f < 2 ^ prec * 2 ^ f := by
            refine mul_lt_mul_of_pos_right ?_ (two_zpow_pos f)
            exact_mod_cast (le_abs_self j).trans_lt small
        _ = 2 ^ ((prec : ℤ) + f) := by rw [two_zpow_add, zpow_natCast]
        _ ≤ 2 ^ (top - 1) := two_zpow_le_iff.mpr (by omega)
    have begins := binade.le
    rw [abs_of_nonneg (by linarith), abs_of_nonneg (by linarith)]
    linarith

theorem OnGrid.nearestEven {k : ℤ} (some_bits : 0 < prec) (binade : InBinade q top)
    (grid : OnGrid q (2 ^ (top - prec)) k) : NearestEven prec q (k * 2 ^ (top - prec)) := by
  have positive := two_zpow_pos (top - prec)
  have begins : (2 : ℚ) ^ (top - 1) = ((2 ^ (prec - 1) : ℤ) : ℚ) * 2 ^ (top - prec) := by
    push_cast
    rw [← zpow_natCast, ← two_zpow_add]
    congr 1
    omega
  have near_begin : |q - k * 2 ^ (top - prec)| ≤ |q - 2 ^ (top - 1)| := by
    rw [begins]
    by_cases same : (2 ^ (prec - 1) : ℤ) = k
    · rw [same]
    · exact grid.near.trans (grid.nearest positive same)
  refine ⟨?_, fun w fits => ?_, fun w fits other tie => ?_⟩
  · have whole : (2 : ℚ) ^ top = 2 ^ prec * 2 ^ (top - prec) := by
      rw [← zpow_natCast, ← two_zpow_add]
      congr 1
      omega
    have bounds := abs_le.mp grid.near
    have above : (k : ℚ) < 2 ^ prec + 1 := by
      refine lt_of_mul_lt_mul_right ?_ positive.le
      rw [add_mul, ← whole]
      linarith [binade.lt]
    have below : (-1 : ℚ) < k := by
      refine lt_of_mul_lt_mul_right ?_ positive.le
      linarith [binade.pos]
    have above' : k < 2 ^ prec + 1 := by exact_mod_cast above
    have below' : -1 < k := by exact_mod_cast below
    rcases (Int.lt_add_one_iff.mp above').lt_or_eq with less | full
    · exact ⟨k, _, by rwa [abs_of_nonneg (by omega)], rfl⟩
    · -- the next power of two has a single bit
      refine ⟨1, top, by simpa using one_lt_pow₀ (one_lt_two : (1 : ℤ) < 2) (Nat.ne_of_gt some_bits), ?_⟩
      rw [full, whole]
      push_cast
      ring
  · rcases fits.grid_or_far binade with ⟨j, rfl⟩ | far
    · by_cases same : j = k
      · rw [same]
      · exact grid.near.trans (grid.nearest positive same)
    · exact near_begin.trans far.le
  · rcases fits.grid_or_far binade with ⟨j, rfl⟩ | far
    · have differs : j ≠ k := fun same => other (by rw [same])
      have half := (grid.nearest positive differs).trans tie.le
      exact ⟨top, binade, k, grid.even (grid.near.antisymm half), rfl⟩
    · exact absurd (near_begin.trans_lt far) (by rw [tie]; exact lt_irrefl _)

theorem OnGrid.scale {k : ℤ} {unit factor : ℚ} (grid : OnGrid q unit k) (positive : 0 < factor) :
    OnGrid (q * factor) (unit * factor) k := by
  have distance : |q * factor - k * (unit * factor)| = |q - k * unit| * factor := by
    rw [← mul_assoc, ← sub_mul, abs_mul, abs_of_pos positive]
  have half : unit * factor / 2 = unit / 2 * factor := by ring
  constructor
  · rw [distance, half]
    exact mul_le_mul_of_nonneg_right grid.near positive.le
  · rw [distance, half]
    exact fun tie => grid.even (mul_right_cancel₀ positive.ne' tie)

/-- The rounded quotient, times the divisor, is at most half of the divisor away. -/
theorem roundDiv_near (n : ℕ) (d_pos : 0 < d) :
    2 * (d * roundDiv n d) ≤ 2 * n + d ∧ 2 * n ≤ 2 * (d * roundDiv n d) + d := by
  have parts := Nat.div_add_mod n d
  have part_lt := Nat.mod_lt n d_pos
  have digit := Nat.mod_two_eq_zero_or_one (n / d)
  unfold roundDiv
  dsimp only
  split_ifs with low high
  · omega
  · rw [Nat.mul_add, Nat.mul_one]
    omega
  · rw [Nat.mul_add]
    rcases digit with digit | digit <;> rw [digit] <;> omega

theorem roundDiv_even (n : ℕ) (d_pos : 0 < d)
    (tie : 2 * (d * roundDiv n d) = 2 * n + d ∨ 2 * n = 2 * (d * roundDiv n d) + d) :
    Even (roundDiv n d) := by
  have parts := Nat.div_add_mod n d
  have part_lt := Nat.mod_lt n d_pos
  unfold roundDiv at tie ⊢
  dsimp only at tie ⊢
  split_ifs at tie ⊢ with low high
  · omega
  · rw [Nat.mul_add, Nat.mul_one] at tie
    omega
  · rw [Nat.even_iff]
    omega

theorem onGrid_roundDiv (n : ℕ) (d_pos : 0 < d) : OnGrid n d (roundDiv n d) := by
  obtain ⟨above, below⟩ := roundDiv_near n d_pos
  have even := roundDiv_even n d_pos
  generalize roundDiv n d = r at *
  have above' : (2 : ℚ) * (d * r) ≤ 2 * n + d := by exact_mod_cast above
  have below' : (2 : ℚ) * n ≤ 2 * (d * r) + d := by exact_mod_cast below
  constructor
  · rw [abs_le]
    push_cast
    constructor <;> linarith
  · intro tie
    push_cast at tie
    have tie' : (2 : ℚ) * (d * r) = 2 * n + d ∨ (2 : ℚ) * n = 2 * (d * r) + d := by
      rcases eq_or_eq_neg_of_abs_eq tie with above | below
      · right
        linarith
      · left
        linarith
    exact_mod_cast even (by exact_mod_cast tie')

/-! ### Sizes -/

theorem InBinade.unique {other : ℤ} (binade : InBinade q top) (same : InBinade q other) : top = other := by
  have below := two_zpow_lt_iff.mp (binade.le.trans_lt same.lt)
  have above := two_zpow_lt_iff.mp (same.le.trans_lt binade.lt)
  omega

theorem fits_two_zpow (some_bits : 0 < prec) (e : ℤ) : Fits prec (2 ^ e) :=
  ⟨1, e, by simpa using one_lt_pow₀ (one_lt_two : (1 : ℤ) < 2) (Nat.ne_of_gt some_bits), by simp⟩

/-- What fits is its own nearest value. -/
theorem Fits.nearestEven (fits : Fits prec q) : NearestEven prec q q := by
  refine ⟨fits, fun w _ => ?_, fun w _ other tie => ?_⟩
  · rw [sub_self, abs_zero]
    exact abs_nonneg _
  · rw [sub_self, abs_zero, abs_eq_zero, sub_eq_zero] at tie
    exact absurd tie.symm other

/-- Rounding does not pass a value that fits. -/
theorem NearestEven.le_of_fits (nearest : NearestEven prec q v) (fits : Fits prec w) (below : w ≤ q) :
    w ≤ v := by
  by_contra less
  have closer := nearest.nearest w fits
  rw [abs_of_nonneg (by linarith), abs_of_nonneg (by linarith)] at closer
  linarith

theorem NearestEven.ge_of_fits (nearest : NearestEven prec q v) (fits : Fits prec w) (above : q ≤ w) :
    v ≤ w := by
  by_contra less
  have closer := nearest.nearest w fits
  rw [abs_of_nonpos (by linarith), abs_of_nonpos (by linarith)] at closer
  linarith

namespace Magnitude

/-- The value of a size; infinity has none and gives 0. -/
def value : Magnitude → ℚ
  | .finite m e => m * 2 ^ e
  | _ => 0

/-- What a positive value becomes at a precision. -/
inductive Rounds (prec : ℕ) (q : ℚ) : Magnitude → Prop
  /-- A value below the smallest exponent vanishes before it is rounded. -/
  | zero (small : q < 2 ^ (minExponent - 1)) : Rounds prec q .zero
  | finite {m : ℕ} {e : ℤ} (large : 2 ^ (minExponent - 1) ≤ q)
      (nearest : NearestEven prec q (m * 2 ^ e)) (proper : (finite m e).Proper prec) :
      Rounds prec q (.finite m e)
  | infinite {v : ℚ} (nearest : NearestEven prec q v) (large : 2 ^ maxExponent ≤ v) :
      Rounds prec q .infinite

theorem fits_of_bitLength (small : bitLength m ≤ prec) (e : ℤ) : Fits prec (m * 2 ^ e) := by
  refine ⟨m, e, ?_, rfl⟩
  rw [Nat.abs_cast]
  exact_mod_cast bitLength_le_iff_lt_two_pow.mp small

/-- Moving the powers of two of a significand into the exponent does not change the value. -/
theorem rounds_ofScaled (some_bits : 0 < prec) (positive : 0 < m) (small : m ≤ 2 ^ prec)
    (large : 2 ^ (minExponent - 1) ≤ q) (nearest : NearestEven prec q (m * 2 ^ e))
    (low : minExponent ≤ exponentOf m e) (high : exponentOf m e ≤ maxExponent) :
    Rounds prec q (ofScaled m e) := by
  obtain ⟨-, whole⟩ := shiftRight_trailingZeros positive
  have proper := proper_ofScaled some_bits positive (small.trans_eq (Nat.one_shiftLeft prec).symm) low high
  rw [ofScaled, if_neg (Nat.ne_of_gt positive)] at proper ⊢
  refine .finite large ?_ proper
  generalize m >>> trailingZeros m = s at *
  generalize trailingZeros m = t at *
  have value : (m : ℚ) * 2 ^ e = s * 2 ^ (e + t) := by
    rw [← whole, Nat.shiftLeft_eq, add_comm, two_zpow_add]
    push_cast
    rw [zpow_natCast, mul_assoc]
  rwa [value] at nearest

/-- The last place of `ofRatio` is where `prec` bits end; what is rounded there is nearest. -/
theorem nearestEven_roundDiv (some_bits : 0 < prec) (n_pos : 0 < n) (d_pos : 0 < d) (e : ℤ) {last : ℤ}
    (place : last = binaryExponent n d - prec) :
    NearestEven prec (n / d * 2 ^ e)
      (roundDiv (n <<< (-last).toNat) (d <<< last.toNat) * 2 ^ (e + last)) := by
  have shifted_pos : 0 < d <<< last.toNat := by
    rw [Nat.shiftLeft_eq]
    exact Nat.mul_pos d_pos (Nat.two_pow_pos _)
  have shifted_pos' : (0 : ℚ) < (d <<< last.toNat : ℕ) := by exact_mod_cast shifted_pos
  have binade := (inBinade_binaryExponent n_pos d_pos).scale e
  have unit : (2 : ℚ) ^ (e + last) = 2 ^ (binaryExponent n d + e - prec) := by
    congr 1
    omega
  have grid := (onGrid_roundDiv (n <<< (-last).toNat) shifted_pos).scale
    (div_pos (two_zpow_pos (e + last)) shifted_pos')
  have numerator : ((n <<< (-last).toNat : ℕ) : ℚ) * (2 ^ (e + last) / (d <<< last.toNat : ℕ)) =
      n / d * 2 ^ e := by
    rw [mul_div_left_comm, shifted_ratio, mul_left_comm, ← two_zpow_add, add_neg_cancel_right]
  rw [numerator, mul_div_cancel₀ _ shifted_pos'.ne', unit] at grid
  rw [unit]
  exact_mod_cast grid.nearestEven some_bits binade

/-- What was rounded has at most one power of two more than it had before. -/
theorem rounds_rounded (some_bits : 0 < prec) (binade : InBinade q top)
    (nearest : NearestEven prec q (m * 2 ^ (top - prec))) (inside : minExponent ≤ top) :
    Rounds prec q
      (if exponentOf m (top - prec) > maxExponent then .infinite else ofScaled m (top - prec)) := by
  have begins := nearest.le_of_fits (fits_two_zpow some_bits _) binade.le
  have ends := nearest.ge_of_fits (fits_two_zpow some_bits _) binade.lt.le
  have unit_pos := two_zpow_pos (top - prec)
  have positive : 0 < m := by
    have product := (two_zpow_pos (top - 1)).trans_le begins
    exact_mod_cast (mul_pos_iff_of_pos_right unit_pos).mp product
  have m_binade := inBinade_scaled positive (top - prec)
  by_cases above : exponentOf m (top - prec) > maxExponent
  · rw [if_pos above]
    exact .infinite nearest ((two_zpow_le_iff.mpr (by omega)).trans m_binade.le)
  · have low := two_zpow_lt_iff.mp (begins.trans_lt m_binade.lt)
    have large : (2 : ℚ) ^ (minExponent - 1) ≤ q := (two_zpow_le_iff.mpr (by omega)).trans binade.le
    have small : m ≤ 2 ^ prec := by
      have whole : (2 : ℚ) ^ top = 2 ^ prec * 2 ^ (top - prec) := by
        rw [← zpow_natCast, ← two_zpow_add, add_sub_cancel]
      rw [whole] at ends
      exact_mod_cast le_of_mul_le_mul_right ends unit_pos
    rw [if_neg above]
    exact rounds_ofScaled some_bits positive small large nearest (by omega) (by omega)

/-- A whole significand that has no more bits than there is room for is kept. -/
theorem rounds_whole (some_bits : 0 < prec) (positive : 0 < m) (bits : bitLength m ≤ prec)
    (low : minExponent ≤ exponentOf m e) (high : exponentOf m e ≤ maxExponent) :
    Rounds prec (m * 2 ^ e) (ofScaled m e) := by
  have large : (2 : ℚ) ^ (minExponent - 1) ≤ m * 2 ^ e :=
    (two_zpow_le_iff.mpr (by omega)).trans (inBinade_scaled positive e).le
  exact rounds_ofScaled some_bits positive (bitLength_le_iff_lt_two_pow.mp bits).le large
    (fits_of_bitLength bits e).nearestEven low high

theorem rounds_ofRatio (some_bits : 0 < prec) (n_pos : 0 < n) (d_pos : 0 < d) (e : ℤ) :
    Rounds prec (n / d * 2 ^ e) (ofRatio prec n d e) := by
  have binade := (inBinade_binaryExponent n_pos d_pos).scale e
  generalize place : binaryExponent n d - prec = last
  have nearest := nearestEven_roundDiv some_bits n_pos d_pos e place.symm
  have last_place : e + last = binaryExponent n d + e - prec := by omega
  rw [ofRatio, if_neg (by omega)]
  dsimp only
  rw [place]
  by_cases tiny : binaryExponent n d + e < minExponent
  · rw [if_pos tiny]
    exact .zero (binade.lt.trans_le (two_zpow_le_iff.mpr (by omega)))
  · rw [if_neg tiny]
    by_cases huge : binaryExponent n d + e > maxExponent
    · have begins := nearest.le_of_fits (fits_two_zpow some_bits _) binade.le
      rw [if_pos huge]
      exact .infinite nearest ((two_zpow_le_iff.mpr (by omega)).trans begins)
    · rw [if_neg huge]
      by_cases whole : d = 1 ∧ last ≤ 0
      · obtain ⟨rfl, room⟩ := whole
        have exponent : exponentOf n e = binaryExponent n 1 + e := add_comm _ _
        have bits : bitLength n ≤ prec := by
          have length : binaryExponent n 1 = bitLength n := rfl
          omega
        rw [if_pos ⟨rfl, room⟩, Nat.cast_one, div_one]
        exact rounds_whole some_bits n_pos bits (by omega) (by omega)
      · rw [if_neg whole, rounded_eq_roundDiv whole, last_place]
        rw [last_place] at nearest
        exact rounds_rounded some_bits binade nearest (by omega)

end Magnitude

end Abacus
