/-!
Sizes of numbers: zero, infinite, or an odd integer times a power of two.

Every operation on numbers computes the exact size of its result and rounds it once, to nearest with ties to even, by
`Magnitude.ofRatio`. What comes out is a size that there is at the precision asked for.
-/

namespace Abacus

/-- The size of a number. In `finite mant exp` the value is `mant * 2 ^ exp`, and `mant` is odd, so
that equal values are equal terms. -/
inductive Magnitude where
  | zero
  | finite (mant : Nat) (exp : Int)
  | infinite
deriving DecidableEq, Inhabited

/-- The number of binary digits of `n`; zero has none. -/
def bitLength (n : Nat) : Nat :=
  if n = 0 then 0 else n.log2 + 1

/-- The number of times 2 divides `n`, for `n ≠ 0`. -/
def trailingZeros (n : Nat) : Nat :=
  (n ^^^ (n - 1)).log2

/-- The quotient `n / d` rounded to the nearest integer, a half going to the even neighbour. -/
def roundDiv (n d : Nat) : Nat :=
  let q := n / d
  let r := n % d
  if 2 * r < d then q else if d < 2 * r then q + 1 else q + q % 2

/-- The quotient `n / 2 ^ k` rounded like `roundDiv`. It looks at one bit below the last place, and at whether
there is anything below that. -/
def roundShift (n : Nat) : (k : Nat) → Nat
  | 0 => n
  | k + 1 =>
    let q := n >>> k
    if q % 2 = 0 then q / 2 else if q <<< k = n then q / 2 + q / 2 % 2 else q / 2 + 1

theorem roundShift_eq_roundDiv (n k : Nat) : roundShift n k = roundDiv n (1 <<< k) := by
  rw [Nat.one_shiftLeft]
  cases k with
  | zero => simp [roundShift, roundDiv, Nat.mod_one]
  | succ k =>
    have small : n % 2 ^ k < 2 ^ k := Nat.mod_lt _ (Nat.two_pow_pos k)
    have double : 2 ^ (k + 1) = 2 * 2 ^ k := by rw [Nat.pow_succ, Nat.mul_comm]
    have whole : n / 2 ^ (k + 1) = n / 2 ^ k / 2 := by rw [Nat.pow_succ, Nat.div_div_eq_div_mul]
    have part : n % 2 ^ (k + 1) = n % 2 ^ k + 2 ^ k * (n / 2 ^ k % 2) := by
      rw [Nat.pow_succ, Nat.mod_mul]
    have exact_iff : n / 2 ^ k * 2 ^ k = n ↔ n % 2 ^ k = 0 := by
      have := Nat.div_add_mod' n (2 ^ k)
      omega
    simp only [roundShift, roundDiv, Nat.shiftRight_eq_div_pow, Nat.shiftLeft_eq, exact_iff]
    rw [whole, part]
    rcases Nat.mod_two_eq_zero_or_one (n / 2 ^ k) with even | odd
    · rw [if_pos even, if_pos]
      rw [even]
      omega
    · have above : ¬2 * (n % 2 ^ k + 2 ^ k * 1) < 2 ^ (k + 1) := by omega
      rw [odd, if_neg Nat.one_ne_zero]
      by_cases nothing_below : n % 2 ^ k = 0
      · rw [if_pos nothing_below, if_neg above, if_neg (by omega)]
      · rw [if_neg nothing_below, if_neg above, if_pos (by omega)]

/-- The binary exponent of a positive ratio: the `e` with `2 ^ (e - 1) ≤ n / d < 2 ^ e`. -/
def binaryExponent (n d : Nat) : Int :=
  let k : Int := bitLength n - bitLength d
  if d = 1 then bitLength n
  else if d <<< k.toNat ≤ n <<< (-k).toNat then k + 1
  else k

namespace Magnitude

/-- A finite size lies in `[2 ^ (E - 1), 2 ^ E)` for an exponent `E` of at least this. -/
def minExponent : Int := -2147483648

/-- A finite size lies in `[2 ^ (E - 1), 2 ^ E)` for an exponent `E` of at most this. -/
def maxExponent : Int := 2147483647

def isFinite : Magnitude → Bool
  | .finite _ _ => true
  | _ => false

@[simp] theorem isFinite_zero : zero.isFinite = false := rfl

@[simp] theorem isFinite_infinite : infinite.isFinite = false := rfl

/-- The exponent `E` with `2 ^ (E - 1) ≤ m * 2 ^ e < 2 ^ E`. -/
def exponentOf (m : Nat) (e : Int) : Int :=
  e + bitLength m

/-- The size `m * 2 ^ e`, with the powers of two of `m` moved into the exponent. -/
def ofScaled (m : Nat) (e : Int) : Magnitude :=
  if m = 0 then .zero
  else .finite (m >>> trailingZeros m) (e + trailingZeros m)

/-- The size of `prec` bits nearest to `n / d * 2 ^ e`, ties going to the even significand. A ratio below the
smallest exponent becomes zero before any rounding; a rounded result above the largest exponent becomes infinite.
An integer that has at most `prec` bits is kept as it is. Without any bits, or over 0, there is only zero. -/
def ofRatio (prec n d : Nat) (e : Int) : Magnitude :=
  if n = 0 ∨ d = 0 ∨ prec = 0 then .zero
  else
    let top := binaryExponent n d
    if top + e < minExponent then .zero
    else if top + e > maxExponent then .infinite
    else
      let last := top - prec
      if d = 1 ∧ last ≤ 0 then .ofScaled n e
      else
        let m :=
          if d = 1 then roundShift n last.toNat
          else roundDiv (n <<< (-last).toNat) (d <<< last.toNat)
        if exponentOf m (e + last) > maxExponent then .infinite else .ofScaled m (e + last)

/-- The sizes that there are at a precision: the significand is odd and has no more bits than that, and the
exponent is in range. -/
def Proper (prec : Nat) : Magnitude → Prop
  | .finite m e => m % 2 = 1 ∧ bitLength m ≤ prec ∧
      minExponent ≤ exponentOf m e ∧ exponentOf m e ≤ maxExponent
  | _ => True

instance (prec : Nat) : (mag : Magnitude) → Decidable (mag.Proper prec)
  | .finite _ _ => inferInstanceAs (Decidable (_ ∧ _))
  | .zero => .isTrue trivial
  | .infinite => .isTrue trivial

end Magnitude

/-! ### Rounding stays within the precision -/

variable {prec n d m k : Nat} {e : Int}

theorem shiftLeft_le_shiftLeft_iff : m <<< k ≤ n <<< k ↔ m ≤ n := by
  rw [Nat.shiftLeft_eq, Nat.shiftLeft_eq, Nat.mul_le_mul_right_iff (Nat.two_pow_pos k)]

theorem bitLength_le_iff : bitLength n ≤ k ↔ n < 1 <<< k := by
  rw [bitLength, Nat.one_shiftLeft]
  by_cases zero : n = 0
  · rw [if_pos zero, zero]
    exact iff_of_true (Nat.zero_le k) (Nat.two_pow_pos k)
  · rw [if_neg zero, ← Nat.log2_lt zero]
    omega

theorem lt_bitLength_iff : k < bitLength n ↔ 1 <<< k ≤ n := by
  rw [← Nat.not_le, bitLength_le_iff, Nat.not_lt]

theorem bitLength_shiftLeft (positive : 0 < n) (k : Nat) : bitLength (n <<< k) = bitLength n + k := by
  have shifted : ∀ j, j + k < bitLength (n <<< k) ↔ j < bitLength n := by
    intro j
    rw [lt_bitLength_iff, Nat.shiftLeft_add, shiftLeft_le_shiftLeft_iff, ← lt_bitLength_iff]
  have some_bits : 0 < bitLength n := lt_bitLength_iff.mpr positive
  have above := shifted (bitLength n)
  have below := shifted (bitLength n - 1)
  omega

/-- The number of times 2 divides a number that it divides is one more than for the half. -/
theorem trailingZeros_double (positive : 0 < n) : trailingZeros (2 * n) = trailingZeros n + 1 := by
  have halved : (2 * n ^^^ (2 * n - 1)) / 2 = n ^^^ (n - 1) := by
    rw [Nat.xor_div_two]
    congr 1 <;> omega
  have half_pos : n ^^^ (n - 1) ≠ 0 := by
    intro vanishes
    have same : n ^^^ (n - 1) ^^^ (n - 1) = n := by rw [Nat.xor_assoc, Nat.xor_self, Nat.xor_zero]
    rw [vanishes, Nat.zero_xor] at same
    omega
  unfold trailingZeros
  rw [Nat.log2_def, if_pos (by omega), halved]

theorem trailingZeros_odd (odd : n % 2 = 1) : trailingZeros n = 0 := by
  have halved : (n ^^^ (n - 1)) / 2 = 0 := by
    rw [Nat.xor_div_two, show (n - 1) / 2 = n / 2 by omega, Nat.xor_self]
  unfold trailingZeros
  rw [Nat.log2_def, if_neg (by omega)]

/-- A number is an odd one shifted by its trailing zeros. -/
theorem shiftRight_trailingZeros (positive : 0 < n) :
    (n >>> trailingZeros n) % 2 = 1 ∧ (n >>> trailingZeros n) <<< trailingZeros n = n := by
  induction n using Nat.strongRecOn with
  | ind n ih =>
    rcases Nat.mod_two_eq_zero_or_one n with even | odd
    · obtain ⟨half, rfl⟩ : ∃ half, n = 2 * half := ⟨n / 2, by omega⟩
      obtain ⟨odd, whole⟩ := ih half (by omega) (by omega)
      have shifted : (2 * half) >>> (trailingZeros half + 1) = half >>> trailingZeros half := by
        rw [Nat.shiftRight_eq_div_pow, Nat.shiftRight_eq_div_pow, Nat.pow_succ',
          Nat.mul_div_mul_left _ _ (by omega)]
      rw [trailingZeros_double (by omega), shifted]
      refine ⟨odd, ?_⟩
      rw [Nat.shiftLeft_succ, whole]
    · rw [trailingZeros_odd odd]
      simpa using odd

/-- A rounded quotient does not pass the bounds of the quotient. -/
theorem roundDiv_bounds (d_pos : 0 < d) {low high : Nat} (above : low * d ≤ n) (below : n < high * d) :
    low ≤ roundDiv n d ∧ roundDiv n d ≤ high := by
  have quotient_above : low ≤ n / d := (Nat.le_div_iff_mul_le d_pos).mpr above
  have quotient_below : n / d < high := (Nat.div_lt_iff_lt_mul d_pos).mpr below
  have bit := Nat.mod_two_eq_zero_or_one (n / d)
  unfold roundDiv
  dsimp only
  split
  · omega
  · split <;> omega

/-- Whether one shifted number reaches another depends on the difference of the shifts alone. -/
theorem shiftLeft_le_iff {p q p' q' : Nat} (same : p + q' = p' + q) :
    d <<< p ≤ n <<< q ↔ d <<< p' ≤ n <<< q' := by
  rw [← shiftLeft_le_shiftLeft_iff (k := q'), ← Nat.shiftLeft_add, ← Nat.shiftLeft_add, same, Nat.add_comm q,
    Nat.shiftLeft_add, Nat.shiftLeft_add, shiftLeft_le_shiftLeft_iff]

/-- A positive ratio reaches half of the power of two at its exponent, and not that power itself. -/
theorem binaryExponent_bounds (n_pos : 0 < n) (d_pos : 0 < d) {p q : Nat}
    (place : binaryExponent n d = (p : Int) - q) : d <<< p ≤ n <<< (q + 1) ∧ n <<< q < d <<< p := by
  have n_bits : 0 < bitLength n := lt_bitLength_iff.mpr n_pos
  have d_bits : 0 < bitLength d := lt_bitLength_iff.mpr d_pos
  -- numbers of different lengths compare like their lengths, and so do shifted ones
  have longer : ∀ {m m' : Nat}, bitLength m < bitLength m' → m < m' := by
    intro m m' shorter
    exact Nat.lt_of_lt_of_le (bitLength_le_iff.mp (Nat.le_refl _)) (lt_bitLength_iff.mp shorter)
  have n_length := bitLength_shiftLeft n_pos
  have d_length := bitLength_shiftLeft d_pos
  have low : bitLength d + p ≤ bitLength n + q → d <<< p ≤ n <<< (q + 1) := by
    intro lengths
    apply Nat.le_of_lt
    apply longer
    rw [n_length, d_length]
    omega
  have high : bitLength n + q < bitLength d + p → n <<< q < d <<< p := by
    intro lengths
    apply longer
    rw [n_length, d_length]
    omega
  unfold binaryExponent at place
  by_cases whole : d = 1
  · rw [if_pos whole] at place
    subst whole
    have one_bit : bitLength 1 = 1 := rfl
    refine ⟨lt_bitLength_iff.mp ?_, high (by omega)⟩
    rw [n_length]
    omega
  · rw [if_neg whole] at place
    split at place
    · rename_i reaches
      exact ⟨(shiftLeft_le_iff (by omega)).mp reaches, high (by omega)⟩
    · rename_i short
      exact ⟨low (by omega), Nat.not_le.mp (mt (shiftLeft_le_iff (by omega)).mpr short)⟩

/-- Rounding at the last place of a precision leaves a significand of as many bits, or the next power of two. -/
theorem roundDiv_significand (some_bits : 0 < prec) (n_pos : 0 < n) (d_pos : 0 < d) {last : Int}
    (place : last = binaryExponent n d - prec) :
    1 <<< (prec - 1) ≤ roundDiv (n <<< (-last).toNat) (d <<< last.toNat) ∧
      roundDiv (n <<< (-last).toNat) (d <<< last.toNat) ≤ 1 <<< prec := by
  obtain ⟨above, below⟩ := binaryExponent_bounds (p := last.toNat + prec) (q := (-last).toNat) n_pos d_pos (by omega)
  have scaled : ∀ bits, 1 <<< bits * d <<< last.toNat = d <<< (last.toNat + bits) := by
    intro bits
    rw [Nat.shiftLeft_add, Nat.one_shiftLeft, Nat.shiftLeft_eq _ bits, Nat.mul_comm]
  have d_scaled : 0 < d <<< last.toNat := by
    rw [Nat.shiftLeft_eq]
    exact Nat.mul_pos d_pos (Nat.two_pow_pos _)
  refine roundDiv_bounds d_scaled ?_ ?_
  · rw [scaled]
    exact (shiftLeft_le_iff (by omega)).mp above
  · rw [scaled]
    exact below

/-- An integer with something below the last place is rounded alike by a shift and by a division. -/
theorem rounded_eq_roundDiv {last : Int} (part : ¬(d = 1 ∧ last ≤ 0)) :
    (if d = 1 then roundShift n last.toNat else roundDiv (n <<< (-last).toNat) (d <<< last.toNat)) =
      roundDiv (n <<< (-last).toNat) (d <<< last.toNat) := by
  split
  · rename_i one
    have none_left : (-last).toNat = 0 := by omega
    rw [roundShift_eq_roundDiv, none_left, Nat.shiftLeft_zero, one]
  · rfl

namespace Magnitude

/-- Moving the powers of two of a significand into the exponent leaves it odd, and with room to spare. -/
theorem proper_ofScaled (some_bits : 0 < prec) (positive : 0 < m) (small : m ≤ 1 <<< prec)
    (low : minExponent ≤ exponentOf m e) (high : exponentOf m e ≤ maxExponent) : (ofScaled m e).Proper prec := by
  obtain ⟨odd, whole⟩ := shiftRight_trailingZeros positive
  rw [ofScaled, if_neg (Nat.ne_of_gt positive)]
  generalize m >>> trailingZeros m = s at *
  generalize trailingZeros m = t at *
  have exponent : exponentOf s (e + t) = exponentOf m e := by
    have length := bitLength_shiftLeft (n := s) (by omega) t
    rw [whole] at length
    unfold exponentOf
    omega
  have room : s < 1 <<< prec := by
    have at_most : s ≤ m := by
      rw [← whole, Nat.shiftLeft_eq]
      exact Nat.le_mul_of_pos_right s (Nat.two_pow_pos t)
    -- a power of two is not odd, so it is halved at least once
    have even : 1 <<< prec % 2 = 0 := by
      obtain ⟨bits, rfl⟩ : ∃ bits, prec = bits + 1 := ⟨prec - 1, by omega⟩
      rw [Nat.shiftLeft_succ, Nat.mul_mod_right]
    omega
  exact ⟨odd, bitLength_le_iff.mpr room, by omega, by omega⟩

/-- A significand that rounding left at the last place of a precision, and the exponent of that place. -/
theorem proper_rounded (some_bits : 0 < prec) (above : 1 <<< (prec - 1) ≤ m) (below : m ≤ 1 <<< prec)
    (low : minExponent ≤ e + prec) :
    (if exponentOf m e > maxExponent then infinite else ofScaled m e).Proper prec := by
  have bits : prec ≤ bitLength m := by
    have := lt_bitLength_iff.mpr above
    omega
  have positive : 0 < m := by
    rw [Nat.one_shiftLeft] at above
    exact Nat.lt_of_lt_of_le (Nat.two_pow_pos _) above
  split
  · trivial
  · refine proper_ofScaled some_bits positive below ?_ (by omega)
    unfold exponentOf
    omega

/-- What rounding gives is a size that there is. -/
theorem proper_ofRatio (prec n d : Nat) (e : Int) : (ofRatio prec n d e).Proper prec := by
  unfold ofRatio
  by_cases nothing : n = 0 ∨ d = 0 ∨ prec = 0
  · rw [if_pos nothing]
    trivial
  rw [if_neg nothing]
  have n_pos : 0 < n := by omega
  have d_pos : 0 < d := by omega
  have some_bits : 0 < prec := by omega
  dsimp only
  generalize place : binaryExponent n d - prec = last
  split
  · trivial
  split
  · trivial
  rename_i not_tiny not_huge
  split
  · rename_i whole
    obtain ⟨rfl, room⟩ := whole
    have top : binaryExponent n 1 = bitLength n := rfl
    have exponent : exponentOf n e = binaryExponent n 1 + e := Int.add_comm _ _
    have bits : n < 1 <<< prec := bitLength_le_iff.mp (by omega)
    exact proper_ofScaled some_bits n_pos (Nat.le_of_lt bits) (by omega) (by omega)
  · rename_i part
    obtain ⟨above, below⟩ := roundDiv_significand some_bits n_pos d_pos place.symm
    rw [rounded_eq_roundDiv part]
    exact proper_rounded some_bits above below (by omega)

theorem Proper.mono {prec prec' : Nat} {mag : Magnitude} (proper : mag.Proper prec) (wider : prec ≤ prec') :
    mag.Proper prec' := by
  cases mag with
  | finite m e => exact ⟨proper.1, Nat.le_trans proper.2.1 wider, proper.2.2⟩
  | zero | infinite => trivial

theorem proper_of_not_isFinite {prec : Nat} {mag : Magnitude} (unsized : mag.isFinite = false) : mag.Proper prec := by
  cases mag with
  | finite m e => cases unsized
  | zero | infinite => trivial

end Magnitude

end Abacus
