import Abacus.Number.Literal
import Mathlib

/-!
Numerals: decimal digits with at most one point among them.

A numeral has no sign and no exponent of its own. So it is read as a number unless its digits alone take the binary
exponent out of range, and that needs hundreds of millions of them.
-/

namespace Abacus.Number

/-- Nothing but digits and at most one point. -/
def digitsAndPoint (text : List Char) : Bool :=
  text.all (fun c => c.isDigit || c == '.') && decide (text.count '.' ≤ 1)

/-- Digits with at most one point among them. A point alone is none. -/
def isNumeral (text : List Char) : Bool :=
  digitsAndPoint text && text.any Char.isDigit

variable {text digits whole fraction : List Char} {c : Char}

theorem digitsAndPoint_iff :
    digitsAndPoint text = true ↔ (∀ c ∈ text, c.isDigit = true ∨ c = '.') ∧ text.count '.' ≤ 1 := by
  simp [digitsAndPoint]

theorem isNumeral_iff :
    isNumeral text = true ↔ digitsAndPoint text = true ∧ ∃ c ∈ text, c.isDigit = true := by
  simp [isNumeral]

theorem isNumeral_digits {first : Char} {rest : List Char}
    (digits_only : ∀ c ∈ first :: rest, c.isDigit = true) : isNumeral (first :: rest) = true := by
  have no_point : '.' ∉ first :: rest := fun inside => absurd (digits_only '.' inside) (by decide)
  refine isNumeral_iff.mpr ⟨digitsAndPoint_iff.mpr ⟨fun c inside => .inl (digits_only c inside), ?_⟩,
    first, List.mem_cons_self .., digits_only first (List.mem_cons_self ..)⟩
  rw [List.count_eq_zero.mpr no_point]
  exact Nat.zero_le 1

theorem digitsAndPoint_reverse : digitsAndPoint text.reverse = digitsAndPoint text := by
  simp [digitsAndPoint]

theorem ne_point_of_isDigit (digit : c.isDigit = true) : c ≠ '.' := by
  rintro rfl
  cases digit

/-- A digit, or the first point. -/
theorem digitsAndPoint_cons (plain : digitsAndPoint text = true)
    (fits : c.isDigit = true ∨ c = '.' ∧ '.' ∉ text) : digitsAndPoint (c :: text) = true := by
  obtain ⟨only, few⟩ := digitsAndPoint_iff.mp plain
  refine digitsAndPoint_iff.mpr ⟨List.forall_mem_cons.mpr ⟨fits.imp_right And.left, only⟩, ?_⟩
  rcases fits with digit | ⟨rfl, absent⟩
  · rwa [List.count_cons_of_ne (ne_point_of_isDigit digit)]
  · rw [List.count_cons_self, List.count_eq_zero.mpr absent]

/-- The digits before the point and those after it. -/
inductive Parts (whole fraction : List Char) : List Char → Prop
  | noPoint (no_fraction : fraction = []) : Parts whole fraction whole
  | point : Parts whole fraction (whole ++ '.' :: fraction)

theorem Parts.length_le (parts : Parts whole fraction text) :
    (whole ++ fraction).length ≤ text.length := by
  cases parts with
  | noPoint no_fraction => simp [no_fraction]
  | point => simp

theorem exists_parts (plain : digitsAndPoint text = true) :
    ∃ whole fraction, (∀ c ∈ whole, c.isDigit = true) ∧ (∀ c ∈ fraction, c.isDigit = true) ∧
      Parts whole fraction text := by
  induction text with
  | nil => exact ⟨[], [], by simp, by simp, .noPoint rfl⟩
  | cons c rest ih =>
    obtain ⟨only, few⟩ := digitsAndPoint_iff.mp plain
    have rest_only : ∀ d ∈ rest, d.isDigit = true ∨ d = '.' := fun d inside =>
      only d (List.mem_cons_of_mem _ inside)
    rcases only c (List.mem_cons_self ..) with digit | rfl
    · rw [List.count_cons_of_ne (ne_point_of_isDigit digit)] at few
      obtain ⟨whole, fraction, whole_digits, fraction_digits, parts⟩ :=
        ih (digitsAndPoint_iff.mpr ⟨rest_only, few⟩)
      have digits : ∀ d ∈ c :: whole, d.isDigit = true := by
        simpa [digit] using whole_digits
      refine ⟨c :: whole, fraction, digits, fraction_digits, ?_⟩
      cases parts with
      | noPoint no_fraction => exact .noPoint no_fraction
      | point => exact .point
    · rw [List.count_cons_self] at few
      have no_point : '.' ∉ rest := List.count_eq_zero.mp (by omega)
      refine ⟨[], rest, by simp, fun d inside => (rest_only d inside).resolve_right ?_, .point⟩
      rintro rfl
      exact no_point inside

theorem takeWhile_digits (digits_only : ∀ c ∈ digits, c.isDigit = true) :
    digits.takeWhile Char.isDigit = digits ∧ digits.dropWhile Char.isDigit = [] :=
  ⟨List.takeWhile_eq_self_iff.mpr digits_only, List.dropWhile_eq_nil_iff.mpr digits_only⟩

theorem takeWhile_digits_point (digits_only : ∀ c ∈ digits, c.isDigit = true) (rest : List Char) :
    (digits ++ '.' :: rest).takeWhile Char.isDigit = digits ∧
      (digits ++ '.' :: rest).dropWhile Char.isDigit = '.' :: rest := by
  rw [List.takeWhile_append_of_pos digits_only, List.dropWhile_append_of_pos digits_only]
  simp [show Char.isDigit '.' = false from rfl]

/-- A numeral is read to its end, as its digits alone. -/
theorem readLiteral_numeral (numeral : isNumeral text = true) :
    ∃ whole fraction, (∀ c ∈ whole ++ fraction, c.isDigit = true) ∧
      Parts whole fraction text ∧
      readLiteral text = .ok ({ neg := false, whole, fraction, scale := .ten 0 }, []) := by
  obtain ⟨plain, c, inside, digit⟩ := isNumeral_iff.mp numeral
  obtain ⟨whole, fraction, whole_digits, fraction_digits, parts⟩ := exists_parts plain
  have digits : ∀ c ∈ whole ++ fraction, c.isDigit = true := by
    simpa [or_imp, forall_and] using And.intro whole_digits fraction_digits
  have some_digit : ¬(whole.isEmpty = true ∧ fraction.isEmpty = true) := by
    rintro ⟨no_whole, no_fraction⟩
    rw [List.isEmpty_iff] at no_whole no_fraction
    subst no_whole no_fraction
    cases parts with
    | noPoint => cases inside
    | point =>
      rw [List.nil_append, List.mem_singleton] at inside
      exact ne_point_of_isDigit digit inside
  -- neither a sign nor the end stands first
  obtain ⟨first, rest, rfl⟩ := List.exists_cons_of_ne_nil (List.ne_nil_of_mem inside)
  have unsigned : ¬(first = '-' ∨ first = '+') := by
    have only := (digitsAndPoint_iff.mp plain).1 first (List.mem_cons_self ..)
    rintro (rfl | rfl) <;> simp at only
  have positive : first ≠ '-' := fun minus => unsigned (.inl minus)
  refine ⟨whole, fraction, digits, parts, ?_⟩
  rw [readLiteral, if_neg unsigned]
  generalize first :: rest = text at parts
  cases parts with
  | noPoint no_fraction =>
    obtain ⟨taken, dropped⟩ := takeWhile_digits whole_digits
    subst no_fraction
    rw [taken, dropped]
    simp only [if_neg some_digit, positive, readScale, Except.map, decide_false]
  | point =>
    obtain ⟨taken, dropped⟩ := takeWhile_digits_point whole_digits fraction
    obtain ⟨taken', dropped'⟩ := takeWhile_digits fraction_digits
    rw [taken, dropped]
    simp only [taken', dropped', if_neg some_digit, positive, readScale, Except.map, decide_false]

theorem foldl_digits_lt (digits_only : ∀ c ∈ digits, c.isDigit = true) (n : Nat) :
    digits.foldl (fun n c => 10 * n + (c.toNat - '0'.toNat)) n < (n + 1) * 10 ^ digits.length := by
  induction digits generalizing n with
  | nil => simp
  | cons c rest ih =>
    have small : c.toNat - '0'.toNat ≤ 9 := by
      have digit := digits_only c (List.mem_cons_self ..)
      have upper : c.toNat ≤ '9'.toNat := by
        simp only [Char.isDigit, Bool.and_eq_true, decide_eq_true_eq] at digit
        exact digit.2
      change c.toNat ≤ 57 at upper
      change c.toNat - 48 ≤ 9
      omega
    calc rest.foldl _ (10 * n + (c.toNat - '0'.toNat))
      _ < (10 * n + (c.toNat - '0'.toNat) + 1) * 10 ^ rest.length :=
        ih (fun d inside => digits_only d (List.mem_cons_of_mem _ inside)) _
      _ ≤ (n + 1) * 10 * 10 ^ rest.length := Nat.mul_le_mul_right _ (by omega)
      _ = (n + 1) * 10 ^ (c :: rest).length := by
        rw [List.length_cons, Nat.pow_succ, Nat.mul_assoc, Nat.mul_comm 10]

/-- A digit takes up less than four bits. -/
theorem bitLength_decimalValue_le (digits_only : ∀ c ∈ digits, c.isDigit = true) :
    bitLength (decimalValue digits) ≤ 4 * digits.length := by
  have below : decimalValue digits < 2 ^ (4 * digits.length) :=
    calc decimalValue digits
      _ < (0 + 1) * 10 ^ digits.length := foldl_digits_lt digits_only 0
      _ ≤ 16 ^ digits.length := by
        rw [Nat.zero_add, Nat.one_mul]
        exact Nat.pow_le_pow_left (by omega) _
      _ = 2 ^ (4 * digits.length) := by rw [Nat.pow_mul]
  unfold bitLength
  split
  · omega
  · rename_i nonzero
    exact (Nat.log2_lt nonzero).mpr below

theorem le_foldl_digits (digits : List Char) (n : Nat) :
    n * 10 ^ digits.length ≤ digits.foldl (fun n c => 10 * n + (c.toNat - '0'.toNat)) n := by
  induction digits generalizing n with
  | nil => simp
  | cons c rest ih =>
    calc n * 10 ^ (c :: rest).length
      _ = 10 * n * 10 ^ rest.length := by rw [List.length_cons, Nat.pow_succ]; ring
      _ ≤ (10 * n + (c.toNat - '0'.toNat)) * 10 ^ rest.length :=
        Nat.mul_le_mul_right _ (Nat.le_add_right ..)
      _ ≤ rest.foldl _ (10 * n + (c.toNat - '0'.toNat)) := ih _

/-- A digit after the first takes up more than three bits, unless all before it are zeros. -/
theorem lt_bitLength_decimalValue {first : Char} (nonzero : '0'.toNat < first.toNat) (rest : List Char) :
    3 * rest.length < bitLength (decimalValue (first :: rest)) := by
  have above : 2 ^ (3 * rest.length) ≤ decimalValue (first :: rest) :=
    calc 2 ^ (3 * rest.length)
      _ = 8 ^ rest.length := by rw [Nat.pow_mul]
      _ ≤ 10 ^ rest.length := Nat.pow_le_pow_left (by omega) _
      _ ≤ (10 * 0 + (first.toNat - '0'.toNat)) * 10 ^ rest.length :=
        Nat.le_mul_of_pos_left _ (by omega)
      _ ≤ decimalValue (first :: rest) := le_foldl_digits rest _
  have positive : decimalValue (first :: rest) ≠ 0 :=
    Nat.ne_of_gt (Nat.lt_of_lt_of_le (Nat.two_pow_pos _) above)
  rw [bitLength, if_neg positive]
  exact Nat.lt_succ_of_le ((Nat.le_log2 positive).mpr above)

theorem toNumber_digits (prec : Nat) (digits_only : ∀ c ∈ whole ++ fraction, c.isDigit = true)
    (few : (whole ++ fraction).length < 2 ^ 29) :
    ∃ x, Literal.toNumber prec { neg := false, whole, fraction, scale := .ten 0 } = .ok x := by
  have bits := bitLength_decimalValue_le digits_only
  rw [Literal.toNumber]
  generalize decimalValue (whole ++ fraction) = n at bits
  rw [List.length_append] at bits few
  by_cases nothing : n = 0
  · exact ⟨_, if_pos nothing⟩
  · refine ⟨_, (if_neg nothing).trans (if_neg ?_)⟩
    dsimp only [Magnitude.exponentOf, Magnitude.minExponent, Magnitude.maxExponent]
    omega

theorem toNumber_eq_error {prec : Nat} {l : Literal} {e : LiteralError}
    (refused : l.toNumber prec = .error e) : e = .exponentOutOfRange := by
  obtain ⟨neg, whole, fraction, scale⟩ := l
  unfold Literal.toNumber at refused
  cases scale with
  | ten f | two f =>
    dsimp only at refused
    by_cases nothing : decimalValue (whole ++ fraction) = 0
    · rw [if_pos nothing] at refused
      cases refused
    · rw [if_neg nothing] at refused
      split at refused
      · cases refused
        rfl
      · cases refused

theorem isNumeral_infinity :
    ∀ word ∈ ["Inf", "inf", "+Inf", "+inf", "-Inf", "-inf"], isNumeral word.toList = false := by
  decide

/-- Reading a numeral as a number. -/
theorem parse_numeral {text : String} (numeral : isNumeral text.toList = true) (prec : Nat) :
    ∃ whole fraction, (∀ c ∈ whole ++ fraction, c.isDigit = true) ∧
      Parts whole fraction text.toList ∧
      parse prec text =
        Literal.toNumber (literalPrec prec) { neg := false, whole, fraction, scale := .ten 0 } := by
  obtain ⟨whole, fraction, digits, parts, read⟩ := readLiteral_numeral numeral
  have no_word : ∀ word ∈ ["Inf", "inf", "+Inf", "+inf", "-Inf", "-inf"], text ≠ word := by
    rintro word inside rfl
    rw [isNumeral_infinity text inside] at numeral
    cases numeral
  simp only [List.mem_cons, List.not_mem_nil, or_false, forall_eq_or_imp, forall_eq] at no_word
  obtain ⟨h₁, h₂, h₃, h₄, h₅, h₆⟩ := no_word
  refine ⟨whole, fraction, digits, parts, ?_⟩
  rw [parse, if_neg (by simp [h₁, h₂, h₃, h₄]), if_neg (by simp [h₅, h₆]), read]
  dsimp only
  cases Literal.toNumber (literalPrec prec) { neg := false, whole, fraction, scale := .ten 0 } <;> rfl

/-- A numeral of less than `2 ^ 29` characters is a number at every precision. -/
theorem parse_short_numeral {text : String} (numeral : isNumeral text.toList = true)
    (short : text.length < 2 ^ 29) (prec : Nat) : ∃ x, parse prec text = .ok x := by
  obtain ⟨whole, fraction, digits, parts, parsed⟩ := parse_numeral numeral prec
  rw [← String.length_toList] at short
  rw [parsed]
  exact toNumber_digits _ digits (Nat.lt_of_le_of_lt parts.length_le short)

/-- More than `2 ^ 30` digits, of which the first is not zero, are a number at no precision. -/
theorem parse_long_numeral {text : String} {first : Char} {rest : List Char}
    (digits : text.toList = first :: rest) (digits_only : ∀ c ∈ first :: rest, c.isDigit = true)
    (nonzero : '0'.toNat < first.toNat) (long : 2 ^ 30 ≤ rest.length) (prec : Nat) :
    parse prec text = .error .exponentOutOfRange := by
  have bits := lt_bitLength_decimalValue nonzero rest
  have numeral : isNumeral text.toList = true := digits ▸ isNumeral_digits digits_only
  obtain ⟨whole, fraction, -, parts, parsed⟩ := parse_numeral numeral prec
  rw [digits] at parts
  obtain ⟨rfl, rfl⟩ : whole = first :: rest ∧ fraction = [] := by
    generalize text_eq : first :: rest = text at parts
    cases parts with
    | noPoint no_fraction => exact ⟨rfl, no_fraction⟩
    | point =>
      refine absurd (digits_only '.' ?_) (by decide)
      simp [text_eq]
  rw [parsed, Literal.toNumber]
  dsimp only
  rw [List.append_nil]
  generalize decimalValue (first :: rest) = n at bits
  have some_value : n ≠ 0 := by
    rintro rfl
    exact Nat.not_lt_zero _ bits
  rw [if_neg some_value]
  refine if_pos (.inr ?_)
  dsimp only [Magnitude.exponentOf, Magnitude.maxExponent, List.length_nil]
  omega

/-- Why a numeral is no number. -/
theorem parse_numeral_error {text : String} (numeral : isNumeral text.toList = true) {prec : Nat}
    {e : LiteralError} (refused : parse prec text = .error e) : e = .exponentOutOfRange := by
  obtain ⟨whole, fraction, -, -, parsed⟩ := parse_numeral numeral prec
  rw [parsed] at refused
  exact toNumber_eq_error refused

end Abacus.Number
