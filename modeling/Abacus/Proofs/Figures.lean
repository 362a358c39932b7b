import Abacus.Format
import Mathlib

/-!
The characters that numbers are written with.

In every style these are letters, digits, signs, a point and blanks, so nothing that a number is written with can be
taken for the end of a line or for the begin of a mark.
-/

namespace Abacus

/-- The characters of digits in all bases, signs, points, exponents, infinities and blanks. A star would stand for a
digit that is too large. -/
def figures : List Char :=
  "0123456789abcdef+-.EpxIn *".toList

def isFigure (c : Char) : Bool :=
  figures.contains c

/-- The text of a number, or a part of one. -/
def Figures (s : String) : Prop :=
  ∀ c ∈ s.toList, isFigure c = true

instance (s : String) : Decidable (Figures s) :=
  decidable_of_iff (s.toList.all isFigure = true) List.all_eq_true

theorem Figures.append {s t : String} (first : Figures s) (second : Figures t) : Figures (s ++ t) := by
  rw [Figures, String.toList_append]
  exact List.forall_mem_append.mpr ⟨first, second⟩

theorem figures_ofList {chars : List Char} : Figures (String.ofList chars) ↔ ∀ c ∈ chars, isFigure c = true := by
  rw [Figures, String.toList_ofList]

theorem figures_ite {p : Prop} [Decidable p] {s t : String} (first : Figures s) (second : Figures t) :
    Figures (if p then s else t) := by
  split
  · exact first
  · exact second

theorem ite_ne_empty {p : Prop} [Decidable p] {s t : String} (first : s ≠ "") (second : t ≠ "") :
    (if p then s else t) ≠ "" := by
  split
  · exact first
  · exact second

theorem isFigure_digitChar (n : Nat) : isFigure (Nat.digitChar n) = true := by
  rcases Nat.lt_or_ge n 16 with digit | large
  · interval_cases n <;> decide
  · have none : Nat.digitChar n = '*' := by
      unfold Nat.digitChar
      repeat rw [if_neg (by omega)]
    rw [none]
    decide

theorem isFigure_of_mem_digitChars {digits : List Nat} {c : Char} (inside : c ∈ digits.map Nat.digitChar) :
    isFigure c = true := by
  obtain ⟨n, -, rfl⟩ := List.mem_map.mp inside
  exact isFigure_digitChar n

theorem isFigure_of_mem_toDigitsCore (base fuel n : Nat) {digits : List Char}
    (others : ∀ c ∈ digits, isFigure c = true) : ∀ c ∈ Nat.toDigitsCore base fuel n digits, isFigure c = true := by
  induction fuel generalizing n digits with
  | zero => exact others
  | succ fuel ih =>
    have more : ∀ c ∈ Nat.digitChar (n % base) :: digits, isFigure c = true :=
      List.forall_mem_cons.mpr ⟨isFigure_digitChar _, others⟩
    rw [Nat.toDigitsCore]
    split
    · exact more
    · exact ih _ more

theorem isFigure_of_mem_toDigits {base n : Nat} {c : Char} (inside : c ∈ Nat.toDigits base n) : isFigure c = true :=
  isFigure_of_mem_toDigitsCore base (n + 1) n (List.forall_mem_nil _) c inside

theorem figures_natRepr (n : Nat) : Figures n.repr := by
  rw [Figures, Nat.toList_repr]
  exact fun _ => isFigure_of_mem_toDigits

theorem figures_intRepr (n : Int) : Figures n.repr := by
  cases n with
  | ofNat n => exact figures_natRepr n
  | negSucc n => exact Figures.append (by decide) (figures_natRepr _)

namespace Decimal

variable {letter : Char} (d : Decimal)

theorem isFigure_of_mem_pointAndDigits (places : Nat) (digits : List Nat) :
    ∀ c ∈ pointAndDigits places digits, isFigure c = true := by
  unfold pointAndDigits
  split
  · exact List.forall_mem_nil _
  · exact List.forall_mem_cons.mpr ⟨rfl, fun _ => isFigure_of_mem_digitChars⟩

theorem figures_exponentText (e : Int) : Figures (exponentText e) := by
  refine (figures_ite (by decide) (by decide)).append (figures_ofList.mpr ?_)
  split
  · exact List.forall_mem_cons.mpr ⟨rfl, fun _ => isFigure_of_mem_toDigits⟩
  · exact fun _ => isFigure_of_mem_toDigits

theorem figures_scientific (letter_ok : isFigure letter = true) (places : Nat) :
    Figures (d.scientific letter places) := by
  refine Figures.append (figures_ofList.mpr ?_) (figures_exponentText _)
  rw [List.forall_mem_append, List.forall_mem_append, List.forall_mem_singleton]
  exact ⟨⟨fun _ => isFigure_of_mem_digitChars, isFigure_of_mem_pointAndDigits _ _⟩, letter_ok⟩

theorem figures_fixed (places : Nat) : Figures (d.fixed places) := by
  refine figures_ofList.mpr (List.forall_mem_append.mpr ⟨?_, isFigure_of_mem_pointAndDigits _ _⟩)
  split
  · exact List.forall_mem_singleton.mpr rfl
  · exact fun _ => isFigure_of_mem_digitChars

theorem figures_general (letter_ok : isFigure letter = true) (shortest : Bool) (n : Nat) :
    Figures (d.general letter shortest n) :=
  figures_ite (d.figures_scientific letter_ok _) (d.figures_fixed _)

theorem scientific_ne_empty (letter : Char) (places : Nat) : d.scientific letter places ≠ "" := by
  simp [scientific]

/-- There is a digit before the point, if only a zero. -/
theorem fixed_ne_empty (places : Nat) : d.fixed places ≠ "" := by
  have whole : (if d.point ≤ 0 then ['0'] else firstDigits d.point.toNat d.digits) ≠ [] := by
    split
    · exact List.cons_ne_nil _ _
    · have length : (firstDigits d.point.toNat d.digits).length = d.point.toNat := by simp [firstDigits]
      rw [← List.length_pos_iff, length]
      omega
  simp [fixed, whole]

theorem general_ne_empty (letter : Char) (shortest : Bool) (n : Nat) : d.general letter shortest n ≠ "" :=
  ite_ne_empty (d.scientific_ne_empty letter _) (d.fixed_ne_empty _)

end Decimal

namespace Number

theorem isFigure_exponentLetter (upper : Bool) : isFigure (exponentLetter upper) = true := by
  cases upper <;> rfl

theorem figures_signedExponent (e : Int) : Figures (signedExponent e) :=
  (figures_ite (by decide) (by decide)).append (figures_natRepr _)

theorem figures_integerBinaryText (prec : Nat) (mag : Magnitude) : Figures (integerBinaryText prec mag) := by
  have zero : Figures "0" := by decide
  cases mag with
  | finite m e => exact ((figures_natRepr _).append (by decide)).append (figures_signedExponent _)
  | zero | infinite => exact zero

theorem figures_hexBinaryText (places : Nat) (x : Number) : Figures (hexBinaryText places x) := by
  have leading : ∀ (first : Char) (digits : List Char), isFigure first = true → (∀ c ∈ digits, isFigure c = true) →
      Figures (String.ofList ('0' :: 'x' :: first :: if places = 0 then [] else '.' :: digits)) := by
    intro first digits first_ok digits_ok
    rw [figures_ofList, List.forall_mem_cons, List.forall_mem_cons, List.forall_mem_cons]
    refine ⟨rfl, rfl, first_ok, ?_⟩
    split
    · exact List.forall_mem_nil _
    · exact List.forall_mem_cons.mpr ⟨rfl, digits_ok⟩
  unfold hexBinaryText
  dsimp only
  split
  · have digits_ok := fun (digits : List Nat) c (inside : c ∈ (digits.map Nat.digitChar).tail) =>
      isFigure_of_mem_digitChars (List.mem_of_mem_tail inside)
    exact ((leading '1' _ rfl (digits_ok _)).append (by decide)).append (Decimal.figures_exponentText _)
  · refine (leading '0' _ rfl fun c inside => ?_).append (by decide)
    rw [List.eq_of_mem_replicate inside]
    rfl

theorem figures_hexFractionText (mag : Magnitude) : Figures (hexFractionText mag) := by
  have zero : Figures "0" := by decide
  cases mag with
  | finite m e =>
    refine Figures.append (Figures.append (Figures.append (by decide) ?_) (by decide)) (figures_signedExponent _)
    exact figures_ofList.mpr fun _ => isFigure_of_mem_digitChars
  | zero | infinite => exact zero

theorem figures_sizeText (style : Style) (places : Option Nat) (x : Number) : Figures (x.sizeText style places) := by
  cases style with
  | scientific upper => exact Decimal.figures_scientific _ (isFigure_exponentLetter upper) _
  | fixed => exact Decimal.figures_fixed _ _
  | general upper => cases places <;> exact Decimal.figures_general _ (isFigure_exponentLetter upper) _ _
  | integerBinary => exact figures_integerBinaryText _ _
  | hexBinary => exact figures_hexBinaryText _ _
  | hexFraction => exact figures_hexFractionText _

theorem integerBinaryText_ne_empty (prec : Nat) (mag : Magnitude) : integerBinaryText prec mag ≠ "" := by
  unfold integerBinaryText
  split <;> simp

theorem hexBinaryText_ne_empty (places : Nat) (x : Number) : hexBinaryText places x ≠ "" := by
  unfold hexBinaryText
  dsimp only
  split <;> simp

theorem hexFractionText_ne_empty (mag : Magnitude) : hexFractionText mag ≠ "" := by
  unfold hexFractionText
  split <;> simp

theorem sizeText_ne_empty (style : Style) (places : Option Nat) (x : Number) : x.sizeText style places ≠ "" := by
  cases style with
  | scientific upper => exact Decimal.scientific_ne_empty _ _ _
  | fixed => exact Decimal.fixed_ne_empty _ _
  | general upper => cases places <;> exact Decimal.general_ne_empty _ _ _ _
  | integerBinary => exact integerBinaryText_ne_empty _ _
  | hexBinary => exact hexBinaryText_ne_empty _ _
  | hexFraction => exact hexFractionText_ne_empty _

theorem figures_text (style : Style) (places : Option Nat) (x : Number) : Figures (x.text style places) :=
  figures_ite (figures_ite (by decide) (by decide))
    ((figures_ite (by decide) (by decide)).append (figures_sizeText style places x))

end Number

namespace Format

variable (f : Field)

namespace Field

theorem figures_fill {c : Char} (c_ok : isFigure c = true) (length : Nat) : Figures (f.fill length c) := by
  rw [fill, figures_ofList]
  intro filled inside
  rw [List.eq_of_mem_replicate inside]
  exact c_ok

theorem figures_pad {text : String} (text_ok : Figures text) : Figures (f.pad text) := by
  have filled : isFigure (if f.flags.zero then '0' else ' ') = true := by split <;> rfl
  exact figures_ite (text_ok.append (f.figures_fill rfl _)) ((f.figures_fill filled _).append text_ok)

theorem figures_integerSign (negative : Bool) : Figures (f.integerSign negative) :=
  figures_ite (by decide) (figures_ite (by decide) (figures_ite (by decide) (by decide)))

theorem figures_integer {mark : String} (mark_ok : Figures mark) (base : Nat) (negative : Bool) (n : Nat) :
    Figures (f.integer base mark negative n) := by
  refine figures_ite (figures_pad _ (by decide)) (figures_pad _ ?_)
  refine ((f.figures_integerSign negative).append mark_ok).append (figures_ofList.mpr fun c inside => ?_)
  rcases List.mem_append.mp inside with zero | digit
  · rw [List.eq_of_mem_replicate zero]
    rfl
  · exact isFigure_of_mem_toDigits digit

end Field

theorem figures_numberText (style : Style) (x : Number) : Figures (numberText style f x) := by
  have sign : Figures (signText f.flags x) :=
    figures_ite (by decide) (figures_ite (figures_ite (by decide) (by decide))
      (figures_ite (by decide) (figures_ite (by decide) (by decide))))
  have size : Figures (if x.isInfinite then "Inf" else x.sizeText style f.places) :=
    figures_ite (by decide) (x.figures_sizeText style f.places)
  refine figures_ite ((sign.append (f.figures_fill rfl _)).append size) (figures_ite ?_ ?_)
  · exact (sign.append size).append (f.figures_fill rfl _)
  · exact ((f.figures_fill rfl _).append sign).append size

/-- A number is never written as nothing. -/
theorem numberText_ne_empty (style : Style) (x : Number) : numberText style f x ≠ "" := by
  have size : (if x.isInfinite then "Inf" else x.sizeText style f.places) ≠ "" :=
    ite_ne_empty (by decide) (x.sizeText_ne_empty style f.places)
  refine ite_ne_empty ?_ (ite_ne_empty ?_ ?_)
  · simp [size]
  · simp [size]
  · simp [size]

end Format

end Abacus
