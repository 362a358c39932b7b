import Abacus.Proofs.Figures
import Mathlib

/-!
Marks in what a format writes.

What is wrong with a directive is wrong for every number, and a number is written as something that neither is a mark
nor makes one together with the text around it. So it is enough to try a format on one number, but for one exception: a
finite number of the greatest precision has no shortest digits, and a directive that asks for them leaves a mark.
-/

namespace Abacus.Format

/-- What every mark begins with. -/
def markStart : Text :=
  [.char '%', .char '!']

variable {t u : Text}

theorem hasMark_cons (s : Symbol) (t : Text) :
    hasMark (s :: t) = (s == .char '%' && t.head? == some (.char '!') || hasMark t) := by
  rw [hasMark.eq_def]
  split
  · rename_i same
    cases same
    rfl
  · rename_i unmarked same
    cases same
    cases t with
    | nil => simp
    | cons next t =>
      by_cases percent : s = .char '%'
      · have plain : next ≠ .char '!' := fun bang => unmarked t percent (congrArg (· :: t) bang)
        simp [plain]
      · simp [percent]
  · rename_i same
    cases same

/-- A mark of two texts together is one of the first, one of the second, or where they meet. -/
theorem hasMark_append (t u : Text) :
    hasMark (t ++ u) =
      (hasMark t || hasMark u || t.getLast? == some (.char '%') && u.head? == some (.char '!')) := by
  induction t with
  | nil => simp [hasMark]
  | cons s t ih =>
    rw [List.cons_append, hasMark_cons, ih, hasMark_cons]
    cases t with
    | nil => simp [hasMark, Bool.or_comm]
    | cons next t => simp [Bool.or_assoc]

theorem hasMark_iff_isInfix : hasMark t = true ↔ markStart <:+: t := by
  constructor
  · intro marked
    fun_induction hasMark t with
    | case1 rest => exact ⟨[], rest, rfl⟩
    | case2 s rest _ ih => exact (ih marked).trans (List.suffix_cons s rest).isInfix
    | case3 => cases marked
  · rintro ⟨before, after, rfl⟩
    rw [hasMark_append, hasMark_append]
    have marked : hasMark markStart = true := rfl
    simp [marked]

/-- A text that can be no part of a mark. -/
structure Solid (t : Text) : Prop where
  nonempty : t ≠ []
  no_percent : .char '%' ∉ t
  no_bang : .char '!' ∉ t

/-- Texts on the two sides of a solid one do not meet. -/
theorem Solid.hasMark_between (solid : Solid t) (before after : Text) :
    hasMark (before ++ (t ++ after)) = (hasMark before || hasMark after) := by
  have unmarked : hasMark t = false := by
    rw [← Bool.not_eq_true, hasMark_iff_isInfix]
    exact fun inside => solid.no_percent (inside.subset (List.mem_cons_self ..))
  have first : (t.head? == some (.char '!')) = false :=
    beq_eq_false_iff_ne.mpr fun bang => solid.no_bang (List.mem_of_head? bang)
  have last : (t.getLast? == some (.char '%')) = false :=
    beq_eq_false_iff_ne.mpr fun percent => solid.no_percent (List.mem_of_getLast? percent)
  have head : (t ++ after).head? = t.head? := List.head?_append_of_ne_nil _ solid.nonempty
  rw [hasMark_append, hasMark_append, head, unmarked, first, last]
  simp

theorem solid_ofString {s : String} (nonempty : s ≠ "") (figures : Figures s) : Solid (.ofString s) := by
  have absent : ∀ c, isFigure c = false → .char c ∉ Text.ofString s := by
    intro c foreign inside
    obtain ⟨d, d_inside, same⟩ := List.mem_map.mp inside
    cases same
    rw [figures c d_inside] at foreign
    cases foreign
  refine ⟨fun nothing => nonempty ?_, absent '%' rfl, absent '!' rfl⟩
  exact String.toList_eq_nil_iff.mp (List.map_eq_nil_iff.mp nothing)

/-- The texts make marks together with the same texts before them. -/
def SameMarks (t u : Text) : Prop :=
  ∀ before, hasMark (before ++ t) = hasMark (before ++ u)

theorem SameMarks.after_same (same : SameMarks t u) (first : Text) : SameMarks (first ++ t) (first ++ u) := by
  intro before
  rw [← List.append_assoc, ← List.append_assoc]
  exact same (before ++ first)

theorem SameMarks.after_solid (same : SameMarks t u) {first first' : Text} (solid : Solid first)
    (solid' : Solid first') : SameMarks (first ++ t) (first' ++ u) := by
  intro before
  rw [solid.hasMark_between, solid'.hasMark_between]
  exact congrArg (hasMark before || ·) (same [])

theorem hasMark_of_isInfix {first : Text} (marked : markStart <:+: first) (before after : Text) :
    hasMark (before ++ (first ++ after)) = true :=
  hasMark_iff_isInfix.mpr ((marked.trans ⟨[], after, rfl⟩).trans (List.suffix_append ..).isInfix)

theorem sameMarks_of_infix {first first' : Text} (marked : markStart <:+: first) (marked' : markStart <:+: first')
    (t u : Text) : SameMarks (first ++ t) (first' ++ u) :=
  fun before => (hasMark_of_isInfix marked before t).trans (hasMark_of_isInfix marked' before u).symm

theorem infix_badVerbText (verb : Char) (operand : String) :
    markStart <:+: Text.ofString (badVerbText verb operand) := by
  refine ⟨[], Text.ofString (String.ofList [verb] ++ "(" ++ numberType ++ "=" ++ operand ++ ")"), ?_⟩
  simp [markStart, Text.ofString, badVerbText]

theorem infix_unused (shown : String) :
    markStart <:+: Text.ofString ("%!(EXTRA " ++ numberType ++ "=" ++ shown ++ ")") := by
  refine ⟨[], Text.ofString ("(EXTRA " ++ numberType ++ "=" ++ shown ++ ")"), ?_⟩
  simp [markStart, Text.ofString]

theorem infix_faultMark (verb : Char) (f : Fault) : markStart <:+: Text.ofString (faultMark verb f) := by
  refine ⟨[], Text.ofString (String.ofList [verb] ++ "(PANIC=Format method: " ++ f.message ++ ")"), ?_⟩
  simp [markStart, Text.ofString, faultMark]

/-- Whether the piece asks for the shortest digits of the number. -/
def Piece.asksShortest : Piece → Bool
  | .convert _ (.general _) field => field.places.isNone
  | _ => false

/-- Whether a directive of the format asks for the shortest digits of the number. -/
def asksShortest (format : Text) : Bool :=
  (pieces format).any Piece.asksShortest

variable {x y : Number} {piece : Piece} {parts : List Piece}

/-- Nothing but missing shortest digits keeps a piece from writing the number. -/
def Piece.Writes (piece : Piece) (x : Number) : Prop :=
  piece.asksShortest = true → x.hasShortText = true

theorem Piece.Writes.hasText {verb : Char} {style : Style} {field : Field}
    (writes : (Piece.convert verb style field).Writes x) : x.hasText style field.places = true := by
  unfold Number.hasText
  split
  · rename_i places
    exact writes (by rw [asksShortest, places]; rfl)
  · rfl

theorem Piece.Writes.solid {verb : Char} {style : Style} {field : Field}
    (writes : (Piece.convert verb style field).Writes x) :
    Solid (.ofString (conversionText verb style field x)) := by
  rw [conversionText, writes.hasText]
  exact solid_ofString (numberText_ne_empty field style x) (figures_numberText field style x)

/-- A piece makes the same marks for all numbers that it writes. -/
theorem sameMarks_render (x_writes : piece.Writes x) (y_writes : piece.Writes y) (r s : Ordering)
    (later : SameMarks t u) : SameMarks (piece.render x r ++ t) (piece.render y s ++ u) := by
  cases piece with
  | verbatim | typeName | address | mark => exact later.after_same _
  | convert => exact later.after_solid x_writes.solid y_writes.solid
  | badError | badVerb => exact sameMarks_of_infix (infix_badVerbText _ _) (infix_badVerbText _ _) t u
  | unused => exact sameMarks_of_infix (infix_unused _) (infix_unused _) t u

theorem sameMarks_flatMap (x_writes : ∀ piece ∈ parts, piece.Writes x) (y_writes : ∀ piece ∈ parts, piece.Writes y)
    (r s : Ordering) : SameMarks (parts.flatMap (Piece.render x r)) (parts.flatMap (Piece.render y s)) := by
  induction parts with
  | nil => exact fun _ => rfl
  | cons piece rest ih =>
    obtain ⟨x_first, x_later⟩ := List.forall_mem_cons.mp x_writes
    obtain ⟨y_first, y_later⟩ := List.forall_mem_cons.mp y_writes
    exact sameMarks_render x_first y_first r s (ih x_later y_later)

/-- A piece that asks for shortest digits leaves a mark in their place. -/
theorem infix_render_of_asksShortest (asks : piece.asksShortest = true) (none_short : x.hasShortText = false)
    (r : Ordering) : markStart <:+: piece.render x r := by
  cases piece with
  | convert verb style field =>
    cases style with
    | general upper =>
      have no_text : x.hasText (.general upper) field.places = false := by
        rw [Option.isNone_iff_eq_none.mp asks]
        exact none_short
      rw [Piece.render, conversionText, no_text]
      exact infix_faultMark verb .noShortText
    | scientific | fixed | integerBinary | hexBinary | hexFraction => cases asks
  | verbatim | typeName | address | mark | badError | badVerb | unused => cases asks

variable {format : Text}

theorem marks_render_of_asksShortest (asks : asksShortest format = true) (none_short : x.hasShortText = false)
    (r : Ordering) : markStart <:+: render format x r := by
  obtain ⟨piece, inside, piece_asks⟩ := List.any_eq_true.mp asks
  obtain ⟨before, after, split⟩ := List.append_of_mem inside
  rw [render, split, List.flatMap_append, List.flatMap_cons, ← hasMark_iff_isInfix]
  exact hasMark_of_isInfix (infix_render_of_asksShortest piece_asks none_short r) _ _

theorem marks_render_congr (x_writes : asksShortest format = true → x.hasShortText = true)
    (y_writes : asksShortest format = true → y.hasShortText = true) (r s : Ordering) :
    markStart <:+: render format x r ↔ markStart <:+: render format y s := by
  have all : ∀ {z : Number}, (asksShortest format = true → z.hasShortText = true) →
      ∀ piece ∈ pieces format, piece.Writes z :=
    fun writes piece inside asks => writes (List.any_eq_true.mpr ⟨piece, inside, asks⟩)
  rw [← hasMark_iff_isInfix, ← hasMark_iff_isInfix]
  exact Bool.eq_iff_iff.mp (sameMarks_flatMap (all x_writes) (all y_writes) r s [])

theorem not_marked_of_isValid (valid : isValid format = true) : ¬markStart <:+: trial format := by
  rw [isValid, Bool.and_eq_true, Bool.not_eq_true'] at valid
  rw [← hasMark_iff_isInfix, valid.1]
  exact Bool.false_ne_true

/-- A format leaves a mark for a number exactly if it does so for the probe, or if a directive asks for shortest digits
that the number does not have, being finite and of the greatest precision. So all numbers with shortest digits are
marked alike, and those that a valid format marks are just those that lack the digits it asks for. -/
theorem marks_of_number (format : Text) :
    (∀ x r, markStart <:+: render format x r ↔
      markStart <:+: trial format ∨ asksShortest format = true ∧ x.hasShortText = false) ∧
    (∀ x y r s, x.hasShortText = true → y.hasShortText = true →
      (markStart <:+: render format x r ↔ markStart <:+: render format y s)) ∧
    (isValid format = true → ∀ x r, markStart <:+: render format x r ↔
      asksShortest format = true ∧ x.hasShortText = false) ∧
    ∀ x : Number, x.hasShortText = false ↔ x.mag.isFinite = true ∧ Number.maxPrec ≤ x.prec := by
  have law : ∀ x r, markStart <:+: render format x r ↔
      markStart <:+: trial format ∨ asksShortest format = true ∧ x.hasShortText = false := by
    intro x r
    by_cases lacking : asksShortest format = true ∧ x.hasShortText = false
    · exact iff_of_true (marks_render_of_asksShortest lacking.1 lacking.2 r) (.inr lacking)
    · have writes : asksShortest format = true → x.hasShortText = true :=
        fun asks => Bool.eq_true_of_not_eq_false fun none_short => lacking ⟨asks, none_short⟩
      rw [or_iff_left lacking]
      exact marks_render_congr writes (fun _ => rfl) r .eq
  refine ⟨law, fun x y r s x_short y_short => ?_, fun valid x r => ?_, fun x => ?_⟩
  · exact marks_render_congr (fun _ => x_short) (fun _ => y_short) r s
  · rw [law, or_iff_right (not_marked_of_isValid valid)]
  · simp [Number.hasShortText, and_comm]

/-- Percent signs on both sides of an infinity. -/
theorem marks_of_number_infinite :
    isValid (.ofString "%%%+8.3[1]e%%") = true ∧
      render (.ofString "%%%+8.3[1]e%%") (.special 64 true .infinite) .eq = .ofString "%    -Inf%" ∧
      ¬markStart <:+: render (.ofString "%%%+8.3[1]e%%") (.special 64 true .infinite) .eq := by
  have parts : pieces (.ofString "%%%+8.3[1]e%%") =
      [.verbatim (.char '%'), .convert 'e' (.scientific false) ⟨⟨true, false, false, false, false⟩, some 8, some 3⟩,
        .verbatim (.char '%')] := by cbv
  have valid : isValid (.ofString "%%%+8.3[1]e%%") = true := by
    rw [isValid, trial, render, parts]
    decide +kernel
  refine ⟨valid, by cbv, ?_⟩
  rw [(marks_of_number _).2.2.1 valid]
  exact fun lacking => Bool.noConfusion lacking.2

/-- A valid format that leaves a mark for a number of the greatest precision, and none for the probe. -/
theorem valid_format_marks_number :
    isValid (.ofString "%g") = true ∧
      render (.ofString "%g") { prec := Number.maxPrec, neg := false, mag := .finite 1 0, words := 1 } .eq =
        .ofString "%!g(PANIC=Format method: underflow)" ∧
      render (.ofString "%g") probe .eq = .ofString "1.5" := by
  have parts : pieces (.ofString "%g") =
      [.convert 'g' (.general false) ⟨⟨false, false, false, false, false⟩, none, none⟩] := by cbv
  rw [isValid, trial, render, render, parts]
  decide +kernel

end Abacus.Format
