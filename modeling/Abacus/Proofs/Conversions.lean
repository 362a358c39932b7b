import Abacus.Proofs.Marks
import Abacus.Proofs.Pieces
import Mathlib

/-!
How often a format writes the number.

A format whose directives do not name the number has one directive that takes it: a second one would lack a number,
without any the number would be left over, and both leave marks. A format that names the number can write it as often
as it likes, and the verbs for its type and for its place write no number at all.
-/

namespace Abacus.Format

/-- The piece leaves a mark for every number. -/
def Piece.Faulty (piece : Piece) : Prop :=
  ∀ x r, markStart <:+: piece.render x r

/-- The piece takes the number: to write it, its type, or its place. -/
inductive Piece.Takes : Piece → Prop
  | convert (verb : Char) (style : Style) (field : Field) : Takes (.convert verb style field)
  | typeName (field : Field) : Takes (.typeName field)
  | address (field : Field) : Takes (.address field)

/-- Whether the piece writes the number. -/
def Piece.converts : Piece → Bool
  | .convert _ _ _ => true
  | _ => false

/-- What is known after the last directive. -/
def finalProgress (p : Progress) (text : List Symbol) : Progress :=
  match text with
  | [] => p
  | s :: rest =>
    if s = .char '%' then finalProgress (readDirective p rest).1 (readDirective p rest).2.2
    else finalProgress p rest
termination_by text.length
decreasing_by
  · have := readDirective_length p rest
    simp only [List.length_cons]
    omega
  · simp

/-- Whether some directive of the format names the number. -/
def namesNumber (format : Text) : Bool :=
  (finalProgress { available := true, named := false, good := true, afterIndex := false } format).named

variable {p : Progress} {text : List Symbol} {piece : Piece} {field : Field}

theorem faulty_mark (after : String) : (Piece.mark ("%!" ++ after)).Faulty := by
  intro x r
  refine ⟨[], Text.ofString after, ?_⟩
  simp [markStart, Text.ofString, Piece.render]

theorem faulty_verbMark (verb : Char) (what : String) : (verbMark verb what).Faulty := by
  have begins : verbMark verb what = .mark ("%!" ++ (String.ofList [verb] ++ "(" ++ what ++ ")")) := by
    rw [verbMark, Piece.mark.injEq, ← String.toList_inj]
    simp
  rw [begins]
  exact faulty_mark _

/-- A verb takes the number, or it is a fault. -/
theorem takes_or_faulty (verb : Char) (field : Field) : (pieceOf verb field).Takes ∨ (pieceOf verb field).Faulty := by
  unfold pieceOf
  split
  · exact .inl (.convert _ _ _)
  · exact .inl (.typeName _)
  · exact .inl (.address _)
  · exact .inr fun x r => infix_badVerbText _ _
  · exact .inr fun x r => infix_badVerbText _ _

/-- Without a bracket nothing is named, and nothing is read. -/
theorem readIndex_cases (p : Progress) (text : List Symbol) :
    (readIndex p text).1.named = true ∨ readIndex p text = ({ p with afterIndex := false }, text) := by
  unfold readIndex
  split
  · dsimp only
    split
    · exact .inl rfl
    · split <;> exact .inl rfl
  · exact .inr rfl

theorem readIndex_of_unnamed (unnamed : (readIndex p text).1.named = false) :
    (readIndex p text).1.available = p.available ∧ p.named = false := by
  rcases readIndex_cases p text with named | same
  · rw [unnamed] at named
    cases named
  · rw [same] at unnamed ⊢
    exact ⟨rfl, unnamed⟩

theorem readWidth_of_sound (sound : ∀ piece ∈ (readWidth p text).2.1, ¬piece.Faulty) :
    (readWidth p text).2.1 = [] ∧ (readWidth p text).1.available = p.available := by
  rcases readWidth_cases p text with fault | same
  · rw [fault] at sound
    exact absurd (faulty_mark "(BADWIDTH)") (sound _ (List.mem_singleton_self _))
  · exact same

theorem readPlaces_of_unnamed (sound : ∀ piece ∈ (readPlaces p text).2.1, ¬piece.Faulty)
    (unnamed : (readPlaces p text).1.named = false) :
    (readPlaces p text).2.1 = [] ∧ (readPlaces p text).1.available = p.available ∧ p.named = false := by
  rcases readPlaces_cases p text with fault | ⟨none, same | ⟨p', rest, available, named, index⟩⟩
  · rw [fault] at sound
    exact absurd (faulty_mark "(BADPREC)") (sound _ (List.mem_singleton_self _))
  · rw [same] at unnamed ⊢
    exact ⟨none, rfl, unnamed⟩
  · rw [index] at unnamed ⊢
    obtain ⟨available', unnamed'⟩ := readIndex_of_unnamed unnamed
    exact ⟨none, available'.trans available, named.symm.trans unnamed'⟩

theorem readVerb_named (p : Progress) (field : Field) (text : List Symbol) :
    (readVerb p field text).1.named = p.named := by
  unfold readVerb
  split
  · rfl
  · dsimp only
    split_ifs <;> rfl

/-- A verb without a fault takes the number, or is a percent sign. -/
theorem readVerb_of_sound (sound : ∀ piece ∈ (readVerb p field text).2.1, ¬piece.Faulty) :
    (readVerb p field text).2.1 = [.verbatim (.char '%')] ∧ (readVerb p field text).1.available = p.available ∨
      ∃ piece, (readVerb p field text).2.1 = [piece] ∧ piece.Takes ∧ p.available = true ∧
        (readVerb p field text).1.available = false := by
  cases text with
  | nil => exact absurd (faulty_mark "(NOVERB)") (sound _ (List.mem_singleton_self _))
  | cons s rest =>
    unfold readVerb at sound ⊢
    dsimp only at sound ⊢
    split
    · exact .inl ⟨rfl, rfl⟩
    rename_i percent
    rw [if_neg percent] at sound
    split
    · rename_i bad
      rw [if_pos bad] at sound
      exact absurd (faulty_verbMark _ _) (sound _ (List.mem_singleton_self _))
    rename_i good
    rw [if_neg good] at sound
    split
    · rename_i missing
      rw [if_pos missing] at sound
      exact absurd (faulty_verbMark _ _) (sound _ (List.mem_singleton_self _))
    · rename_i available
      rw [if_neg available] at sound
      have takes := (takes_or_faulty s.toChar field).resolve_right (sound _ (List.mem_singleton_self _))
      exact .inr ⟨_, rfl, takes, by simpa using available, rfl⟩

/-- What a directive can do if it has no fault and does not name the number. -/
theorem readDirective_of_unnamed (sound : ∀ piece ∈ (readDirective p text).2.1, ¬piece.Faulty)
    (unnamed : (readDirective p text).1.named = false) :
    p.named = false ∧
      ((readDirective p text).2.1 = [.verbatim (.char '%')] ∧ (readDirective p text).1.available = p.available ∨
        ∃ piece, (readDirective p text).2.1 = [piece] ∧ piece.Takes ∧ p.available = true ∧
          (readDirective p text).1.available = false) := by
  obtain ⟨index, width, places, last, field, index_read, rfl, rfl, last_read, directive⟩ := readDirective_steps p text
  rw [directive] at sound unnamed ⊢
  dsimp only at sound unnamed ⊢
  rw [List.forall_mem_append, List.forall_mem_append] at sound
  obtain ⟨⟨width_sound, places_sound⟩, verb_sound⟩ := sound
  -- from the verb back to the begin nothing was named, and so the number was not touched
  rw [readVerb_named] at unnamed
  obtain ⟨last_same, places_unnamed⟩ :
      last.1.available = (readPlaces (readWidth index.1 index.2).1 (readWidth index.1 index.2).2.2.2).1.available ∧
        (readPlaces (readWidth index.1 index.2).1 (readWidth index.1 index.2).2.2.2).1.named = false := by
    rcases last_read with rfl | rfl
    · exact ⟨rfl, unnamed⟩
    · exact readIndex_of_unnamed unnamed
  obtain ⟨no_places, places_same, width_unnamed⟩ := readPlaces_of_unnamed places_sound places_unnamed
  obtain ⟨no_width, width_same⟩ := readWidth_of_sound width_sound
  rw [readWidth_named, index_read] at width_unnamed
  obtain ⟨index_same, start_unnamed⟩ := readIndex_of_unnamed width_unnamed
  have same : last.1.available = p.available := by
    rw [last_same, places_same, width_same, index_read, index_same]
  rw [no_width, no_places, ← same]
  exact ⟨start_unnamed, readVerb_of_sound verb_sound⟩

/-- The pieces are symbols of the format. -/
def Literal (parts : List Piece) : Prop :=
  ∃ symbols : Text, parts = symbols.map .verbatim

/-- The pieces are symbols of the format, and one that takes the number. -/
def TakesOnce (parts : List Piece) : Prop :=
  ∃ (before : Text) (piece : Piece) (after : Text),
    parts = before.map .verbatim ++ piece :: after.map .verbatim ∧ piece.Takes

variable {parts : List Piece}

theorem Literal.cons (literal : Literal parts) (s : Symbol) : Literal (.verbatim s :: parts) := by
  obtain ⟨symbols, rfl⟩ := literal
  exact ⟨s :: symbols, rfl⟩

theorem TakesOnce.cons (once : TakesOnce parts) (s : Symbol) : TakesOnce (.verbatim s :: parts) := by
  obtain ⟨before, piece, after, rfl, takes⟩ := once
  exact ⟨s :: before, piece, after, rfl, takes⟩

theorem Literal.takesOnce (literal : Literal parts) (takes : piece.Takes) : TakesOnce (piece :: parts) := by
  obtain ⟨symbols, rfl⟩ := literal
  exact ⟨[], piece, symbols, rfl, takes⟩

/-- Without names and faults the number is taken once, if it was not taken before. -/
theorem piecesFrom_of_unnamed (sound : ∀ piece ∈ piecesFrom p text, ¬piece.Faulty)
    (unnamed : (finalProgress p text).named = false) :
    p.named = false ∧ (p.available = true → TakesOnce (piecesFrom p text)) ∧
      (p.available = false → Literal (piecesFrom p text)) := by
  fun_induction piecesFrom p text with
  | case1 p unused => exact absurd (fun x r => infix_unused _) (sound .unused (List.mem_singleton_self _))
  | case2 p used =>
    rw [finalProgress] at unnamed
    refine ⟨unnamed, fun available => ?_, fun _ => ⟨[], rfl⟩⟩
    rw [available, unnamed] at used
    exact absurd rfl used
  | case3 p rest directive ih =>
    rw [finalProgress, if_pos rfl] at unnamed
    obtain ⟨first_sound, later_sound⟩ := List.forall_mem_append.mp sound
    obtain ⟨later_unnamed, later_takes, later_literal⟩ := ih later_sound unnamed
    obtain ⟨start_unnamed, ⟨percent, same⟩ | ⟨piece, alone, takes, available, taken⟩⟩ :=
      readDirective_of_unnamed first_sound later_unnamed
    · rw [show directive.2.1 = _ from percent, ← same]
      exact ⟨start_unnamed, fun available => (later_takes available).cons _,
        fun taken => (later_literal taken).cons _⟩
    · rw [show directive.2.1 = _ from alone, available]
      exact ⟨start_unnamed, fun _ => (later_literal taken).takesOnce takes, Bool.noConfusion⟩
  | case4 p s rest other ih =>
    rw [finalProgress, if_neg other] at unnamed
    obtain ⟨start_unnamed, later_takes, later_literal⟩ := ih (List.forall_mem_cons.mp sound).2 unnamed
    exact ⟨start_unnamed, fun available => (later_takes available).cons s, fun taken => (later_literal taken).cons s⟩

theorem flatMap_render_verbatim (symbols : Text) (x : Number) (r : Ordering) :
    (symbols.map Piece.verbatim).flatMap (Piece.render x r) = symbols := by
  induction symbols with
  | nil => rfl
  | cons s symbols ih => exact congrArg (s :: ·) ih

/-- A valid format has no faults. -/
theorem not_faulty_of_isValid {format : Text} (valid : isValid format = true) :
    ∀ piece ∈ pieces format, ¬piece.Faulty := by
  intro piece inside faulty
  obtain ⟨before, after, split⟩ := List.append_of_mem inside
  have marked : hasMark (trial format) = true := by
    rw [trial, render, split, List.flatMap_append, List.flatMap_cons]
    exact hasMark_of_isInfix (faulty probe .eq) _ _
  rw [isValid, marked] at valid
  cases valid

/-- What is read from a format is text of it, takes the number, or is a fault. -/
theorem Reading.verbatim_or_takes (reading : Reading text piece) (sound : ¬piece.Faulty) :
    (∃ s, piece = .verbatim s) ∨ piece.Takes := by
  cases reading with
  | literal => exact .inl ⟨_, rfl⟩
  | percent => exact .inl ⟨_, rfl⟩
  | @verb s _ field => exact .inr ((takes_or_faulty s.toChar field).resolve_right sound)
  | badIndex | missing => exact absurd (faulty_verbMark _ _) sound
  | badWidth => exact absurd (faulty_mark "(BADWIDTH)") sound
  | badPlaces => exact absurd (faulty_mark "(BADPREC)") sound
  | noVerb => exact absurd (faulty_mark "(NOVERB)") sound
  | unused => exact absurd (fun x r => infix_unused _) sound

/-- A valid format is made of text and of directives that take the number. If none of them names the number, there is
exactly one. It writes the number, if that can be written, unless its verb asks for the type or the place of the
number. -/
theorem valid_format_takes_once {format : Text} (valid : isValid format = true) :
    (∀ piece ∈ pieces format, (∃ s, piece = .verbatim s) ∨ piece.Takes) ∧
    (namesNumber format = false →
      ∃ (before : Text) (piece : Piece) (after : Text),
        pieces format = before.map .verbatim ++ piece :: after.map .verbatim ∧ piece.Takes ∧
        ∀ x r, render format x r = before ++ piece.render x r ++ after) := by
  have sound := not_faulty_of_isValid valid
  refine ⟨fun piece inside => (reading_piecesFrom _ _ piece inside).verbatim_or_takes (sound piece inside), ?_⟩
  intro unnamed
  obtain ⟨before, piece, after, split, takes⟩ := (piecesFrom_of_unnamed sound unnamed).2.1 rfl
  refine ⟨before, piece, after, split, takes, fun x r => ?_⟩
  rw [render, show pieces format = _ from split, List.flatMap_append, List.flatMap_cons, flatMap_render_verbatim,
    flatMap_render_verbatim, List.append_assoc]

/-- A percent sign after the number. -/
theorem valid_format_takes_once_percent :
    isValid (.ofString "%.2f%%") = true ∧ namesNumber (.ofString "%.2f%%") = false ∧
      (∀ piece ∈ pieces (.ofString "%.2f%%"), (∃ s, piece = .verbatim s) ∨ piece.Takes) ∧
      ∃ (before : Text) (piece : Piece) (after : Text),
        pieces (.ofString "%.2f%%") = before.map .verbatim ++ piece :: after.map .verbatim ∧ piece.Takes ∧
        ∀ x r, render (.ofString "%.2f%%") x r = before ++ piece.render x r ++ after := by
  have parts : pieces (.ofString "%.2f%%") =
      [.convert 'f' .fixed ⟨⟨false, false, false, false, false⟩, none, some 2⟩, .verbatim (.char '%')] := by cbv
  have valid : isValid (.ofString "%.2f%%") = true := by
    rw [isValid, trial, render, parts]
    decide +kernel
  have unnamed : namesNumber (.ofString "%.2f%%") = false := by cbv
  obtain ⟨sound, once⟩ := valid_format_takes_once valid
  exact ⟨valid, unnamed, sound, once unnamed⟩

/-- Valid formats that write the number twice and not at all. -/
theorem valid_formats_not_once :
    isValid (.ofString "%[1]g %[1]g") = true ∧ (pieces (.ofString "%[1]g %[1]g")).countP Piece.converts = 2 ∧
      isValid (.ofString "%p") = true ∧ (pieces (.ofString "%p")).countP Piece.converts = 0 := by
  have twice : pieces (.ofString "%[1]g %[1]g") =
      [.convert 'g' (.general false) ⟨⟨false, false, false, false, false⟩, none, none⟩, .verbatim (.char ' '),
        .convert 'g' (.general false) ⟨⟨false, false, false, false, false⟩, none, none⟩] := by cbv
  have never : pieces (.ofString "%p") = [.address ⟨⟨false, false, false, false, false⟩, none, none⟩] := by cbv
  rw [isValid, trial, render, twice, isValid, trial, render, never]
  decide +kernel

end Abacus.Format
