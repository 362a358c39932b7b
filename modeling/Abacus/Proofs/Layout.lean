import Abacus.Proofs.Composition
import Abacus.Proofs.Truncation
import Mathlib

/-!
The layout of a line does not matter.

White space separates tokens and does nothing else: the texts of the tokens with any of it between them are cut into
the same tokens again, in other columns. And two texts with the same lexemes are read as the same line, or refused for
the same reason at the same token.
-/

namespace Abacus

/-- White space ends every lexeme. -/
theorem Lexeme.stops_of_blank {c : Char} (l : Lexeme) (white : Text.isBlank c = true) : l.Stops (some c) := by
  refine stops_of_mark ?_ (Text.isNamePart_eq_false_of_isBlank white) ?_ l
  · rintro rfl
    cases white
  · rintro rfl
    cases white

namespace Lexer

variable {source source' : Source} {mode : Mode} {column : Nat} {text text' : List Char} {tokens tokens' : List Token}
  {items rest rest' : List Item} {ls : List Lexeme}

/-- What is collected after some items is kept by collecting it after the same items. -/
theorem collect_append_mono
    (mono : ∀ tokens, collect (upToLast rest) = .ok tokens → collect (upToLast rest') = .ok tokens)
    (collected : collect (upToLast (items ++ rest)) = .ok tokens) :
    collect (upToLast (items ++ rest')) = .ok tokens := by
  induction items generalizing tokens with
  | nil => exact mono tokens collected
  | cons item items ih =>
    cases item with
    | token t =>
      change (if t.lexeme = .ending then _ else _) = _ at collected ⊢
      split
      · rename_i ending
        rw [if_pos ending] at collected
        exact collected
      · rename_i inner
        rw [if_neg inner] at collected
        obtain ⟨others, others_collected, rfl⟩ := Except.map_eq_ok_iff.mp collected
        exact Except.map_eq_ok_iff.mpr ⟨others, ih others_collected, rfl⟩
    | invalid | readFailed | putBackFailed | exhausted => exact collected

/-- A source that cannot put a character back reads it like any other, or is stuck. -/
theorem step_eq_or_stuck (source : Source) (column : Nat) (c : Char) (mode : Mode) :
    step source column c mode = step {} column c mode ∨
      step source column c mode = ([.putBackFailed], .between) := by
  obtain ⟨broken, putsBack⟩ := source
  cases putsBack with
  | true => exact .inl (step_eq rfl column c mode)
  | false =>
    cases mode with
    | between =>
      rw [step, step, openWith, openWith]
      split
      · exact .inl rfl
      split
      · exact .inr rfl
      split
      · exact .inr rfl
      · exact .inl rfl
    | number start taken =>
      rw [step, step]
      split
      · exact .inl rfl
      split
      · exact .inl rfl
      · exact .inr rfl
    | name start taken | equals start =>
      rw [step, step]
      split
      · exact .inl rfl
      · exact .inr rfl

/-- What any source gives, reading from memory gives as well. -/
theorem collect_scanFrom_plain (collected : collect (upToLast (scanFrom source mode column text)) = .ok tokens) :
    collect (upToLast (scanFrom {} mode column text)) = .ok tokens := by
  induction text generalizing mode column tokens with
  | nil =>
    by_cases broken : source.broken = true
    · rw [scanFrom, finish, if_pos broken] at collected
      cases collected
    · rw [scanFrom, finish, if_neg broken] at collected
      exact collected
  | cons c text ih =>
    rcases step_eq_or_stuck source column c mode with same | stuck
    · rw [scanFrom, same] at collected
      exact collect_append_mono (fun _ => ih) collected
    · rw [scanFrom, stuck] at collected
      cases collected

theorem tokenize_plain (tokenized : tokenize source text = .ok tokens) : tokenize {} text = .ok tokens :=
  collect_scanFrom_plain tokenized

/-- The texts of lexemes, each with what follows it. -/
def spread (parts : List (Lexeme × List Char)) : List Char :=
  parts.flatMap fun part => part.1.text.toList ++ part.2

/-- The text consists of the texts of the lexemes with white space before, between and after them. Between two of them
there is some. -/
def LaidOut (ls : List Lexeme) (text : List Char) : Prop :=
  ∃ lead parts, text = lead ++ spread parts ∧ parts.map Prod.fst = ls ∧
    (∀ c ∈ lead, Text.isBlank c = true) ∧ (∀ part ∈ parts, ∀ c ∈ part.2, Text.isBlank c = true) ∧
    ∀ part ∈ parts.dropLast, part.2 ≠ []

/-- Lexemes with white space between them are spelled by their texts. -/
theorem spells_spread {parts : List (Lexeme × List Char)} (proper : ∀ part ∈ parts, part.1.Proper)
    (white : ∀ part ∈ parts, ∀ c ∈ part.2, Text.isBlank c = true) (apart : ∀ part ∈ parts.dropLast, part.2 ≠ []) :
    Spells (spread parts) (parts.map Prod.fst) := by
  induction parts with
  | nil => exact .nothing
  | cons part parts ih =>
    obtain ⟨l, gap⟩ := part
    obtain ⟨l_proper, others_proper⟩ := List.forall_mem_cons.mp proper
    obtain ⟨gap_white, others_white⟩ := List.forall_mem_cons.mp white
    have others_apart : ∀ part ∈ parts.dropLast, part.2 ≠ [] := by
      intro part inside
      have more : parts ≠ [] := by
        rintro rfl
        cases inside
      rw [List.dropLast_cons_of_ne_nil more] at apart
      exact apart part (.tail _ inside)
    have later : Spells (gap ++ spread parts) (parts.map Prod.fst) :=
      (spells_blanks_iff gap_white).mpr (ih others_proper others_white others_apart)
    have stops : l.Stops (gap ++ spread parts).head? := by
      cases gap with
      | cons c gap => exact l.stops_of_blank (gap_white c (.head _))
      | nil =>
        -- only the last lexeme has no gap, and the end of the text ends it
        have last : parts = [] := by
          by_contra more
          rw [List.dropLast_cons_of_ne_nil more] at apart
          exact apart _ (.head _) rfl
        subst last
        exact nofun
    change Spells ((l.text.toList ++ gap) ++ spread parts) _
    rw [List.append_assoc]
    exact .lexeme l_proper stops later

/-- The lexemes of a text are found again in every layout of them. -/
theorem tokenize_of_laidOut (tokenized : tokenize source text = .ok tokens)
    (laid_out : LaidOut (Parser.lexemes tokens).dropLast text') :
    ∃ tokens', tokenize {} text' = .ok tokens' ∧ Parser.lexemes tokens' = Parser.lexemes tokens := by
  obtain ⟨before, column, rfl⟩ := endsText_tokenize tokenized
  have split : Parser.lexemes (before ++ [⟨.ending, column⟩]) = Parser.lexemes before ++ [.ending] := List.map_append
  rw [split, List.dropLast_concat] at laid_out
  obtain ⟨lead, parts, rfl, same, lead_white, white, apart⟩ := laid_out
  have proper := (tokenize_iff_spells.mp ⟨_, tokenize_plain tokenized, split⟩).proper
  rw [← same] at proper
  have spells : Spells (lead ++ spread parts) (parts.map Prod.fst) :=
    (spells_blanks_iff lead_white).mpr
      (spells_spread (fun part inside => proper _ (List.mem_map_of_mem inside)) white apart)
  rw [split, ← same]
  exact tokenize_iff_spells.mpr spells

end Lexer

namespace Parser

variable {source source' : Lexer.Source} {text text' : List Char} {tokens tokens' : List Token}

/-- The columns of tokens with the same number. -/
def Aligned (tokens tokens' : List Token) (column column' : Nat) : Prop :=
  ∃ i : Nat, (tokens.map Token.column)[i]? = some column ∧ (tokens'.map Token.column)[i]? = some column'

theorem matches_of_lexemes (same : lexemes tokens = lexemes tokens') :
    List.Forall₂ (Matches (Aligned tokens tokens')) tokens tokens' := by
  have lengths : tokens.length = tokens'.length := by
    simpa only [lexemes, List.length_map] using congrArg List.length same
  refine List.forall₂_iff_get.mpr ⟨lengths, fun i inside inside' => ⟨?_, i, ?_⟩⟩
  · have := congrArg (·[i]?) same
    simpa [lexemes, inside, inside'] using this
  · simp [inside, inside']

/-- Tokens that match up to an end of the text match before it and at it. -/
theorem matches_before_ending {columns : Nat → Nat → Prop} {before before' : List Token} {column column' : Nat}
    (matched : List.Forall₂ (Matches columns) (before ++ [⟨.ending, column⟩]) (before' ++ [⟨.ending, column'⟩])) :
    List.Forall₂ (Matches columns) before before' ∧ columns column column' := by
  have lengths : before.length = before'.length := by simpa using matched.length_eq
  have init := List.forall₂_take_append _ _ _ matched
  have last := List.forall₂_drop_append _ _ _ matched
  rw [← lengths, List.take_left] at init
  rw [← lengths, List.drop_left] at last
  exact ⟨init, (List.forall₂_cons.mp last).1.column⟩

/-- Texts with the same lexemes are read as the same line, or refused with the same error, at tokens with the same
number. -/
theorem parse_alike (tokenized : Lexer.tokenize source text = .ok tokens)
    (tokenized' : Lexer.tokenize source' text' = .ok tokens') (same : lexemes tokens = lexemes tokens') :
    (∃ line, parse source text = .ok line ∧ parse source' text' = .ok line) ∨
      ∃ e column column', Aligned tokens tokens' column column' ∧ e.column = (column : Int) ∧
        parse source text = .error (.input e) ∧ parse source' text' = .error (.input (e.inColumn column')) := by
  have matched := matches_of_lexemes same
  generalize Aligned tokens tokens' = columns at matched ⊢
  obtain ⟨before, column, rfl⟩ := Lexer.endsText_tokenize tokenized
  obtain ⟨before', column', rfl⟩ := Lexer.endsText_tokenize tokenized'
  obtain ⟨before_matched, ends⟩ := matches_before_ending matched
  by_cases nothing : before = []
  · subst nothing
    cases before_matched
    exact .inr ⟨_, column, column', ends, rfl, parse_nothing tokenized, parse_nothing tokenized'⟩
  · have something : before' ≠ [] := by
      rintro rfl
      cases before_matched
      exact nothing rfl
    rw [parse_of_tokenize tokenized nothing, parse_of_tokenize tokenized' something, lineTree, lineTree]
    have alike := lineOf_alike ends before_matched
    generalize lineOf before column = read, lineOf before' column' = read' at alike
    cases alike with
    | ok results =>
      obtain ⟨rfl, -⟩ := results
      exact .inl ⟨_, rfl, rfl⟩
    | error corresponds located error_same =>
      subst error_same
      exact .inr ⟨_, _, _, corresponds, located, rfl, rfl⟩

/-- White space separates tokens and does nothing else. Texts of tokens with any of it around them are cut into the same
tokens again, and of two texts that are cut into the same tokens both are the same line, or neither is one and the
errors differ in no more than their columns, which are those of tokens with the same number. -/
theorem layout_irrelevant :
    (∀ source text tokens text', Lexer.tokenize source text = .ok tokens →
      Lexer.LaidOut (lexemes tokens).dropLast text' →
        ∃ tokens', Lexer.tokenize {} text' = .ok tokens' ∧ lexemes tokens' = lexemes tokens) ∧
    ∀ source source' text text' tokens tokens', Lexer.tokenize source text = .ok tokens →
      Lexer.tokenize source' text' = .ok tokens' → lexemes tokens = lexemes tokens' →
        (∃ line, parse source text = .ok line ∧ parse source' text' = .ok line) ∨
          ∃ e column column', Aligned tokens tokens' column column' ∧ e.column = (column : Int) ∧
            parse source text = .error (.input e) ∧ parse source' text' = .error (.input (e.inColumn column')) :=
  ⟨fun _ _ _ _ tokenized laid_out => Lexer.tokenize_of_laidOut tokenized laid_out,
    fun _ _ _ _ _ _ tokenized tokenized' same => parse_alike tokenized tokenized' same⟩

/-- White space around an arrow and a sign. -/
theorem layout_irrelevant_definition :
    (∃ tokens', Lexer.tokenize {} " f a =>\na\t+ 1.5 ".toList = .ok tokens' ∧
      lexemes tokens' = [.name "f", .name "a", .arrow, .name "a", .sign .plus, .number "1.5", .ending]) ∧
      ∃ line, parse {} "f a=>a+1.5".toList = .ok line ∧ parse {} " f a =>\na\t+ 1.5 ".toList = .ok line := by
  have tokenized : Lexer.tokenize {} "f a=>a+1.5".toList =
      .ok [⟨.name "f", 1⟩, ⟨.name "a", 3⟩, ⟨.arrow, 4⟩, ⟨.name "a", 6⟩, ⟨.sign .plus, 7⟩, ⟨.number "1.5", 8⟩,
        ⟨.ending, 11⟩] := rfl
  have read : (parse {} "f a=>a+1.5".toList).isOk = true := by cbv
  have laid_out : Lexer.LaidOut [.name "f", .name "a", .arrow, .name "a", .sign .plus, .number "1.5"]
      " f a =>\na\t+ 1.5 ".toList :=
    ⟨[' '], [(.name "f", [' ']), (.name "a", [' ']), (.arrow, ['\n']), (.name "a", ['\t']), (.sign .plus, [' ']),
      (.number "1.5", [' '])], by cbv, rfl, by simp [Text.isBlank], by simp [Text.isBlank], by simp⟩
  obtain ⟨tokens', tokenized', same⟩ := layout_irrelevant.1 _ _ _ _ tokenized laid_out
  refine ⟨⟨tokens', tokenized', same⟩, ?_⟩
  refine (layout_irrelevant.2 _ _ _ _ _ _ tokenized tokenized' same.symm).resolve_right ?_
  rintro ⟨e, column, column', -, -, failed, -⟩
  rw [failed] at read
  cases read

end Parser

end Abacus
