import Abacus.Proofs.Columns
import Abacus.Proofs.Parser.Failures
import Abacus.Proofs.Parser.Line
import Abacus.Proofs.Parser.Passing
import Mathlib

/-!
What the errors of a line say is so.

Whatever was read before an error is balanced, so a bracket that is reported has no partner; and a `=` that is reported
follows no name that it could assign to. Each error is in the column of a token.
-/

namespace Abacus.Parser

open Grammar

variable {ctx : Context} {outer : Binding} {left t : Tree} {tokens rest : List Token} {e : InputError}
  {text : List Char}

/-- What an error says of a text and its tokens. -/
inductive Accurate (text : List Char) (tokens : List Token) : InputError → Prop
  | unexpected {t : Token} {expected found : String} (inside : t ∈ tokens) (other : expected ≠ "name before \"=\"") :
      Accurate text tokens (.unexpected t.column expected found)
  /-- No name stands before the `=` that it could assign to. -/
  | target {before after : List Token} {column : Nat} {found : String}
      (split : tokens = before ++ ⟨.assign, column⟩ :: after) (untargeted : ¬EndsInTarget (lexemes before)) :
      Accurate text tokens (.unexpected column "name before \"=\"" found)
  | operator {s : Sign} {column : Nat} (inside : ⟨.sign s, column⟩ ∈ tokens)
      (binary : s = .times ∨ s = .divide ∨ s = .percent) : Accurate text tokens (.operator column s.text true)
  /-- The bracket has no partner among all tokens of the text. -/
  | unclosed {before after : List Token} {column : Nat} (split : tokens = before ++ ⟨.openBracket, column⟩ :: after)
      (alone : ∀ j, ¬Partners (lexemes tokens) before.length j) : Accurate text tokens (.bracket column "(" "")
  | unopened {before after : List Token} {column : Nat} (split : tokens = before ++ ⟨.closeBracket, column⟩ :: after)
      (alone : ∀ i, ¬Partners (lexemes tokens) i before.length) : Accurate text tokens (.bracket column "" ")")
  /-- The closing bracket stands right behind its partner. -/
  | emptyGroup {before after : List Token} {column column' : Nat}
      (split : tokens = before ++ ⟨.openBracket, column⟩ :: ⟨.closeBracket, column'⟩ :: after) :
      Accurate text tokens (.emptyExpression column' ")")
  | nothing {column : Nat} (only : tokens = [⟨.ending, column⟩]) (blank : ∀ c ∈ text, Text.isBlank c = true) :
      Accurate text tokens (.emptyExpression column "")

/-- Every error is in the column of a token. -/
theorem Accurate.column_eq (accurate : Accurate text tokens e) : ∃ t ∈ tokens, e.column = t.column := by
  have among : ∀ {before after : List Token} {t : Token}, tokens = before ++ t :: after → t ∈ tokens := by
    rintro before after t rfl
    exact List.mem_append_right before (List.mem_cons_self ..)
  cases accurate with
  | unexpected inside => exact ⟨_, inside, rfl⟩
  | operator inside => exact ⟨_, inside, rfl⟩
  | target split => exact ⟨_, among split, rfl⟩
  | unclosed split => exact ⟨_, among split, rfl⟩
  | unopened split => exact ⟨_, among split, rfl⟩
  | @emptyGroup before after column column' split =>
    have second : tokens = (before ++ [⟨.openBracket, column⟩]) ++ ⟨.closeBracket, column'⟩ :: after := by
      rw [split, List.append_assoc]
      rfl
    exact ⟨_, among second, rfl⟩
  | @nothing column only =>
    have first : tokens = [] ++ ⟨.ending, column⟩ :: [] := only
    exact ⟨_, among first, rfl⟩

theorem accurate_unclosed {before after : List Token} {column : Nat}
    (split : tokens = before ++ ⟨.openBracket, column⟩ :: after) (balanced : Balanced (lexemes after)) :
    Accurate text tokens (.bracket column "(" "") := by
  refine .unclosed split fun j partners => ?_
  have alone : ¬Partners (lexemes before ++ .openBracket :: lexemes after) (lexemes before).length j :=
    balanced.unclosed
  rw [List.length_map] at alone
  rw [split, lexemes, List.map_append] at partners
  exact alone partners

theorem accurate_unopened {before after : List Token} {column : Nat}
    (split : tokens = before ++ ⟨.closeBracket, column⟩ :: after) (balanced : Balanced (lexemes before)) :
    Accurate text tokens (.bracket column "" ")") := by
  refine .unopened split fun i partners => ?_
  have alone : ¬Partners (lexemes before ++ .closeBracket :: lexemes after) i (lexemes before).length :=
    balanced.unopened
  rw [List.length_map] at alone
  rw [split, lexemes, List.map_append] at partners
  exact alone partners

/-- What an error says is so, whatever stands before the tokens. -/
def Reports (ctx : Context) (tokens : List Token) (e : InputError) : Prop :=
  ∀ text before, Accurate text (before ++ tokens ++ [⟨.ending, ctx.endColumn⟩]) e

theorem Reports.after (used : List Token) (reports : Reports ctx tokens e) : Reports ctx (used ++ tokens) e := by
  intro text before
  have accurate := reports text (before ++ used)
  rwa [List.append_assoc before] at accurate

theorem Reports.cons (first : Token) (reports : Reports ctx tokens e) : Reports ctx (first :: tokens) e :=
  reports.after [first]

theorem Reports.passed (passes : Passes tokens rest) (reports : Reports ctx rest e) : Reports ctx tokens e := by
  obtain ⟨used, rfl, -⟩ := passes
  exact reports.after used

theorem reports_token {t : Token} {expected found : String} (inside : t ∈ tokens)
    (other : expected ≠ "name before \"=\"") : Reports ctx tokens (.unexpected t.column expected found) :=
  fun _ _ => .unexpected (by simp [inside]) other

theorem reports_ending {expected found : String} (other : expected ≠ "name before \"=\"") :
    Reports ctx tokens (.unexpected ctx.endColumn expected found) := by
  intro text before
  have inside : (⟨.ending, ctx.endColumn⟩ : Token) ∈ before ++ tokens ++ [⟨.ending, ctx.endColumn⟩] := by simp
  exact .unexpected inside other

/-- The error for a token that follows a phrase. -/
theorem reports_misplaced {next : Token} {expected : String} (passes : Passes tokens (next :: rest))
    (no_close : next.lexeme ≠ .closeBracket) (other : expected ≠ "name before \"=\"") :
    Reports ctx tokens (misplaced next t expected) := by
  obtain ⟨used, rfl, passed⟩ := passes
  obtain ⟨lexeme, column⟩ := next
  cases lexeme with
  | closeBracket => exact absurd rfl no_close
  | assign =>
    intro text before
    have untargeted : ¬EndsInTarget (lexemes (before ++ used)) := by
      intro ends
      rw [lexemes, List.map_append] at ends
      exact passed.untargeted _ rfl rfl (ends.of_append (by simp [passed.some_used]))
    have split : before ++ (used ++ ⟨.assign, column⟩ :: rest) ++ [⟨.ending, ctx.endColumn⟩] =
        (before ++ used) ++ ⟨.assign, column⟩ :: (rest ++ [⟨.ending, ctx.endColumn⟩]) := by
      simp
    exact .target split untargeted
  | ending | number | name | sign | arrow | openBracket => exact reports_token (by simp) other

/-- The error of a failed reading of these tokens as a term is accurate. -/
def TermReports (ctx : Context) (tokens : List Token) : Prop :=
  ∀ outer e, readTerm ctx outer tokens = .error e → Reports ctx tokens e

theorem readGroup_reports {column : Nat} (inside_reports : TermReports ctx tokens)
    (failed : readGroup ctx ⟨.openBracket, column⟩ tokens = .error e) :
    Reports ctx (⟨.openBracket, column⟩ :: tokens) e := by
  cases groupFails_of_error failed with
  | nothing => exact reports_ending (by decide)
  | empty column' after =>
    intro text before
    have split : before ++ ⟨.openBracket, column⟩ :: ⟨.closeBracket, column'⟩ :: after ++
        [⟨.ending, ctx.endColumn⟩] = before ++ ⟨.openBracket, column⟩ :: ⟨.closeBracket, column'⟩ ::
          (after ++ [⟨.ending, ctx.endColumn⟩]) := by
      simp
    exact .emptyGroup split
  | inside failed => exact (inside_reports _ _ failed).cons _
  | unclosed inside_read =>
    obtain ⟨used, rfl, passed⟩ := termPasses ctx _ _ _ _ inside_read
    intro text before
    have split : before ++ ⟨.openBracket, column⟩ :: (used ++ []) ++ [⟨.ending, ctx.endColumn⟩] =
        before ++ ⟨.openBracket, column⟩ :: (used ++ [⟨.ending, ctx.endColumn⟩]) := by
      simp
    have balanced : Balanced (lexemes (used ++ [⟨.ending, ctx.endColumn⟩])) := by
      rw [lexemes, List.map_append]
      exact passed.balanced.append (.other (by simp) (by simp))
    exact accurate_unclosed split balanced
  | misplaced inside_read open_still =>
    exact (reports_misplaced (termPasses ctx _ _ _ _ inside_read) open_still (by decide)).cons _

theorem readArguments_reports {n : Nat} (below : ∀ tokens, tokens.length < n → TermReports ctx tokens) :
    ∀ {tokens : List Token}, tokens.length ≤ n → readArguments ctx tokens = .error e → Reports ctx tokens e := by
  intro tokens
  induction size : tokens.length using Nat.strongRecOn generalizing tokens with
  | ind size' ih =>
    intro bound failed
    have go_on : readArguments ctx tokens ≠ .ok ([], tokens) := by
      rw [failed]
      simp
    rcases tokens with _ | ⟨⟨lexeme, column⟩, after⟩
    · exact absurd (readArguments_of_not_begins (by simp)) go_on
    · simp only [List.length_cons] at size
      cases lexeme with
      | number text =>
        rw [readArguments_number, Except.map_eq_error_iff] at failed
        exact (ih after.length (by omega) rfl (by omega) failed).cons _
      | name name =>
        rw [readArguments_name, Except.map_eq_error_iff] at failed
        exact (ih after.length (by omega) rfl (by omega) failed).cons _
      | openBracket =>
        rw [readArguments_open, Except.bind_eq_error_iff] at failed
        rcases failed with inside_failed | ⟨⟨arg, left⟩, inside_read, later_failed⟩
        · exact readGroup_reports (below after (by omega)) inside_failed
        · rw [Except.map_eq_error_iff] at later_failed
          obtain ⟨column', inside⟩ := readGroup_passes (termPasses ctx after) inside_read
          have shorter : left.length < after.length := plain_ok inside_read
          exact .passed inside.group (ih left.length (by omega) rfl (by omega) later_failed)
      | ending | sign | assign | arrow | closeBracket =>
        exact absurd (readArguments_of_not_begins (by simp [Lexeme.beginsAtom])) go_on

theorem binary_of_ofSign? {s : Sign} (found : UnaryOp.ofSign? s = none) :
    s = .times ∨ s = .divide ∨ s = .percent := by
  cases s with
  | plus | minus => cases found
  | times | divide | percent => simp

theorem readOperand_reports (below : ∀ ts : List Token, ts.length < tokens.length → TermReports ctx ts)
    (failed : readOperand ctx tokens = .error e) : Reports ctx tokens e := by
  cases operandFails_of_error failed with
  | nothing => exact reports_ending (by decide)
  | other t rest => exact reports_token (List.mem_cons_self ..) (by decide)
  | assigned t rest name => exact reports_token (List.mem_cons_self ..) (by decide)
  | called t next rest name =>
    refine reports_token (by simp) fun same => ?_
    have first := congrArg (fun text => text.toList.head?) same
    simp at first
  | value name column column' value_failed =>
    exact ((below _ (by simp only [List.length_cons]; omega) _ _ value_failed).cons _).cons _
  | arguments function column args_failed => exact (readArguments_reports below (by simp) args_failed).cons _
  | @operator s column after binary =>
    have among : ∀ before : List Token, (⟨.sign s, column⟩ : Token) ∈
        before ++ ⟨.sign s, column⟩ :: after ++ [⟨.ending, ctx.endColumn⟩] := by
      simp
    exact fun text before => .operator (among before) (binary_of_ofSign? binary)
  | signed s column operand_failed => exact (below _ (by simp) _ _ operand_failed).cons _
  | group column inside_failed => exact readGroup_reports (below _ (by simp)) inside_failed

theorem readOperations_reports {n : Nat} (below : ∀ tokens, tokens.length < n → TermReports ctx tokens) :
    ∀ {tokens : List Token} {left : Tree}, tokens.length ≤ n →
      readOperations ctx outer left tokens = .error e → Reports ctx tokens e := by
  intro tokens
  induction size : tokens.length using Nat.strongRecOn generalizing tokens with
  | ind size' ih =>
    intro left bound failed
    rcases noSign_or_sign tokens with stop | ⟨s, column, after, rfl⟩
    · rw [readOperations_of_noSign stop] at failed
      cases failed
    · rw [readOperations_sign] at failed
      by_cases tighter : (BinaryOp.ofSign s).binding.tighterThan outer = true
      · rw [if_pos tighter, Except.bind_eq_error_iff] at failed
        simp only [List.length_cons] at size
        rcases failed with right_failed | ⟨⟨right, after'⟩, right_read, loop_failed⟩
        · exact (below after (by omega) _ _ right_failed).cons _
        · have shorter := readTerm_length right_read
          have later := ih after'.length (by omega) rfl (by omega) loop_failed
          exact (later.passed (termPasses ctx _ _ _ _ right_read)).cons _
      · rw [if_neg tighter] at failed
        cases failed

theorem termReports (ctx : Context) (tokens : List Token) : TermReports ctx tokens := by
  induction size : tokens.length using Nat.strongRecOn generalizing tokens with
  | ind size' ih =>
    intro outer e failed
    have below : ∀ ts : List Token, ts.length < tokens.length → TermReports ctx ts :=
      fun ts shorter => ih ts.length (by omega) ts rfl
    rcases readTerm_eq_error_iff.mp failed with operand_failed | ⟨first, after, operand_read, loop_failed⟩
    · exact readOperand_reports below operand_failed
    · have shorter : after.length < tokens.length := plain_ok operand_read
      have passes := readOperand_passes (fun ts _ => termPasses ctx ts) operand_read
      exact .passed passes (readOperations_reports below shorter.le loop_failed)

/-- An expression after something balanced, as the beginning of a definition is. -/
theorem wholeExpression_accurate {before : List Token} (balanced : Balanced (lexemes before))
    (failed : wholeExpression ctx tokens = .error e) :
    Accurate text (before ++ tokens ++ [⟨.ending, ctx.endColumn⟩]) e := by
  rcases wholeExpression_eq_error failed with term_failed | ⟨t, next, after, term_read, rfl⟩
  · exact termReports ctx tokens _ _ term_failed text before
  · have passes := termPasses ctx _ _ _ _ term_read
    by_cases closes : next.lexeme = .closeBracket
    · obtain ⟨used, rfl, passed⟩ := passes
      obtain ⟨lexeme, column⟩ := next
      cases closes
      have split : before ++ (used ++ ⟨.closeBracket, column⟩ :: after) ++ [⟨.ending, ctx.endColumn⟩] =
          (before ++ used) ++ ⟨.closeBracket, column⟩ :: (after ++ [⟨.ending, ctx.endColumn⟩]) := by
        simp
      have both : Balanced (lexemes (before ++ used)) := by
        rw [lexemes, List.map_append]
        exact balanced.append passed.balanced
      exact accurate_unopened split both
    · exact reports_misplaced passes closes (by decide) text before

theorem distinctNames_eq_error {seen : List String} (failed : distinctNames seen tokens = .error e) :
    ∃ t ∈ tokens, e = .unexpected t.column "distinct parameter names" t.quote := by
  induction tokens generalizing seen with
  | nil => cases failed
  | cons t tokens ih =>
    rw [distinctNames] at failed
    by_cases repeated : t.lexeme.text ∈ seen
    · rw [if_pos repeated] at failed
      cases failed
      exact ⟨t, List.mem_cons_self .., rfl⟩
    · rw [if_neg repeated] at failed
      obtain ⟨t', inside, same⟩ := ih failed
      exact ⟨t', List.mem_cons_of_mem _ inside, same⟩

theorem balanced_of_names (names_only : ∀ t ∈ tokens, isNameToken t = true) : Balanced (lexemes tokens) := by
  induction tokens with
  | nil => exact .nothing
  | cons t tokens ih =>
    obtain ⟨named, others⟩ := List.forall_mem_cons.mp names_only
    obtain ⟨name, same⟩ := isNameToken_iff.mp named
    exact (ih others).cons (by simp [same]) (by simp [same])

theorem lineTree_accurate {endColumn : Nat} (failed : lineTree tokens endColumn = .error e) :
    Accurate text (tokens ++ [⟨.ending, endColumn⟩]) e := by
  rcases definition_or_expression tokens endColumn with
    ⟨function, params, column, body, rfl, named⟩ | expression
  · rw [lineTree_definition column named, Except.bind_eq_error_iff] at failed
    rcases failed with names_failed | ⟨names, -, body_failed⟩
    · obtain ⟨t, inside, rfl⟩ := distinctNames_eq_error names_failed
      exact .unexpected (by simp [inside]) (by decide)
    · rw [Except.map_eq_error_iff] at body_failed
      have balanced : Balanced (lexemes (function :: params ++ [⟨.arrow, column⟩])) := by
        rw [lexemes, List.map_append]
        exact (balanced_of_names named).append (.other (by simp) (by simp))
      have accurate : Accurate text _ e := wholeExpression_accurate balanced body_failed
      simpa using accurate
  · rw [expression] at failed
    have nothing_before : Balanced (lexemes []) := .nothing
    exact wholeExpression_accurate nothing_before failed

/-- A text that is no line gives an error about the text, in one of its columns or behind the last. Either it is about
an invalid token, or all of the text is cut into tokens, and the error is in the column of one of them and says what is
so. -/
theorem parse_error_accurate {text : Text} {failure : Lexer.Failure}
    (failed : parse {} text.toChars = .error failure) :
    ∃ e, failure = .input e ∧ 1 ≤ e.column ∧ e.column ≤ text.length + 1 ∧
      ((∃ shown kind last, e = .token shown kind last ∧ Lexer.tokenize {} text.toChars = .error failure) ∨
        ∃ tokens, Lexer.tokenize {} text.toChars = .ok tokens ∧ (∃ t ∈ tokens, e.column = t.column) ∧
          Accurate text.toChars tokens e) := by
  have length : text.toChars.length = text.length := List.length_map ..
  have located := Lexer.located_tokenize text.toChars
  generalize tokenized : Lexer.tokenize {} text.toChars = outcome at located
  cases located with
  | @invalid shown kind last first_le le_length =>
    rw [parse_of_failure tokenized] at failed
    cases failed
    refine ⟨_, rfl, first_le, ?_, .inl ⟨shown, kind, last, rfl, rfl⟩⟩
    change last ≤ text.length + 1
    omega
  | tokens before inside blank =>
    -- a token has its column inside of the text, or it is the end
    have bounds : ∀ t ∈ before ++ [(⟨.ending, text.toChars.length + 1⟩ : Token)],
        1 ≤ t.column ∧ t.column ≤ text.length + 1 := by
      intro t among
      rcases List.mem_append.mp among with early | last
      · have := inside t early
        omega
      · rw [List.mem_singleton.mp last]
        change 1 ≤ text.toChars.length + 1 ∧ text.toChars.length + 1 ≤ text.length + 1
        omega
    obtain ⟨e, rfl, accurate⟩ : ∃ e, failure = .input e ∧
        Accurate text.toChars (before ++ [⟨.ending, text.toChars.length + 1⟩]) e := by
      by_cases nothing : before = []
      · subst nothing
        rw [parse_nothing tokenized] at failed
        cases failed
        exact ⟨_, rfl, .nothing rfl (blank rfl)⟩
      · rw [parse_of_tokenize tokenized nothing] at failed
        cases tree_read : lineTree before (text.toChars.length + 1) with
        | ok tree =>
          rw [tree_read] at failed
          cases failed
        | error e =>
          rw [tree_read] at failed
          cases failed
          exact ⟨e, rfl, lineTree_accurate tree_read⟩
    obtain ⟨t, among, same⟩ := accurate.column_eq
    have := bounds t among
    exact ⟨e, rfl, by omega, by omega, .inr ⟨_, rfl, ⟨t, among, same⟩, accurate⟩⟩

/-- The second bracket has its partner, the first has none. -/
theorem parse_error_accurate_unclosed :
    parse {} (Text.ofString "2*((x)+1").toChars = .error (.input (.bracket 3 "(" "")) ∧
      ∃ tokens, Lexer.tokenize {} (Text.ofString "2*((x)+1").toChars = .ok tokens ∧
        Accurate (Text.ofString "2*((x)+1").toChars tokens (.bracket 3 "(" "") := by
  have failed : parse {} (Text.ofString "2*((x)+1").toChars = .error (.input (.bracket 3 "(" "")) := by cbv
  obtain ⟨e, same, -, -, ⟨shown, kind, last, invalid, -⟩ | ⟨tokens, tokenized, -, accurate⟩⟩ :=
    parse_error_accurate failed
  · cases same
    cases invalid
  · cases same
    exact ⟨failed, tokens, tokenized, accurate⟩

end Abacus.Parser
