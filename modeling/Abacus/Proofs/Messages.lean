import Abacus.Proofs.Diagnostics
import Abacus.Proofs.OneLine
import Abacus.Proofs.Reprinting
import Mathlib

/-!
Messages and printed trees stay on one line, whatever line they are about.

Some texts of a line are shown as they are: names, numerals and invalid tokens. White space ends all of these, so no
newline is in them. All other texts are quoted.
-/

namespace Abacus

theorem oneLine_of_isName {name : String} (named : Text.isName (Text.ofString name) = true) : OneLine name := by
  have no_part : Text.isNamePart '\n' = false := Text.isNamePart_eq_false_of_isBlank rfl
  intro inside
  cases no_part.symm.trans (Text.isNamePart_of_isName named _ inside)

theorem oneLine_of_isNumeral {text : String} (numeral : Number.isNumeral text.toList = true) : OneLine text := by
  intro inside
  rcases (Number.digitsAndPoint_iff.mp (Number.isNumeral_iff.mp numeral).1).1 _ inside with digit | point
  · cases digit
  · cases point

namespace Tree

variable {params : List String} {t : Tree}

theorem oneLine_openMark (square : Bool) : OneLine (openMark square) := by
  cases square <;> decide

theorem oneLine_closeMark (square : Bool) : OneLine (closeMark square) := by
  cases square <;> decide

theorem oneLine_paramText {name : String} (name_ok : OneLine name) (index : Int) : OneLine (paramText index name) :=
  .append (.append (by decide) (oneLine_intRepr index)) (oneLine_ite (by decide) (.append (by decide) name_ok))

theorem oneLine_spaced {words : List String} (words_ok : ∀ word ∈ words, OneLine word) : OneLine (spaced words) := by
  have onward : ∀ text, OneLine text → OneLine (words.foldl (fun text word => text ++ " " ++ word) text) := by
    induction words with
    | nil => exact fun text ok => ok
    | cons word words ih =>
      obtain ⟨word_ok, others_ok⟩ := List.forall_mem_cons.mp words_ok
      intro text ok
      exact ih others_ok _ ((ok.append (by decide)).append word_ok)
  exact onward "" (by decide)

/-- Printing goes on in the line, whatever was written before. -/
def PrintsOn (t : Tree) : Prop :=
  ∀ square written, OneLine written → ∃ printed, t.write square written = .ok printed ∧ OneLine printed

theorem closed_ok {square : Bool} {inside : Except Fault String}
    (ok : ∃ printed, inside = .ok printed ∧ OneLine printed) :
    ∃ printed, closed square inside = .ok printed ∧ OneLine printed := by
  obtain ⟨printed, rfl, printed_ok⟩ := ok
  exact ⟨_, rfl, printed_ok.append (oneLine_closeMark square)⟩

theorem writeArgs_ok {args : List Tree} (args_ok : ∀ a ∈ args, a.PrintsOn) (square : Bool) {written : String}
    (written_ok : OneLine written) : ∃ printed, writeArgs square args written = .ok printed ∧ OneLine printed := by
  induction args generalizing written with
  | nil => exact ⟨written, rfl, written_ok⟩
  | cons a args ih =>
    obtain ⟨a_ok, others_ok⟩ := List.forall_mem_cons.mp args_ok
    obtain ⟨printed, writes, printed_ok⟩ := a_ok square (written ++ " ") (written_ok.append (by decide))
    rw [writeArgs, writes]
    exact ih others_ok printed_ok

theorem Readable.printsOn (readable : t.Readable params) : t.PrintsOn := by
  induction readable with
  | number numeral =>
    intro square written ok
    refine ⟨_, rfl, .append (.append (ok.append (oneLine_openMark square)) ?_) (oneLine_closeMark square)⟩
    exact oneLine_of_isNumeral numeral
  | leaf named leaf =>
    intro square written ok
    have name_ok := oneLine_of_isName named
    have opened := ok.append (oneLine_openMark square)
    cases leaf with
    | param index =>
      exact ⟨_, rfl, .append (opened.append (oneLine_paramText name_ok index)) (oneLine_closeMark square)⟩
    | ident => exact ⟨_, rfl, .append (opened.append name_ok) (oneLine_closeMark square)⟩
  | assign named _ _ ih =>
    intro square written ok
    have head := ((ok.append (oneLine_openMark square)).append (oneLine_of_isName named)).append
      (show OneLine " = " by decide)
    rw [write]
    exact closed_ok (ih _ _ head)
  | call named _ _ _ ih =>
    intro square written ok
    have head := (ok.append (oneLine_openMark square)).append (oneLine_of_isName named)
    rw [write]
    exact closed_ok (writeArgs_ok ih _ head)
  | unary op _ ih =>
    intro square written ok
    have sign : OneLine op.text := by cases op <;> decide
    rw [write]
    exact closed_ok (ih _ _ ((ok.append (oneLine_openMark square)).append sign))
  | binary op _ _ left_ih right_ih =>
    intro square written ok
    have sign : OneLine op.text := by cases op <;> decide
    obtain ⟨left, left_writes, left_ok⟩ := left_ih (!square) _ (ok.append (oneLine_openMark square))
    rw [write, left_writes]
    refine closed_ok (right_ih _ _ (.append (.append (left_ok.append ?_) sign) ?_)) <;> decide

/-- The trees of lines that can be read. -/
inductive ReadableLine : Tree → Prop
  | expression {t : Tree} (readable : t.Readable []) : ReadableLine t
  | definition {function : String} {params : List String} {body : Tree}
      (named : ∀ name ∈ function :: params, Text.isName (Text.ofString name) = true) (readable : body.Readable params) :
      ReadableLine (.define function params body)

theorem ReadableLine.printsOn (line : t.ReadableLine) : t.PrintsOn := by
  cases line with
  | expression readable => exact readable.printsOn
  | definition named readable =>
    intro square written ok
    have names_ok := fun name inside => oneLine_of_isName (named name inside)
    obtain ⟨function_ok, params_ok⟩ := List.forall_mem_cons.mp names_ok
    have head := ((ok.append (oneLine_openMark square)).append function_ok).append (oneLine_spaced params_ok)
    rw [write]
    exact closed_ok (readable.printsOn _ _ (head.append (by decide)))

theorem PrintsOn.oneLine_text (prints : t.PrintsOn) : OneLine t.text := by
  obtain ⟨printed, writes, printed_ok⟩ := prints false "" (by decide)
  rw [text, print, writes]
  exact printed_ok

end Tree

namespace Lexer

variable {source : Source} {column : Nat} {c : Char} {mode : Mode} {text : List Char} {item : Item} {e : InputError}

/-- The item is valid, or the message about it stays on one line. -/
def Item.Plain (item : Item) : Prop :=
  ∀ e start, item = .invalid e start → OneLine e.message

/-- What is being read as a number has no newline. -/
def Mode.Plain : Mode → Prop
  | .number _ taken => '\n' ∉ taken
  | _ => True

theorem plain_tokenAt (column : Nat) (l : Lexeme) : (tokenAt column l).Plain :=
  nofun

theorem plain_invalidAt {kind : String} (kind_ok : OneLine kind) (text_ok : '\n' ∉ text) (start reached : Nat) :
    (invalidAt start reached kind text).Plain := by
  rintro _ _ ⟨⟩
  have before : OneLine ("invalid " ++ (if kind = "" then "" else kind ++ " ") ++ "token at column ") :=
    .append (.append (by decide) (oneLine_ite (by decide) (kind_ok.append (by decide)))) (by decide)
  exact ((before.append (oneLine_intRepr _)).append (by decide)).append (oneLine_ofList.mpr text_ok)

theorem plain_numberAt {taken : List Char} (taken_ok : '\n' ∉ taken) (start reached : Nat) :
    (numberAt start reached taken).Plain := by
  unfold numberAt
  split
  · exact plain_tokenAt _ _
  · exact plain_invalidAt (by decide) (by rwa [List.mem_reverse]) start reached

/-- Invalid characters are no white space. -/
theorem plain_openWith (source : Source) (column : Nat) (c : Char) :
    (∀ item ∈ (openWith source column c).1, item.Plain) ∧ (openWith source column c).2.Plain := by
  have nothing : ∀ item ∈ ([] : List Item), item.Plain := List.forall_mem_nil _
  have single : ∀ {item : Item}, item.Plain → ∀ other ∈ [item], other.Plain := List.forall_mem_singleton.mpr
  unfold openWith
  split
  · exact ⟨nothing, trivial⟩
  rename_i visible
  have visible_char : '\n' ≠ c := by
    rintro rfl
    exact visible rfl
  split
  · split
    · exact ⟨nothing, by simpa [Mode.Plain] using visible_char⟩
    · exact ⟨single nofun, trivial⟩
  split
  · split
    · exact ⟨nothing, trivial⟩
    · exact ⟨single nofun, trivial⟩
  split
  · exact ⟨nothing, trivial⟩
  split
  · exact ⟨single (plain_tokenAt _ _), trivial⟩
  split
  · exact ⟨single (plain_tokenAt _ _), trivial⟩
  split
  · exact ⟨single (plain_tokenAt _ _), trivial⟩
  · exact ⟨single (plain_invalidAt (by decide) (by simpa using visible_char) column _), trivial⟩

theorem plain_closeBefore (item_ok : item.Plain) (source : Source) (column : Nat) (c : Char) :
    (∀ other ∈ (closeBefore source column c item).1, other.Plain) ∧ (closeBefore source column c item).2.Plain := by
  obtain ⟨items_ok, mode_ok⟩ := plain_openWith source column c
  unfold closeBefore
  split
  · exact ⟨List.forall_mem_cons.mpr ⟨item_ok, items_ok⟩, mode_ok⟩
  · exact ⟨List.forall_mem_singleton.mpr nofun, trivial⟩

/-- A character that ends a number is a newline or part of the message, and never both. -/
theorem plain_step (mode_ok : mode.Plain) (source : Source) (column : Nat) (c : Char) :
    (∀ item ∈ (step source column c mode).1, item.Plain) ∧ (step source column c mode).2.Plain := by
  cases mode with
  | between => exact plain_openWith source column c
  | number start taken =>
    rw [step]
    have part : c = '.' ∨ c.isDigit = true ∨ Text.isNamePart c = true → '\n' ∉ c :: taken := by
      intro fits
      refine List.not_mem_cons_of_ne_of_not_mem ?_ mode_ok
      rintro rfl
      simp [Text.isNamePart_eq_false_of_isBlank (show Text.isBlank '\n' = true from rfl)] at fits
    split
    · rename_i fits
      exact ⟨List.forall_mem_nil _, part (by grind)⟩
    split
    · rename_i fits
      refine ⟨List.forall_mem_singleton.mpr (plain_invalidAt (by decide) ?_ start _), trivial⟩
      rw [List.mem_reverse]
      exact part (by grind)
    · exact plain_closeBefore (plain_numberAt mode_ok start column) source column c
  | name start taken =>
    rw [step]
    split
    · exact ⟨List.forall_mem_nil _, trivial⟩
    · exact plain_closeBefore (plain_tokenAt _ _) source column c
  | equals start =>
    rw [step]
    split
    · exact ⟨List.forall_mem_singleton.mpr (plain_tokenAt _ _), trivial⟩
    · exact plain_closeBefore (plain_tokenAt _ _) source column c

theorem plain_finish (mode_ok : mode.Plain) (source : Source) (column : Nat) :
    ∀ item ∈ finish source column mode, item.Plain := by
  have pending_ok : ∀ item ∈ pending column mode, item.Plain := by
    cases mode with
    | between => exact List.forall_mem_nil _
    | number start taken => exact List.forall_mem_singleton.mpr (plain_numberAt mode_ok start column)
    | name | equals => exact List.forall_mem_singleton.mpr (plain_tokenAt _ _)
  have ending_ok : ∀ item ∈ [tokenAt column .ending, .exhausted], item.Plain :=
    List.forall_mem_cons.mpr ⟨plain_tokenAt _ _, List.forall_mem_singleton.mpr nofun⟩
  unfold finish
  split
  · exact List.forall_mem_singleton.mpr nofun
  · exact List.forall_mem_append.mpr ⟨pending_ok, ending_ok⟩

theorem plain_scanFrom (mode_ok : mode.Plain) (source : Source) (column : Nat) (text : List Char) :
    ∀ item ∈ scanFrom source mode column text, item.Plain := by
  induction text generalizing mode column with
  | nil => exact plain_finish mode_ok source column
  | cons c text ih =>
    obtain ⟨items_ok, next_ok⟩ := plain_step mode_ok source column c
    exact List.forall_mem_append.mpr ⟨items_ok, ih next_ok (column + 1)⟩

theorem invalid_of_collect {items : List Item} (failed : collect (upToLast items) = .error (.input e)) :
    ∃ start, .invalid e start ∈ items := by
  induction items with
  | nil => cases failed
  | cons item items ih =>
    cases item with
    | token t =>
      change (if t.lexeme = .ending then _ else _) = _ at failed
      split at failed
      · cases failed
      · obtain ⟨start, inside⟩ := ih (Except.map_eq_error_iff.mp failed)
        exact ⟨start, List.mem_cons_of_mem _ inside⟩
    | invalid e' start =>
      cases failed
      exact ⟨start, List.mem_cons_self ..⟩
    | readFailed | putBackFailed | exhausted => cases failed

/-- The message about an invalid token stays on one line. -/
theorem oneLine_of_tokenize (failed : tokenize source text = .error (.input e)) : OneLine e.message := by
  obtain ⟨start, inside⟩ := invalid_of_collect failed
  exact plain_scanFrom (show Mode.Plain .between from trivial) source 1 text _ inside e start rfl

end Lexer

namespace InputError

theorem oneLine_unexpected {expected found : String} (expected_ok : OneLine expected) (found_ok : OneLine found)
    (column : Int) : OneLine (unexpected column expected found).message :=
  .append (.append (.append (.append (oneLine_intRepr column) (by decide)) expected_ok) (by decide)) found_ok

theorem oneLine_operator (column : Int) (sign : String) (unary : Bool) : OneLine (operator column sign unary).message :=
  .append (.append (.append (.append (oneLine_intRepr column) (by decide)) (oneLine_ite (by decide) (by decide)))
    (by decide)) (Text.oneLine_quoteString sign)

theorem oneLine_bracket {left right : String} (left_ok : OneLine left) (right_ok : OneLine right) (column : Int) :
    OneLine (bracket column left right).message := by
  refine (oneLine_intRepr column).append (oneLine_ite ?_ ?_)
  · exact .append (.append (by decide) right_ok) (by decide)
  · exact .append (.append (by decide) left_ok) (by decide)

theorem oneLine_emptyExpression (column : Int) (close : String) : OneLine (emptyExpression column close).message :=
  .append (.append (oneLine_intRepr column) (by decide))
    (oneLine_ite (by decide) (.append (by decide) (Text.oneLine_quoteString close)))

end InputError

namespace Parser

open Grammar InputError

variable {ctx : Context} {outer : Binding} {t : Tree} {tokens rest : List Token} {e : InputError} {text : Text}

theorem oneLine_quote (t : Token) : OneLine t.quote := by
  unfold Token.quote
  split
  · decide
  · exact Text.oneLine_quoteString _

/-- The error for a misplaced token shows the tree before it as it is. -/
theorem oneLine_misplaced {expected : String} (expected_ok : OneLine expected) (before_ok : OneLine t.text)
    (next : Token) : OneLine (misplaced next t expected).message := by
  unfold misplaced
  split
  · exact oneLine_unexpected (by decide) before_ok _
  · rename_i closes
    rw [closes]
    exact oneLine_bracket (by decide) (by decide) _
  · exact oneLine_unexpected expected_ok (oneLine_quote next) _

/-- Tokens as a text gives them. -/
def Proper (tokens : List Token) : Prop :=
  ∀ t ∈ tokens, t.lexeme.Proper

theorem Proper.after {used : List Token} (proper : Proper (used ++ rest)) : Proper rest :=
  (List.forall_mem_append.mp proper).2

theorem Proper.tail {first : Token} (proper : Proper (first :: rest)) : Proper rest :=
  (List.forall_mem_cons.mp proper).2

theorem Proper.passed (proper : Proper tokens) (passes : Passes tokens rest) : Proper rest := by
  obtain ⟨used, rfl, -⟩ := passes
  exact proper.after

theorem oneLine_of_readTerm (proper : Proper tokens) (read : readTerm ctx .expression tokens = .ok (t, rest)) :
    OneLine t.text := by
  obtain ⟨used, e, rfl, derived, -⟩ := termSound ctx tokens _ _ _ _ .expression read
  have used_proper : ∀ l ∈ lexemes used, l.Proper :=
    List.forall_mem_map.mpr (List.forall_mem_append.mp proper).1
  have readable : t.Readable ctx.params := Tree.gives_of_derives derived used_proper
  exact readable.printsOn.oneLine_text

/-- The error of a failed reading of these tokens as a term is told in one line. -/
def TermTells (ctx : Context) (tokens : List Token) : Prop :=
  Proper tokens → ∀ outer e, readTerm ctx outer tokens = .error e → OneLine e.message

theorem readGroup_tells {column : Nat} (inside_tells : TermTells ctx tokens) (proper : Proper tokens)
    (failed : readGroup ctx ⟨.openBracket, column⟩ tokens = .error e) : OneLine e.message := by
  cases groupFails_of_error failed with
  | nothing => exact oneLine_unexpected (by decide) (by decide) _
  | empty column' after => exact oneLine_emptyExpression _ _
  | inside failed => exact inside_tells proper _ _ failed
  | unclosed =>
    have mark : OneLine "(" := by decide
    exact oneLine_bracket mark (by decide) _
  | misplaced inside_read =>
    exact oneLine_misplaced (by decide) (oneLine_of_readTerm proper inside_read) _

theorem readArguments_tells {n : Nat} (below : ∀ tokens, tokens.length < n → TermTells ctx tokens) :
    ∀ {tokens : List Token}, tokens.length ≤ n → Proper tokens → readArguments ctx tokens = .error e →
      OneLine e.message := by
  intro tokens
  induction size : tokens.length using Nat.strongRecOn generalizing tokens with
  | ind size' ih =>
    intro bound proper failed
    have go_on : readArguments ctx tokens ≠ .ok ([], tokens) := by
      rw [failed]
      simp
    rcases tokens with _ | ⟨⟨lexeme, column⟩, after⟩
    · exact absurd (readArguments_of_not_begins (by simp)) go_on
    · simp only [List.length_cons] at size
      cases lexeme with
      | number text =>
        rw [readArguments_number, Except.map_eq_error_iff] at failed
        exact ih after.length (by omega) rfl (by omega) proper.tail failed
      | name name =>
        rw [readArguments_name, Except.map_eq_error_iff] at failed
        exact ih after.length (by omega) rfl (by omega) proper.tail failed
      | openBracket =>
        rw [readArguments_open, Except.bind_eq_error_iff] at failed
        rcases failed with inside_failed | ⟨⟨arg, left⟩, inside_read, later_failed⟩
        · exact readGroup_tells (below after (by omega)) proper.tail inside_failed
        · rw [Except.map_eq_error_iff] at later_failed
          obtain ⟨column', inside⟩ := readGroup_passes (termPasses ctx after) inside_read
          have shorter : left.length < after.length := plain_ok inside_read
          exact ih left.length (by omega) rfl (by omega) (proper.passed inside.group) later_failed
      | ending | sign | assign | arrow | closeBracket =>
        exact absurd (readArguments_of_not_begins (by simp [Lexeme.beginsAtom])) go_on

theorem readOperand_tells (below : ∀ ts : List Token, ts.length < tokens.length → TermTells ctx ts)
    (proper : Proper tokens) (failed : readOperand ctx tokens = .error e) : OneLine e.message := by
  cases operandFails_of_error failed with
  | nothing => exact oneLine_unexpected (by decide) (by decide) _
  | other t rest => exact oneLine_unexpected (by decide) (oneLine_quote t) _
  | assigned t rest name =>
    exact oneLine_unexpected (by decide) (.append (by decide) (Text.oneLine_quoteString name)) _
  | called t next rest name =>
    exact oneLine_unexpected (.append (by decide) (Text.oneLine_quoteString name)) (oneLine_quote next) _
  | value name column column' value_failed =>
    exact below _ (by simp only [List.length_cons]; omega) proper.tail.tail _ _ value_failed
  | arguments function column args_failed => exact readArguments_tells below (by simp) proper.tail args_failed
  | operator column after => exact oneLine_operator _ _ _
  | signed s column operand_failed => exact below _ (by simp) proper.tail _ _ operand_failed
  | group column inside_failed => exact readGroup_tells (below _ (by simp)) proper.tail inside_failed

theorem readOperations_tells {n : Nat} (below : ∀ tokens, tokens.length < n → TermTells ctx tokens) :
    ∀ {tokens : List Token} {left : Tree}, tokens.length ≤ n → Proper tokens →
      readOperations ctx outer left tokens = .error e → OneLine e.message := by
  intro tokens
  induction size : tokens.length using Nat.strongRecOn generalizing tokens with
  | ind size' ih =>
    intro left bound proper failed
    rcases noSign_or_sign tokens with stop | ⟨s, column, after, rfl⟩
    · rw [readOperations_of_noSign stop] at failed
      cases failed
    · rw [readOperations_sign] at failed
      by_cases tighter : (BinaryOp.ofSign s).binding.tighterThan outer = true
      · rw [if_pos tighter, Except.bind_eq_error_iff] at failed
        simp only [List.length_cons] at size
        rcases failed with right_failed | ⟨⟨right, after'⟩, right_read, loop_failed⟩
        · exact below after (by omega) proper.tail _ _ right_failed
        · have shorter := readTerm_length right_read
          have passed := proper.tail.passed (termPasses ctx _ _ _ _ right_read)
          exact ih after'.length (by omega) rfl (by omega) passed loop_failed
      · rw [if_neg tighter] at failed
        cases failed

theorem termTells (ctx : Context) (tokens : List Token) : TermTells ctx tokens := by
  induction size : tokens.length using Nat.strongRecOn generalizing tokens with
  | ind size' ih =>
    intro proper outer e failed
    have below : ∀ ts : List Token, ts.length < tokens.length → TermTells ctx ts :=
      fun ts shorter => ih ts.length (by omega) ts rfl
    rcases readTerm_eq_error_iff.mp failed with operand_failed | ⟨first, after, operand_read, loop_failed⟩
    · exact readOperand_tells below proper operand_failed
    · have shorter : after.length < tokens.length := plain_ok operand_read
      have passed := proper.passed (readOperand_passes (fun ts _ => termPasses ctx ts) operand_read)
      exact readOperations_tells below shorter.le passed loop_failed

theorem oneLine_of_wholeExpression (proper : Proper tokens) (failed : wholeExpression ctx tokens = .error e) :
    OneLine e.message := by
  rcases wholeExpression_eq_error failed with term_failed | ⟨t, next, after, term_read, rfl⟩
  · exact termTells ctx tokens proper _ _ term_failed
  · exact oneLine_misplaced (by decide) (oneLine_of_readTerm proper term_read) _

theorem oneLine_of_lineTree {endColumn : Nat} (proper : Proper tokens) (failed : lineTree tokens endColumn = .error e) :
    OneLine e.message := by
  rcases definition_or_expression tokens endColumn with
    ⟨function, params, column, body, rfl, named⟩ | expression
  · rw [lineTree_definition column named, Except.bind_eq_error_iff] at failed
    rcases failed with names_failed | ⟨names, -, body_failed⟩
    · obtain ⟨t, -, rfl⟩ := distinctNames_eq_error names_failed
      exact oneLine_unexpected (by decide) (oneLine_quote t) _
    · rw [Except.map_eq_error_iff] at body_failed
      exact oneLine_of_wholeExpression proper.after.tail body_failed
  · rw [expression] at failed
    exact oneLine_of_wholeExpression proper failed

theorem readableLine_of_line {ls : List Lexeme} (derived : Grammar.Line (ls ++ [.ending]) t)
    (proper : ∀ l ∈ ls, l.Proper) : t.ReadableLine := by
  generalize whole : ls ++ [.ending] = all at derived
  cases derived with
  | expression body =>
    have same := List.append_cancel_right whole
    subst same
    exact .expression (Tree.gives_of_derives body proper)
  | @definition e function params body_ls body distinct derived =>
    have same := List.append_cancel_right whole
    subst same
    obtain ⟨head_proper, tail_proper⟩ := List.forall_mem_append.mp proper
    refine .definition (fun name inside => ?_) (Tree.gives_of_derives derived (List.forall_mem_cons.mp tail_proper).2)
    exact head_proper (.name name) (List.mem_map_of_mem (f := Lexeme.name) inside)

theorem readableLine_of_parseText {line : Line} (read : parseText text = .ok line) : line.tree.ReadableLine := by
  obtain ⟨ls, spells, derived⟩ := spells_of_parse (parse_of_parseText read)
  exact readableLine_of_line derived spells.proper

theorem proper_of_tokenize {chars : List Char} {last : Token} (ending : last.lexeme = .ending)
    (tokenized : Lexer.tokenize {} chars = .ok (tokens ++ [last])) : Proper tokens := by
  have split : lexemes (tokens ++ [last]) = lexemes tokens ++ [.ending] := by
    rw [lexemes, List.map_append, List.map_singleton, ending]
  have spells := Lexer.tokenize_iff_spells.mp ⟨_, tokenized, split⟩
  exact List.forall_mem_map.mp spells.proper

/-- Among tokens an expression is missing only up to a bracket. -/
theorem emptyExpression_of_lineTree {endColumn : Nat} {column : Int} {close : String}
    (failed : lineTree tokens endColumn = .error (.emptyExpression column close)) : tokens = [] ∨ close = ")" := by
  have accurate : Accurate [] _ _ := lineTree_accurate failed
  cases accurate with
  | emptyGroup => exact .inr rfl
  | nothing only =>
    have alone : tokens.length + 1 = 1 := by simpa using congrArg List.length only
    exact .inl (List.eq_nil_of_length_eq_zero (by omega))

theorem parse_of_parseText_error (failed : parseText text = .error e) : parse {} text.toChars = .error (.input e) := by
  rw [parse_eq_parseText, failed]
  rfl

/-- A text that is no line gets a message in one line, and the text is white space if the message is only that
there is no expression. -/
theorem parseText_error (failed : parseText text = .error e) :
    OneLine e.message ∧ ∀ column, e = .emptyExpression column "" → text.isAllBlank = true := by
  have failed := parse_of_parseText_error failed
  have located := Lexer.located_tokenize text.toChars
  generalize tokenized : Lexer.tokenize {} text.toChars = outcome at located
  cases located with
  | invalid shown kind =>
    rw [parse_of_failure tokenized] at failed
    cases failed
    exact ⟨Lexer.oneLine_of_tokenize tokenized, nofun⟩
  | tokens before inside blank =>
    by_cases nothing : before = []
    · subst nothing
      rw [parse_nothing tokenized] at failed
      cases failed
      refine ⟨oneLine_emptyExpression _ _, fun _ _ => List.all_eq_true.mpr fun s inside => ?_⟩
      exact blank rfl _ (List.mem_map_of_mem inside)
    · rw [parse_of_tokenize tokenized nothing] at failed
      cases tree_read : lineTree before (text.toChars.length + 1) with
      | ok tree =>
        rw [tree_read] at failed
        cases failed
      | error e' =>
        rw [tree_read] at failed
        cases failed
        refine ⟨oneLine_of_lineTree (proper_of_tokenize rfl tokenized) tree_read, ?_⟩
        rintro column rfl
        rcases emptyExpression_of_lineTree tree_read with none | bracket
        · exact absurd none nothing
        · simp at bracket

end Parser

end Abacus
