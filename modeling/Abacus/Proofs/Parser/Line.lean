import Abacus.Proofs.Lexer
import Abacus.Proofs.Names
import Abacus.Proofs.Parser.Completeness
import Abacus.Proofs.Parser.Readings
import Mathlib

/-!
Reading a line gives a tree exactly if the grammar derives that tree from the tokens.
-/

namespace Abacus.Parser

open Grammar

variable {ctx : Context} {t : Tree} {tokens : List Token} {endColumn : Nat}

theorem wholeExpression_eq_ok_iff :
    wholeExpression ctx tokens = .ok t ↔ readTerm ctx .expression tokens = .ok (t, []) := by
  rw [wholeExpression, expressionOf, readTerm]
  rcases term ctx .expression tokens with e | ⟨tree, names, ⟨_ | ⟨next, left⟩, shorter⟩⟩
  · simp [plain, Except.map, bind, Except.bind]
  · simp [plain, Except.map, bind, Except.bind, pure, Except.pure]
  · simp [plain, Except.map, bind, Except.bind]

/-- A whole expression is a sum, with whatever ending. -/
theorem wholeExpression_iff_derives (distinct : ctx.params.Nodup) :
    wholeExpression ctx tokens = .ok t ↔
      ∃ e, Derives ctx.params (.sum e) (lexemes tokens) t := by
  rw [wholeExpression_eq_ok_iff]
  constructor
  · intro success
    obtain ⟨used, e, split, derived, -⟩ := termSound ctx tokens _ _ _ _ .expression success
    rw [List.append_nil] at split
    exact ⟨e, split ▸ derived⟩
  · rintro ⟨e, derived⟩
    have read := reads_of_derives distinct derived tokens [] rfl follows_nil
    rw [List.append_nil] at read
    rw [read]
    exact readOperations_of_noSign nofun

theorem distinctNames_eq_ok_iff {seen names : List String} (seen_distinct : seen.Nodup)
    (tokens : List Token) :
    distinctNames seen tokens = .ok names ↔
      names = seen.reverse ++ tokens.map (·.lexeme.text) ∧ names.Nodup := by
  induction tokens generalizing seen with
  | nil =>
    have reversed : seen.reverse.Nodup := List.pairwise_reverse.mpr (seen_distinct.imp Ne.symm)
    simp only [distinctNames, pure, Except.pure, Except.ok.injEq, List.map_nil, List.append_nil]
    exact ⟨fun same => ⟨same.symm, same ▸ reversed⟩, fun same => same.1.symm⟩
  | cons t tokens ih =>
    rw [distinctNames]
    by_cases repeated : t.lexeme.text ∈ seen
    · rw [if_pos repeated]
      refine iff_of_false (by rintro ⟨⟩) ?_
      rintro ⟨rfl, distinct⟩
      have apart := (List.nodup_append.mp distinct).2.2 _ (List.mem_reverse.mpr repeated)
      exact apart _ (List.mem_cons_self ..) rfl
    · rw [if_neg repeated, ih (List.nodup_cons.mpr ⟨repeated, seen_distinct⟩)]
      simp

theorem isNameToken_iff {t : Token} : isNameToken t = true ↔ ∃ name, t.lexeme = .name name := by
  unfold isNameToken
  cases t.lexeme <;> simp

/-- The texts of name tokens are their names. -/
theorem lexemes_eq_map_name (names_only : ∀ t ∈ tokens, isNameToken t = true) :
    lexemes tokens = (tokens.map (·.lexeme.text)).map .name := by
  rw [List.map_map]
  apply List.map_congr_left
  intro t inside
  obtain ⟨name, same⟩ := isNameToken_iff.mp (names_only t inside)
  simp [same, Lexeme.text]

theorem lineTree_definition {function : Token} {params body : List Token} (column : Nat)
    (named : ∀ t ∈ function :: params, isNameToken t = true) :
    lineTree (function :: params ++ ⟨.arrow, column⟩ :: body) endColumn =
      distinctNames [] params >>= fun names =>
        (wholeExpression { params := names, endColumn } body).map
          (.define function.lexeme.text names) := by
  have taken : (function :: params ++ ⟨.arrow, column⟩ :: body).takeWhile isNameToken =
      function :: params := by
    rw [List.takeWhile_append_of_pos named]
    simp [isNameToken]
  have dropped : (function :: params ++ ⟨.arrow, column⟩ :: body).dropWhile isNameToken =
      ⟨.arrow, column⟩ :: body := by
    rw [List.dropWhile_append_of_pos named]
    simp [isNameToken]
  rw [lineTree, lineOf, taken, dropped]
  dsimp only
  rcases distinctNames [] params with e | names
  · rfl
  · change (expressionOf _ body >>= _).map _ = ((expressionOf _ body).map _).map _
    cases expressionOf { params := names, endColumn } body <;> rfl

/-- How a line begins decides how it is read. -/
theorem definition_or_expression (tokens : List Token) (endColumn : Nat) :
    (∃ function params column body, tokens = function :: params ++ ⟨.arrow, column⟩ :: body ∧
        ∀ t ∈ function :: params, isNameToken t = true) ∨
      lineTree tokens endColumn = wholeExpression { params := [], endColumn } tokens := by
  rw [lineTree, wholeExpression, lineOf]
  split
  · rename_i function params column body taken dropped
    refine .inl ⟨function, params, column, body, ?_, ?_⟩
    · rw [← taken, ← dropped, List.takeWhile_append_dropWhile]
    · rw [← taken]
      exact List.all_eq_true.mp List.all_takeWhile
  · exact .inr rfl

theorem line_of_lineTree (success : lineTree tokens endColumn = .ok t) :
    Grammar.Line (lexemes tokens ++ [.ending]) t := by
  rcases definition_or_expression tokens endColumn with
    ⟨⟨lexeme, column⟩, params, column', body, rfl, named⟩ | expression
  · obtain ⟨function, rfl⟩ := isNameToken_iff.mp (named _ (List.mem_cons_self ..))
    rw [lineTree_definition column' named, Except.bind_eq_ok_iff] at success
    obtain ⟨names, names_read, success⟩ := success
    obtain ⟨tree, body_read, rfl⟩ := Except.map_eq_ok_iff.mp success
    obtain ⟨rfl, distinct⟩ := (distinctNames_eq_ok_iff List.nodup_nil params).mp names_read
    obtain ⟨e, derived⟩ := (wholeExpression_iff_derives distinct).mp body_read
    have params_lexemes := lexemes_eq_map_name fun t inside => named t (List.mem_cons_of_mem _ inside)
    have line : Grammar.Line _ (.define function _ tree) := .definition distinct derived
    simpa [params_lexemes, Lexeme.text] using line
  · rw [expression] at success
    obtain ⟨e, derived⟩ := (wholeExpression_iff_derives List.nodup_nil).mp success
    exact .expression derived

/-- Name tokens for given names. -/
theorem tokens_of_map_name {names : List String} (same : lexemes tokens = names.map .name) :
    (∀ t ∈ tokens, isNameToken t = true) ∧ tokens.map (·.lexeme.text) = names := by
  constructor
  · intro t inside
    have named : t.lexeme ∈ names.map .name := same ▸ List.mem_map_of_mem inside
    obtain ⟨name, -, lexeme_same⟩ := List.mem_map.mp named
    exact isNameToken_iff.mpr ⟨name, lexeme_same.symm⟩
  · have texts := congrArg (List.map Lexeme.text) same
    rw [List.map_map, List.map_map] at texts
    exact texts.trans (List.map_id _)

theorem lineTree_of_line (line : Grammar.Line (lexemes tokens ++ [.ending]) t) :
    lineTree tokens endColumn = .ok t := by
  generalize whole : lexemes tokens ++ [.ending] = ts at line
  cases line with
  | @expression e ts t body =>
    have same : lexemes tokens = ts := List.append_cancel_right whole
    subst same
    rcases definition_or_expression tokens endColumn with
      ⟨function, params, column', after, rfl, -⟩ | expression
    · exact absurd (by simp) body.arrow_not_mem
    · rw [expression]
      exact (wholeExpression_iff_derives List.nodup_nil).mpr ⟨e, body⟩
  | @definition e function params ts t distinct body =>
    have same := List.append_cancel_right whole
    obtain ⟨heads, arrow, rfl, heads_same, arrow_same⟩ := List.map_eq_append_iff.mp same
    obtain ⟨column, params', rfl, params_same⟩ := lexemes_eq_cons heads_same
    obtain ⟨column', after, rfl, rfl⟩ := lexemes_eq_cons arrow_same
    obtain ⟨params_named, names_same⟩ := tokens_of_map_name params_same
    have named : ∀ t ∈ (⟨.name function, column⟩ : Token) :: params', isNameToken t = true := by
      simpa [isNameToken] using params_named
    have names_read : distinctNames [] params' = .ok params :=
      (distinctNames_eq_ok_iff List.nodup_nil params').mpr ⟨by simpa using names_same.symm, distinct⟩
    have body_read : wholeExpression { params, endColumn } after = .ok t :=
      (wholeExpression_iff_derives distinct).mpr ⟨e, body⟩
    rw [lineTree_definition column' named, names_read]
    change (wholeExpression { params, endColumn } after).map _ = _
    rw [body_read]
    rfl

theorem lineTree_eq_ok_iff :
    lineTree tokens endColumn = .ok t ↔ Grammar.Line (lexemes tokens ++ [.ending]) t :=
  ⟨line_of_lineTree, lineTree_of_line⟩

/-- A text is read as the line that the tokens before its end make. -/
theorem parse_of_tokenize {source : Lexer.Source} {text : List Char} {before : List Token}
    {column : Nat} (tokenized : Lexer.tokenize source text = .ok (before ++ [⟨.ending, column⟩]))
    (some_before : before ≠ []) :
    parse source text =
      match lineTree before column with
      | .ok tree => .ok { tree, vars := tree.vars }
      | .error e => .error (.input e) := by
  obtain ⟨first, before, rfl⟩ := List.exists_cons_of_ne_nil some_before
  obtain ⟨second, rest, same⟩ : ∃ second rest, before ++ [⟨.ending, column⟩] = second :: rest :=
    List.exists_cons_of_ne_nil (by simp)
  have init : (first :: second :: rest).dropLast = first :: before := by
    rw [← same, ← List.cons_append, List.dropLast_concat]
  have last : (second :: rest).getLastD first = ⟨.ending, column⟩ := by
    rw [← same, List.getLastD_concat]
  rw [parse, tokenized, List.cons_append, same]
  dsimp only [bind, Except.bind]
  rw [init, last, lineTree]
  cases read : lineOf (first :: before) column with
  | error e => rfl
  | ok result =>
    obtain ⟨tree, names⟩ := result
    have listed : Tree.listNames names = tree.vars := Tree.listNames_congr fun _ => (recorded_of_lineOf read).mem_iff
    exact congrArg (fun vars => Except.ok (Line.mk tree vars)) listed

theorem parse_nothing {source : Lexer.Source} {text : List Char} {column : Nat}
    (tokenized : Lexer.tokenize source text = .ok [⟨.ending, column⟩]) :
    parse source text = .error (.input (.emptyExpression column "")) := by
  rw [parse, tokenized]
  rfl

theorem parse_of_failure {source : Lexer.Source} {text : List Char} {failure : Lexer.Failure}
    (failed : Lexer.tokenize source text = .error failure) : parse source text = .error failure := by
  rw [parse, failed]
  rfl

theorem not_line_ending : ¬Grammar.Line [.ending] t := by
  generalize nothing : [Lexeme.ending] = ts
  rintro (⟨body⟩ | ⟨distinct, body⟩)
  · have empty := List.append_cancel_right (List.nil_append _ |>.trans nothing)
    exact body.ne_nil empty.symm
  · simp at nothing

/-- Every line that is read is derived from the tokens of its text. -/
theorem line_of_parse {source : Lexer.Source} {text : List Char} {line : Line}
    (read : parse source text = .ok line) :
    ∃ tokens, Lexer.tokenize source text = .ok tokens ∧ Grammar.Line (lexemes tokens) line.tree := by
  cases tokenized : Lexer.tokenize source text with
  | error e =>
    rw [parse, tokenized] at read
    cases read
  | ok tokens =>
    obtain ⟨before, column, rfl⟩ := Lexer.endsText_tokenize tokenized
    by_cases nothing : before = []
    · subst nothing
      rw [parse_nothing tokenized] at read
      cases read
    · rw [parse_of_tokenize tokenized nothing] at read
      cases tree_read : lineTree before column with
      | error e =>
        rw [tree_read] at read
        cases read
      | ok tree =>
        rw [tree_read] at read
        cases read
        refine ⟨_, rfl, ?_⟩
        rw [lexemes, List.map_append]
        exact line_of_lineTree tree_read

/-- A source can keep a line from being read, but not change it. -/
theorem parse_of_source {source : Lexer.Source} {text : List Char} {line : Line}
    (read : parse source text = .ok line) : parse {} text = .ok line := by
  rw [parse] at read ⊢
  obtain ⟨tokens, tokenized, rest⟩ := Except.bind_eq_ok_iff.mp read
  rw [Lexer.tokenize_of_source tokenized]
  exact rest

/-- Every line that is read has the tree of a line. -/
theorem ofLine_of_parse {source : Lexer.Source} {text : List Char} {line : Line}
    (read : parse source text = .ok line) : line.tree.OfLine := by
  obtain ⟨tokens, -, derived⟩ := line_of_parse read
  exact derived.ofLine

theorem expression_of_parse {source : Lexer.Source} {text : List Char} {line : Line}
    (read : parse source text = .ok line) (expression : line.isDefinition = false) :
    line.tree.Expression true [] := by
  have of_line := ofLine_of_parse read
  generalize tree : line.tree = t at of_line
  cases of_line with
  | expression ok => exact ok
  | definition => simp [Line.isDefinition, tree, Tree.isDefinition, Tree.core] at expression

/-- Reading a text from memory fails only for the text. -/
theorem parse_eq_error {text : List Char} {failure : Lexer.Failure}
    (failed : parse {} text = .error failure) : ∃ e, failure = .input e := by
  have from_text := isInput_of_parse failed
  cases failure with
  | input e => exact ⟨e, rfl⟩
  | readFailed | fault => cases from_text

theorem parse_of_parseText {text : Text} {line : Line} (read : parseText text = .ok line) :
    parse {} text.toChars = .ok line := by
  rw [parse_eq_parseText, read]
  rfl

theorem parseText_of_parse {text : Text} {line : Line} (parsed : parse {} text.toChars = .ok line) :
    parseText text = .ok line := by
  rw [parse_eq_parseText] at parsed
  cases read : parseText text with
  | ok other =>
    rw [read] at parsed
    cases parsed
    rfl
  | error e =>
    rw [read] at parsed
    cases parsed

/-- A text is read as a tree exactly if the grammar derives the tree from the tokens of the text. It is a
definition exactly if it begins with names and an arrow, and a text that is no line gives an error. -/
theorem parse_iff_line {source : Lexer.Source} {text : List Char} {tokens : List Token}
    (tokenized : Lexer.tokenize source text = .ok tokens) :
    (∀ t, (∃ vars, parse source text = .ok { tree := t, vars }) ↔ Grammar.Line (lexemes tokens) t) ∧
      (∀ line, parse source text = .ok line →
        (line.isDefinition = true ↔ Grammar.BeginsDefinition (lexemes tokens))) ∧
      ((¬∃ t, Grammar.Line (lexemes tokens) t) → ∃ e, parse source text = .error (.input e)) := by
  obtain ⟨before, column, rfl⟩ := Lexer.endsText_tokenize tokenized
  by_cases nothing : before = []
  · subst nothing
    rw [parse_nothing tokenized]
    exact ⟨fun t => iff_of_false nofun not_line_ending, nofun, fun _ => ⟨_, rfl⟩⟩
  · have line_iff : ∀ {t}, lineTree before column = .ok t ↔
        Grammar.Line (lexemes (before ++ [⟨.ending, column⟩])) t := by
      intro t
      rw [lexemes, List.map_append]
      exact lineTree_eq_ok_iff
    rw [parse_of_tokenize tokenized nothing]
    cases read : lineTree before column with
    | ok tree =>
      have line := line_iff.mp read
      refine ⟨fun t => ?_, ?_, fun none => absurd ⟨tree, line⟩ none⟩
      · rw [← line_iff, read]
        simp
      · rintro _ ⟨⟩
        exact line.isDefinition_iff
    | error e =>
      refine ⟨fun t => ?_, nofun, fun _ => ⟨e, rfl⟩⟩
      rw [← line_iff, read]
      exact iff_of_false nofun nofun

/-- The value of an assignment goes on to the end of the line. -/
theorem parse_iff_line_assignment :
    Lexer.tokenize {} "f a => 2 * b = a - g a".toList =
        .ok [⟨.name "f", 1⟩, ⟨.name "a", 3⟩, ⟨.arrow, 5⟩, ⟨.number "2", 8⟩, ⟨.sign .times, 10⟩,
          ⟨.name "b", 12⟩, ⟨.assign, 14⟩, ⟨.name "a", 16⟩, ⟨.sign .minus, 18⟩, ⟨.name "g", 20⟩,
          ⟨.name "a", 22⟩, ⟨.ending, 23⟩] ∧
      ∃ vars, parse {} "f a => 2 * b = a - g a".toList =
        .ok { tree := .define "f" ["a"] (.binary .mul (.number "2") (.assign "b"
          (.binary .sub (.param 0 "a") (.call "g" [.param 0 "a"])))), vars } := by
  have param : Leaf ["a"] "a" (.param 0 "a") := .param 0 rfl
  have operand : Derives ["a"] (.sum .closed) [.name "a"] (.param 0 "a") :=
    .sum_product (.product_unary (.unary_primary (.name param)))
  have called : Derives ["a"] (.unary .closed) [.name "g", .name "a"] (.call "g" [.param 0 "a"]) :=
    .unary_primary (.call nofun (.call_next (.call_head (by decide)) (.atom_name param)))
  have value := Derives.sum_step .minus operand (.product_unary called)
  have two : Derives ["a"] (.product .closed) [.number "2"] (.number "2") :=
    .product_unary (.unary_primary (.number "2"))
  have assigned : Derives ["a"] (.unary .greedy) _ (.assign "b" _) :=
    .unary_primary (.assign (by decide) value)
  have product := Derives.product_step .times two assigned
  refine ⟨rfl, ((parse_iff_line rfl).1 _).mpr ?_⟩
  exact .definition (List.pairwise_singleton _ "a") (.sum_product product)

end Abacus.Parser
