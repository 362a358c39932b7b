import Abacus.Command.Given
import Abacus.Proofs.Composition
import Abacus.Proofs.Effects
import Mathlib

/-!
Variables that are given before a session.

A variable is given by a text that is cut at its first `=`: what is before it has to be a name, and what is after it is
read and evaluated by itself. As a line of a session the same text is read as a whole and assigns the variable while it
is evaluated. Both ways succeed for the same texts and leave the same variables.
-/

namespace Abacus

open Environment (keep)

namespace Text

variable {text before after : Text} {c : Char}

theorem eq_of_cut? (cut : cut? c text = some (before, after)) : text = before ++ .char c :: after := by
  induction text generalizing before with
  | nil => cases cut
  | cons s rest ih =>
    rw [cut?] at cut
    by_cases first : s = .char c
    · rw [if_pos first] at cut
      cases cut
      rw [first]
      rfl
    · rw [if_neg first] at cut
      obtain ⟨⟨front, back⟩, found, same⟩ := Option.map_eq_some_iff.mp cut
      cases same
      rw [ih found]
      rfl

/-- Only white space is around what is left of a text. -/
theorem exists_trim (t : Text) :
    ∃ front back, t = front ++ t.trim ++ back ∧ (∀ c ∈ front.toChars, isBlank c = true) ∧
      ∀ c ∈ back.toChars, isBlank c = true := by
  have split : t = t.takeWhile isBlankSymbol ++ (t.trim ++ (t.dropWhile isBlankSymbol).rtakeWhile isBlankSymbol) := by
    change t = _ ++ ((t.dropWhile isBlankSymbol).rdropWhile isBlankSymbol ++ _)
    rw [List.rdropWhile_append_rtakeWhile, List.takeWhile_append_dropWhile]
  refine ⟨_, _, split.trans (List.append_assoc ..).symm, ?_, ?_⟩
  · intro c inside
    obtain ⟨s, taken, rfl⟩ := List.mem_map.mp inside
    have white : isBlankSymbol s = true := List.mem_takeWhile_imp taken
    exact white
  · intro c inside
    obtain ⟨s, taken, rfl⟩ := List.mem_map.mp inside
    have white : isBlankSymbol s = true := List.mem_rtakeWhile_imp taken
    exact white

end Text

namespace Grammar

variable {definition before value : Text} {t : Tree}

/-- A text that gives a variable is, as a line, the assignment of what comes after its first `=`. -/
theorem expresses_given_iff (cut : definition.cut? '=' = some (before, value)) (named : before.trim.isName = true)
    (no_arrow : value.head? ≠ some (.char '>')) :
    Expresses definition.toChars t ↔ ∃ v, t = .assign before.trim.toString v ∧ Expresses value.toChars v := by
  obtain ⟨front, back, split, front_white, back_white⟩ := Text.exists_trim before
  have is_name : Text.isName (Text.ofString before.trim.toString) = true := by
    rw [Text.isName, Text.toChars_ofString, Text.toString, String.toList_ofList]
    exact named
  have no_arrow_char : value.toChars.head? ≠ some '>' := by
    rw [Text.toChars, List.head?_map]
    intro begins
    obtain ⟨s, first, same⟩ := Option.map_eq_some_iff.mp begins
    cases s with
    | char c =>
      cases same
      exact no_arrow first
    | stray b => cases same
  have chars : definition.toChars =
      front.toChars ++ (before.trim.toString.toList ++ (back.toChars ++ '=' :: value.toChars)) := by
    rw [Text.eq_of_cut? cut, Text.toString, String.toList_ofList]
    nth_rewrite 1 [split]
    simp [Text.toChars, Symbol.toChar]
  rw [chars]
  exact expresses_assign_iff is_name front_white back_white no_arrow_char

theorem parse_given (cut : definition.cut? '=' = some (before, value)) (named : before.trim.isName = true)
    (no_arrow : value.head? ≠ some (.char '>')) (expresses : Expresses value.toChars t) :
    Parser.parseText definition = .ok (Tree.assign before.trim.toString t).toLine :=
  (expresses_iff.mp ((expresses_given_iff cut named no_arrow).mpr ⟨t, rfl, expresses⟩)).1

theorem not_expresses_arrow {rest : List Char} : ¬Expresses ('>' :: rest) t := by
  rintro ⟨e, ls, spells, -⟩
  obtain ⟨tokens, collected, -⟩ := Lexer.collect_of_spells spells 1
  cases collected

end Grammar

namespace Environment

variable {policy : Policy} {env : Environment} {definition before value : Text} {name : String} {v : Tree} {x : Number}

/-- A line that has a value defines nothing. -/
theorem not_definition_of_value {line : Line} (idle : env.stack.live = []) (of_line : line.tree.OfLine)
    (value : (env.evaluate line).1 = .ok (.value x)) : line.isDefinition = false := by
  generalize tree : line.tree = t at of_line
  cases of_line with
  | expression ok =>
    rw [Line.isDefinition, tree]
    exact ok.not_definition
  | definition function distinct body_ok =>
    rw [evaluate_definition idle tree] at value
    split at value <;> cases value

/-- A value that can be computed can be assigned, which changes the variable after what the value itself assigns. -/
theorem evaluate_assign_of_value (reachable : Reachable policy env) (ok : v.Expression true [])
    (succeeds : (env.evaluate v.toLine).1 = .ok (.value x)) (name : String) :
    (env.evaluate (Tree.assign name v).toLine).1 = .ok (.value x) ∧
      ∀ other, (env.evaluate (Tree.assign name v).toLine).2.vars.find? other =
        if other = name then some (keep env.prec x) else (env.evaluate v.toLine).2.vars.find? other := by
  have safe := reachable.safe
  obtain ⟨m, ran, live, evaluated⟩ := evaluate_value safe.idle ok succeeds
  have assigned : Evaluation.evalLine env (.assign name v) env.machine =
      .ok () { m with writes := m.writes.insert name (keep env.prec x) } :=
    (Evaluation.bind_ok ran).trans (Evaluation.bind_ok (Evaluation.top_of_live live))
  have assign_ok : (Tree.assign name v).toLine.tree.Expression true [] := .assign name ok
  rw [evaluate_of_evalLine safe.idle assign_ok assigned live, evaluated]
  refine ⟨rfl, fun other => ?_⟩
  change (env.vars.overriddenBy _).find? other = if _ then _ else (env.vars.overriddenBy _).find? other
  rw [Bindings.find?_overriddenBy, Bindings.find?_overriddenBy,
    Bindings.find?_insert]
  split <;> rfl

theorem value_of_evaluate_assign (idle : env.stack.live = []) (ok : v.Expression true [])
    (succeeds : (env.evaluate (Tree.assign name v).toLine).1 = .ok (.value x)) :
    (env.evaluate v.toLine).1 = .ok (.value x) := by
  have assign_ok : (Tree.assign name v).toLine.tree.Expression true [] := .assign name ok
  obtain ⟨m, ran, live, -⟩ := evaluate_value idle assign_ok succeeds
  obtain ⟨m₁, value_ran, rfl⟩ := eval_assign_inv ran live
  have value_ok : v.toLine.tree.Expression true [] := ok
  rw [evaluate_of_evalLine idle value_ok value_ran live]

theorem give_of_expresses (cut : definition.cut? '=' = some (before, value)) (named : before.trim.isName = true)
    (expresses : Grammar.Expresses value.toChars v) :
    env.give definition = env.giveValue before.trim.toString v.toLine := by
  obtain ⟨read, expression⟩ := Grammar.expresses_iff.mp expresses
  have no_definition : ¬v.toLine.isDefinition = true := by
    rw [Line.isDefinition, Bool.not_eq_true]
    exact expression
  rw [give, cut]
  dsimp only
  rw [if_pos named, read]
  dsimp only
  rw [if_neg no_definition]

/-- A text that does not give a value to a name changes nothing. -/
theorem give_cases (env : Environment) (definition : Text) :
    (∃ e, env.give definition = (.error e, env)) ∨
      ∃ before value v, definition.cut? '=' = some (before, value) ∧ before.trim.isName = true ∧
        Grammar.Expresses value.toChars v ∧ env.give definition = env.giveValue before.trim.toString v.toLine := by
  cases cut : definition.cut? '=' with
  | none => exact .inl ⟨.shape definition, by rw [give, cut]⟩
  | some parts =>
    obtain ⟨before, value⟩ := parts
    by_cases named : before.trim.isName = true
    · cases read : Parser.parseText value with
      | error e => exact .inl ⟨.input before.trim.toString e, by simp [give, cut, named, read]⟩
      | ok line =>
        by_cases defines : line.isDefinition = true
        · exact .inl ⟨.definesFunction before.trim.toString, by simp [give, cut, named, read, defines]⟩
        · have expresses := Grammar.expresses_of_read read (Bool.not_eq_true _ ▸ defines)
          exact .inr ⟨before, value, line.tree, rfl, named, expresses, give_of_expresses cut named expresses⟩
    · exact .inl ⟨.badName before.trim, by simp [give, cut, named]⟩

/-- Giving a value is evaluating it and binding the variable to the result. -/
theorem giveValue_of_value (idle : env.stack.live = []) (ok : v.Expression true [])
    (succeeds : (env.evaluate v.toLine).1 = .ok (.value x)) (name : String) :
    env.giveValue name v.toLine =
      (.ok (), { (env.evaluate v.toLine).2 with
        vars := (env.evaluate v.toLine).2.vars.insert name (keep env.prec x) }) := by
  obtain ⟨m, -, live, evaluated⟩ := evaluate_value idle ok succeeds
  have given_back : (env.committed m).stack.live.isEmpty = true := by
    change (m.stack.live.drop 1).isEmpty = true
    rw [live]
    rfl
  rw [giveValue, evaluated]
  dsimp only
  rw [set, if_pos given_back]
  rfl

/-- A value that cannot be computed gives no variable. -/
theorem giveValue_of_error {line : Line} {stop : Stop} (fails : (env.evaluate line).1 = .error stop) (name : String) :
    ∃ e, env.giveValue name line = (.error e, (env.evaluate line).2) := by
  rw [giveValue]
  generalize env.evaluate line = outcome at fails
  obtain ⟨result, after⟩ := outcome
  cases fails
  cases stop <;> exact ⟨_, rfl⟩

/-- An expression has a value or fails. -/
theorem value_or_error (idle : env.stack.live = []) (ok : v.Expression true []) :
    (∃ x, (env.evaluate v.toLine).1 = .ok (.value x)) ∨ ∃ stop, (env.evaluate v.toLine).1 = .error stop := by
  cases result : (env.evaluate v.toLine).1 with
  | error stop => exact .inr ⟨stop, rfl⟩
  | ok r =>
    obtain ⟨m, x, -, -, evaluated⟩ := evaluate_expression_ok idle ok result
    rw [evaluated] at result
    exact .inl ⟨x, result.symm⟩

/-- As a line, a text that gives a variable has the value of what comes after its first `=`. -/
theorem exec_given_iff (reachable : Reachable policy env) (cut : definition.cut? '=' = some (before, value))
    (named : before.trim.isName = true) (no_arrow : value.head? ≠ some (.char '>')) :
    (env.exec definition).1 = .ok (.value x) ↔
      ∃ v, Grammar.Expresses value.toChars v ∧ (env.evaluate v.toLine).1 = .ok (.value x) := by
  have idle := reachable.safe.idle
  constructor
  · intro succeeds
    cases read : Parser.parseText definition with
    | error e =>
      rw [exec_of_error read] at succeeds
      cases succeeds
    | ok line =>
      have gives := (exec_eq_ok_iff read).mp succeeds
      have of_line := Parser.ofLine_of_parse (Parser.parse_of_parseText read)
      have whole := Grammar.expresses_of_read read (not_definition_of_value idle of_line gives)
      obtain ⟨v, -, expresses⟩ := (Grammar.expresses_given_iff cut named no_arrow).mp whole
      rw [exec_eq_ok_iff (Grammar.parse_given cut named no_arrow expresses)] at succeeds
      exact ⟨v, expresses, value_of_evaluate_assign idle expresses.expression succeeds⟩
  · rintro ⟨v, expresses, gives⟩
    rw [exec_eq_ok_iff (Grammar.parse_given cut named no_arrow expresses)]
    exact (evaluate_assign_of_value reachable expresses.expression gives before.trim.toString).1

/-- A variable is given exactly if the value after the first `=` can be computed. -/
theorem give_eq_ok_iff (idle : env.stack.live = []) (cut : definition.cut? '=' = some (before, value))
    (named : before.trim.isName = true) :
    (env.give definition).1 = .ok () ↔
      ∃ v x, Grammar.Expresses value.toChars v ∧ (env.evaluate v.toLine).1 = .ok (.value x) := by
  constructor
  · intro given
    rcases give_cases env definition with ⟨_, failed⟩ | ⟨_, _, v, cut', -, expresses, by_value⟩
    · rw [failed] at given
      cases given
    · cases cut.symm.trans cut'
      rcases value_or_error idle expresses.expression with ⟨x, gives⟩ | ⟨stop, fails⟩
      · exact ⟨v, x, expresses, gives⟩
      · obtain ⟨e, failed⟩ := giveValue_of_error fails before.trim.toString
        rw [by_value, failed] at given
        cases given
  · rintro ⟨v, x, expresses, gives⟩
    rw [give_of_expresses cut named expresses, giveValue_of_value idle expresses.expression gives]

/-- A variable that cannot be given leaves the variables and functions as they were. -/
theorem give_error (idle : env.stack.live = []) {e : GivenError} (fails : (env.give definition).1 = .error e) :
    (env.give definition).2.vars = env.vars ∧ (env.give definition).2.functions = env.functions := by
  rcases give_cases env definition with ⟨_, failed⟩ | ⟨before, _, v, -, -, expresses, by_value⟩
  · rw [failed]
    exact ⟨rfl, rfl⟩
  · have ok := expresses.expression
    rcases value_or_error idle ok with ⟨x, gives⟩ | ⟨stop, no_value⟩
    · rw [by_value, giveValue_of_value idle ok gives] at fails
      cases fails
    · obtain ⟨e', failed⟩ := giveValue_of_error no_value before.trim.toString
      have line_ok : v.toLine.tree.Expression true [] := ok
      rw [by_value, failed]
      exact ⟨vars_of_error line_ok no_value, functions_of_expression line_ok⟩

/-- Giving a variable agrees with assigning it. For a text with a name before its first `=` and no `>` after that, the
variable is given exactly if the text succeeds as an expression, and both leave the same functions and the same
variables: the name has the value, and all others have what evaluating the value leaves. A variable that cannot be
given leaves all variables and functions as they were, and a text of another form changes nothing at all. -/
theorem give_agrees_with_exec (reachable : Reachable policy env) (definition : Text) :
    (∀ before value, definition.cut? '=' = some (before, value) → before.trim.isName = true →
      value.head? ≠ some (.char '>') →
        ((env.give definition).1 = .ok () ↔ ∃ x, (env.exec definition).1 = .ok (.value x)) ∧
        ∀ x, (env.exec definition).1 = .ok (.value x) →
          (env.give definition).2.functions = (env.exec definition).2.functions ∧
          (env.give definition).2.vars.find? = (env.exec definition).2.vars.find? ∧
          ∃ line, Parser.parseText value = .ok line ∧ (env.evaluate line).1 = .ok (.value x) ∧
            ∀ name, (env.give definition).2.vars.find? name =
              if name = before.trim.toString then some x else (env.evaluate line).2.vars.find? name) ∧
    (∀ e, (env.give definition).1 = .error e →
      (env.give definition).2.vars = env.vars ∧ (env.give definition).2.functions = env.functions) ∧
    ((∀ before value, definition.cut? '=' = some (before, value) → before.trim.isName = true →
        value.head? = some (.char '>')) → ∃ e, env.give definition = (.error e, env)) := by
  have idle := reachable.safe.idle
  refine ⟨fun before value cut named no_arrow => ⟨?_, fun x succeeds => ?_⟩, fun e => give_error idle,
    fun other_form => ?_⟩
  · rw [give_eq_ok_iff idle cut named, exists_comm]
    exact exists_congr fun x => (exec_given_iff reachable cut named no_arrow).symm
  · obtain ⟨v, expresses, gives⟩ := (exec_given_iff reachable cut named no_arrow).mp succeeds
    have ok := expresses.expression
    have read := Grammar.parse_given cut named no_arrow expresses
    have kept := keep_of_value reachable gives
    have by_value : env.give definition = _ := give_of_expresses cut named expresses
    rw [giveValue_of_value idle ok gives, kept] at by_value
    have assign_ok : (Tree.assign before.trim.toString v).toLine.tree.Expression true [] := .assign _ ok
    have value_ok : v.toLine.tree.Expression true [] := ok
    have given : ∀ name, (env.give definition).2.vars.find? name =
        if name = before.trim.toString then some x else (env.evaluate v.toLine).2.vars.find? name := by
      intro name
      rw [by_value]
      exact Bindings.find?_insert ..
    refine ⟨?_, funext fun name => ?_, v.toLine, (Grammar.expresses_iff.mp expresses).1, gives, given⟩
    · rw [by_value, exec_snd read, functions_of_expression assign_ok]
      exact functions_of_expression value_ok
    · rw [given, exec_snd read, (evaluate_assign_of_value reachable ok gives _).2, kept]
  · rcases give_cases env definition with failed | ⟨before, value, v, cut, named, expresses, -⟩
    · exact failed
    · obtain ⟨rest, rfl⟩ := List.head?_eq_some_iff.mp (other_form before value cut named)
      exact absurd expresses Grammar.not_expresses_arrow

/-- The value assigns another variable, and also the one that is given. A definition gives nothing. -/
theorem give_agrees_with_exec_nested :
    ∃ env, Reachable .rising env ∧ env.vars.find? "x" = none ∧ env.vars.find? "y" = none ∧
      (env.give (Text.ofString " x = (y=2)+(x=3)")).1 = .ok () ∧
      (env.give (Text.ofString " x = (y=2)+(x=3)")).2.vars.find? "x" =
        some { prec := 8, neg := false, mag := .finite 5 0, words := 1 } ∧
      (env.give (Text.ofString " x = (y=2)+(x=3)")).2.vars.find? "y" =
        some { prec := 8, neg := false, mag := .finite 1 1, words := 1 } ∧
      (env.exec (Text.ofString "x=>1")).1 = .ok .defined ∧
      ∃ e, env.give (Text.ofString "x=>1") = (.error e, env) := by
  have start := reachable_blank (Nat.succ_pos 7)
  have cut : Text.cut? '=' (Text.ofString " x = (y=2)+(x=3)") =
      some (Text.ofString " x ", Text.ofString " (y=2)+(x=3)") := by decide
  have succeeds : ((blank 8).exec (Text.ofString " x = (y=2)+(x=3)")).1 =
      .ok (.value { prec := 8, neg := false, mag := .finite 5 0, words := 1 }) := by cbv
  have assigned : ((blank 8).exec (Text.ofString " x = (y=2)+(x=3)")).2.vars.find? "y" =
      some { prec := 8, neg := false, mag := .finite 1 1, words := 1 } := by cbv
  have definition_cut : Text.cut? '=' (Text.ofString "x=>1") = some (Text.ofString "x", Text.ofString ">1") := by decide
  obtain ⟨agrees, -, -⟩ := give_agrees_with_exec start (Text.ofString " x = (y=2)+(x=3)")
  obtain ⟨gives, leaves⟩ := agrees _ _ cut (by decide) (by decide)
  obtain ⟨-, vars, line, -, -, bound⟩ := leaves _ succeeds
  obtain ⟨-, -, refused⟩ := give_agrees_with_exec start (Text.ofString "x=>1")
  refine ⟨blank 8, start, rfl, rfl, gives.mpr ⟨_, succeeds⟩, bound "x", ?_, by cbv, refused ?_⟩
  · rw [vars, assigned]
  · intro before value other_cut _
    cases definition_cut.symm.trans other_cut
    rfl

end Environment

end Abacus
