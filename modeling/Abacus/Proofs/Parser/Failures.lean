import Abacus.Proofs.Parser.Steps
import Mathlib

/-!
The ways in which each reading function fails.

A reading function fails by itself, with an error about the tokens before it, or since something that it reads fails.
-/

namespace Abacus.Parser

variable {ctx : Context} {outer : Binding} {left t : Tree} {tokens rest : List Token} {e : InputError}

/-- The ways in which reading an operand fails. -/
inductive OperandFails (ctx : Context) : List Token → InputError → Prop
  | nothing : OperandFails ctx [] (.unexpected ctx.endColumn "expression" "end of input")
  | other (t : Token) (rest : List Token) : OperandFails ctx (t :: rest) (.unexpected t.column "expression" t.quote)
  | assigned (t : Token) (rest : List Token) (name : String) :
      OperandFails ctx (t :: rest)
        (.unexpected t.column "variable name before \"=\"" ("parameter " ++ Text.quoteString name))
  | called (t next : Token) (rest : List Token) (name : String) :
      OperandFails ctx (t :: next :: rest)
        (.unexpected next.column ("operator after parameter " ++ Text.quoteString name) next.quote)
  | value (name : String) (column column' : Nat) {after : List Token} {e : InputError}
      (failed : readTerm ctx .expression after = .error e) :
      OperandFails ctx (⟨.name name, column⟩ :: ⟨.assign, column'⟩ :: after) e
  | arguments (function : String) (column : Nat) {tokens : List Token} {e : InputError}
      (failed : readArguments ctx tokens = .error e) :
      OperandFails ctx (⟨.name function, column⟩ :: tokens) e
  | operator {s : Sign} (column : Nat) (after : List Token) (binary : UnaryOp.ofSign? s = none) :
      OperandFails ctx (⟨.sign s, column⟩ :: after) (.operator column s.text true)
  | signed (s : Sign) (column : Nat) {after : List Token} {e : InputError}
      (failed : readTerm ctx .unary after = .error e) : OperandFails ctx (⟨.sign s, column⟩ :: after) e
  | group (column : Nat) {after : List Token} {e : InputError}
      (failed : readGroup ctx ⟨.openBracket, column⟩ after = .error e) :
      OperandFails ctx (⟨.openBracket, column⟩ :: after) e

theorem OperandFails.of_name {name : String} {column : Nat} {after : List Token}
    (failed : readOperand ctx (⟨.name name, column⟩ :: after) = .error e) :
    OperandFails ctx (⟨.name name, column⟩ :: after) e := by
  by_cases alone : EndsName after
  · rw [readOperand_name name column alone] at failed
    cases failed
  · cases after with
    | nil => exact absurd nofun alone
    | cons next after =>
      have begins : next.lexeme ≠ .assign → next.lexeme.beginsAtom = true := by
        simpa [EndsName] using alone
      by_cases isParam : name ∈ ctx.params
      · rw [readOperand, operand] at failed
        by_cases assigns : next.lexeme = .assign
        · simp only [if_pos assigns, if_pos isParam] at failed
          cases failed
          exact .assigned _ _ name
        · simp only [if_neg assigns, if_pos (begins assigns), if_pos isParam] at failed
          cases failed
          exact .called _ next after name
      · by_cases assigns : next.lexeme = .assign
        · obtain ⟨lexeme, column'⟩ := next
          cases assigns
          rw [readOperand_assign column column' after isParam, Except.map_eq_error_iff] at failed
          exact .value name column column' failed
        · rw [readOperand_call column after isParam (begins assigns), Except.map_eq_error_iff] at failed
          exact .arguments name column failed

theorem operandFails_of_error (failed : readOperand ctx tokens = .error e) : OperandFails ctx tokens e := by
  rcases tokens with _ | ⟨⟨lexeme, column⟩, after⟩
  · rw [readOperand, operand] at failed
    cases failed
    exact .nothing
  · cases lexeme with
    | number text =>
      rw [readOperand, operand] at failed
      cases failed
    | name name => exact .of_name failed
    | sign s =>
      cases leading : UnaryOp.ofSign? s with
      | none =>
        rw [readOperand, operand] at failed
        simp only [leading] at failed
        cases failed
        exact .operator column after leading
      | some op =>
        rw [readOperand_sign column after leading, Except.map_eq_error_iff] at failed
        exact .signed s column failed
    | openBracket =>
      rw [readOperand_open] at failed
      exact .group column failed
    | ending | assign | arrow | closeBracket =>
      rw [readOperand, operand] at failed
      cases failed
      exact .other _ after

/-- The ways in which reading what is in brackets fails, after the bracket `opening`. -/
inductive GroupFails (ctx : Context) (opening : Token) : List Token → InputError → Prop
  | nothing : GroupFails ctx opening [] (.unexpected ctx.endColumn "expression" "end of input")
  | empty (column : Nat) (after : List Token) :
      GroupFails ctx opening (⟨.closeBracket, column⟩ :: after) (.emptyExpression column ")")
  | inside {tokens : List Token} {e : InputError} (failed : readTerm ctx .expression tokens = .error e) :
      GroupFails ctx opening tokens e
  | unclosed {tokens : List Token} {t : Tree} (inside_read : readTerm ctx .expression tokens = .ok (t, [])) :
      GroupFails ctx opening tokens (.bracket opening.column opening.lexeme.text "")
  | misplaced {tokens : List Token} {t : Tree} {next : Token} {after : List Token}
      (inside_read : readTerm ctx .expression tokens = .ok (t, next :: after))
      (open_still : next.lexeme ≠ .closeBracket) :
      GroupFails ctx opening tokens (misplaced next t "\")\"")

theorem groupFails_of_error {opening : Token} (failed : readGroup ctx opening tokens = .error e) :
    GroupFails ctx opening tokens e := by
  rw [readGroup] at failed
  cases tokens with
  | nil =>
    rw [group] at failed
    cases failed
    exact .nothing
  | cons next after =>
    rw [group] at failed
    obtain ⟨lexeme, column⟩ := next
    by_cases closes : lexeme = .closeBracket
    · subst closes
      cases failed
      exact .empty column after
    · rw [if_neg closes] at failed
      cases inside_read : term ctx .expression (⟨lexeme, column⟩ :: after) with
      | error e' =>
        rw [inside_read] at failed
        cases failed
        exact .inside (by rw [readTerm, inside_read]; rfl)
      | ok read =>
        obtain ⟨tree, names, ⟨_ | ⟨closing, left⟩, shorter⟩⟩ := read
        · rw [inside_read] at failed
          cases failed
          exact .unclosed (t := tree) (by rw [readTerm, inside_read]; rfl)
        · rw [inside_read] at failed
          by_cases closed : closing.lexeme = .closeBracket
          · simp [bind, Except.bind, closed, pure, Except.pure, plain, Except.map] at failed
          · simp only [bind, Except.bind, if_neg closed] at failed
            cases failed
            exact .misplaced (by rw [readTerm, inside_read]; rfl) closed

/-- A term fails at its first operand or after an operator. -/
theorem readTerm_eq_error_iff :
    readTerm ctx outer tokens = .error e ↔
      readOperand ctx tokens = .error e ∨
        ∃ first after, readOperand ctx tokens = .ok (first, after) ∧
          readOperations ctx outer first after = .error e := by
  rw [readTerm_eq, Except.bind_eq_error_iff]
  exact or_congr_right Prod.exists

/-- A whole expression fails inside, or with what is left of the tokens. -/
theorem wholeExpression_eq_error (failed : wholeExpression ctx tokens = .error e) :
    readTerm ctx .expression tokens = .error e ∨
      ∃ t next after, readTerm ctx .expression tokens = .ok (t, next :: after) ∧
        e = misplaced next t "end of input" := by
  rw [wholeExpression, expressionOf] at failed
  rw [readTerm]
  cases read : term ctx .expression tokens with
  | error e' =>
    rw [read] at failed
    cases failed
    exact .inl rfl
  | ok result =>
    rw [read] at failed
    obtain ⟨t, names, ⟨_ | ⟨next, after⟩, shorter⟩⟩ := result
    · cases failed
    · cases failed
      exact .inr ⟨t, next, after, rfl, rfl⟩

end Abacus.Parser
