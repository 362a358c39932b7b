import Abacus.Proofs.Outcomes
import Mathlib

/-!
One step of each reading function.

The reading functions return the tokens they left together with a proof that these are fewer, and the names they
recorded. Here both are dropped, and each function gets an equation, or a list of the ways in which it can
succeed. What reading as a whole does to the tokens is derived from these alone.
-/

namespace Abacus.Parser

variable {ctx : Context} {outer : Binding} {left t : Tree} {tokens rest : List Token}

/-- What was read and the tokens that are left. -/
def plain {α : Type} {P : List Token → Prop} (r : Except InputError (α × List String × { rest // P rest })) :
    Except InputError (α × List Token) :=
  r.map fun x => (x.1, x.2.2.1)

def readTerm (ctx : Context) (outer : Binding) (tokens : List Token) :
    Except InputError (Tree × List Token) :=
  plain (term ctx outer tokens)

def readOperations (ctx : Context) (outer : Binding) (left : Tree) (tokens : List Token) :
    Except InputError (Tree × List Token) :=
  plain (operations ctx outer left tokens)

def readOperand (ctx : Context) (tokens : List Token) : Except InputError (Tree × List Token) :=
  plain (operand ctx tokens)

def readArguments (ctx : Context) (tokens : List Token) :
    Except InputError (List Tree × List Token) :=
  plain (arguments ctx tokens)

def readGroup (ctx : Context) (opening : Token) (tokens : List Token) :
    Except InputError (Tree × List Token) :=
  plain (group ctx opening tokens)

/-- The tree of a whole expression. -/
def wholeExpression (ctx : Context) (tokens : List Token) : Except InputError Tree :=
  (expressionOf ctx tokens).map Prod.fst

/-- The tree of a line. -/
def lineTree (tokens : List Token) (endColumn : Nat) : Except InputError Tree :=
  (lineOf tokens endColumn).map Prod.fst

/-- The tokens do not begin with a sign. -/
def NoSign (tokens : List Token) : Prop :=
  ∀ s column rest, tokens ≠ ⟨.sign s, column⟩ :: rest

/-- The tokens begin with nothing that a name takes for its own: neither `=` nor an argument. -/
def EndsName (tokens : List Token) : Prop :=
  ∀ next ∈ tokens.head?, next.lexeme ≠ .assign ∧ next.lexeme.beginsAtom = false

theorem noSign_or_sign (tokens : List Token) :
    NoSign tokens ∨ ∃ s column rest, tokens = ⟨.sign s, column⟩ :: rest := by
  rcases tokens with _ | ⟨⟨lexeme, column⟩, rest⟩
  · exact .inl nofun
  · cases lexeme with
    | sign s => exact .inr ⟨s, column, rest, rfl⟩
    | _ => exact .inl nofun

theorem plain_ok {α : Type} {P : List Token → Prop}
    {r : Except InputError (α × List String × { rest // P rest })} {a : α}
    (success : plain r = .ok (a, rest)) : P rest := by
  cases r with
  | error e => cases success
  | ok x =>
    obtain ⟨b, names, left, shorter⟩ := x
    cases success
    exact shorter

theorem plain_bind_pure {α β : Type} {P Q : List Token → Prop} (f : α → β) (names : List String → List String)
    (weaken : ∀ rest, P rest → Q rest) (r : Except InputError (α × List String × { rest // P rest })) :
    plain (r >>= fun x => pure (f x.1, names x.2.1, (⟨x.2.2.1, weaken _ x.2.2.2⟩ : { rest // Q rest }))) =
      (plain r).map fun x => (f x.1, x.2) := by
  cases r <;> rfl

theorem readTerm_length (success : readTerm ctx outer tokens = .ok (t, rest)) :
    rest.length < tokens.length :=
  plain_ok success

theorem readTerm_eq (ctx : Context) (outer : Binding) (tokens : List Token) :
    readTerm ctx outer tokens =
      readOperand ctx tokens >>= fun r => readOperations ctx outer r.1 r.2 := by
  rw [readTerm, term, readOperand]
  rcases operand ctx tokens with e | ⟨left, names, rest⟩
  · rfl
  · change plain (operations ctx outer left rest.1 >>= _) = readOperations ctx outer left rest.1
    rw [readOperations]
    rcases operations ctx outer left rest.1 with e | ⟨tree, names', rest'⟩ <;> rfl

theorem readTerm_eq_ok_iff :
    readTerm ctx outer tokens = .ok (t, rest) ↔
      ∃ first after, readOperand ctx tokens = .ok (first, after) ∧
        readOperations ctx outer first after = .ok (t, rest) := by
  rw [readTerm_eq, Except.bind_eq_ok_iff]
  exact Prod.exists

theorem readOperations_sign (s : Sign) (column : Nat) (rest : List Token) :
    readOperations ctx outer left (⟨.sign s, column⟩ :: rest) =
      if (BinaryOp.ofSign s).binding.tighterThan outer then
        readTerm ctx (BinaryOp.ofSign s).binding rest >>= fun r =>
          readOperations ctx outer (.binary (BinaryOp.ofSign s) left r.1) r.2
      else .ok (left, ⟨.sign s, column⟩ :: rest) := by
  rw [readOperations, operations]
  dsimp only
  split
  · rw [readTerm]
    rcases term ctx (BinaryOp.ofSign s).binding rest with e | ⟨right, names, rest'⟩
    · rfl
    · change plain (operations ctx outer _ rest'.1 >>= _) = readOperations ctx outer _ rest'.1
      rw [readOperations]
      rcases operations ctx outer _ rest'.1 with e | ⟨tree, names', rest''⟩ <;> rfl
  · rfl

theorem readOperations_of_noSign (stop : NoSign tokens) :
    readOperations ctx outer left tokens = .ok (left, tokens) := by
  rw [readOperations]
  rcases tokens with _ | ⟨⟨lexeme, column⟩, rest⟩
  · rw [operations]
    rfl
  · cases lexeme with
    | sign s => exact absurd rfl (stop s column rest)
    | _ => simp [operations, plain, Except.map, pure, Except.pure]

theorem readOperand_nil : readOperand ctx [] ≠ .ok (t, rest) := by
  rw [readOperand, operand]
  intro success
  cases success

theorem readOperand_close (column : Nat) (after : List Token) :
    readOperand ctx (⟨.closeBracket, column⟩ :: after) ≠ .ok (t, rest) := by
  rw [readOperand]
  simp [operand, plain, Except.map]

/-- What is read in brackets is an expression up to the closing bracket. -/
theorem readGroup_eq_ok_iff {opening : Token} :
    readGroup ctx opening tokens = .ok (t, rest) ↔
      ∃ column, readTerm ctx .expression tokens = .ok (t, ⟨.closeBracket, column⟩ :: rest) := by
  rw [readGroup]
  cases tokens with
  | nil =>
    rw [group]
    refine iff_of_false (fun success => by cases success) ?_
    rintro ⟨column, success⟩
    obtain ⟨first, after, operand_read, -⟩ := readTerm_eq_ok_iff.mp success
    exact readOperand_nil operand_read
  | cons next after =>
    rw [group]
    by_cases closes : next.lexeme = .closeBracket
    · rw [if_pos closes]
      refine iff_of_false (fun success => by cases success) ?_
      rintro ⟨column, success⟩
      obtain ⟨first, after', operand_read, -⟩ := readTerm_eq_ok_iff.mp success
      have same : next = ⟨.closeBracket, next.column⟩ := by rw [← closes]
      rw [same] at operand_read
      exact readOperand_close _ _ operand_read
    · rw [if_neg closes, readTerm]
      rcases term ctx .expression (next :: after) with e | ⟨tree, names, ⟨_ | ⟨closing, left⟩, shorter⟩⟩
      · simp [plain, Except.map, bind, Except.bind]
      · simp [plain, Except.map, bind, Except.bind]
      · obtain ⟨lexeme, column⟩ := closing
        by_cases closed : lexeme = .closeBracket
        · simp [plain, Except.map, bind, Except.bind, closed, pure, Except.pure]
        · simp [plain, Except.map, bind, Except.bind, closed]

theorem readOperand_name (name : String) (column : Nat) (alone : EndsName rest) :
    readOperand ctx (⟨.name name, column⟩ :: rest) = .ok (ctx.operandOf name, rest) := by
  rw [readOperand, operand]
  cases rest with
  | nil => rfl
  | cons next after =>
    have ends := alone next rfl
    simp only [if_neg ends.1, ends.2]
    rfl

theorem readOperand_assign {name : String} (column column' : Nat) (after : List Token)
    (free : name ∉ ctx.params) :
    readOperand ctx (⟨.name name, column⟩ :: ⟨.assign, column'⟩ :: after) =
      (readTerm ctx .expression after).map fun r => (.assign name r.1, r.2) := by
  rw [readOperand, operand]
  simp only [if_true, if_neg free]
  exact plain_bind_pure (Tree.assign name) (· ++ [name]) (by grind) _

theorem readOperand_call {function : String} {next : Token} (column : Nat) (after : List Token)
    (free : function ∉ ctx.params) (begins : next.lexeme.beginsAtom = true) :
    readOperand ctx (⟨.name function, column⟩ :: next :: after) =
      (readArguments ctx (next :: after)).map fun r => (.call function r.1, r.2) := by
  have not_assign : next.lexeme ≠ .assign := by
    intro assigns
    rw [assigns] at begins
    cases begins
  rw [readOperand, operand]
  simp only [if_neg not_assign, if_pos begins, if_neg free]
  exact plain_bind_pure (Tree.call function) id (by grind) _

theorem readOperand_sign {s : Sign} {op : UnaryOp} (column : Nat) (after : List Token)
    (leading : UnaryOp.ofSign? s = some op) :
    readOperand ctx (⟨.sign s, column⟩ :: after) =
      (readTerm ctx .unary after).map fun r => (.unary op r.1, r.2) := by
  rw [readOperand, operand]
  simp only [leading]
  exact plain_bind_pure (Tree.unary op) id (by grind) _

theorem readOperand_open (column : Nat) (after : List Token) :
    readOperand ctx (⟨.openBracket, column⟩ :: after) =
      readGroup ctx ⟨.openBracket, column⟩ after := by
  rw [readOperand, operand, readGroup]
  simp only
  rcases group ctx ⟨.openBracket, column⟩ after with e | r <;> rfl

/-- The ways in which an operand is read. -/
inductive OperandRead (ctx : Context) : List Token → Tree → List Token → Prop
  | number (text : String) (column : Nat) (rest : List Token) :
      OperandRead ctx (⟨.number text, column⟩ :: rest) (.number text) rest
  | name (name : String) (column : Nat) {rest : List Token} (alone : EndsName rest) :
      OperandRead ctx (⟨.name name, column⟩ :: rest) (ctx.operandOf name) rest
  | assign {name : String} (column column' : Nat) {after rest : List Token} {value : Tree}
      (free : name ∉ ctx.params) (value_read : readTerm ctx .expression after = .ok (value, rest)) :
      OperandRead ctx (⟨.name name, column⟩ :: ⟨.assign, column'⟩ :: after) (.assign name value) rest
  | call {function : String} (column : Nat) {next : Token} {after rest : List Token}
      {args : List Tree} (free : function ∉ ctx.params) (begins : next.lexeme.beginsAtom = true)
      (args_read : readArguments ctx (next :: after) = .ok (args, rest)) :
      OperandRead ctx (⟨.name function, column⟩ :: next :: after) (.call function args) rest
  | sign {s : Sign} {op : UnaryOp} (column : Nat) {after rest : List Token} {t : Tree}
      (leading : UnaryOp.ofSign? s = some op)
      (operand_read : readTerm ctx .unary after = .ok (t, rest)) :
      OperandRead ctx (⟨.sign s, column⟩ :: after) (.unary op t) rest
  | group (column : Nat) {after rest : List Token} {t : Tree}
      (inside_read : readGroup ctx ⟨.openBracket, column⟩ after = .ok (t, rest)) :
      OperandRead ctx (⟨.openBracket, column⟩ :: after) t rest

/-- A parameter is neither assigned nor called. -/
theorem readOperand_param {name : String} {next : Token} (column : Nat) (after : List Token)
    (isParam : name ∈ ctx.params) (takes : next.lexeme = .assign ∨ next.lexeme.beginsAtom = true) :
    readOperand ctx (⟨.name name, column⟩ :: next :: after) ≠ .ok (t, rest) := by
  rw [readOperand, operand]
  intro success
  by_cases assigns : next.lexeme = .assign
  · simp only [if_pos assigns, if_pos isParam] at success
    cases success
  · simp only [if_neg assigns, if_pos (takes.resolve_left assigns), if_pos isParam] at success
    cases success

theorem OperandRead.of_name {name : String} {column : Nat} {after : List Token}
    (success : readOperand ctx (⟨.name name, column⟩ :: after) = .ok (t, rest)) :
    OperandRead ctx (⟨.name name, column⟩ :: after) t rest := by
  by_cases alone : EndsName after
  · rw [readOperand_name name column alone] at success
    cases success
    exact .name name column alone
  · cases after with
    | nil => exact absurd nofun alone
    | cons next after =>
      have takes : next.lexeme = .assign ∨ next.lexeme.beginsAtom = true := by
        rw [Decidable.or_iff_not_imp_left]
        simpa [EndsName] using alone
      have free : name ∉ ctx.params := fun isParam =>
        readOperand_param column after isParam takes success
      rcases takes with assigns | begins
      · obtain ⟨lexeme, column'⟩ := next
        cases assigns
        rw [readOperand_assign column column' after free, Except.map_eq_ok_iff] at success
        obtain ⟨⟨value, left⟩, value_read, same⟩ := success
        cases same
        exact .assign column column' free value_read
      · rw [readOperand_call column after free begins, Except.map_eq_ok_iff] at success
        obtain ⟨⟨args, left⟩, args_read, same⟩ := success
        cases same
        exact .call column free begins args_read

theorem readOperand_eq_ok_iff :
    readOperand ctx tokens = .ok (t, rest) ↔ OperandRead ctx tokens t rest := by
  constructor
  · intro success
    rcases tokens with _ | ⟨⟨lexeme, column⟩, after⟩
    · exact absurd success readOperand_nil
    · cases lexeme with
      | number text =>
        rw [readOperand, operand] at success
        cases success
        exact .number text column after
      | name name => exact .of_name success
      | sign s =>
        cases leading : UnaryOp.ofSign? s with
        | none =>
          rw [readOperand, operand] at success
          simp only [leading] at success
          cases success
        | some op =>
          rw [readOperand_sign column after leading, Except.map_eq_ok_iff] at success
          obtain ⟨⟨operand, left⟩, operand_read, same⟩ := success
          cases same
          exact .sign column leading operand_read
      | openBracket =>
        rw [readOperand_open] at success
        exact .group column success
      | ending | assign | arrow | closeBracket =>
        rw [readOperand, operand] at success
        cases success
  · intro read
    cases read with
    | number text column =>
      rw [readOperand, operand]
      rfl
    | name name column alone => exact readOperand_name name column alone
    | assign column column' free value_read =>
      rw [readOperand_assign column column' _ free, value_read]
      rfl
    | call column free begins args_read =>
      rw [readOperand_call column _ free begins, args_read]
      rfl
    | sign column leading operand_read =>
      rw [readOperand_sign column _ leading, operand_read]
      rfl
    | group column inside_read => rw [readOperand_open, inside_read]

theorem readArguments_number (text : String) (column : Nat) (after : List Token) :
    readArguments ctx (⟨.number text, column⟩ :: after) =
      (readArguments ctx after).map fun r => (.number text :: r.1, r.2) := by
  rw [readArguments, arguments]
  exact plain_bind_pure (Tree.number text :: ·) id (by grind) _

theorem readArguments_name (name : String) (column : Nat) (after : List Token) :
    readArguments ctx (⟨.name name, column⟩ :: after) =
      (readArguments ctx after).map fun r => (ctx.operandOf name :: r.1, r.2) := by
  rw [readArguments, arguments]
  exact plain_bind_pure (ctx.operandOf name :: ·) (ctx.recorded name ++ ·) (by grind) _

theorem readArguments_open (column : Nat) (after : List Token) :
    readArguments ctx (⟨.openBracket, column⟩ :: after) =
      readGroup ctx ⟨.openBracket, column⟩ after >>= fun r =>
        (readArguments ctx r.2).map fun r' => (r.1 :: r'.1, r'.2) := by
  rw [readArguments, arguments, readGroup]
  simp only
  rcases group ctx ⟨.openBracket, column⟩ after with e | ⟨arg, names, left⟩
  · rfl
  · exact plain_bind_pure (arg :: ·) (names ++ ·) (by grind) _

theorem readArguments_of_not_begins (ends : ∀ next ∈ tokens.head?, next.lexeme.beginsAtom = false) :
    readArguments ctx tokens = .ok ([], tokens) := by
  rw [readArguments]
  rcases tokens with _ | ⟨⟨lexeme, column⟩, after⟩
  · rw [arguments]
    rfl
  · have no_atom := ends ⟨lexeme, column⟩ rfl
    cases lexeme with
    | number | name | openBracket => cases no_atom
    | ending | sign | assign | arrow | closeBracket =>
      simp [arguments, plain, Except.map, pure, Except.pure]

end Abacus.Parser
