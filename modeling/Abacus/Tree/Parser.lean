import Abacus.Token.Lexer
import Abacus.Tree.Printer

/-!
Reading a line from its tokens.

    line     = name { name } "=>" expression | expression
    sum      = product { ("+" | "-") product }
    product  = operand { ("*" | "/" | "%") operand }
    operand  = number | name | name "=" expression | name atom { atom }
             | ("+" | "-") operand | "(" expression ")"
    atom     = number | name | "(" expression ")"

An assignment takes everything up to the end of its group as its value, and only a name that begins an
operand can be its target. In a definition the parameters become positions; a parameter is neither
called nor assigned. Each reading function returns the tokens that it left, and that they are fewer is
why reading ends. On the way the names that are variables are recorded, that of an assignment after
those in its value.
-/

namespace Abacus.Parser

/-- What the reading functions look up: the parameters of the definition that is being read, and the
column where the text ends. -/
structure Context where
  params : List String
  endColumn : Nat

/-- Tokens left over when at least one was used. -/
abbrev Shorter (tokens : List Token) := { rest : List Token // rest.length < tokens.length }

/-- Tokens left over when maybe none was used. -/
abbrev Left (tokens : List Token) := { rest : List Token // rest.length ≤ tokens.length }

/-- A name as an operand: a parameter, or else a variable. -/
def Context.operandOf (ctx : Context) (name : String) : Tree :=
  match ctx.params.idxOf? name with
  | some index => .param index name
  | none => .ident name

/-- What a name as an operand adds to the recorded names. A parameter adds nothing. -/
def Context.recorded (ctx : Context) (name : String) : List String :=
  if name ∈ ctx.params then [] else [name]

/-- The error for a token that cannot follow the expression `before`, where `expected` could. -/
def misplaced (t : Token) (before : Tree) (expected : String) : InputError :=
  match t.lexeme with
  | .assign => .unexpected t.column "name before \"=\"" before.text
  | .closeBracket => .bracket t.column "" t.lexeme.text
  | _ => .unexpected t.column expected t.quote

mutual

/-- Operands joined by operators that bind more tightly than `outer`. -/
def term (ctx : Context) (outer : Binding) (tokens : List Token) :
    Except InputError (Tree × List String × Shorter tokens) := do
  let (left, names, rest) ← operand ctx tokens
  let (tree, names', rest') ← operations ctx outer left rest.1
  return (tree, names ++ names', ⟨rest'.1, Nat.lt_of_le_of_lt rest'.2 rest.2⟩)
termination_by (tokens.length, 1)

/-- The operators after a first operand, as far as they bind more tightly than `outer`. -/
def operations (ctx : Context) (outer : Binding) (left : Tree) (tokens : List Token) :
    Except InputError (Tree × List String × Left tokens) :=
  match tokens with
  | [] => return (left, [], ⟨[], Nat.le_refl _⟩)
  | t :: rest =>
    match t.lexeme with
    | .sign s =>
      let op := BinaryOp.ofSign s
      if op.binding.tighterThan outer then do
        let (right, names, rest') ← term ctx op.binding rest
        let (tree, names', rest'') ← operations ctx outer (.binary op left right) rest'.1
        return (tree, names ++ names',
          ⟨rest''.1, Nat.le_succ_of_le (Nat.le_of_lt (Nat.lt_of_le_of_lt rest''.2 rest'.2))⟩)
      else return (left, [], ⟨t :: rest, Nat.le_refl _⟩)
    | _ => return (left, [], ⟨t :: rest, Nat.le_refl _⟩)
termination_by (tokens.length, 0)

/-- One operand; signs before it have one operand themselves. -/
def operand (ctx : Context) (tokens : List Token) :
    Except InputError (Tree × List String × Shorter tokens) :=
  match tokens with
  | [] => .error (.unexpected ctx.endColumn "expression" "end of input")
  | t :: rest =>
    match t.lexeme with
    | .number text => return (.number text, [], ⟨rest, Nat.lt_succ_self _⟩)
    | .name name =>
      match rest with
      | [] => return (ctx.operandOf name, ctx.recorded name, ⟨[], Nat.zero_lt_succ _⟩)
      | next :: rest' =>
        if next.lexeme = .assign then
          if name ∈ ctx.params then
            .error (.unexpected t.column "variable name before \"=\""
              ("parameter " ++ Text.quoteString name))
          else do
            let (value, names, left) ← term ctx .expression rest'
            return (.assign name value, names ++ [name],
              ⟨left.1, Nat.lt_succ_of_lt (Nat.lt_succ_of_lt left.2)⟩)
        else if next.lexeme.beginsAtom then
          if name ∈ ctx.params then
            .error (.unexpected next.column
              ("operator after parameter " ++ Text.quoteString name) next.quote)
          else do
            let (args, names, left) ← arguments ctx (next :: rest')
            return (.call name args, names, ⟨left.1, Nat.lt_succ_of_le left.2⟩)
        else return (ctx.operandOf name, ctx.recorded name, ⟨next :: rest', Nat.lt_succ_self _⟩)
    | .sign s =>
      match UnaryOp.ofSign? s with
      | none => .error (.operator t.column s.text true)
      | some op => do
        let (tree, names, left) ← term ctx .unary rest
        return (.unary op tree, names, ⟨left.1, Nat.lt_succ_of_lt left.2⟩)
    | .openBracket => do
      let (tree, names, left) ← group ctx t rest
      return (tree, names, ⟨left.1, Nat.lt_succ_of_lt left.2⟩)
    | _ => .error (.unexpected t.column "expression" t.quote)
termination_by (tokens.length, 0)

/-- The arguments of a call, as many as there are. -/
def arguments (ctx : Context) (tokens : List Token) :
    Except InputError (List Tree × List String × Left tokens) :=
  match tokens with
  | [] => return ([], [], ⟨[], Nat.le_refl _⟩)
  | t :: rest =>
    match t.lexeme with
    | .number text => do
      let (args, names, left) ← arguments ctx rest
      return (.number text :: args, names, ⟨left.1, Nat.le_succ_of_le left.2⟩)
    | .name name => do
      let (args, names, left) ← arguments ctx rest
      return (ctx.operandOf name :: args, ctx.recorded name ++ names,
        ⟨left.1, Nat.le_succ_of_le left.2⟩)
    | .openBracket => do
      let (arg, names, left) ← group ctx t rest
      let (args, names', left') ← arguments ctx left.1
      return (arg :: args, names ++ names',
        ⟨left'.1, Nat.le_succ_of_le (Nat.le_trans left'.2 (Nat.le_of_lt left.2))⟩)
    | _ => return ([], [], ⟨t :: rest, Nat.le_refl _⟩)
termination_by (tokens.length, 0)

/-- The rest of an expression in brackets, after the bracket `opening`. -/
def group (ctx : Context) (opening : Token) (tokens : List Token) :
    Except InputError (Tree × List String × Shorter tokens) :=
  match tokens with
  | [] => .error (.unexpected ctx.endColumn "expression" "end of input")
  | t :: rest =>
    if t.lexeme = .closeBracket then .error (.emptyExpression t.column t.lexeme.text)
    else do
      let (tree, names, left) ← term ctx .expression (t :: rest)
      match left with
      | ⟨[], _⟩ => .error (.bracket opening.column opening.lexeme.text "")
      | ⟨closing :: left', h⟩ =>
        if closing.lexeme = .closeBracket then return (tree, names, ⟨left', Nat.lt_of_succ_lt h⟩)
        else .error (misplaced closing tree "\")\"")
termination_by (tokens.length, 2)

end

/-- A whole expression, and nothing after it. -/
def expressionOf (ctx : Context) (tokens : List Token) : Except InputError (Tree × List String) := do
  let (tree, names, left) ← term ctx .expression tokens
  match left.1 with
  | [] => return (tree, names)
  | t :: _ => .error (misplaced t tree "end of input")

def isNameToken (t : Token) : Bool :=
  match t.lexeme with
  | .name _ => true
  | _ => false

/-- The names of parameters, which have to be distinct. -/
def distinctNames (seen : List String) : List Token → Except InputError (List String)
  | [] => return seen.reverse
  | t :: rest =>
    if t.lexeme.text ∈ seen then
      .error (.unexpected t.column "distinct parameter names" t.quote)
    else distinctNames (t.lexeme.text :: seen) rest

/-- The line that the tokens make. It is a definition if it begins with names and an arrow. -/
def lineOf (tokens : List Token) (endColumn : Nat) : Except InputError (Tree × List String) :=
  match tokens.takeWhile isNameToken, tokens.dropWhile isNameToken with
  | function :: params, ⟨.arrow, _⟩ :: body => do
    let params ← distinctNames [] params
    let (tree, names) ← expressionOf { params, endColumn } body
    return (.define function.lexeme.text params tree, names)
  | _, _ => expressionOf { params := [], endColumn } tokens

/-- The line that a text makes. -/
def parse (source : Lexer.Source) (text : List Char) : Except Lexer.Failure Line := do
  let tokens ← Lexer.tokenize source text
  match tokens with
  | [] => .error (.input (.emptyExpression 1 ""))
  | [ending] => .error (.input (.emptyExpression ending.column ""))
  | first :: rest =>
    let ending := rest.getLastD first
    match lineOf (first :: rest).dropLast ending.column with
    | .ok (tree, names) => return { tree, vars := Tree.listNames names }
    | .error e => .error (.input e)

theorem isInput_of_parse {text : List Char} {failure : Lexer.Failure} (failed : parse {} text = .error failure) :
    failure.isInput = true := by
  cases tokenized : Lexer.tokenize {} text with
  | error other =>
    simp only [parse, tokenized, bind, Except.bind] at failed
    cases failed
    exact Lexer.isInput_of_tokenize tokenized
  | ok tokens =>
    simp only [parse, tokenized, bind, Except.bind] at failed
    split at failed
    · cases failed
      rfl
    · cases failed
      rfl
    · split at failed <;> cases failed
      rfl

/-- The line that a text in memory makes. -/
def parseText (text : Text) : Except InputError Line :=
  Lexer.ofText (parse {} text.toChars) fun _ => isInput_of_parse

theorem parse_eq_parseText (text : Text) : parse {} text.toChars = (parseText text).mapError .input :=
  Lexer.eq_ofText _ _

end Abacus.Parser
