import Abacus.Operator

/-!
Syntax trees of lines.

The trees that reading a text gives are built from the constructors `number` to `binary`. The others
stand for what a tree made by hand can have in their place: `absent` and `malformed` can be taken apart,
substituted into and printed, but not evaluated, and `extended` is a node with more parts than
it has a use for.
-/

namespace Abacus

inductive Tree where
  /-- No tree where one could be. -/
  | absent
  /-- A number, by its text. -/
  | number (text : String)
  /-- A variable, or a function of no arguments. -/
  | ident (name : String)
  /-- A parameter, by its position. -/
  | param (index : Int) (name : String)
  | assign (name : String) (value : Tree)
  | call (function : String) (args : List Tree)
  /-- The definition of a function. It is the root of its tree. -/
  | define (function : String) (params : List String) (body : Tree)
  | unary (op : UnaryOp) (operand : Tree)
  | binary (op : BinaryOp) (left right : Tree)
  /-- A node of no kind (`code = 0`) or of a kind that has no name. -/
  | malformed (code : Int8) (left right : Tree)
  /-- A node with a name, arguments or operands that nodes of its kind do not have. What the node says
  does not depend on them. -/
  | extended (node : Tree) (name : String) (args : List Tree) (left right : Tree)
deriving Inhabited

namespace Tree

def binaryCode : BinaryOp → Int8
  | .add => 8
  | .sub => 9
  | .mul => 10
  | .div => 11
  | .mod => 12

def unaryCode : UnaryOp → Int8
  | .neg => 7
  | .pos => 13

/-- The number of a node's kind. -/
def kindCode : Tree → Int8
  | .absent => 0
  | .number _ => 1
  | .ident _ => 2
  | .param _ _ => 3
  | .assign _ _ => 4
  | .call _ _ => 5
  | .define _ _ _ => 6
  | .unary op _ => unaryCode op
  | .binary op _ _ => binaryCode op
  | .malformed code _ _ => code
  | .extended node _ _ _ _ => kindCode node

/-- The names of the kinds, by their number. -/
def kindNames : List String :=
  ["None", "Num", "Name", "Param", "Assign", "Call", "Def", "Neg", "Add", "Sub", "Mul", "Div", "Mod",
   "Nop"]

def kindNameOfCode (code : Int8) : String :=
  match if code < 0 then none else kindNames[code.toNatClampNeg]? with
  | some name => name
  | none => "nodeKind(" ++ code.toInt.repr ++ ")"

def kindName (t : Tree) : String :=
  kindNameOfCode t.kindCode

/-- The operation of a kind of node, by the kind's number. -/
def operationOfCode? (code : Int8) : Option BinaryOp :=
  [BinaryOp.add, .sub, .mul, .div, .mod].find? fun op => binaryCode op = code

/-- Applies the operation of a kind of node. -/
def applyKind (code : Int8) (x y : Number) : Except Stop Number :=
  match operationOfCode? code with
  | some op => (op.apply x y).mapError .error
  | none => .error (.fault (.notArithmetic (kindNameOfCode code)))

/-- The node of a kind that has the given parts. Those that the kind has no use for are kept, except for an
index and parameters, which never show. -/
def ofParts (code : Int8) (name : String) (index : Int) (params : List String) (args : List Tree)
    (left right : Tree) : Tree :=
  let extend (node : Tree) (name : String) (args : List Tree) (left right : Tree) : Tree :=
    match name, args, left, right with
    | "", [], .absent, .absent => node
    | _, _, _, _ => .extended node name args left right
  if code = 1 then extend (.number name) "" args left right
  else if code = 2 then extend (.ident name) "" args left right
  else if code = 3 then extend (.param index name) "" args left right
  else if code = 4 then extend (.assign name left) "" args .absent right
  else if code = 5 then extend (.call name args) "" [] left right
  else if code = 6 then extend (.define name params left) "" args .absent right
  else match [UnaryOp.neg, .pos].find? fun op => unaryCode op = code, operationOfCode? code with
    | some op, _ => extend (.unary op left) name args .absent right
    | none, some op => extend (.binary op left right) name args .absent .absent
    | none, none => extend (.malformed code left right) name args .absent .absent

def isAbsent : Tree → Bool
  | .absent => true
  | _ => false

/-- The node without the parts that it has no use for. -/
def core : Tree → Tree
  | .extended node _ _ _ _ => node
  | t => t

def isDefinition (t : Tree) : Bool :=
  match t.core with
  | .define _ _ _ => true
  | _ => false

def isParam : Tree → Bool
  | .param _ _ => true
  | .extended node _ _ _ _ => isParam node
  | _ => false

/-- The argument for the parameter with the given position. -/
def argument (args : List α) (index : Int) : Except Fault α :=
  match if index < 0 then none else args[index.toNat]? with
  | some a => .ok a
  | none => .error (.parameterIndex index args.length)

mutual

/-- Puts the arguments in the place of the parameters. Without arguments the parameters stay. -/
def substitute (args : Option (List Tree)) : Tree → Except Fault Tree
  | .absent => .ok .absent
  | .number text => .ok (.number text)
  | .ident name => .ok (.ident name)
  | .param index name =>
    match args with
    | none => .ok (.param index name)
    | some args => argument args index
  | .assign name value => return .assign name (← substitute args value)
  | .call function args' => return .call function (← substituteAll args args')
  | .define function params body => return .define function params (← substitute args body)
  | .unary op operand => return .unary op (← substitute args operand)
  | .binary op left right => return .binary op (← substitute args left) (← substitute args right)
  | .malformed code left right =>
    return .malformed code (← substitute args left) (← substitute args right)
  | .extended node name args' left right =>
    if node.isParam && args.isSome then substitute args node
    else do
      let args' ← substituteAll args args'
      return .extended (← substitute args node) name args' (← substitute args left)
        (← substitute args right)

def substituteAll (args : Option (List Tree)) : List Tree → Except Fault (List Tree)
  | [] => .ok []
  | t :: rest => return (← substitute args t) :: (← substituteAll args rest)

end

mutual

/-- Without arguments nothing is replaced. -/
@[simp] theorem substitute_none (t : Tree) : t.substitute none = .ok t := by
  cases t with
  | absent | number | ident | param => rfl
  | assign name value => rw [substitute, substitute_none value]; rfl
  | call function args => rw [substitute, substituteAll_none args]; rfl
  | define function params body => rw [substitute, substitute_none body]; rfl
  | unary op operand => rw [substitute, substitute_none operand]; rfl
  | binary op left right => rw [substitute, substitute_none left, substitute_none right]; rfl
  | malformed code left right => rw [substitute, substitute_none left, substitute_none right]; rfl
  | extended node name args left right =>
    rw [substitute, substitute_none node, substituteAll_none args, substitute_none left,
      substitute_none right]
    simp only [Option.isSome_none, Bool.and_false]
    rfl

@[simp] theorem substituteAll_none (ts : List Tree) : substituteAll none ts = .ok ts := by
  cases ts with
  | nil => rfl
  | cons t rest => rw [substituteAll, substitute_none t, substituteAll_none rest]; rfl

end

/-- How many of the names of a tree are that of its root. -/
def ownNames : Tree → Nat
  | .ident _ => 1
  | .assign _ _ => 1
  | _ => 0

mutual

/-- The names that the tree reads or assigns as variables, from left to right, with repetitions. -/
def names : Tree → List String
  | .absent => []
  | .number _ => []
  | .ident name => [name]
  | .param _ _ => []
  | .assign name value => name :: names value
  | .call _ args => namesOfAll args
  | .define _ _ body => names body
  | .unary _ operand => names operand
  | .binary _ left right => names left ++ names right
  | .malformed _ left right => names left ++ names right
  | .extended node _ args left right =>
    (names node).take node.ownNames ++ namesOfAll args ++ (names node).drop node.ownNames
      ++ names left ++ names right

def namesOfAll : List Tree → List String
  | [] => []
  | t :: rest => names t ++ namesOfAll rest

end

/-- Puts a name where it belongs among sorted names, which come last first: before all that are greater. -/
def insertName (name : String) : List String → List String
  | [] => [name]
  | last :: before => if name < last then last :: insertName name before else name :: last :: before

/-- Sorts names in the order of their code points, by inserting one after the other. -/
def sortNames (names : List String) : List String :=
  (names.foldl (fun sorted name => insertName name sorted) []).reverse

/-- The names sorted and each listed once. -/
def listNames (names : List String) : List String :=
  sortNames names.eraseDups

/-- The variables of a tree, sorted and each listed once. -/
def vars (t : Tree) : List String :=
  listNames t.names

end Tree

/-- A line that was read, with the variables that it mentions. -/
structure Line where
  tree : Tree
  vars : List String

namespace Line

def isDefinition (l : Line) : Bool :=
  l.tree.isDefinition

end Line

end Abacus
