import Abacus.Tree.Basic

/-!
Printing trees.

Every node stands in brackets, round and square ones by turns from the outside in, so that the structure
shows. There is also an outline, with one entry for each node.
-/

namespace Abacus.Tree

def openMark (square : Bool) : String :=
  if square then "[" else "("

def closeMark (square : Bool) : String :=
  if square then "]" else ")"

/-- A parameter by its position, and by its name if it has one. -/
def paramText (index : Int) (name : String) : String :=
  "$" ++ index.repr ++ (if name = "" then "" else ":" ++ name)

/-- The words of a list, each with a space before it. -/
def spaced (words : List String) : String :=
  words.foldl (fun text word => text ++ " " ++ word) ""

/-- Closes the brackets of what was written inside of them. -/
def closed (square : Bool) (inside : Except Fault String) : Except Fault String :=
  inside.map (· ++ closeMark square)

mutual

/-- Writes the tree in round or square brackets after what is `written`. -/
def write (square : Bool) : Tree → String → Except Fault String
  | .absent, _ => .error .missing
  | .number text, written => .ok (written ++ openMark square ++ text ++ closeMark square)
  | .ident name, written => .ok (written ++ openMark square ++ name ++ closeMark square)
  | .param index name, written =>
    .ok (written ++ openMark square ++ paramText index name ++ closeMark square)
  | .assign name value, written =>
    closed square (write (!square) value (written ++ openMark square ++ name ++ " = "))
  | .call function args, written =>
    closed square (writeArgs (!square) args (written ++ openMark square ++ function))
  | .define function params body, written =>
    closed square
      (write (!square) body (written ++ openMark square ++ function ++ spaced params ++ " => "))
  | .unary op operand, written =>
    closed square (write (!square) operand (written ++ openMark square ++ op.text))
  | .binary op left right, written =>
    closed square do
      let written ← write (!square) left (written ++ openMark square)
      write (!square) right (written ++ " " ++ op.text ++ " ")
  | .malformed code left right, written =>
    if code = 0 then
      closed square do
        let written := written ++ openMark square ++ "$"
        let written ← if left.isAbsent then .ok written else write square left written
        let written := written ++ "#"
        let written ← if right.isAbsent then .ok written else write square right written
        return written ++ "$"
    else .error (.unprintableNode (kindNameOfCode code) (written ++ openMark square))
  | .extended node _ _ _ _, written => write square node written

/-- Writes the trees one after the other, each after a space. -/
def writeArgs (square : Bool) : List Tree → String → Except Fault String
  | [], written => .ok written
  | t :: rest, written => do writeArgs square rest (← write square t (written ++ " "))

end

/-- The text of a tree, from the given kind of brackets on. -/
def print (square : Bool) (t : Tree) : Except Fault String :=
  write square t ""

/-- The text of a tree that reading a line gave, for which printing never fails. -/
def text (t : Tree) : String :=
  match t.print false with
  | .ok text => text
  | .error fault => fault.message

/-- A name after a space, if it is not empty. -/
def named (name : String) : String :=
  if name = "" then "" else " " ++ name

/-- One entry of an outline: depth, the role that the node has for its parent, and what it is. -/
def outlineEntry (depth : Nat) (role : String) (t : Tree) : String :=
  depth.repr ++ role ++ " " ++ t.kindName ++ match t with
    | .number text => named text
    | .ident name => named name
    | .param index name => named name ++ " $" ++ index.repr
    | .assign name _ => named name
    | .call function _ => named function
    | .define function params _ => named function ++ " [" ++ " ".intercalate params ++ "]"
    | _ => ""

mutual

/-- The nodes of a tree from the root on, with arguments before operands, and then the entries `after`. -/
def outlineFrom (depth : Nat) (role : String) : Tree → (after : List String) → List String
  | .absent, after => after
  | .call function args, after =>
    outlineEntry depth role (.call function args) :: outlineArgs (depth + 1) args after
  | .assign name value, after =>
    outlineEntry depth role (.assign name value) :: outlineFrom (depth + 1) "l" value after
  | .define function params body, after =>
    outlineEntry depth role (.define function params body) :: outlineFrom (depth + 1) "l" body after
  | .unary op operand, after =>
    outlineEntry depth role (.unary op operand) :: outlineFrom (depth + 1) "l" operand after
  | .binary op left right, after =>
    outlineEntry depth role (.binary op left right) ::
      outlineFrom (depth + 1) "l" left (outlineFrom (depth + 1) "r" right after)
  | .malformed code left right, after =>
    outlineEntry depth role (.malformed code left right) ::
      outlineFrom (depth + 1) "l" left (outlineFrom (depth + 1) "r" right after)
  | .extended node name args left right, after =>
    let operands := outlineFrom (depth + 1) "l" left (outlineFrom (depth + 1) "r" right after)
    match outlineFrom depth role node operands with
    | [] => []
    | entry :: inner => (entry ++ named name) :: outlineArgs (depth + 1) args inner
  | t, after => outlineEntry depth role t :: after

def outlineArgs (depth : Nat) : List Tree → (after : List String) → List String
  | [], after => after
  | t :: rest, after => outlineFrom depth "a" t (outlineArgs depth rest after)

end

def outline (t : Tree) : List String :=
  outlineFrom 0 "" t []

end Abacus.Tree
