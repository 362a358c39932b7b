import Abacus.Text.Quoted

/-!
Tokens: the smallest pieces of a line that mean something.
-/

namespace Abacus

/-- The arithmetic signs. -/
inductive Sign where
  | plus
  | minus
  | times
  | divide
  | percent
deriving DecidableEq

namespace Sign

def toChar : Sign → Char
  | .plus => '+'
  | .minus => '-'
  | .times => '*'
  | .divide => '/'
  | .percent => '%'

def ofChar? : Char → Option Sign
  | '+' => some .plus
  | '-' => some .minus
  | '*' => some .times
  | '/' => some .divide
  | '%' => some .percent
  | _ => none

def text (s : Sign) : String :=
  String.singleton s.toChar

end Sign

/-- What a token says. -/
inductive Lexeme where
  /-- The end of the input. -/
  | ending
  | number (text : String)
  | name (text : String)
  | sign (s : Sign)
  | assign
  | arrow
  | openBracket
  | closeBracket
deriving DecidableEq

namespace Lexeme

def text : Lexeme → String
  | .ending => ""
  | .number text => text
  | .name text => text
  | .sign s => s.text
  | .assign => "="
  | .arrow => "=>"
  | .openBracket => "("
  | .closeBracket => ")"

/-- The number of the kind; 0 is taken by no token. -/
def kindCode : Lexeme → Int
  | .ending => 1
  | .number _ => 2
  | .name _ => 3
  | .sign _ => 4
  | .assign => 5
  | .arrow => 6
  | .openBracket => 7
  | .closeBracket => 8

/-- The name of a kind of token, by its number. -/
def kindNameOfCode : Int → String
  | 0 => "None"
  | 1 => "EOF"
  | 2 => "Num"
  | 3 => "Ident"
  | 4 => "Op"
  | 5 => "Assign"
  | 6 => "Arrow"
  | 7 => "Open"
  | 8 => "Close"
  | code => "tokenKind(" ++ code.repr ++ ")"

def kindName (l : Lexeme) : String :=
  kindNameOfCode l.kindCode

/-- Whether a call argument can begin with this. -/
def beginsAtom : Lexeme → Bool
  | .number _ => true
  | .name _ => true
  | .openBracket => true
  | _ => false

end Lexeme

/-- A lexeme and the column where it begins. -/
structure Token where
  lexeme : Lexeme
  column : Nat
deriving DecidableEq

namespace Token

/-- The token as messages show it. -/
def quote (t : Token) : String :=
  match t.lexeme with
  | .ending => "end of input"
  | lexeme => Text.quoteString lexeme.text

/-- The kind, the text and the column in one string. -/
def describe (t : Token) : String :=
  t.lexeme.kindName ++ ":" ++ t.lexeme.text ++ "@" ++ t.column.repr

end Token

end Abacus
