import Abacus.Text.Basic
import Abacus.Text.Printable

/-!
Quoted text: a text between quote marks in which the mark, the backslash and everything that is not
printable are escaped. The result is plain characters whatever the text held.
-/

namespace Abacus.Text

def doubleMark : Char := '\x22'

def singleMark : Char := '\x27'

/-- The hexadecimal digits of `n` in lower case, at least `width` of them. -/
def hexDigits (width n : Nat) : List Char :=
  let digits := Nat.toDigits 16 n
  List.replicate (width - digits.length) '0' ++ digits

/-- The short escapes: a letter after the backslash. -/
def shortEscape? : Char → Option Char
  | '\x07' => some 'a'
  | '\x08' => some 'b'
  | '\x0c' => some 'f'
  | '\n' => some 'n'
  | '\r' => some 'r'
  | '\t' => some 't'
  | '\x0b' => some 'v'
  | _ => none

/-- The escaped form of a character between the quote marks `mark`. -/
def escapeChar (mark c : Char) : List Char :=
  if c = mark ∨ c = '\\' then ['\\', c]
  else if isPrintable c then [c]
  else match shortEscape? c with
    | some letter => ['\\', letter]
    | none =>
      if c.toNat < 0x80 then '\\' :: 'x' :: hexDigits 2 c.toNat
      else if c.toNat < 0x10000 then '\\' :: 'u' :: hexDigits 4 c.toNat
      else '\\' :: 'U' :: hexDigits 8 c.toNat

/-- The escaped form of a symbol; a stray byte is given by its value. -/
def escape (mark : Char) : Symbol → List Char
  | .char c => escapeChar mark c
  | .stray b => '\\' :: 'x' :: hexDigits 2 b.toNat

/-- The text in double quotes. -/
def quote (t : Text) : String :=
  String.ofList (doubleMark :: (t.flatMap (escape doubleMark) ++ [doubleMark]))

/-- The string in double quotes. -/
def quoteString (s : String) : String :=
  quote (ofString s)

/-- The character in single quotes. -/
def quoteChar (c : Char) : String :=
  String.ofList (singleMark :: (escapeChar singleMark c ++ [singleMark]))

end Abacus.Text
