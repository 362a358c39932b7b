import Abacus.Text.Basic
import Abacus.Text.Digit
import Abacus.Text.Letter

/-!
Names: a letter or an underscore, and then letters, underscores and decimal digits of any script.
-/

namespace Abacus.Text

def isNameStart (c : Char) : Bool :=
  c == '_' || isLetter c

def isNamePart (c : Char) : Bool :=
  isNameStart c || isDigit c

/-- Whether the text can name a variable or a function. -/
def isName (t : Text) : Bool :=
  match t.toChars with
  | [] => false
  | first :: rest => isNameStart first && rest.all isNamePart

end Abacus.Text
