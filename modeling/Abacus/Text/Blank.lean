import Abacus.Text.Ranges

/-!
White space: the characters with the Unicode property White_Space.
-/

namespace Abacus.Text

/-- The white space above U+007F. -/
def blankRanges : Ranges :=
  [(0x85, 0x85), (0xA0, 0xA0), (0x1680, 0x1680), (0x2000, 0x200A), (0x2028, 0x2029), (0x202F, 0x202F),
   (0x205F, 0x205F), (0x3000, 0x3000)]

def isBlank (c : Char) : Bool :=
  if c.toNat < 0x80 then c == ' ' || (0x09 ≤ c.toNat && c.toNat ≤ 0x0D) else blankRanges.has c

end Abacus.Text
