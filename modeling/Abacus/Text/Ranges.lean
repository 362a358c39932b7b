/-!
Sets of characters given as inclusive ranges of code points.
-/

namespace Abacus.Text

/-- An increasing list of inclusive ranges of code points. -/
abbrev Ranges := List (Nat × Nat)

/-- Whether the code point of `c` lies in one of the ranges. The search stops at the first range that
begins above it. -/
def Ranges.has : Ranges → Char → Bool
  | [], _ => false
  | (low, high) :: rest, c =>
    if c.toNat < low then false else if c.toNat ≤ high then true else Ranges.has rest c

end Abacus.Text
