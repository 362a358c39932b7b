import Abacus.Format.Field
import Abacus.Number.Basic

/-!
The record of a number: the parts that it is stored by.

The parts are the precision, the way of rounding, which is always 0 for the nearest number, whether the number
was rounded down or up, what form of number it is, the sign, the significand in words of 64 bits from the
lowest one on, and the exponent.
-/

namespace Abacus.Format

inductive Part where
  | natural (n : Nat)
  | integer (z : Int)
  | truth (b : Bool)
  | words (ws : List Nat)

/-- The `count` lowest words of a number, the lowest first. -/
def wordsOf : (count : Nat) → Nat → List Nat
  | 0, _ => []
  | count + 1, n => n % (1 <<< 64) :: wordsOf count (n >>> 64)

/-- The parts that depend on the size. The significand fills its words from the highest bit on. -/
def sizeParts (x : Number) : Nat × List Nat × Int :=
  match x.mag with
  | .zero => (0, [], 0)
  | .finite m e =>
    (1, wordsOf x.words (m <<< (64 * x.words - bitLength m)), Magnitude.exponentOf m e)
  | .infinite => (2, [], 0)

def directionCode : Ordering → Int
  | .lt => -1
  | .eq => 0
  | .gt => 1

/-- The parts of a number, by their names; `rounding` says how it was rounded. -/
def parts (x : Number) (rounding : Ordering) : List (String × Part) :=
  let (form, words, exponent) := sizeParts x
  [("prec", .natural x.prec), ("mode", .natural 0), ("acc", .integer (directionCode rounding)),
   ("form", .natural form), ("neg", .truth x.neg), ("mant", .words words), ("exp", .integer exponent)]

/-- A natural number in a record; with the flag `#` it is hexadecimal. -/
def naturalText (f : Field) (n : Nat) : String :=
  if f.flags.sharp then f.integer 16 "0x" false n else f.integer 10 "" false n

def wordsText (f : Field) (ws : List Nat) : String :=
  let texts := ws.map (naturalText f)
  if !f.flags.sharp then "[" ++ " ".intercalate texts ++ "]"
  else if ws.isEmpty then "big.nat(nil)"
  else "big.nat\x7b" ++ ", ".intercalate texts ++ "\x7d"

def Part.text (f : Field) : Part → String
  | .natural n => naturalText f n
  | .integer z => f.integer 10 "" (z < 0) z.natAbs
  | .truth b => f.pad (if b then "true" else "false")
  | .words ws => wordsText f ws

/-- The record of a number. With the flag `+` or `#` it has the names of the parts, and with `#` also those of
the types. -/
def recordText (f : Field) (x : Number) (rounding : Ordering) : String :=
  let named := f.flags.plus || f.flags.sharp
  let inner : Field := { f with flags := { f.flags with plus := false } }
  let texts := (parts x rounding).map fun (name, part) =>
    (if named then name ++ ":" else "") ++ part.text inner
  "&" ++ (if f.flags.sharp then "big.Float" else "") ++ "\x7b"
    ++ (if f.flags.sharp then ", " else " ").intercalate texts ++ "\x7d"

end Abacus.Format
