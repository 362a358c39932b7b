/-!
Fields: texts and integers that are brought to a width.
-/

namespace Abacus.Format

structure Flags where
  plus : Bool
  minus : Bool
  space : Bool
  zero : Bool
  sharp : Bool

/-- What a directive says besides its verb: flags, a width, and a number of places. -/
structure Field where
  flags : Flags
  width : Option Nat
  places : Option Nat

namespace Field

def fill (f : Field) (length : Nat) (c : Char) : String :=
  String.ofList (List.replicate (f.width.getD 0 - length) c)

/-- A text in the field: with blanks on the right, or else with zeros or blanks on the left. -/
def pad (f : Field) (text : String) : String :=
  if f.flags.minus then text ++ f.fill text.length ' '
  else f.fill text.length (if f.flags.zero then '0' else ' ') ++ text

/-- A text in the field, cut to as many characters as there are places. -/
def cut (f : Field) (text : String) : String :=
  f.pad (match f.places with
    | some n => String.ofList (text.toList.take n)
    | none => text)

def integerSign (f : Field) (negative : Bool) : String :=
  if negative then "-" else if f.flags.plus then "+" else if f.flags.space then " " else ""

/-- The least number of digits of an integer: the places, or else what fills the width with zeros. -/
def leastDigits (f : Field) (sign : String) : Nat :=
  match f.places with
  | some n => n
  | none => if f.flags.zero && !f.flags.minus then f.width.getD 0 - sign.length else 0

/-- An integer in the field, in a base and with a mark before its digits. Zero has no digits at all if there
are to be no places. -/
def integer (f : Field) (base : Nat) (mark : String) (negative : Bool) (n : Nat) : String :=
  let blank : Field := { f with flags := { f.flags with zero := false } }
  if n = 0 ∧ f.places = some 0 then blank.pad ""
  else
    let sign := f.integerSign negative
    let digits := (Nat.toDigits base n).leftpad (f.leastDigits sign) '0'
    blank.pad (sign ++ mark ++ String.ofList digits)

end Field

end Abacus.Format
