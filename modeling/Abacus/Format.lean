import Abacus.Error
import Abacus.Format.Record

/-!
Formats: how a session writes its results.

A format is text with directives in it. A directive is a percent sign, flags, a width, a precision and a verb.
There is one number to write. A directive may name it by `[1]`; without that the first directive
takes it. What is wrong with a format shows in the text that it produces, as a mark that begins
with `%!`.
-/

namespace Abacus

namespace Format

/-- The parts that a format is made of. -/
inductive Piece where
  | verbatim (s : Symbol)
  | convert (verb : Char) (style : Style) (field : Field)
  | typeName (field : Field)
  | address (field : Field)
  /-- A verb for errors, which shows the record of a number that is none. -/
  | badError (field : Field)
  | badVerb (verb : Char)
  | mark (text : String)
  /-- The number was never used. -/
  | unused

/-- What is known while a directive is read. -/
structure Progress where
  available : Bool
  named : Bool
  /-- All that this directive named exists. -/
  good : Bool
  afterIndex : Bool
deriving DecidableEq

def isFlag (s : Symbol) : Bool :=
  s == .char '+' || s == .char '-' || s == .char ' ' || s == .char '0' || s == .char '#'

def flagsOf (symbols : List Symbol) : Flags :=
  { plus := symbols.contains (.char '+')
    minus := symbols.contains (.char '-')
    space := symbols.contains (.char ' ')
    zero := symbols.contains (.char '0')
    sharp := symbols.contains (.char '#') }

def digit? : Symbol → Option Nat
  | .char c => if c.isDigit then some (c.toNat - '0'.toNat) else none
  | .stray _ => none

/-- Reads the digits of a number. One that grows beyond a million before its last digit is too large. -/
def readDigits : (value : Nat) → List Symbol → Option Nat × List Symbol
  | value, [] => (some value, [])
  | value, s :: rest =>
    match digit? s with
    | none => (some value, s :: rest)
    | some d => if value > 1000000 then (none, []) else readDigits (10 * value + d) rest

/-- Reads a number, if there is one. After one that is too large nothing of the format is left. -/
def readNumber (text : List Symbol) : Option Nat × List Symbol :=
  match text with
  | [] => (none, [])
  | s :: _ => if (digit? s).isSome then readDigits 0 text else (none, text)

def splitBracket : List Symbol → Option (List Symbol × List Symbol)
  | [] => none
  | s :: rest =>
    if s = .char ']' then some ([], rest)
    else (splitBracket rest).map fun (inside, after) => (s :: inside, after)

/-- Reads the name of a number, if there is one. Only `[1]` names an existing one. -/
def readIndex (p : Progress) (text : List Symbol) : Progress × List Symbol :=
  match text with
  | .char '[' :: rest =>
    let bad := { p with named := true, good := false, afterIndex := false }
    match if rest.length < 2 then none else splitBracket rest with
    | none => (bad, rest)
    | some (inside, after) =>
      match readNumber inside with
      | (some 1, []) => ({ p with named := true, available := true, afterIndex := true }, after)
      | (some _, []) => ({ bad with afterIndex := true }, after)
      | _ => (bad, after)
  | _ => ({ p with afterIndex := false }, text)

/-- Reads a width. A star takes the number for it, which is no width. -/
def readWidth (p : Progress) (text : List Symbol) :
    Progress × List Piece × Option Nat × List Symbol :=
  match text with
  | .char '*' :: rest =>
    ({ p with available := false, afterIndex := false }, [.mark "%!(BADWIDTH)"], none, rest)
  | _ =>
    let (width, rest) := readNumber text
    ({ p with good := p.good && !(p.afterIndex && width.isSome) }, [], width, rest)

/-- Reads a precision: a point, and then digits, a star, or nothing. The point at the end of a format is no
precision. -/
def readPlaces (p : Progress) (text : List Symbol) :
    Progress × List Piece × Option Nat × List Symbol :=
  match text with
  | .char '.' :: next :: rest =>
    let (p, text) := readIndex { p with good := p.good && !p.afterIndex } (next :: rest)
    match text with
    | .char '*' :: rest =>
      ({ p with available := false, afterIndex := false }, [.mark "%!(BADPREC)"], none, rest)
    | _ =>
      let (places, rest) := readNumber text
      (p, [], some (places.getD 0), rest)
  | _ => (p, [], none, text)

def styleOf? : Char → Option Style
  | 'e' => some (.scientific false)
  | 'E' => some (.scientific true)
  | 'f' => some .fixed
  | 'F' => some .fixed
  | 'g' => some (.general false)
  | 'v' => some (.general false)
  | 'G' => some (.general true)
  | 'b' => some .integerBinary
  | 'x' => some .hexBinary
  | _ => none

def pieceOf (verb : Char) (field : Field) : Piece :=
  match styleOf? verb, verb with
  | some style, _ => .convert verb style field
  | none, 'T' => .typeName field
  | none, 'p' => .address field
  | none, 'w' => .badError field
  | none, _ => .badVerb verb

def verbMark (verb : Char) (what : String) : Piece :=
  .mark (String.ofList ['%', '!', verb] ++ "(" ++ what ++ ")")

def readVerb (p : Progress) (field : Field) : List Symbol → Progress × List Piece × List Symbol
  | [] => (p, [.mark "%!(NOVERB)"], [])
  | s :: rest =>
    let verb := s.toChar
    if verb = '%' then (p, [.verbatim (.char '%')], rest)
    else if !p.good then (p, [verbMark verb "BADINDEX"], rest)
    else if !p.available then (p, [verbMark verb "MISSING"], rest)
    else ({ p with available := false }, [pieceOf verb field], rest)

def readDirective (p : Progress) (text : List Symbol) : Progress × List Piece × List Symbol :=
  let flags := flagsOf (text.takeWhile isFlag)
  let (p, text) := readIndex { p with good := true } (text.dropWhile isFlag)
  let (p, widthPieces, width, text) := readWidth p text
  let (p, placesPieces, places, text) := readPlaces p text
  let (p, text) := if p.afterIndex then (p, text) else readIndex p text
  let (p, verbPieces, text) := readVerb p { flags, width, places } text
  (p, widthPieces ++ placesPieces ++ verbPieces, text)

theorem readDigits_length (value : Nat) (text : List Symbol) :
    (readDigits value text).2.length ≤ text.length := by
  fun_induction readDigits value text <;> simp_all
  omega

theorem readNumber_length (text : List Symbol) : (readNumber text).2.length ≤ text.length := by
  unfold readNumber
  split
  · simp
  · split
    · exact readDigits_length ..
    · simp

theorem splitBracket_length {text inside after : List Symbol}
    (h : splitBracket text = some (inside, after)) : after.length ≤ text.length := by
  fun_induction splitBracket text generalizing inside with
  | case1 => simp at h
  | case2 => simp_all
  | case3 s rest _ ih =>
    obtain ⟨⟨inside', after'⟩, hr, heq⟩ := Option.map_eq_some_iff.1 h
    obtain ⟨rfl, rfl⟩ := Prod.mk.inj heq
    have := ih hr
    simp only [List.length_cons]
    omega

theorem readIndex_length (p : Progress) (text : List Symbol) :
    (readIndex p text).2.length ≤ text.length := by
  unfold readIndex
  split
  · rename_i rest
    simp only
    split
    · simp
    · rename_i inside after h
      have hs : splitBracket rest = some (inside, after) := by
        by_cases hl : rest.length < 2
        · simp [hl] at h
        · simpa [hl] using h
      have := splitBracket_length hs
      split <;> simp only [List.length_cons] <;> omega
  · simp

theorem readWidth_length (p : Progress) (text : List Symbol) :
    (readWidth p text).2.2.2.length ≤ text.length := by
  unfold readWidth
  split
  · simp
  · exact readNumber_length _

theorem readPlaces_length (p : Progress) (text : List Symbol) :
    (readPlaces p text).2.2.2.length ≤ text.length := by
  unfold readPlaces
  split
  · rename_i next rest
    have h := readIndex_length { p with good := p.good && !p.afterIndex } (next :: rest)
    simp only
    split
    · rename_i heq
      rw [heq] at h
      simp only [List.length_cons] at h ⊢
      omega
    · have h' := readNumber_length
        (readIndex { p with good := p.good && !p.afterIndex } (next :: rest)).2
      simp only [List.length_cons] at h ⊢
      omega
  · simp

theorem readVerb_length (p : Progress) (field : Field) (text : List Symbol) :
    (readVerb p field text).2.2.length ≤ text.length := by
  unfold readVerb
  split
  · simp
  · simp only
    split
    · simp
    · split
      · simp
      · split <;> simp

theorem readDirective_length (p : Progress) (text : List Symbol) :
    (readDirective p text).2.2.length ≤ text.length := by
  have h0 : (text.dropWhile isFlag).length ≤ text.length := (List.dropWhile_suffix isFlag).length_le
  simp only [readDirective]
  refine Nat.le_trans (readVerb_length ..) ?_
  have h1 := Nat.le_trans (readIndex_length { p with good := true } (text.dropWhile isFlag)) h0
  split
  · exact Nat.le_trans (readPlaces_length ..) (Nat.le_trans (readWidth_length ..) h1)
  · exact Nat.le_trans (readIndex_length ..)
      (Nat.le_trans (readPlaces_length ..) (Nat.le_trans (readWidth_length ..) h1))

def piecesFrom (p : Progress) (text : List Symbol) : List Piece :=
  match text with
  | [] => if p.available && !p.named then [.unused] else []
  | s :: rest =>
    if s = .char '%' then
      let directive := readDirective p rest
      directive.2.1 ++ piecesFrom directive.1 directive.2.2
    else .verbatim s :: piecesFrom p rest
termination_by text.length
decreasing_by
  · have := readDirective_length p rest
    simp only [List.length_cons]
    omega
  · simp

def pieces (format : Text) : List Piece :=
  piecesFrom { available := true, named := false, good := true, afterIndex := false } format

/-- The sign that a number is written with. Positive infinity shows one always. -/
def signText (flags : Flags) (x : Number) : String :=
  if x.neg then "-"
  else if x.isInfinite then (if flags.space then " " else "+")
  else if flags.plus then "+"
  else if flags.space then " "
  else ""

/-- Writes a number in a field: with zeros after the sign, with blanks on the right, or else with blanks on
the left. -/
def numberText (style : Style) (field : Field) (x : Number) : String :=
  let sign := signText field.flags x
  let size := if x.isInfinite then "Inf" else x.sizeText style field.places
  let fill := field.fill (sign.length + size.length)
  if field.flags.zero && !x.isInfinite then sign ++ fill '0' ++ size
  else if field.flags.minus then sign ++ size ++ fill ' '
  else fill ' ' ++ sign ++ size

/-- The field of a directive without anything but its verb. -/
def bareField : Field :=
  { flags := flagsOf [], width := none, places := none }

def faultMark (verb : Char) (f : Fault) : String :=
  String.ofList ['%', '!', verb] ++ "(PANIC=Format method: " ++ f.message ++ ")"

/-- What a verb writes for a number: the number itself, or that it cannot be written. -/
def conversionText (verb : Char) (style : Style) (field : Field) (x : Number) : String :=
  if x.hasText style field.places then numberText style field x else faultMark verb .noShortText

def numberType : String := "*big.Float"

/-- The address that is shown for every number, since a number is a value and has no place of its own. -/
def standingAddress : Nat := 0xC000012000

/-- An address in a field. The flag `#` takes its mark away. -/
def addressText (field : Field) : String :=
  field.integer 16 (if field.flags.sharp then "" else "0x") false standingAddress

def badVerbText (verb : Char) (operand : String) : String :=
  String.ofList ['%', '!', verb] ++ "(" ++ numberType ++ "=" ++ operand ++ ")"

/-- What a piece writes for a number, of which `rounding` says how it was rounded. -/
def Piece.render (x : Number) (rounding : Ordering) : Piece → Text
  | .verbatim s => [s]
  | .convert verb style field => Text.ofString (conversionText verb style field x)
  | .typeName field => Text.ofString (field.cut numberType)
  | .address field => Text.ofString (addressText field)
  | .badError field => Text.ofString (badVerbText 'w' (recordText field x rounding))
  | .badVerb verb => Text.ofString (badVerbText verb x.operandText)
  | .mark text => Text.ofString text
  | .unused =>
    Text.ofString ("%!(EXTRA " ++ numberType ++ "=" ++ conversionText 'v' (.general false) bareField x ++ ")")

def render (format : Text) (x : Number) (rounding : Ordering) : Text :=
  (pieces format).flatMap (Piece.render x rounding)

def Piece.showsRounding : Piece → Bool
  | .badError _ => true
  | _ => false

def showsRounding (format : Text) : Bool :=
  (pieces format).any Piece.showsRounding

def hasMark : Text → Bool
  | .char '%' :: .char '!' :: _ => true
  | _ :: rest => hasMark rest
  | [] => false

def probe : Number :=
  { prec := 53, neg := false, mag := .finite 3 (-1), words := 1 }

def trial (format : Text) : Text :=
  render format probe .eq

/-- Whether a format can be used for results: on the probe it leaves no mark and writes a digit. -/
def isValid (format : Text) : Bool :=
  !hasMark (trial format) && (trial format).any fun s => (digit? s).isSome

def invalidMessage (format : Text) : String :=
  "bad result format " ++ Text.quote format ++ ": formats 1.5 as " ++ Text.quote (trial format)

end Format

end Abacus
