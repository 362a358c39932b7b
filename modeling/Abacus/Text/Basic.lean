import Abacus.Text.Blank

/-!
Text as it comes in from outside: characters, and bytes that are part of no character.

Reading bytes loses nothing: a byte that does not belong to a well-formed UTF-8 sequence is kept by
itself as a stray byte. Where only characters count, a stray byte reads as U+FFFD.
-/

namespace Abacus

/-- One symbol of a text. -/
inductive Symbol where
  | char (c : Char)
  | stray (b : UInt8)
deriving DecidableEq, Inhabited

abbrev Text := List Symbol

namespace Symbol

/-- The bytes of a symbol in UTF-8. -/
def bytes : Symbol → List UInt8
  | .char c => String.utf8EncodeChar c
  | .stray b => [b]

/-- The character a symbol reads as. -/
def toChar : Symbol → Char
  | .char c => c
  | .stray _ => Char.ofNat 0xFFFD

end Symbol

namespace Text

/-- The character whose UTF-8 encoding the bytes begin with. -/
def firstChar? (bytes : List UInt8) : Option Char :=
  (bytes.take 4).toByteArray.utf8DecodeChar? 0

/-- Reads bytes as symbols, after passing over the first `skip` bytes. -/
def ofBytesAfter : (skip : Nat) → List UInt8 → Text
  | _, [] => []
  | skip + 1, _ :: rest => ofBytesAfter skip rest
  | 0, b :: rest =>
    match firstChar? (b :: rest) with
    | some c => .char c :: ofBytesAfter (c.utf8Size - 1) rest
    | none => .stray b :: ofBytesAfter 0 rest

def ofBytes (bytes : List UInt8) : Text :=
  ofBytesAfter 0 bytes

def toBytes (t : Text) : List UInt8 :=
  t.flatMap Symbol.bytes

theorem eq_append_of_firstChar? {bytes : List UInt8} {c : Char} (h : firstChar? bytes = some c) :
    ∃ rest, bytes = String.utf8EncodeChar c ++ rest := by
  have encoded := congrArg (fun b => b.data.toList) (ByteArray.eq_of_utf8DecodeChar?_eq_some h)
  simp only [ByteArray.data_append, Array.toList_append, List.data_toByteArray] at encoded
  exact ⟨_, by rw [← List.take_append_drop 4 bytes, encoded, List.append_assoc]⟩

theorem toBytes_ofBytesAfter (skip : Nat) (bytes : List UInt8) :
    (ofBytesAfter skip bytes).toBytes = bytes.drop skip := by
  induction bytes generalizing skip with
  | nil => simp [ofBytesAfter, toBytes]
  | cons b rest ih =>
    cases skip with
    | succ skip => simpa [ofBytesAfter] using ih skip
    | zero =>
      rw [ofBytesAfter]
      cases found : firstChar? (b :: rest) with
      | none => simpa [toBytes, Symbol.bytes] using ih 0
      | some c =>
        obtain ⟨after, split⟩ := eq_append_of_firstChar? found
        have positive := Char.utf8Size_pos c
        have tail : rest.drop (c.utf8Size - 1) = after :=
          calc rest.drop (c.utf8Size - 1)
            _ = (b :: rest).drop (c.utf8Size - 1 + 1) := (List.drop_succ_cons ..).symm
            _ = (String.utf8EncodeChar c ++ after).drop (String.utf8EncodeChar c).length := by
              rw [Nat.sub_add_cancel positive, split, String.length_utf8EncodeChar]
            _ = after := List.drop_left
        have step := ih (c.utf8Size - 1)
        rw [tail] at step
        simp only [toBytes, List.flatMap_cons, Symbol.bytes] at step ⊢
        rw [step, List.drop_zero, split]

/-- Reading bytes loses nothing. -/
theorem toBytes_ofBytes (bytes : List UInt8) : (ofBytes bytes).toBytes = bytes := by
  simpa [ofBytes] using toBytes_ofBytesAfter 0 bytes

def ofString (s : String) : Text :=
  s.toList.map .char

def toChars (t : Text) : List Char :=
  t.map Symbol.toChar

/-- The text as a string, with U+FFFD for each stray byte. -/
def toString (t : Text) : String :=
  String.ofList t.toChars

/-- Whether a symbol is white space. -/
def isBlankSymbol (s : Symbol) : Bool :=
  isBlank s.toChar

/-- Whether the text is nothing but white space. -/
def isAllBlank (t : Text) : Bool :=
  t.all isBlankSymbol

/-- The text without the white space at its two ends. -/
def trim (t : Text) : Text :=
  ((t.dropWhile isBlankSymbol).reverse.dropWhile isBlankSymbol).reverse

/-- The parts before and after the first `c`. -/
def cut? (c : Char) : Text → Option (Text × Text)
  | [] => none
  | s :: rest =>
    if s = .char c then some ([], rest)
    else (cut? c rest).map fun (before, after) => (s :: before, after)

/-- The parts between the occurrences of `c`; always at least one. -/
def splitAt (c : Char) : Text → List Text
  | [] => [[]]
  | s :: rest =>
    match splitAt c rest with
    | [] => [[s]]
    | part :: parts => if s = .char c then [] :: part :: parts else (s :: part) :: parts

end Text

end Abacus
