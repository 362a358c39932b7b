import Abacus.Text.Basic

/-!
Keys of a terminal, and the characters that a terminal sends for them.

Most keys send one character; the arrow keys and the like send an escape sequence. Pasted text comes
between two sequences of its own, and only the return key has a meaning inside of it.
-/

namespace Abacus

/-- What a key does. -/
inductive Key where
  | char (c : Char)
  | enter
  | interrupt
  /-- Ends the input on an empty line, and erases the character at the cursor on any other. -/
  | endOfInput
  | left
  | right
  | wordLeft
  | wordRight
  | lineStart
  | lineEnd
  | backspace
  | eraseWord
  | eraseBefore
  | eraseAfter
  | older
  | newer
  | redraw
  | pasteStart
  | pasteEnd
  | other
deriving DecidableEq

namespace Key

def escapeChar : Char := '\x1b'

/-- What stands for bytes that are no character, and for an unknown key in pasted text. -/
def replacement : Char := Char.ofNat 0xFFFD

def ofControl (code : Nat) : Key :=
  match code with
  | 1 => .lineStart
  | 2 => .left
  | 3 => .interrupt
  | 4 => .endOfInput
  | 5 => .lineEnd
  | 6 => .right
  | 8 => .backspace
  | 11 => .eraseAfter
  | 12 => .redraw
  | 13 => .enter
  | 14 => .newer
  | 16 => .older
  | 21 => .eraseBefore
  | 23 => .eraseWord
  | 127 => .backspace
  | _ => .other

def ofChar (pasting : Bool) (c : Char) : Key :=
  if pasting then if c = '\r' then .enter else .char c
  else if c.toNat < 32 ∨ c.toNat = 127 then ofControl c.toNat
  else .char c

/-- What follows the escape character for the keys that have a sequence. -/
def sequences (pasting : Bool) : List (String × Key) :=
  if pasting then [("[201~", .pasteEnd)]
  else
    [("[A", .older), ("[B", .newer), ("[C", .right), ("[D", .left), ("[H", .lineStart), ("[F", .lineEnd),
     ("[1;3C", .wordRight), ("[1;3D", .wordLeft), ("[200~", .pasteStart)]

def afterWord? (word : String) (input : List Symbol) : Option (List Symbol) :=
  let symbols := Text.ofString word
  if symbols.isPrefixOf input then some (input.drop symbols.length) else none

/-- A letter or a tilde ends an escape sequence. -/
def endsSequence : Symbol → Bool
  | .char c => c.isAlpha || c == '~'
  | .stray _ => false

/-- The text after an unknown escape sequence, if that is complete. -/
def afterSequence? : List Symbol → Option (List Symbol)
  | [] => none
  | s :: rest => if endsSequence s then some rest else afterSequence? rest

/-- The key of the escape sequence that the text begins with, and the text after it. -/
def ofSequence? (pasting : Bool) (input : List Symbol) : Option (Key × List Symbol) :=
  match (sequences pasting).findSome? fun (word, key) => (afterWord? word input).map (key, ·) with
  | some found => some found
  | none => (afterSequence? input).map (if pasting then .char replacement else .other, ·)

/-- The next key and the text after it. There is none where the text ends, where an escape sequence is
not complete, or where there is no proper character. -/
def next? (pasting : Bool) : List Symbol → Option (Key × List Symbol)
  | [] => none
  | .stray _ :: _ => none
  | .char c :: rest =>
    if c = replacement then none
    else if c = escapeChar then ofSequence? pasting rest
    else some (ofChar pasting c, rest)

theorem afterWord?_length {word : String} {input after : List Symbol}
    (h : afterWord? word input = some after) : after.length ≤ input.length := by
  simp only [afterWord?, Option.ite_none_right_eq_some, Option.some.injEq] at h
  rw [← h.2, List.length_drop]
  omega

theorem afterSequence?_length {input after : List Symbol} (h : afterSequence? input = some after) :
    after.length ≤ input.length := by
  fun_induction afterSequence? input with
  | case1 => simp at h
  | case2 => simp_all
  | case3 _ rest _ ih =>
    have := ih h
    simp only [List.length_cons]
    omega

theorem ofSequence?_length {pasting : Bool} {input after : List Symbol} {key : Key}
    (h : ofSequence? pasting input = some (key, after)) : after.length ≤ input.length := by
  unfold ofSequence? at h
  split at h
  · rename_i found known
    obtain ⟨⟨word, candidate⟩, _, here⟩ := List.exists_of_findSome?_eq_some known
    obtain ⟨rest, word_found, pair⟩ := Option.map_eq_some_iff.1 here
    obtain rfl := Option.some.inj h
    obtain ⟨_, rfl⟩ := Prod.mk.inj pair
    exact afterWord?_length word_found
  · obtain ⟨rest, ended, pair⟩ := Option.map_eq_some_iff.1 h
    obtain ⟨_, rfl⟩ := Prod.mk.inj pair
    exact afterSequence?_length ended

theorem next?_length {pasting : Bool} {input after : List Symbol} {key : Key}
    (h : next? pasting input = some (key, after)) : after.length < input.length := by
  unfold next? at h
  split at h
  · simp at h
  · simp at h
  · split at h
    · simp at h
    · split at h
      · exact Nat.lt_succ_of_le (ofSequence?_length h)
      · simp only [Option.some.injEq, Prod.mk.injEq] at h
        obtain ⟨_, rfl⟩ := h
        simp

end Key

end Abacus
