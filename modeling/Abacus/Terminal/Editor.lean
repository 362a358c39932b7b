import Abacus.Terminal.Key

/-!
The line editor of a terminal: the line that is being typed, and what has to be shown of it.

The editor echoes what is typed and delivers a line when the return key is pressed. It keeps track of the
place of the cursor on the screen, since a terminal does not move on by itself after the last column. Lines that
were entered can be recalled. What is pasted counts as typed, but a line of nothing but pasted text is
refused.
-/

namespace Abacus

/-- The state of the line editor. -/
structure Editor where
  prompt : List Char
  /-- What is before the cursor, the nearest character first. -/
  before : List Char := []
  after : List Char := []
  /-- The place of the cursor on the screen, counted from 0 at the beginning of the prompt. -/
  column : Nat := 0
  row : Nat := 0
  pasting : Bool := false
  /-- The lines that were entered, the latest first. -/
  history : List (List Char) := []
  /-- How many lines back the line that is shown was entered, or 0 for a new line. -/
  recalled : Nat := 0
  draft : List Char := []
  pending : List Char := []

namespace Editor

def width : Nat := 80

def historySize : Nat := 100

def line (t : Editor) : List Char :=
  t.before.reverse ++ t.after

/-- The number of columns that characters take; an escape sequence takes none. -/
def visualLength (inEscape : Bool) : List Char → Nat
  | [] => 0
  | c :: rest =>
    if inEscape then visualLength (!c.isAlpha) rest
    else if c = Key.escapeChar then visualLength true rest
    else visualLength false rest + 1

def send (chars : List Char) (t : Editor) : Editor :=
  { t with pending := t.pending ++ chars }

/-- Moves the cursor on after characters were shown. At the end of a row it has to be moved by hand. -/
def advance (places : Nat) (t : Editor) : Editor :=
  let column := (t.column + places) % width
  let t := { t with column, row := t.row + (t.column + places) / width }
  if places > 0 ∧ column = 0 then t.send ['\r', '\n'] else t

def showChars (chars : List Char) (t : Editor) : Editor :=
  if chars.isEmpty then t
  else
    let count := max 1 (width - t.column)
    let now := chars.take count
    showChars (chars.drop count) ((t.send now).advance (visualLength false now))
termination_by chars.length
decreasing_by
  have : chars ≠ [] := by simpa using ‹¬chars.isEmpty = true›
  have := List.length_pos_iff.2 this
  simp only [List.length_drop]
  omega

def moveBy (places : Nat) (direction : Char) : List Char :=
  if places = 0 then []
  else Key.escapeChar :: '[' :: (if places = 1 then [] else Nat.toDigits 10 places) ++ [direction]

def moveTo (count : Nat) (t : Editor) : Editor :=
  let place := visualLength false t.prompt + count
  let column := place % width
  let row := place / width
  let moves := moveBy (t.row - row) 'A' ++ moveBy (row - t.row) 'B'
    ++ moveBy (column - t.column) 'C' ++ moveBy (t.column - column) 'D'
  { t with column, row }.send moves

/-- Moves the cursor to where the editor has it. -/
def settle (t : Editor) : Editor :=
  t.moveTo t.before.length

def goLeft (count : Nat) (t : Editor) : Editor :=
  { t with
    before := t.before.drop count
    after := (t.before.take count).reverse ++ t.after }.settle

def goRight (count : Nat) (t : Editor) : Editor :=
  { t with
    before := (t.after.take count).reverse ++ t.before
    after := t.after.drop count }.settle

/-- The number of characters back to the beginning of a word. A space at the very beginning of the line belongs
to the word after it. -/
def wordBefore (t : Editor) : Nat :=
  let rest := (t.before.dropWhile (· == ' ')).dropWhile (· != ' ')
  if rest.length ≤ 1 then t.before.length else t.before.length - rest.length

def wordAfter (t : Editor) : Nat :=
  t.after.length - ((t.after.dropWhile (· != ' ')).dropWhile (· == ' ')).length

def addChar (c : Char) (t : Editor) : Editor :=
  { t.showChars (c :: t.after) with before := c :: t.before }.settle

/-- Takes `count` characters before the cursor off the line. The rest moves up, and blanks take its old place. -/
def erase (count : Nat) (t : Editor) : Editor :=
  if count = 0 then t
  else
    let t := { t with before := t.before.drop count }.settle
    (((t.showChars t.after).send (List.replicate count ' ')).advance count).settle

def eraseHere (t : Editor) : Editor :=
  match t.after with
  | [] => t
  | c :: after => { t with before := c :: t.before, after }.erase 1

def eraseAfter (t : Editor) : Editor :=
  { t.showChars (List.replicate t.after.length ' ') with after := [] }.settle

def showLine (before after : List Char) (t : Editor) : Editor :=
  let blanks := t.line.length - (before.length + after.length)
  let shown := ((t.moveTo 0).showChars (before.reverse ++ after)).showChars (List.replicate blanks ' ')
  { shown with before, after }.settle

def recallOlder (t : Editor) : Editor :=
  match t.history[t.recalled]? with
  | none => t
  | some line =>
    let draft := if t.recalled = 0 then t.line else t.draft
    { t.showLine line.reverse [] with recalled := t.recalled + 1, draft }

/-- Recalls the line after the one that is shown; after the latest one comes the new line. -/
def recallNewer (t : Editor) : Editor :=
  match t.recalled with
  | 0 => t
  | 1 => { t.showLine t.draft.reverse [] with recalled := 0 }
  | n + 2 =>
    match t.history[n]? with
    | none => t
    | some line => { t.showLine line.reverse [] with recalled := n + 1 }

def redraw (t : Editor) : Editor :=
  let cleared := t.send ("\x1b[2J\x1b[H".toList ++ t.prompt)
  let placed := { cleared with column := 0, row := 0 }.advance (visualLength false t.prompt)
  placed.showLine t.before t.after

def press (t : Editor) : Key → Editor
  | .char c => t.addChar c
  | .left => if t.before.isEmpty then t else t.goLeft 1
  | .right => if t.after.isEmpty then t else t.goRight 1
  | .wordLeft => t.goLeft t.wordBefore
  | .wordRight => t.goRight t.wordAfter
  | .lineStart => if t.before.isEmpty then t else t.goLeft t.before.length
  | .lineEnd => if t.after.isEmpty then t else t.goRight t.after.length
  | .backspace => t.erase (min 1 t.before.length)
  | .eraseWord => t.erase t.wordBefore
  | .eraseBefore => t.erase t.before.length
  | .eraseAfter => t.eraseAfter
  | .endOfInput => t.eraseHere
  | .older => t.recallOlder
  | .newer => t.recallNewer
  | .redraw => t.redraw
  | .enter | .interrupt | .pasteStart | .pasteEnd | .other => t

def endLine (t : Editor) : List Char × Editor :=
  let shown := (t.moveTo t.line.length).send ['\r', '\n']
  (t.line,
    { shown with
      before := []
      after := []
      column := 0
      row := 0
      history := (t.line :: t.history).take historySize
      recalled := 0 })

inductive Outcome where
  | line (chars : List Char)
  | pasted
  | ended
  | exhausted

/-- Reads keys up to the end of a line. `pastedOnly` says that the line has nothing but pasted text so far.
Returns what is left of the input. -/
def readKeys (pastedOnly : Bool) (t : Editor) (input : List Symbol) : Outcome × Editor × List Symbol :=
  match _found : Key.next? t.pasting input with
  | none => (.exhausted, t, [])
  | some (.interrupt, rest) => (.ended, t, rest)
  | some (.pasteStart, rest) =>
    readKeys (pastedOnly || t.line.isEmpty) { t with pasting := true } rest
  | some (.pasteEnd, rest) => readKeys pastedOnly { t with pasting := false } rest
  | some (.enter, rest) =>
    let (chars, t) := t.endLine
    (if pastedOnly && t.pasting then .pasted else .line chars, t, rest)
  | some (key, rest) =>
    if key = .endOfInput ∧ t.line.isEmpty then (.ended, t, rest)
    else readKeys (pastedOnly && t.pasting) (t.press key) rest
termination_by input.length
decreasing_by all_goals exact Key.next?_length _found

theorem readKeys_length {pastedOnly : Bool} {t t' : Editor} {input rest : List Symbol}
    {chars : List Char} (h : readKeys pastedOnly t input = (.line chars, t', rest)) :
    rest.length < input.length := by
  fun_induction readKeys pastedOnly t input <;> grind [→ Key.next?_length]

theorem line_goLeft (count : Nat) (t : Editor) : (t.goLeft count).line = t.line := by
  have back : (t.before.drop count).reverse ++ (t.before.take count).reverse = t.before.reverse := by
    rw [← List.reverse_append, List.take_append_drop]
  change (t.before.drop count).reverse ++ ((t.before.take count).reverse ++ t.after) = _
  rw [← List.append_assoc, back]
  rfl

theorem line_goRight (count : Nat) (t : Editor) : (t.goRight count).line = t.line := by
  change ((t.after.take count).reverse ++ t.before).reverse ++ t.after.drop count = _
  rw [List.reverse_append, List.reverse_reverse, List.append_assoc, List.take_append_drop]
  rfl

end Editor

end Abacus
