import Abacus.Error
import Abacus.Text.Name
import Abacus.Token.Basic

/-!
The lexer cuts a text into tokens, one character at a time.

A character either extends the token that is being read, or closes it and begins what comes next. An
invalid token does not end the reading: it goes on with the characters after it. A text can also be
read through a source that breaks off, or that cannot give a character back once it was looked at.
-/

namespace Abacus.Lexer

/-- How the characters come in. -/
structure Source where
  /-- After the last character reading fails, instead of meeting the end. -/
  broken : Bool := false
  /-- A character that was looked at can be put back. -/
  putsBack : Bool := true

/-- One result of reading on. -/
inductive Item where
  | token (t : Token)
  /-- No token; the column where it would have begun. -/
  | invalid (e : InputError) (start : Nat)
  /-- The source broke off inside or before a token that begins here. -/
  | readFailed (start : Nat)
  /-- The source could not put a character back. -/
  | putBackFailed
  /-- There is nothing after the end. -/
  | exhausted
deriving DecidableEq

/-- What is being read, with the column where it began and its characters so far, last first. -/
inductive Mode where
  | between
  | number (start : Nat) (taken : List Char)
  | name (start : Nat) (taken : List Char)
  | equals (start : Nat)
deriving DecidableEq

def tokenAt (column : Nat) (l : Lexeme) : Item :=
  .token { lexeme := l, column }

/-- An invalid token that was read from the column `start` on, and up to the column `reached`. -/
def invalidAt (start reached : Nat) (kind : String) (text : List Char) : Item :=
  .invalid (.token (String.ofList text) kind ((reached : Int) - 1)) start

/-- The number token that the characters make; a lone point makes none. -/
def numberAt (start reached : Nat) (taken : List Char) : Item :=
  if taken.any Char.isDigit then tokenAt start (.number (String.ofList taken.reverse))
  else invalidAt start reached "number" taken.reverse

def nameAt (start : Nat) (taken : List Char) : Item :=
  tokenAt start (.name (String.ofList taken.reverse))

/-- What the character in a column begins. -/
def openWith (source : Source) (column : Nat) (c : Char) : List Item × Mode :=
  if Text.isBlank c then ([], .between)
  else if c.isDigit || c == '.' then
    if source.putsBack then ([], .number column [c]) else ([.putBackFailed], .between)
  else if Text.isNameStart c then
    if source.putsBack then ([], .name column [c]) else ([.putBackFailed], .between)
  else if c == '=' then ([], .equals column)
  else if c == '(' then ([tokenAt column .openBracket], .between)
  else if c == ')' then ([tokenAt column .closeBracket], .between)
  else match Sign.ofChar? c with
    | some s => ([tokenAt column (.sign s)], .between)
    | none => ([invalidAt column (column + 1) "" [c]], .between)

/-- Closes a token before the character that cannot be part of it. -/
def closeBefore (source : Source) (column : Nat) (c : Char) (item : Item) : List Item × Mode :=
  if source.putsBack then
    let (items, mode) := openWith source column c
    (item :: items, mode)
  else ([.putBackFailed], .between)

/-- What the character in a column does to the token that is being read. -/
def step (source : Source) (column : Nat) (c : Char) : Mode → List Item × Mode
  | .between => openWith source column c
  | .number start taken =>
    if c.isDigit || (c == '.' && !taken.contains '.') then ([], .number start (c :: taken))
    else if c == '.' || Text.isNamePart c then
      ([invalidAt start (column + 1) "number" (c :: taken).reverse], .between)
    else closeBefore source column c (numberAt start column taken)
  | .name start taken =>
    if Text.isNamePart c then ([], .name start (c :: taken))
    else closeBefore source column c (nameAt start taken)
  | .equals start =>
    if c == '>' then ([tokenAt start .arrow], .between)
    else closeBefore source column c (tokenAt start .assign)

/-- The token that the end of the input closes. -/
def pending (column : Nat) : Mode → List Item
  | .between => []
  | .number start taken => [numberAt start column taken]
  | .name start taken => [nameAt start taken]
  | .equals start => [tokenAt start .assign]

/-- The column where the token that is being read began. -/
def Mode.start (column : Nat) : Mode → Nat
  | .between => column
  | .number start _ => start
  | .name start _ => start
  | .equals start => start

/-- What comes after the last character. -/
def finish (source : Source) (column : Nat) (mode : Mode) : List Item :=
  if source.broken then [.readFailed (mode.start column)]
  else pending column mode ++ [tokenAt column .ending, .exhausted]

/-- All results of reading on from a column. -/
def scanFrom (source : Source) (mode : Mode) (column : Nat) : List Char → List Item
  | [] => finish source column mode
  | c :: rest =>
    let (items, mode) := step source column c mode
    items ++ scanFrom source mode (column + 1) rest

def Item.isLast : Item → Bool
  | .readFailed _ => true
  | .putBackFailed => true
  | .exhausted => true
  | _ => false

/-- The list up to and with the first item that is the last. -/
def upToLast : List Item → List Item
  | [] => []
  | item :: rest => if item.isLast then [item] else item :: upToLast rest

/-- All results of reading a text: tokens and invalid tokens, and then the reason why it ended. -/
def scan (source : Source) (text : List Char) : List Item :=
  upToLast (scanFrom source .between 1 text)

/-- Why a text could not be cut into tokens. -/
inductive Failure where
  | input (e : InputError)
  | readFailed
  | fault (f : Fault)
deriving DecidableEq

namespace Failure

/-- Whether the text is the reason, and not its source. -/
def isInput : Failure → Bool
  | .input _ => true
  | _ => false

def inputError : (failure : Failure) → failure.isInput = true → InputError
  | .input e, _ => e

end Failure

/-- An outcome that only the text can be the reason for, if it is a failure. -/
def ofText {α : Type} : (outcome : Except Failure α) →
    (∀ failure, outcome = .error failure → failure.isInput = true) → Except InputError α
  | .ok a, _ => .ok a
  | .error failure, isInput => .error (failure.inputError (isInput failure rfl))

theorem eq_ofText {α : Type} (outcome : Except Failure α)
    (isInput : ∀ failure, outcome = .error failure → failure.isInput = true) :
    outcome = (ofText outcome isInput).mapError .input := by
  cases outcome with
  | ok a => rfl
  | error failure =>
    have from_text := isInput failure rfl
    cases failure with
    | input e => rfl
    | readFailed | fault => cases from_text

/-- The tokens up to and with the end, if there is nothing else before it. -/
def collect : List Item → Except Failure (List Token)
  | [] => .ok []
  | .token t :: rest =>
    if t.lexeme = .ending then .ok [t] else (collect rest).map (t :: ·)
  | .invalid e _ :: _ => .error (.input e)
  | .readFailed _ :: _ => .error .readFailed
  | .putBackFailed :: _ => .error (.fault .unreadFailed)
  | .exhausted :: _ => .ok []

/-- The tokens of a text, the last one being its end. -/
def tokenize (source : Source) (text : List Char) : Except Failure (List Token) :=
  collect (scan source text)

/-! ### Sources that never fail -/

/-- Whether the item is no failure of the source. -/
def Item.isSound : Item → Bool
  | .readFailed _ => false
  | .putBackFailed => false
  | _ => true

variable {items : List Item} {text : List Char} {failure : Failure}

theorem isSound_numberAt (start column : Nat) (taken : List Char) : (numberAt start column taken).isSound = true := by
  unfold numberAt
  split <;> rfl

theorem isSound_openWith (column : Nat) (c : Char) : (openWith {} column c).1.all Item.isSound = true := by
  simp only [openWith, ↓reduceIte]
  repeat' split
  all_goals rfl

theorem isSound_closeBefore (column : Nat) (c : Char) (item : Item) (sound : item.isSound = true) :
    (closeBefore {} column c item).1.all Item.isSound = true := by
  change (item :: (openWith {} column c).1).all Item.isSound = true
  rw [List.all_cons, sound, isSound_openWith]
  rfl

theorem isSound_step (column : Nat) (c : Char) (mode : Mode) : (step {} column c mode).1.all Item.isSound = true := by
  cases mode with
  | between => exact isSound_openWith column c
  | number start taken =>
    dsimp only [step]
    repeat' split
    · rfl
    · rfl
    · exact isSound_closeBefore column c _ (isSound_numberAt start column taken)
  | name start taken =>
    dsimp only [step]
    split
    · rfl
    · exact isSound_closeBefore column c (nameAt start taken) rfl
  | equals start =>
    dsimp only [step]
    split
    · rfl
    · exact isSound_closeBefore column c (tokenAt start .assign) rfl

theorem isSound_scanFrom (mode : Mode) (column : Nat) (text : List Char) :
    (scanFrom {} mode column text).all Item.isSound = true := by
  induction text generalizing mode column with
  | nil =>
    change (pending column mode ++ [tokenAt column .ending, .exhausted]).all Item.isSound = true
    cases mode with
    | number start taken =>
      change (numberAt start column taken :: [tokenAt column .ending, .exhausted]).all Item.isSound = true
      rw [List.all_cons, isSound_numberAt]
      rfl
    | between | name | equals => rfl
  | cons c rest ih =>
    change ((step {} column c mode).1 ++ scanFrom {} (step {} column c mode).2 (column + 1) rest).all _ = true
    rw [List.all_append, isSound_step, ih]
    rfl

theorem isSound_upToLast (sound : items.all Item.isSound = true) : (upToLast items).all Item.isSound = true := by
  induction items with
  | nil => rfl
  | cons item rest ih =>
    rw [List.all_cons, Bool.and_eq_true] at sound
    rw [upToLast]
    split
    · rw [List.all_cons, sound.1]
      rfl
    · rw [List.all_cons, sound.1, ih sound.2]
      rfl

theorem isInput_of_collect (sound : items.all Item.isSound = true) (failed : collect items = .error failure) :
    failure.isInput = true := by
  induction items with
  | nil => cases failed
  | cons item rest ih =>
    rw [List.all_cons, Bool.and_eq_true] at sound
    cases item with
    | token t =>
      rw [collect] at failed
      split at failed
      · cases failed
      · cases collected : collect rest with
        | ok tokens =>
          rw [collected] at failed
          cases failed
        | error other =>
          rw [collected] at failed
          cases failed
          exact ih sound.2 collected
    | invalid e start =>
      cases failed
      rfl
    | readFailed | putBackFailed => cases sound.1
    | exhausted => cases failed

/-- What is in memory can be read to its end, so only the text itself can be wrong. -/
theorem isInput_of_tokenize (failed : tokenize {} text = .error failure) : failure.isInput = true :=
  isInput_of_collect (isSound_upToLast (isSound_scanFrom ..)) failed

end Abacus.Lexer
