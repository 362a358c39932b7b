import Abacus.Proofs.Numerals
import Abacus.Proofs.Outcomes
import Mathlib

/-!
What cutting a text into tokens gives, for every text and every source.

Reading a character gives items of few kinds, and never the end. So the end comes once and last, and every number
before it is a numeral.
-/

namespace Abacus

theorem Text.toChars_ofString (s : String) : (Text.ofString s).toChars = s.toList := by
  simp [Text.ofString, Text.toChars, Function.comp_def, Symbol.toChar]

/-- A lexeme before the end of a text; its number, if it has one, is a numeral. -/
structure Lexeme.Inner (l : Lexeme) : Prop where
  ne_ending : l ≠ .ending
  numeral : ∀ text, l = .number text → Number.isNumeral text.toList = true

namespace Lexer

variable {source : Source} {tokens : List Token} {column start : Nat} {c : Char} {taken : List Char}

/-- What reading a character can give. -/
inductive Item.Inner (source : Source) : Item → Prop
  | token {l : Lexeme} (column : Nat) (inner : l.Inner) : Item.Inner source (tokenAt column l)
  | invalid (e : InputError) (start : Nat) : Item.Inner source (.invalid e start)
  | putBackFailed (stuck : source.putsBack = false) : Item.Inner source .putBackFailed

/-- A number that is being read can become a numeral. -/
def Mode.Numeric : Mode → Prop
  | .number _ taken => Number.digitsAndPoint taken = true
  | _ => True

theorem isNumeral_of_taken (numeric : Number.digitsAndPoint taken = true)
    (some_digit : taken.any Char.isDigit = true) :
    Number.isNumeral (String.ofList taken.reverse).toList = true := by
  rw [String.toList_ofList, Number.isNumeral, Number.digitsAndPoint_reverse, List.any_reverse, numeric, some_digit]
  rfl

theorem numberAt_inner (numeric : Number.digitsAndPoint taken = true) (column : Nat) :
    (numberAt start column taken).Inner source := by
  unfold numberAt
  split
  · rename_i some_digit
    refine .token start ⟨nofun, ?_⟩
    rintro _ ⟨⟩
    exact isNumeral_of_taken numeric some_digit
  · exact .invalid _ _

theorem nameAt_inner : (nameAt start taken).Inner source :=
  .token start ⟨nofun, nofun⟩

theorem assign_inner : (tokenAt start .assign).Inner source :=
  .token start ⟨nofun, nofun⟩

/-- The items that reading a character gives, and what is being read after it. -/
def Steps (source : Source) (read : List Item × Mode) : Prop :=
  (∀ item ∈ read.1, item.Inner source) ∧ read.2.Numeric

theorem steps_nothing {mode : Mode} (numeric : mode.Numeric) : Steps source ([], mode) :=
  ⟨by simp, numeric⟩

theorem steps_item {item : Item} (inner : item.Inner source) : Steps source ([item], .between) :=
  ⟨by simpa using inner, trivial⟩

theorem steps_openWith (source : Source) (column : Nat) (c : Char) :
    Steps source (openWith source column c) := by
  unfold openWith
  split
  · exact steps_nothing trivial
  split
  · rename_i digit_or_point
    split
    · exact steps_nothing (Number.digitsAndPoint_cons rfl (by simpa using digit_or_point))
    · rename_i stuck
      exact steps_item (.putBackFailed (by simpa using stuck))
  split
  · split
    · exact steps_nothing trivial
    · rename_i stuck
      exact steps_item (.putBackFailed (by simpa using stuck))
  split
  · exact steps_nothing trivial
  split
  · exact steps_item (.token column ⟨nofun, nofun⟩)
  split
  · exact steps_item (.token column ⟨nofun, nofun⟩)
  split
  · exact steps_item (.token column ⟨nofun, nofun⟩)
  · exact steps_item (.invalid _ _)

theorem steps_closeBefore {item : Item} (inner : item.Inner source) (column : Nat) (c : Char) :
    Steps source (closeBefore source column c item) := by
  unfold closeBefore
  split
  · obtain ⟨items_inner, numeric⟩ := steps_openWith source column c
    exact ⟨List.forall_mem_cons.mpr ⟨inner, items_inner⟩, numeric⟩
  · rename_i stuck
    exact steps_item (.putBackFailed (by simpa using stuck))

/-- What one character does, whatever is being read. -/
theorem steps_step {mode : Mode} (numeric : mode.Numeric) (source : Source) (column : Nat) (c : Char) :
    Steps source (step source column c mode) := by
  cases mode with
  | between => exact steps_openWith source column c
  | number start taken =>
    have taken_numeric : Number.digitsAndPoint taken = true := numeric
    rw [step]
    split
    · rename_i fits
      exact steps_nothing (Number.digitsAndPoint_cons taken_numeric (by simpa using fits))
    · split
      · exact steps_item (.invalid _ _)
      · exact steps_closeBefore (numberAt_inner taken_numeric column) column c
  | name start taken =>
    rw [step]
    split
    · exact steps_nothing trivial
    · exact steps_closeBefore nameAt_inner column c
  | equals start =>
    rw [step]
    split
    · exact steps_item (.token start ⟨nofun, nofun⟩)
    · exact steps_closeBefore assign_inner column c

theorem pending_inner {mode : Mode} (numeric : mode.Numeric) (column : Nat) :
    ∀ item ∈ pending column mode, item.Inner source := by
  cases mode with
  | between => simp [pending]
  | number start taken => simpa [pending] using numberAt_inner numeric column
  | name start taken => simpa [pending] using nameAt_inner
  | equals start => simpa [pending] using assign_inner

/-- How cutting a text into tokens, or the part of it after a column, can end. -/
inductive Tokenized (source : Source) : Except Failure (List Token) → Prop
  | tokens (before : List Token) (column : Nat) (inner : ∀ t ∈ before, t.lexeme.Inner) :
      Tokenized source (.ok (before ++ [⟨.ending, column⟩]))
  | invalid (e : InputError) : Tokenized source (.error (.input e))
  | readFailed (broken : source.broken = true) : Tokenized source (.error .readFailed)
  | putBackFailed (stuck : source.putsBack = false) : Tokenized source (.error (.fault .unreadFailed))

theorem Tokenized.cons {t : Token} (inner : t.lexeme.Inner) {outcome : Except Failure (List Token)}
    (rest : Tokenized source outcome) : Tokenized source (outcome.map (t :: ·)) := by
  cases rest with
  | tokens before column before_inner =>
    exact .tokens (t :: before) column (List.forall_mem_cons.mpr ⟨inner, before_inner⟩)
  | invalid e => exact .invalid e
  | readFailed broken => exact .readFailed broken
  | putBackFailed stuck => exact .putBackFailed stuck

theorem tokenized_append {items rest : List Item} (inner : ∀ item ∈ items, item.Inner source)
    (after : Tokenized source (collect (upToLast rest))) :
    Tokenized source (collect (upToLast (items ++ rest))) := by
  induction items with
  | nil => exact after
  | cons item items ih =>
    obtain ⟨item_inner, items_inner⟩ := List.forall_mem_cons.mp inner
    cases item_inner with
    | @token l column l_inner =>
      change Tokenized source (if l = .ending then _ else _)
      rw [if_neg l_inner.ne_ending]
      exact (ih items_inner).cons l_inner
    | invalid e start => exact .invalid e
    | putBackFailed stuck => exact .putBackFailed stuck

theorem tokenized_finish {mode : Mode} (numeric : mode.Numeric) (column : Nat) :
    Tokenized source (collect (upToLast (finish source column mode))) := by
  unfold finish
  split
  · rename_i broken
    exact .readFailed broken
  · exact tokenized_append (pending_inner numeric column) (.tokens [] column (by simp))

theorem tokenized_scanFrom {mode : Mode} (numeric : mode.Numeric) (column : Nat) (text : List Char) :
    Tokenized source (collect (upToLast (scanFrom source mode column text))) := by
  induction text generalizing mode column with
  | nil => exact tokenized_finish numeric column
  | cons c text ih =>
    obtain ⟨inner, next_numeric⟩ := steps_step numeric source column c
    exact tokenized_append inner (ih next_numeric (column + 1))

theorem tokenized_tokenize (source : Source) (text : List Char) :
    Tokenized source (tokenize source text) :=
  tokenized_scanFrom (show Mode.between.Numeric from trivial) 1 text

/-- The last token is the end of the text. -/
def EndsText (tokens : List Token) : Prop :=
  ∃ before column, tokens = before ++ [⟨.ending, column⟩]

theorem endsText_tokenize {text : List Char} (success : tokenize source text = .ok tokens) :
    EndsText tokens := by
  have tokenized := tokenized_tokenize source text
  rw [success] at tokenized
  cases tokenized with
  | tokens before column => exact ⟨before, column, rfl⟩

/-- Every number token is a numeral. -/
theorem isNumeral_of_tokenize {text : List Char} (success : tokenize source text = .ok tokens)
    {t : Token} (inside : t ∈ tokens) {number : String} (lexeme : t.lexeme = .number number) :
    Number.isNumeral number.toList = true := by
  have tokenized := tokenized_tokenize source text
  rw [success] at tokenized
  cases tokenized with
  | tokens before column inner =>
    rcases List.mem_append.mp inside with inside | last
    · exact (inner t inside).numeral number lexeme
    · rw [List.mem_singleton.mp last] at lexeme
      cases lexeme

theorem openWith_of_source (source : Source) (column : Nat) (c : Char) :
    openWith source column c = openWith {} column c ∨ openWith source column c = ([.putBackFailed], .between) := by
  obtain ⟨broken, _ | _⟩ := source
  · unfold openWith
    split
    · exact .inl rfl
    split
    · exact .inr rfl
    split
    · exact .inr rfl
    · exact .inl rfl
  · exact .inl rfl

/-- A character does what it does in a text from memory, unless it cannot be put back. -/
theorem step_of_source (source : Source) (column : Nat) (c : Char) (mode : Mode) :
    step source column c mode = step {} column c mode ∨ step source column c mode = ([.putBackFailed], .between) := by
  have closes (item : Item) : closeBefore source column c item = closeBefore {} column c item ∨
      closeBefore source column c item = ([.putBackFailed], .between) := by
    obtain ⟨broken, _ | _⟩ := source
    · exact .inr rfl
    · exact .inl rfl
  cases mode with
  | between => exact openWith_of_source source column c
  | number start taken =>
    rw [step, step]
    split
    · exact .inl rfl
    split
    · exact .inl rfl
    · exact closes _
  | name start taken =>
    rw [step, step]
    split
    · exact .inl rfl
    · exact closes _
  | equals start =>
    rw [step, step]
    split
    · exact .inl rfl
    · exact closes _

/-- Items before the rest do not tell apart two texts whose rests are cut into the same tokens. -/
theorem collect_append_of_rest {items rest rest' : List Item}
    (after : ∀ {tokens}, collect (upToLast rest) = .ok tokens → collect (upToLast rest') = .ok tokens)
    (success : collect (upToLast (items ++ rest)) = .ok tokens) : collect (upToLast (items ++ rest')) = .ok tokens := by
  induction items generalizing tokens with
  | nil => exact after success
  | cons item items ih =>
    cases item with
    | token t =>
      change (if t.lexeme = .ending then _ else _) = _ at success
      change (if t.lexeme = .ending then _ else _) = _
      split at success
      · rw [if_pos ‹_›]
        exact success
      · rw [if_neg ‹_›]
        obtain ⟨others, collected, rfl⟩ := Except.map_eq_ok_iff.mp success
        exact Except.map_eq_ok_iff.mpr ⟨others, ih collected, rfl⟩
    | invalid | readFailed | putBackFailed => cases success
    | exhausted => exact success

theorem collect_scanFrom_of_source {mode : Mode} {text : List Char}
    (success : collect (upToLast (scanFrom source mode column text)) = .ok tokens) :
    collect (upToLast (scanFrom {} mode column text)) = .ok tokens := by
  induction text generalizing mode column tokens with
  | nil =>
    obtain ⟨_ | _, _⟩ := source
    · exact success
    · cases success
  | cons c text ih =>
    rw [scanFrom] at success ⊢
    rcases step_of_source source column c mode with same | stuck
    · rw [same] at success
      exact collect_append_of_rest ih success
    · rw [stuck] at success
      cases success

/-- Where a source lets the text through, the tokens are those of the text. -/
theorem tokenize_of_source {text : List Char} (success : tokenize source text = .ok tokens) :
    tokenize {} text = .ok tokens :=
  collect_scanFrom_of_source success

end Lexer

end Abacus
