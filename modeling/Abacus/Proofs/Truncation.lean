import Abacus.Proofs.Columns
import Abacus.Proofs.Parser.Line
import Mathlib

/-!
A source that breaks off is not taken for one that has come to its end.

What the characters before the break give does not depend on what would have come after them. So either they hold an
invalid token, which every text that begins with them has as well, or the break itself is what reading ends with.
-/

namespace Abacus.Lexer

variable {source : Source} {mode : Mode} {column : Nat} {text : List Char}

/-- What the characters of a text give from a column on, and what is being read after them. -/
def readOn (mode : Mode) (column : Nat) : List Char → List Item × Mode
  | [] => ([], mode)
  | c :: rest =>
    let (items, mode) := step {} column c mode
    let (later, mode) := readOn mode (column + 1) rest
    (items ++ later, mode)

/-- A character is read alike by all sources that can put it back, broken or not. -/
theorem step_eq (puts_back : source.putsBack = true) (column : Nat) (c : Char) (mode : Mode) :
    step source column c mode = step {} column c mode := by
  obtain ⟨broken, putsBack⟩ := source
  cases puts_back
  cases mode <;> rfl

/-- What comes after some characters has no influence on what they give. -/
theorem scanFrom_append (puts_back : source.putsBack = true) (mode : Mode) (column : Nat) (text more : List Char) :
    scanFrom source mode column (text ++ more) =
      (readOn mode column text).1 ++ scanFrom source (readOn mode column text).2 (column + text.length) more := by
  induction text generalizing mode column with
  | nil => rfl
  | cons c rest ih =>
    have reached : column + (c :: rest).length = column + 1 + rest.length := by
      rw [List.length_cons]
      omega
    change (step source column c mode).1 ++ scanFrom source (step source column c mode).2 (column + 1) (rest ++ more) =
      ((step {} column c mode).1 ++ (readOn (step {} column c mode).2 (column + 1) rest).1) ++ scanFrom source _ _ more
    rw [step_eq puts_back, ih, reached, List.append_assoc]
    rfl

theorem readOn_inner (numeric : mode.Numeric) (column : Nat) (text : List Char) :
    ∀ item ∈ (readOn mode column text).1, item.Inner {} := by
  induction text generalizing mode column with
  | nil => simp [readOn]
  | cons c rest ih =>
    obtain ⟨inner, next_numeric⟩ := steps_step numeric {} column c
    intro item inside
    rcases List.mem_append.mp inside with here | later
    · exact inner item here
    · exact ih next_numeric (column + 1) item later

theorem Item.Inner.isLast_eq_false {item : Item} (inner : item.Inner {}) : item.isLast = false := by
  cases inner with
  | token => rfl
  | invalid => rfl
  | putBackFailed stuck => cases stuck

theorem Item.Inner.ne_ending {item : Item} (inner : item.Inner {}) (column : Nat) : item ≠ tokenAt column .ending := by
  rintro rfl
  generalize same : tokenAt column .ending = item at inner
  cases inner with
  | token column l_inner =>
    cases same
    exact l_inner.ne_ending rfl
  | invalid => cases same
  | putBackFailed => cases same

/-- A text is read as the items of its first characters, and then what the rest gives. -/
theorem scan_append (puts_back : source.putsBack = true) (text more : List Char) :
    scan source (text ++ more) =
      (readOn .between 1 text).1 ++
        upToLast (scanFrom source (readOn .between 1 text).2 (1 + text.length) more) := by
  have inner := readOn_inner (show Mode.between.Numeric from trivial) 1 text
  rw [scan, scanFrom_append puts_back]
  exact upToLast_append (fun item inside => (inner item inside).isLast_eq_false) _

/-- Where the source breaks off, reading ends with the break. -/
theorem scan_broken (text : List Char) :
    ∃ start, scan { broken := true } text = (readOn .between 1 text).1 ++ [.readFailed start] := by
  have whole : scan { broken := true } (text ++ []) = _ := scan_append rfl text []
  rw [List.append_nil] at whole
  exact ⟨_, whole⟩

/-- Characters that come from a source which then breaks off are never read as a whole text. Reading them fails, with
the break or with an invalid token that every text beginning with these characters has too; and no end is met. -/
theorem broken_source_fails (input : List Char) (k : Nat) :
    (∃ failure, tokenize { broken := true } (input.take k) = .error failure ∧
        Parser.parse { broken := true } (input.take k) = .error failure ∧
        (failure = .readFailed ∨
          ∃ shown kind last, failure = .input (.token shown kind last) ∧
            ∀ more, tokenize {} (input.take k ++ more) = .error failure)) ∧
      ∀ column, tokenAt column .ending ∉ scan { broken := true } (input.take k) := by
  generalize input.take k = text
  obtain ⟨start, broken⟩ := scan_broken text
  have inner := readOn_inner (show Mode.between.Numeric from trivial) 1 text
  constructor
  · rcases collect_append inner with ⟨e, -, -, fails⟩ | ⟨tokens, -, kept⟩
    · have tokenized : tokenize { broken := true } text = .error (.input e) := by
        rw [tokenize, broken, fails]
      have whole_fails : ∀ more, tokenize {} (text ++ more) = .error (.input e) := by
        intro more
        rw [tokenize, scan_append rfl, fails]
      -- the text without more is one of these, so the error is about a token
      have text_fails := whole_fails []
      rw [List.append_nil] at text_fails
      obtain ⟨shown, kind, last, rfl⟩ := token_of_tokenize text_fails
      exact ⟨_, tokenized, Parser.parse_of_failure tokenized, .inr ⟨shown, kind, last, rfl, whole_fails⟩⟩
    · have tokenized : tokenize { broken := true } text = .error .readFailed := by
        rw [tokenize, broken, kept]
        rfl
      exact ⟨_, tokenized, Parser.parse_of_failure tokenized, .inl rfl⟩
  · intro column inside
    rw [broken] at inside
    rcases List.mem_append.mp inside with before | last
    · exact (inner _ before).ne_ending column rfl
    · simp [tokenAt] at last

-- a point before the break could still begin a number, but not with a letter after it
example : tokenize { broken := true } "2 .".toList = .error .readFailed ∧
    tokenize { broken := true } "2 .x".toList = .error (.input (.token ".x" "number" 4)) := by
  decide

end Abacus.Lexer
