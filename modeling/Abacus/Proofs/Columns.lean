import Abacus.Proofs.Partition
import Mathlib

/-!
Where the tokens of a text are, and where it is not a token.

A text is cut into tokens up to the first invalid one. Both have their columns inside of the text, and only the end
has the column behind it.
-/

namespace Abacus.Lexer

variable {text : List Char} {items : List Item}

theorem Item.Stands.inner {item : Item} (stands : item.Stands text) : item.Inner {} := by
  cases stands with
  | @token column l begins proper some_text read stops =>
    refine .token column ⟨?_, ?_⟩
    · rintro rfl
      exact proper
    · rintro number rfl
      exact proper
  | invalid => exact .invalid _ _

/-- The first invalid item decides, whatever comes after it; without one the tokens are kept. -/
theorem collect_append (inner : ∀ item ∈ items, item.Inner {}) :
    (∃ e start, .invalid e start ∈ items ∧ ∀ rest, collect (items ++ rest) = .error (.input e)) ∨
      ∃ tokens, items = tokens.map .token ∧
        ∀ rest, collect (items ++ rest) = (collect rest).map (tokens ++ ·) := by
  induction items with
  | nil =>
    refine .inr ⟨[], rfl, fun rest => ?_⟩
    change collect rest = (collect rest).map id
    cases collect rest <;> rfl
  | cons item items ih =>
    obtain ⟨item_inner, items_inner⟩ := List.forall_mem_cons.mp inner
    cases item_inner with
    | @token l column l_inner =>
      have next : ∀ rest, collect (tokenAt column l :: items ++ rest) =
          (collect (items ++ rest)).map (⟨l, column⟩ :: ·) :=
        fun rest => if_neg l_inner.ne_ending
      rcases ih items_inner with ⟨e, start, inside, fails⟩ | ⟨tokens, rfl, kept⟩
      · refine .inl ⟨e, start, List.mem_cons_of_mem _ inside, fun rest => ?_⟩
        rw [next, fails]
        rfl
      · refine .inr ⟨⟨l, column⟩ :: tokens, rfl, fun rest => ?_⟩
        rw [next, kept]
        cases collect rest <;> rfl
    | invalid e start => exact .inl ⟨e, start, List.mem_cons_self .., fun rest => rfl⟩
    | putBackFailed stuck => cases stuck

/-- Something that stands in a text from a column on ends inside of it. -/
theorem column_add_length_le {shown : String} {column : Nat} (begins : 1 ≤ column) (some_text : shown ≠ "")
    (read : shown.toList <+: text.drop (column - 1)) : column + shown.length ≤ text.length + 1 := by
  have taken := read.length_le
  have positive : shown.length ≠ 0 := by simpa using some_text
  rw [List.length_drop, String.length_toList] at taken
  omega

/-- What cutting a text into tokens can give. -/
inductive Located (text : List Char) : Except Failure (List Token) → Prop
  | invalid (shown kind : String) {last : Int} (first_le : 1 ≤ last) (le_length : last ≤ text.length) :
      Located text (.error (.input (.token shown kind last)))
  | tokens (tokens : List Token) (inside : ∀ t ∈ tokens, 1 ≤ t.column ∧ t.column ≤ text.length)
      (blank : tokens = [] → ∀ c ∈ text, Text.isBlank c = true) :
      Located text (.ok (tokens ++ [⟨.ending, text.length + 1⟩]))

theorem located_tokenize (text : List Char) : Located text (tokenize {} text) := by
  obtain ⟨items, scanned, cut⟩ := cut_scan text
  have stands : ∀ item ∈ items, item.Stands text := cut.stands [] rfl
  rw [tokenize, scanned]
  rcases collect_append fun item inside => (stands item inside).inner with
    ⟨e, start, inside, fails⟩ | ⟨tokens, rfl, kept⟩
  · rw [fails]
    cases stands _ inside with
    | @invalid start shown kind last begins some_text read ends =>
      have within := column_add_length_le begins some_text read
      have positive : shown.length ≠ 0 := by simpa using some_text
      exact .invalid shown kind (by omega) (by omega)
  · rw [kept]
    refine .tokens tokens (fun t inside => ?_) ?_
    · have stands_t := stands _ (List.mem_map_of_mem inside)
      generalize same : Item.token t = item at stands_t
      cases stands_t with
      | invalid => cases same
      | @token column l begins proper some_text read stops =>
        cases same
        have within := column_add_length_le begins some_text read
        have positive : l.text.length ≠ 0 := by simpa using some_text
        change 1 ≤ column ∧ column ≤ text.length
        omega
    · rintro rfl c inside
      obtain ⟨i, found⟩ := List.mem_iff_getElem?.mp inside
      exact (cut.covered found).resolve_left (by simp)

theorem token_of_tokenize {e : InputError} (failed : tokenize {} text = .error (.input e)) :
    ∃ shown kind last, e = .token shown kind last := by
  have located := located_tokenize text
  rw [failed] at located
  cases located with
  | @invalid shown kind last => exact ⟨shown, kind, last, rfl⟩

end Abacus.Lexer
