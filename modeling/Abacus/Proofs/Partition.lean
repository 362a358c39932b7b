import Abacus.Proofs.Lexer
import Mathlib

/-!
Cutting a text into tokens leaves nothing out but white space.

Every character belongs to one item, a token or an invalid token, or it is blank and stands between two items. A token
ends where no character after it could be part of it.
-/

namespace Abacus

namespace Text

theorem isName_iff {s : String} :
    isName (ofString s) = true ↔
      ∃ first rest, s.toList = first :: rest ∧ isNameStart first = true ∧ ∀ c ∈ rest, isNamePart c = true := by
  rw [isName, toChars_ofString]
  cases s.toList with
  | nil => simp
  | cons first rest => simp

theorem isNamePart_of_isName {s : String} (named : isName (ofString s) = true) :
    ∀ c ∈ s.toList, isNamePart c = true := by
  obtain ⟨first, rest, chars, start, parts⟩ := isName_iff.mp named
  rw [chars]
  exact List.forall_mem_cons.mpr ⟨by rw [isNamePart, start, Bool.true_or], parts⟩

/-- A name goes on with every part of a name. -/
theorem isName_concat {chars : List Char} {c : Char}
    (named : isName (ofString (String.ofList chars)) = true) (part : isNamePart c = true) :
    isName (ofString (String.ofList (chars ++ [c]))) = true := by
  obtain ⟨first, rest, same, start, parts⟩ := isName_iff.mp named
  rw [String.toList_ofList] at same
  refine isName_iff.mpr ⟨first, rest ++ [c], by rw [String.toList_ofList, same]; rfl, start, ?_⟩
  intro d inside
  rcases List.mem_append.mp inside with before | last
  · exact parts d before
  · rw [List.mem_singleton.mp last]
    exact part

end Text

namespace Lexeme

/-- The texts that the tokens before the end have. -/
def Proper : Lexeme → Prop
  | .ending => False
  | .number text => Number.isNumeral text.toList = true
  | .name text => Text.isName (Text.ofString text) = true
  | _ => True

/-- The character after a token, if there is one, is no part of it. -/
def Stops (l : Lexeme) (next : Option Char) : Prop :=
  ∀ c ∈ next, match l with
    | .number _ => c ≠ '.' ∧ Text.isNamePart c = false
    | .name _ => Text.isNamePart c = false
    | .assign => c ≠ '>'
    | _ => True

theorem Proper.ne_nil {l : Lexeme} (proper : l.Proper) : l.text.toList ≠ [] := by
  cases l with
  | ending => exact proper.elim
  | number text =>
    have digits := (Number.isNumeral_iff.mp proper).2
    obtain ⟨c, inside, -⟩ := digits
    exact List.ne_nil_of_mem inside
  | name text =>
    obtain ⟨first, rest, chars, -⟩ := Text.isName_iff.mp proper
    change text.toList ≠ []
    rw [chars]
    exact List.cons_ne_nil first rest
  | sign s => cases s <;> decide
  | assign | arrow | openBracket | closeBracket => decide

end Lexeme

namespace Lexer

variable {column start : Nat} {c : Char} {text rest taken : List Char} {item : Item} {items : List Item}
  {mode : Mode}

/-- The item takes up the text from a column on, and `next` is the character after it. -/
inductive Item.Takes (column : Nat) (text : List Char) (next : Option Char) : Item → Prop
  | token {l : Lexeme} (spelled : l.text.toList = text) (proper : l.Proper) (stops : l.Stops next) :
      Takes column text next (tokenAt column l)
  | invalid (kind : String) (some_text : text ≠ []) :
      Takes column text next (invalidAt column (column + text.length) kind text)

/-- A text that begins in a column, cut into items with nothing but blanks between them. -/
inductive Cut : (column : Nat) → List Char → List Item → Prop
  | nothing (column : Nat) : Cut column [] []
  | blank {column : Nat} {c : Char} {rest : List Char} {items : List Item} (white : Text.isBlank c = true)
      (after : Cut (column + 1) rest items) : Cut column (c :: rest) items
  | item {column : Nat} {text rest : List Char} {item : Item} {items : List Item}
      (takes : item.Takes column text rest.head?) (after : Cut (column + text.length) rest items) :
      Cut column (text ++ rest) (item :: items)

/-- The characters of the token that is being read. -/
def Mode.read : Mode → List Char
  | .between => []
  | .number _ taken => taken.reverse
  | .name _ taken => taken.reverse
  | .equals _ => ['=']

/-- What is being read can become a token. -/
def Mode.Fits : Mode → Prop
  | .number _ taken => taken ≠ [] ∧ Number.digitsAndPoint taken = true
  | .name _ taken => Text.isName (Text.ofString (String.ofList taken.reverse)) = true
  | _ => True

/-- What is being read, up to the column, began where it says and can become a token. -/
structure Mode.Open (column : Nat) (mode : Mode) : Prop where
  begins : mode.start column + mode.read.length = column
  fits : mode.Fits

/-- What a character can begin. -/
inductive Opens (column : Nat) (c : Char) : List Item × Mode → Prop
  | blank (white : Text.isBlank c = true) : Opens column c ([], .between)
  | reading {mode : Mode} (start : ∀ later, mode.start later = column) (read : mode.read = [c])
      (fits : mode.Fits) : Opens column c ([], mode)
  | item {item : Item} (takes : ∀ next, item.Takes column [c] next) : Opens column c ([item], .between)

theorem toChar_of_ofChar? {s : Sign} (found : Sign.ofChar? c = some s) : s.toChar = c := by
  unfold Sign.ofChar? at found
  split at found <;> cases found <;> rfl

theorem takes_mark {l : Lexeme} (spelled : l.text.toList = [c]) (proper : l.Proper)
    (stops : ∀ next, l.Stops next) : ∀ next, (tokenAt column l).Takes column [c] next :=
  fun next => .token spelled proper (stops next)

theorem opens_openWith (column : Nat) (c : Char) : Opens column c (openWith {} column c) := by
  unfold openWith
  split
  · exact .blank ‹_›
  split
  · rename_i digit_or_point
    have numeric : Number.digitsAndPoint [c] = true :=
      Number.digitsAndPoint_cons rfl (by simpa using digit_or_point)
    exact .reading (fun _ => rfl) rfl ⟨List.cons_ne_nil _ _, numeric⟩
  split
  · rename_i starts
    exact .reading (fun _ => rfl) rfl (Text.isName_iff.mpr ⟨c, [], String.toList_ofList .., starts, by simp⟩)
  split
  · rename_i equals
    rw [beq_iff_eq] at equals
    exact .reading (fun _ => rfl) (by rw [equals]; rfl) trivial
  split
  · rename_i opening
    rw [beq_iff_eq] at opening
    exact .item (takes_mark (by rw [opening]; rfl) trivial fun _ _ _ => trivial)
  split
  · rename_i closing
    rw [beq_iff_eq] at closing
    exact .item (takes_mark (by rw [closing]; rfl) trivial fun _ _ _ => trivial)
  split
  · rename_i s found
    have spelled : (Lexeme.sign s).text.toList = [c] := by
      rw [← toChar_of_ofChar? found]
      exact String.toList_singleton _
    exact .item (takes_mark spelled trivial fun _ _ _ => trivial)
  · exact .item fun _ => .invalid "" (List.cons_ne_nil _ _)

/-- Reading a character passes on what the text after it is cut into. -/
structure Advances (column : Nat) (c : Char) (mode : Mode) (result : List Item × Mode) : Prop where
  opened : result.2.Open (column + 1)
  cut : ∀ {rest items}, Cut (result.2.start (column + 1)) (result.2.read ++ rest) items →
    Cut (mode.start column) (mode.read ++ c :: rest) (result.1 ++ items)

theorem advances_openWith (column : Nat) (c : Char) :
    Advances column c .between (openWith {} column c) := by
  have opens := opens_openWith column c
  generalize openWith {} column c = result at opens
  cases opens with
  | blank white => exact ⟨⟨rfl, trivial⟩, .blank white⟩
  | @reading mode start read fits =>
    refine ⟨⟨by rw [start, read]; rfl, fits⟩, fun after => ?_⟩
    rw [start, read] at after
    exact after
  | item takes =>
    refine ⟨⟨rfl, trivial⟩, fun {rest items} after => ?_⟩
    change Cut column ([c] ++ rest) (_ :: items)
    exact .item (takes _) after

/-- A token that the character completes. -/
theorem advances_item (opened : mode.Open column)
    (takes : ∀ next, item.Takes (mode.start column) (mode.read ++ [c]) next) :
    Advances column c mode ([item], .between) := by
  refine ⟨⟨rfl, trivial⟩, fun {rest items} after => ?_⟩
  have joined : mode.read ++ c :: rest = (mode.read ++ [c]) ++ rest := by simp
  have reached : mode.start column + (mode.read ++ [c]).length = column + 1 := by
    rw [List.length_append, ← Nat.add_assoc, opened.begins]
    rfl
  rw [joined]
  refine .item (takes _) ?_
  rw [reached]
  exact after

/-- A token that goes on. -/
theorem advances_reading {next : Mode} (opened : mode.Open column)
    (start : next.start (column + 1) = mode.start column) (read : next.read = mode.read ++ [c])
    (fits : next.Fits) : Advances column c mode ([], next) := by
  refine ⟨⟨?_, fits⟩, fun {rest items} after => ?_⟩
  · rw [start, read, List.length_append, ← Nat.add_assoc, opened.begins]
    rfl
  · rw [start, read, List.append_assoc] at after
    exact after

/-- A token that ends before the character. -/
theorem advances_closeBefore (opened : mode.Open column)
    (takes : item.Takes (mode.start column) mode.read (some c)) :
    Advances column c mode (closeBefore {} column c item) := by
  have next := advances_openWith column c
  refine ⟨next.opened, fun {rest items} after => ?_⟩
  refine .item takes ?_
  rw [opened.begins]
  exact next.cut after

theorem takes_numberAt {next : Option Char} (some_text : taken ≠ [])
    (numeric : Number.digitsAndPoint taken = true) (begins : start + taken.reverse.length = column)
    (stops : ∀ c ∈ next, c ≠ '.' ∧ Text.isNamePart c = false) :
    (numberAt start column taken).Takes start taken.reverse next := by
  subst begins
  unfold numberAt
  split
  · rename_i some_digit
    exact .token (String.toList_ofList ..) (isNumeral_of_taken numeric some_digit) stops
  · exact .invalid "number" (by simpa using some_text)

theorem takes_nameAt {next : Option Char}
    (named : Text.isName (Text.ofString (String.ofList taken.reverse)) = true)
    (stops : ∀ c ∈ next, Text.isNamePart c = false) :
    (nameAt start taken).Takes start taken.reverse next :=
  .token (String.toList_ofList ..) named stops

/-- What one character does, whatever is being read. -/
theorem advances_step (opened : mode.Open column) (c : Char) :
    Advances column c mode (step {} column c mode) := by
  cases mode with
  | between => exact advances_openWith column c
  | number start taken =>
    obtain ⟨some_text, numeric⟩ := opened.fits
    rw [step]
    split
    · rename_i fits
      have longer : Number.digitsAndPoint (c :: taken) = true :=
        Number.digitsAndPoint_cons numeric (by simpa using fits)
      exact advances_reading opened rfl (List.reverse_cons ..) ⟨List.cons_ne_nil _ _, longer⟩
    · split
      · -- the character that does not fit is part of the invalid token
        refine advances_item opened fun next => ?_
        have begins : start + taken.reverse.length = column := opened.begins
        have reached : start + (c :: taken).reverse.length = column + 1 := by
          rw [List.reverse_cons, List.length_append, ← Nat.add_assoc, begins]
          rfl
        change (invalidAt start (column + 1) "number" _).Takes start (taken.reverse ++ [c]) next
        rw [← List.reverse_cons, ← reached]
        exact .invalid "number" (by simp)
      · rename_i no_part
        rw [Bool.or_eq_true, not_or, beq_iff_eq, Bool.not_eq_true] at no_part
        have stops : ∀ d ∈ some c, d ≠ '.' ∧ Text.isNamePart d = false := by simpa using no_part
        exact advances_closeBefore opened (takes_numberAt some_text numeric opened.begins stops)
  | name start taken =>
    have named : Text.isName (Text.ofString (String.ofList taken.reverse)) = true := opened.fits
    rw [step]
    split
    · rename_i part
      refine advances_reading opened rfl (List.reverse_cons ..) ?_
      change Text.isName (Text.ofString (String.ofList (c :: taken).reverse)) = true
      rw [List.reverse_cons]
      exact Text.isName_concat named part
    · rename_i no_part
      exact advances_closeBefore opened (takes_nameAt named (by simpa using no_part))
  | equals start =>
    rw [step]
    split
    · rename_i arrow
      rw [beq_iff_eq] at arrow
      exact advances_item opened fun next => .token (by rw [arrow]; rfl) trivial fun _ _ => trivial
    · rename_i no_arrow
      rw [beq_iff_eq] at no_arrow
      have stops : Lexeme.assign.Stops (some c) := by simpa [Lexeme.Stops] using no_arrow
      exact advances_closeBefore opened (.token rfl trivial stops)

theorem cut_pending (opened : mode.Open column) : Cut (mode.start column) mode.read (pending column mode) := by
  have alone : ∀ {start read item}, Item.Takes start read none item → Cut start read [item] := by
    intro start read item takes
    rw [← List.append_nil read]
    exact .item takes (.nothing _)
  cases mode with
  | between => exact .nothing _
  | number start taken => exact alone (takes_numberAt opened.fits.1 opened.fits.2 opened.begins (by simp))
  | name start taken => exact alone (takes_nameAt opened.fits (by simp))
  | equals start => exact alone (.token rfl trivial (by simp [Lexeme.Stops]))

/-- Reading on from a column cuts what is being read and the rest of the text into items, and then there is the end. -/
theorem cut_scanFrom (opened : mode.Open column) (text : List Char) :
    ∃ items, scanFrom {} mode column text =
        items ++ [tokenAt (column + text.length) .ending, .exhausted] ∧
      Cut (mode.start column) (mode.read ++ text) items := by
  -- what is being read moves along with the text, so it has to be general
  induction text generalizing mode column with
  | nil =>
    refine ⟨pending column mode, rfl, ?_⟩
    rw [List.append_nil]
    exact cut_pending opened
  | cons c rest ih =>
    have advances := advances_step opened c
    obtain ⟨items, scanned, cut⟩ := ih advances.opened
    refine ⟨(step {} column c mode).1 ++ items, ?_, advances.cut cut⟩
    change (step {} column c mode).1 ++ scanFrom {} (step {} column c mode).2 (column + 1) rest = _
    have reached : column + 1 + rest.length = column + (c :: rest).length := by
      rw [List.length_cons]
      omega
    rw [scanned, reached, List.append_assoc]

theorem Item.Takes.isLast_eq_false {next : Option Char} (takes : item.Takes column text next) :
    item.isLast = false := by
  cases takes with
  | token => rfl
  | invalid => rfl

theorem upToLast_append (before : ∀ item ∈ items, item.isLast = false) (rest : List Item) :
    upToLast (items ++ rest) = items ++ upToLast rest := by
  induction items with
  | nil => rfl
  | cons item items ih =>
    have first := before item (List.mem_cons_self ..)
    have others := ih fun other inside => before other (List.mem_cons_of_mem _ inside)
    rw [List.cons_append, upToLast, first, others]
    rfl

theorem Cut.isLast_eq_false (cut : Cut column text items) : ∀ item ∈ items, item.isLast = false := by
  induction cut with
  | nothing => simp
  | blank white after ih => exact ih
  | item takes after ih => exact List.forall_mem_cons.mpr ⟨takes.isLast_eq_false, ih⟩

/-- A text is cut into items, and then there is the end, once. -/
theorem cut_scan (text : List Char) :
    ∃ items, scan {} text = items ++ [tokenAt (text.length + 1) .ending, .exhausted] ∧ Cut 1 text items := by
  obtain ⟨items, scanned, cut⟩ := cut_scanFrom (show Mode.between.Open 1 from ⟨rfl, trivial⟩) text
  refine ⟨items, ?_, cut⟩
  rw [scan, scanned, upToLast_append cut.isLast_eq_false, Nat.add_comm 1]
  rfl

/-- The item takes up the column. -/
def Item.Covers (item : Item) (column : Nat) : Prop :=
  match item with
  | .token t => t.column ≤ column ∧ column < t.column + t.lexeme.text.length
  | .invalid (.token _ _ last) start => start ≤ column ∧ (column : Int) ≤ last
  | _ => False

/-- The item has the characters of the text from its column on; a token is followed by nothing that could be part of
it. -/
inductive Item.Stands (text : List Char) : Item → Prop
  | token {column : Nat} {l : Lexeme} (begins : 1 ≤ column) (proper : l.Proper)
      (some_text : l.text ≠ "") (read : l.text.toList <+: text.drop (column - 1))
      (stops : l.Stops (text[column - 1 + l.text.length]?)) : Stands text (tokenAt column l)
  | invalid {start : Nat} {shown kind : String} {last : Int} (begins : 1 ≤ start) (some_text : shown ≠ "")
      (read : shown.toList <+: text.drop (start - 1)) (ends : start + shown.length = last + 1) :
      Stands text (.invalid (.token shown kind last) start)

theorem Item.Takes.ne_nil {next : Option Char} (takes : item.Takes column text next) : text ≠ [] := by
  cases takes with
  | token spelled proper => exact spelled ▸ proper.ne_nil
  | invalid kind some_text => exact some_text

/-- Where an item lies whose text begins after the first characters of a longer one. -/
theorem Item.Takes.stands (before : List Char) (reached : before.length + 1 = column)
    (takes : item.Takes column text rest.head?) : item.Stands (before ++ (text ++ rest)) := by
  have skipped : (before ++ (text ++ rest)).drop (column - 1) = text ++ rest := by
    rw [← reached, Nat.add_sub_cancel, List.drop_left]
  have some_text := takes.ne_nil
  cases takes with
  | @token l spelled proper stops =>
    have length : l.text.length = text.length := by rw [← spelled, String.length_toList]
    refine .token (by omega) proper ?_ ?_ ?_
    · rintro empty
      rw [empty] at spelled
      exact some_text spelled.symm
    · rw [skipped, spelled]
      exact List.prefix_append text rest
    · rw [← List.getElem?_drop, skipped, length, List.getElem?_append_right (Nat.le_refl _),
        Nat.sub_self, ← List.head?_eq_getElem?]
      exact stops
  | invalid kind =>
    refine .invalid (by omega) ?_ ?_ ?_
    · intro empty
      exact some_text (String.ofList_eq_empty_iff.mp empty)
    · rw [skipped, String.toList_ofList]
      exact List.prefix_append text rest
    · rw [String.length_ofList]
      omega

theorem Item.Takes.covers_iff {next : Option Char} (takes : item.Takes start text next) (column : Nat) :
    item.Covers column ↔ start ≤ column ∧ column < start + text.length := by
  cases takes with
  | @token l spelled proper stops =>
    have length : l.text.length = text.length := by rw [← spelled, String.length_toList]
    change _ ∧ column < start + l.text.length ↔ _
    rw [length]
  | invalid kind some_text =>
    change _ ∧ (column : Int) ≤ start + text.length - 1 ↔ _
    omega

theorem Cut.stands (before : List Char) (reached : before.length + 1 = column) (cut : Cut column text items) :
    ∀ item ∈ items, item.Stands (before ++ text) := by
  induction cut generalizing before with
  | nothing => simp
  | @blank column c rest items white after ih =>
    have further := ih (before ++ [c]) (by simpa using reached)
    rwa [List.append_assoc] at further
  | @item column text rest item items takes after ih =>
    have further := ih (before ++ text) (by rw [List.length_append]; omega)
    rw [List.append_assoc] at further
    exact List.forall_mem_cons.mpr ⟨takes.stands before reached, further⟩

theorem Cut.le_of_covers (cut : Cut start text items) (inside : item ∈ items) (covers : item.Covers column) :
    start ≤ column := by
  induction cut with
  | nothing => cases inside
  | blank white after ih => exact (Nat.le_succ _).trans (ih inside)
  | item takes after ih =>
    rcases List.mem_cons.mp inside with rfl | later
    · exact ((takes.covers_iff column).mp covers).1
    · exact (Nat.le_add_right ..).trans (ih later)

/-- The columns of an item are before those of the items after it. -/
theorem Cut.pairwise (cut : Cut start text items) :
    items.Pairwise fun item later => ∀ i j, item.Covers i → later.Covers j → i < j := by
  induction cut with
  | nothing => exact .nil
  | blank white after ih => exact ih
  | item takes after ih =>
    refine .cons (fun later inside i j covers covers_later => ?_) ih
    have before := ((takes.covers_iff i).mp covers).2
    have behind := after.le_of_covers inside covers_later
    omega

/-- What no item covers is blank. -/
theorem Cut.covered (cut : Cut start text items) {i : Nat} (inside : text[i]? = some c) :
    (∃ item ∈ items, item.Covers (start + i)) ∨ Text.isBlank c = true := by
  induction cut generalizing i with
  | nothing => cases inside
  | @blank start first rest items white after ih =>
    cases i with
    | zero =>
      cases inside
      exact .inr white
    | succ i =>
      rw [List.getElem?_cons_succ] at inside
      have found := ih inside
      rwa [Nat.add_assoc, Nat.add_comm 1] at found
  | @item start text rest item items takes after ih =>
    by_cases early : i < text.length
    · exact .inl ⟨item, List.mem_cons_self .., (takes.covers_iff _).mpr (by omega)⟩
    · have behind : start + text.length + (i - text.length) = start + i := by omega
      rw [List.getElem?_append_right (by omega)] at inside
      rcases ih inside with ⟨later, within, covers⟩ | white
      · rw [behind] at covers
        exact .inl ⟨later, List.mem_cons_of_mem _ within, covers⟩
      · exact .inr white

/-- Every item takes a character. -/
theorem Cut.length_le (cut : Cut start text items) : items.length ≤ text.length := by
  induction cut with
  | nothing => exact Nat.le_refl _
  | blank white after ih =>
    rw [List.length_cons]
    omega
  | item takes after ih =>
    have taken := List.length_pos_iff.mpr takes.ne_nil
    rw [List.length_cons, List.length_append]
    omega

/-- A text, with U+FFFD in the place of every stray byte, is cut into tokens and invalid tokens one after another, and
then there is the end, once and behind its last character. What lies between them is blank. -/
theorem scan_partitions (input : Text) :
    ∃ items, scan {} input.toChars = items ++ [tokenAt (input.length + 1) .ending, .exhausted] ∧
      items.length ≤ input.length ∧
      (∀ item ∈ items, item.Stands input.toChars) ∧
      items.Pairwise (fun item later => ∀ i j, item.Covers i → later.Covers j → i < j) ∧
      ∀ i c, input.toChars[i]? = some c → (∃ item ∈ items, item.Covers (i + 1)) ∨ Text.isBlank c = true := by
  have length : input.toChars.length = input.length := List.length_map ..
  obtain ⟨items, scanned, cut⟩ := cut_scan input.toChars
  rw [length] at scanned
  refine ⟨items, scanned, length ▸ cut.length_le, cut.stands [] rfl, cut.pairwise, ?_⟩
  intro i c inside
  rw [Nat.add_comm i]
  exact cut.covered inside

end Lexer

end Abacus
