import Abacus.Proofs.Parser.Line
import Abacus.Proofs.Partition
import Mathlib

/-!
How lexemes are spelled.

A text is read as given lexemes exactly if it spells them, one after the other and with blanks between them where the
author likes, as long as what follows a lexeme could not be part of it. Columns play no role.
-/

namespace Abacus

namespace Text

/-- A character in the ranges lies in one of them. -/
theorem Ranges.exists_of_has {ranges : Ranges} {c : Char} (found : ranges.has c = true) :
    ∃ range ∈ ranges, range.1 ≤ c.toNat ∧ c.toNat ≤ range.2 := by
  induction ranges with
  | nil => cases found
  | cons range rest ih =>
    rw [Ranges.has] at found
    by_cases below : c.toNat < range.1
    · rw [if_pos below] at found
      cases found
    · rw [if_neg below] at found
      by_cases within : c.toNat ≤ range.2
      · exact ⟨range, List.mem_cons_self .., by omega, within⟩
      · rw [if_neg within] at found
        obtain ⟨other, inside, bounds⟩ := ih found
        exact ⟨other, List.mem_cons_of_mem _ inside, bounds⟩

/-- A character of one table is in no table whose ranges lie apart from it. -/
theorem Ranges.has_eq_false_of_apart {ranges others : Ranges} {c : Char}
    (apart : ∀ range ∈ ranges, ∀ other ∈ others, range.2 < other.1 ∨ other.2 < range.1)
    (found : ranges.has c = true) : others.has c = false := by
  rw [← Bool.not_eq_true]
  intro other_found
  obtain ⟨range, inside, lower, upper⟩ := exists_of_has found
  obtain ⟨other, other_inside, other_lower, other_upper⟩ := exists_of_has other_found
  have := apart range inside other other_inside
  omega

/-- No white space is a letter. -/
theorem blankRanges_apart :
    ∀ blank ∈ blankRanges, ∀ letter ∈ letterRanges, blank.2 < letter.1 ∨ letter.2 < blank.1 := by
  decide +kernel

/-- No white space is a digit. -/
theorem blankRanges_apart_digits :
    ∀ blank ∈ blankRanges, ∀ digit ∈ digitRanges, blank.2 < digit.1 ∨ digit.2 < blank.1 := by
  decide +kernel

/-- The first characters of names lie above the digits, the point and the white space below U+0080. -/
theorem le_toNat_of_isNameStart {c : Char} (start : isNameStart c = true) : 65 ≤ c.toNat := by
  by_cases ascii : c.toNat < 0x80
  · rw [isNameStart, Bool.or_eq_true, beq_iff_eq, isLetter, if_pos ascii] at start
    rcases start with rfl | letter
    · decide
    · simp only [Char.isAlpha, Char.isUpper, Char.isLower, Bool.or_eq_true, Bool.and_eq_true,
        decide_eq_true_eq, UInt32.le_iff_toNat_le] at letter
      change (65 ≤ c.toNat ∧ _) ∨ (97 ≤ c.toNat ∧ _) at letter
      omega
  · omega

theorem isBlank_eq_false_of_isNameStart {c : Char} (start : isNameStart c = true) : isBlank c = false := by
  have above := le_toNat_of_isNameStart start
  rw [← Bool.not_eq_true]
  intro blank
  rw [isBlank] at blank
  by_cases ascii : c.toNat < 0x80
  · rw [if_pos ascii, Bool.or_eq_true, beq_iff_eq, Bool.and_eq_true, decide_eq_true_eq,
      decide_eq_true_eq] at blank
    rcases blank with rfl | low
    · revert above
      decide
    · omega
  · -- above U+007F only the tables can tell
    have letter : letterRanges.has c = true := by
      rw [isNameStart, Bool.or_eq_true, beq_iff_eq, isLetter, if_neg ascii] at start
      refine start.resolve_left ?_
      rintro rfl
      exact ascii (by decide)
    rw [if_neg ascii] at blank
    cases letter.symm.trans (Ranges.has_eq_false_of_apart blankRanges_apart blank)

theorem isDigit_eq_false_of_isBlank {c : Char} (blank : isBlank c = true) : isDigit c = false := by
  rw [isBlank] at blank
  rw [isDigit]
  by_cases ascii : c.toNat < 0x80
  · rw [if_pos ascii, Bool.or_eq_true, beq_iff_eq, Bool.and_eq_true, decide_eq_true_eq,
      decide_eq_true_eq] at blank
    rw [if_pos ascii, ← Bool.not_eq_true, Char.isDigit_iff_toNat]
    rintro ⟨low, -⟩
    change 48 ≤ c.toNat at low
    rcases blank with rfl | control
    · revert low
      decide
    · omega
  · rw [if_neg ascii] at blank ⊢
    exact Ranges.has_eq_false_of_apart blankRanges_apart_digits blank

/-- White space ends every name. -/
theorem isNamePart_eq_false_of_isBlank {c : Char} (blank : isBlank c = true) : isNamePart c = false := by
  have no_start : isNameStart c = false := by
    rw [← Bool.not_eq_true]
    intro start
    rw [isBlank_eq_false_of_isNameStart start] at blank
    cases blank
  rw [isNamePart, no_start, isDigit_eq_false_of_isBlank blank, Bool.or_false]

theorem not_numeric_of_isNameStart {c : Char} (start : isNameStart c = true) :
    (c.isDigit || c == '.') = false := by
  have above := le_toNat_of_isNameStart start
  rw [← Bool.not_eq_true, Bool.or_eq_true, beq_iff_eq, Char.isDigit_iff_toNat]
  rintro (⟨-, low⟩ | rfl)
  · change c.toNat ≤ 57 at low
    omega
  · revert above
    decide

/-- Every digit of a numeral can be part of a name. -/
theorem isNamePart_of_isDigit {c : Char} (digit : c.isDigit = true) : isNamePart c = true := by
  have low : c.toNat ≤ 57 := (Char.isDigit_iff_toNat.mp digit).2
  have ascii : c.toNat < 0x80 := by omega
  rw [isNamePart, isDigit, if_pos ascii, digit, Bool.or_true]

end Text

namespace Lexer

variable {column start : Nat} {c : Char} {text rest taken : List Char} {l : Lexeme} {ls : List Lexeme}
  {item : Item} {mode : Mode}

/-- The text spells the lexemes. -/
inductive Spells : List Char → List Lexeme → Prop
  | nothing : Spells [] []
  | blank {c : Char} {rest : List Char} {ls : List Lexeme} (white : Text.isBlank c = true)
      (after : Spells rest ls) : Spells (c :: rest) ls
  | lexeme {l : Lexeme} {rest : List Char} {ls : List Lexeme} (proper : l.Proper) (stops : l.Stops rest.head?)
      (after : Spells rest ls) : Spells (l.text.toList ++ rest) (l :: ls)

theorem Spells.proper (spells : Spells text ls) : ∀ l ∈ ls, l.Proper := by
  induction spells with
  | nothing => simp
  | blank white after ih => exact ih
  | lexeme proper stops after ih => exact List.forall_mem_cons.mpr ⟨proper, ih⟩

/-- A token that no further character can be part of is closed, and the rest is read by itself. -/
theorem scanFrom_close (pends : pending column mode = [item])
    (closes : ∀ c ∈ rest.head?, step {} column c mode = closeBefore {} column c item) :
    scanFrom {} mode column rest = item :: scanFrom {} .between column rest := by
  cases rest with
  | nil =>
    change pending column mode ++ _ = _
    rw [pends]
    rfl
  | cons c rest =>
    rw [scanFrom, closes c rfl]
    rfl

theorem scanFrom_name {part : List Char} (parts : ∀ c ∈ part, Text.isNamePart c = true)
    (start column : Nat) (rest : List Char) :
    scanFrom {} (.name start taken) column (part ++ rest) =
      scanFrom {} (.name start (part.reverse ++ taken)) (column + part.length) rest := by
  induction part generalizing taken column with
  | nil => rfl
  | cons c part ih =>
    obtain ⟨first, others⟩ := List.forall_mem_cons.mp parts
    have stepped : step {} column c (.name start taken) = ([], .name start (c :: taken)) := by
      rw [step, if_pos first]
    rw [List.cons_append, scanFrom, stepped]
    simpa [Nat.add_assoc, Nat.add_comm 1] using ih others (column + 1)

/-- What a numeral begins with begins a number. -/
theorem step_numeral (first : c.isDigit = true ∨ c = '.') (column : Nat) :
    step {} column c .between = ([], .number column [c]) := by
  have code : c.toNat = 46 ∨ 48 ≤ c.toNat ∧ c.toNat ≤ 57 := by
    rcases first with digit | rfl
    · simp only [Char.isDigit, Bool.and_eq_true, decide_eq_true_eq] at digit
      exact .inr digit
    · exact .inl rfl
  have visible : Text.isBlank c = false := by
    have not_space : c ≠ ' ' := by
      rintro rfl
      change (32 = 46 ∨ 48 ≤ 32 ∧ 32 ≤ 57) at code
      omega
    have above : ¬c.toNat ≤ 0x0D := by omega
    rw [Text.isBlank, if_pos (by omega)]
    simp [not_space, above]
  have begins : (c.isDigit || c == '.') = true := by simpa using first
  simp [step, openWith, visible, begins]

/-- What makes a numeral together with what was read before is read to its end. -/
theorem scanFrom_number {digits : List Char}
    (plain : Number.digitsAndPoint (taken.reverse ++ digits) = true) (start column : Nat) (rest : List Char) :
    scanFrom {} (.number start taken) column (digits ++ rest) =
      scanFrom {} (.number start (digits.reverse ++ taken)) (column + digits.length) rest := by
  induction digits generalizing taken column with
  | nil => rfl
  | cons c digits ih =>
    obtain ⟨only, few⟩ := Number.digitsAndPoint_iff.mp plain
    have fits : (c.isDigit || (c == '.' && !taken.contains '.')) = true := by
      rcases only c (by simp) with digit | rfl
      · rw [digit, Bool.true_or]
      · have absent : '.' ∉ taken := by
          intro inside
          have counted := List.count_pos_iff.mpr inside
          rw [List.count_append, List.count_reverse, List.count_cons_self] at few
          omega
        simp [absent]
    have stepped : step {} column c (.number start taken) = ([], .number start (c :: taken)) := by
      rw [step, if_pos fits]
    have longer : Number.digitsAndPoint ((c :: taken).reverse ++ digits) = true := by simpa using plain
    rw [List.cons_append, scanFrom, stepped]
    simpa [Nat.add_assoc, Nat.add_comm 1] using ih longer (column + 1)

/-- A proper lexeme that ends where it has to is the next token. -/
def ReadsNext (l : Lexeme) : Prop :=
  ∀ (column : Nat) (rest : List Char), l.Stops rest.head? →
    scanFrom {} .between column (l.text.toList ++ rest) =
      tokenAt column l :: scanFrom {} .between (column + l.text.length) rest

theorem readsNext_number {text : String} (numeral : Number.isNumeral text.toList = true) :
    ReadsNext (.number text) := by
  intro column rest stops
  obtain ⟨plain, digit, inside, is_digit⟩ := Number.isNumeral_iff.mp numeral
  obtain ⟨c, others, chars⟩ := List.exists_cons_of_ne_nil (List.ne_nil_of_mem inside)
  rw [chars] at plain inside
  have first := (Number.digitsAndPoint_iff.mp plain).1 c (List.mem_cons_self ..)
  have some_digit : (others.reverse ++ [c]).any Char.isDigit = true :=
    List.any_eq_true.mpr ⟨digit, by simpa [or_comm] using inside, is_digit⟩
  have number (reached : Nat) : numberAt column reached (others.reverse ++ [c]) = tokenAt column (.number text) := by
    rw [numberAt, if_pos some_digit, ← List.reverse_cons, List.reverse_reverse, ← chars, String.ofList_toList]
  have length : column + 1 + others.length = column + text.length := by
    rw [← String.length_toList, chars, List.length_cons]
    omega
  have closes : ∀ d ∈ rest.head?,
      step {} (column + text.length) d (.number column (others.reverse ++ [c])) =
        closeBefore {} (column + text.length) d (tokenAt column (.number text)) := by
    intro d follows
    obtain ⟨no_point, no_part⟩ := stops d follows
    have no_digit : d.isDigit = false := by
      rw [← Bool.not_eq_true]
      intro digit
      rw [Text.isNamePart_of_isDigit digit] at no_part
      cases no_part
    simp [step, no_point, no_part, no_digit, number]
  change scanFrom {} .between column (text.toList ++ rest) = _
  rw [chars, List.cons_append, scanFrom, step_numeral first]
  change scanFrom {} (.number column [c]) (column + 1) (others ++ rest) = _
  rw [scanFrom_number (show Number.digitsAndPoint ([c].reverse ++ others) = true from plain), length]
  exact scanFrom_close (by rw [pending, number]) closes

theorem readsNext_name {text : String} (named : Text.isName (Text.ofString text) = true) :
    ReadsNext (.name text) := by
  intro column rest stops
  obtain ⟨c, others, chars, first, parts⟩ := Text.isName_iff.mp named
  have name : nameAt column (others.reverse ++ [c]) = tokenAt column (.name text) := by
    rw [nameAt, ← List.reverse_cons, List.reverse_reverse, ← chars, String.ofList_toList]
  have length : column + 1 + others.length = column + text.length := by
    rw [← String.length_toList, chars, List.length_cons]
    omega
  have closes : ∀ d ∈ rest.head?,
      step {} (column + text.length) d (.name column (others.reverse ++ [c])) =
        closeBefore {} (column + text.length) d (tokenAt column (.name text)) := by
    intro d follows
    have no_part : Text.isNamePart d = false := stops d follows
    simp [step, no_part, name]
  have stepped : step {} column c .between = ([], .name column [c]) := by
    have visible := Text.isBlank_eq_false_of_isNameStart first
    have not_numeric := Text.not_numeric_of_isNameStart first
    simp [step, openWith, visible, not_numeric, first]
  change scanFrom {} .between column (text.toList ++ rest) = _
  rw [chars, List.cons_append, scanFrom, stepped]
  change scanFrom {} (.name column [c]) (column + 1) (others ++ rest) = _
  rw [scanFrom_name parts, length]
  exact scanFrom_close (by rw [pending, name]) closes

theorem readsNext_assign : ReadsNext .assign := by
  intro column rest stops
  refine scanFrom_close (show pending _ (.equals column) = _ from rfl) fun d follows => ?_
  have no_arrow : d ≠ '>' := stops d follows
  simp [step, no_arrow]

theorem readsNext_of_proper (proper : l.Proper) : ReadsNext l := by
  cases l with
  | ending => exact proper.elim
  | number text => exact readsNext_number proper
  | name text => exact readsNext_name proper
  | assign => exact readsNext_assign
  | sign s => cases s <;> exact fun _ _ _ => rfl
  | arrow | openBracket | closeBracket => exact fun _ _ _ => rfl

theorem scanFrom_blank (white : Text.isBlank c = true) (column : Nat) (rest : List Char) :
    scanFrom {} .between column (c :: rest) = scanFrom {} .between (column + 1) rest := by
  have stepped : step {} column c .between = ([], .between) := by
    rw [step, openWith, if_pos white]
  rw [scanFrom, stepped]
  rfl

/-- Reading a text that spells lexemes gives them, and then the end. -/
theorem collect_of_spells (spells : Spells text ls) (column : Nat) :
    ∃ tokens, collect (upToLast (scanFrom {} .between column text)) = .ok tokens ∧
      Parser.lexemes tokens = ls ++ [.ending] := by
  induction spells generalizing column with
  | nothing => exact ⟨_, rfl, rfl⟩
  | @blank c rest ls white after ih =>
    rw [scanFrom_blank white]
    exact ih (column + 1)
  | @lexeme l rest ls proper stops after ih =>
    obtain ⟨tokens, collected, same⟩ := ih (column + l.text.length)
    have inner : l ≠ .ending := by
      rintro rfl
      exact proper
    refine ⟨⟨l, column⟩ :: tokens, ?_, ?_⟩
    · rw [readsNext_of_proper proper column rest stops]
      change (if l = .ending then _ else _) = _
      rw [if_neg inner, collected]
      rfl
    · rw [Parser.lexemes, List.map_cons]
      exact congrArg (l :: ·) same

theorem spells_of_collect {items : List Item} (cut : Cut column text items) {last : Nat} {tokens : List Token}
    (collected : collect (items ++ [tokenAt last .ending, .exhausted]) = .ok tokens) :
    ∃ ls, Parser.lexemes tokens = ls ++ [.ending] ∧ Spells text ls := by
  induction cut generalizing tokens with
  | nothing =>
    cases collected
    exact ⟨[], rfl, .nothing⟩
  | blank white after ih =>
    obtain ⟨ls, same, spells⟩ := ih collected
    exact ⟨ls, same, .blank white spells⟩
  | @item column text rest item items takes after ih =>
    cases takes with
    | invalid kind some_text => cases collected
    | @token l spelled proper stops =>
      have inner : l ≠ .ending := by
        rintro rfl
        exact proper
      change (if l = .ending then _ else _) = _ at collected
      rw [if_neg inner] at collected
      obtain ⟨others, others_collected, rfl⟩ := Except.map_eq_ok_iff.mp collected
      obtain ⟨ls, same, spells⟩ := ih others_collected
      refine ⟨l :: ls, congrArg (l :: ·) same, ?_⟩
      rw [← spelled]
      exact .lexeme proper stops spells

/-- What a text is read as from any column is what it spells. -/
theorem spells_of_scanFrom {column : Nat} {tokens : List Token}
    (collected : collect (upToLast (scanFrom {} .between column text)) = .ok tokens)
    (same : Parser.lexemes tokens = ls ++ [.ending]) : Spells text ls := by
  obtain ⟨items, scanned, cut⟩ := cut_scanFrom (show Mode.between.Open column from ⟨rfl, trivial⟩) text
  rw [scanned, upToLast_append cut.isLast_eq_false] at collected
  obtain ⟨ls', same', spells⟩ := spells_of_collect cut collected
  have equal : ls' = ls := List.append_cancel_right (same'.symm.trans same)
  exact equal ▸ spells

/-- Cutting a text into tokens succeeds exactly if the text spells their lexemes. -/
theorem tokenize_iff_spells :
    (∃ tokens, tokenize {} text = .ok tokens ∧ Parser.lexemes tokens = ls ++ [.ending]) ↔ Spells text ls := by
  constructor
  · rintro ⟨tokens, tokenized, same⟩
    exact spells_of_scanFrom tokenized same
  · intro spells
    exact collect_of_spells spells 1

end Lexer

namespace Parser

/-- The names of a line that is read are those of its tree. -/
theorem vars_of_parse {source : Lexer.Source} {text : List Char} {line : Line}
    (read : parse source text = .ok line) : line.vars = line.tree.vars := by
  obtain ⟨tokens, tokenized, derived⟩ := line_of_parse read
  obtain ⟨before, column, rfl⟩ := Lexer.endsText_tokenize tokenized
  have some_before : before ≠ [] := by
    rintro rfl
    exact not_line_ending derived
  rw [parse_of_tokenize tokenized some_before] at read
  cases tree_read : lineTree before column with
  | error e =>
    rw [tree_read] at read
    cases read
  | ok tree =>
    rw [tree_read] at read
    cases read
    rfl

theorem spells_of_parse {text : List Char} {line : Line} (read : parse {} text = .ok line) :
    ∃ ls, Lexer.Spells text ls ∧ Grammar.Line (ls ++ [.ending]) line.tree := by
  obtain ⟨tokens, tokenized, derived⟩ := line_of_parse read
  obtain ⟨before, column, rfl⟩ := Lexer.endsText_tokenize tokenized
  have split : lexemes (before ++ [⟨.ending, column⟩]) = lexemes before ++ [.ending] := List.map_append ..
  exact ⟨lexemes before, Lexer.tokenize_iff_spells.mp ⟨_, tokenized, split⟩, split ▸ derived⟩

theorem parse_of_spells {text : List Char} {ls : List Lexeme} {t : Tree} (spells : Lexer.Spells text ls)
    (derived : Grammar.Line (ls ++ [.ending]) t) : parse {} text = .ok { tree := t, vars := t.vars } := by
  obtain ⟨tokens, tokenized, same⟩ := Lexer.tokenize_iff_spells.mpr spells
  obtain ⟨before, column, rfl⟩ := Lexer.endsText_tokenize tokenized
  have split : lexemes before = ls := by
    rw [lexemes, List.map_append] at same
    exact List.append_cancel_right same
  subst split
  have some_before : before ≠ [] := by
    rintro rfl
    exact not_line_ending derived
  rw [parse_of_tokenize tokenized some_before, lineTree_of_line derived]

/-- A numeral alone is a line. -/
theorem parse_numeral {number : String} (numeral : Number.isNumeral number.toList = true) :
    parse {} number.toList = .ok { tree := .number number, vars := (Tree.number number).vars } := by
  have stops : (Lexeme.number number).Stops ([] : List Char).head? := by simp [Lexeme.Stops]
  have proper : (Lexeme.number number).Proper := numeral
  have spells : Lexer.Spells ((Lexeme.number number).text.toList ++ []) [.number number] :=
    .lexeme proper stops .nothing
  have derived : Grammar.Derives [] (.sum .closed) [.number number] (.number number) :=
    .sum_product (.product_unary (.unary_primary (.number number)))
  rw [List.append_nil] at spells
  exact parse_of_spells spells (.expression derived)

end Parser

end Abacus
