import Abacus.Proofs.Spelling
import Abacus.Tree.Printer
import Mathlib

/-!
Reading a line that was printed gives the line back.

A printed tree has brackets of two shapes, the positions of parameters and, if it is a definition, brackets around the
whole line, all of which no line has. What is left without them is read as the same tree: every node stands in
brackets, and so no operator can take an operand away from another one.
-/

namespace Abacus

open Grammar Lexer

namespace Tree

def roundBracket (c : Char) : Char :=
  if c = '[' then '(' else if c = ']' then ')' else c

/-- The characters without the positions of parameters: a dollar sign, the digits after it and the colon after those.
`inside` says that the characters before were the begin of a position. -/
def withoutPositions (inside : Bool) : List Char → List Char
  | [] => []
  | c :: rest =>
    if inside && c.isDigit then withoutPositions true rest
    else if inside && c == ':' then withoutPositions false rest
    else if c = '$' then withoutPositions true rest
    else c :: withoutPositions false rest

def plainChars (printed : List Char) : List Char :=
  withoutPositions false (printed.map roundBracket)

/-- What is left of a printed tree if all brackets are round, parameters have no positions and a definition has no
brackets around it. -/
def plainText (t : Tree) (printed : String) : String :=
  let plain := plainChars printed.toList
  String.ofList (if t.isDefinition then plain.tail.dropLast else plain)

/-- The trees that can be read with the given parameters. A parameter is never taken for a variable, and what is
called has arguments. -/
inductive Readable (params : List String) : Tree → Prop
  | number {text : String} (numeral : Number.isNumeral text.toList = true) : Readable params (.number text)
  | leaf {name : String} {t : Tree} (named : Text.isName (Text.ofString name) = true)
      (leaf : Leaf params name t) : Readable params t
  | assign {name : String} {value : Tree} (named : Text.isName (Text.ofString name) = true)
      (free : name ∉ params) (value_ok : Readable params value) : Readable params (.assign name value)
  | call {function : String} {args : List Tree} (named : Text.isName (Text.ofString function) = true)
      (free : function ∉ params) (some_args : args ≠ []) (args_ok : ∀ a ∈ args, Readable params a) :
      Readable params (.call function args)
  | unary (op : UnaryOp) {operand : Tree} (operand_ok : Readable params operand) :
      Readable params (.unary op operand)
  | binary (op : BinaryOp) {left right : Tree} (left_ok : Readable params left)
      (right_ok : Readable params right) : Readable params (.binary op left right)

variable {params : List String} {ls more : List Lexeme} {t : Tree} {printed shown : List Char}

/-- What a phrase gives. A call has no arguments yet where it begins. -/
def Gives (params : List String) (p : Phrase) (t : Tree) : Prop :=
  match p with
  | .call => ∃ function args, t = .call function args ∧ Text.isName (Text.ofString function) = true ∧
      function ∉ params ∧ ∀ a ∈ args, Readable params a
  | _ => Readable params t

/-- Phrases of proper lexemes give trees that can be read again. -/
theorem gives_of_derives {p : Phrase} (derived : Derives params p ls t) (proper : ∀ l ∈ ls, l.Proper) :
    Gives params p t := by
  induction derived with
  | sum_product _ ih | product_unary _ ih | unary_primary _ ih => exact ih proper
  | sum_step _ _ _ left right | product_step _ _ _ left right =>
    rw [List.forall_mem_append, List.forall_mem_cons] at proper
    exact Readable.binary _ (left proper.1) (right proper.2.2)
  | unary_sign _ _ ih => exact Readable.unary _ (ih (List.forall_mem_cons.mp proper).2)
  | assign free _ ih =>
    rw [List.forall_mem_cons, List.forall_mem_cons] at proper
    exact Readable.assign proper.1 free (ih proper.2.2)
  | call some_args _ ih =>
    obtain ⟨function, args, same, named, free, args_ok⟩ := ih proper
    cases same
    exact Readable.call named free some_args args_ok
  | name leaf | atom_name leaf => exact Readable.leaf (proper _ (List.mem_singleton_self _)) leaf
  | number text | atom_number text => exact Readable.number (proper _ (List.mem_singleton_self _))
  | group _ ih | atom_group _ ih =>
    rw [List.cons_append, List.forall_mem_cons, List.forall_mem_append] at proper
    exact ih proper.2.1
  | call_head free => exact ⟨_, [], rfl, proper _ (List.mem_singleton_self _), free, by simp⟩
  | call_next _ _ before last =>
    rw [List.forall_mem_append] at proper
    obtain ⟨function, args, same, named, free, args_ok⟩ := before proper.1
    cases same
    refine ⟨_, _, rfl, named, free, List.forall_mem_append.mpr ⟨args_ok, ?_⟩⟩
    exact List.forall_mem_singleton.mpr (last proper.2)

/-- `shown` is what is left of the printed characters, whatever comes after them. -/
def Leaves (printed shown : List Char) : Prop :=
  ∀ rest, plainChars (printed ++ rest) = shown ++ plainChars rest

/-- The characters spell the lexemes, whatever comes after them. -/
def Spelled (shown : List Char) (ls : List Lexeme) : Prop :=
  ∀ {rest more}, Spells rest more → Spells (shown ++ rest) (ls ++ more)

/-- What is left of the printed characters spells the lexemes, whatever comes after them. -/
def Renders (printed : List Char) (ls : List Lexeme) : Prop :=
  ∃ shown, Leaves printed shown ∧ Spelled shown ls

theorem Leaves.append {printed' shown' : List Char} (first : Leaves printed shown)
    (second : Leaves printed' shown') : Leaves (printed ++ printed') (shown ++ shown') := by
  intro rest
  rw [List.append_assoc, first, second, List.append_assoc]

theorem Spelled.append {shown' : List Char} (first : Spelled shown ls) (second : Spelled shown' more) :
    Spelled (shown ++ shown') (ls ++ more) := by
  intro rest others spells
  rw [List.append_assoc, List.append_assoc]
  exact first (second spells)

theorem Renders.append {printed' : List Char} (first : Renders printed ls) (second : Renders printed' more) :
    Renders (printed ++ printed') (ls ++ more) := by
  obtain ⟨shown, leaves, spelled⟩ := first
  obtain ⟨shown', leaves', spelled'⟩ := second
  exact ⟨shown ++ shown', leaves.append leaves', spelled.append spelled'⟩

theorem renders_nothing : Renders [] [] :=
  ⟨[], fun _ => rfl, fun spells => spells⟩

theorem leaves_char {c : Char} (no_position : c ≠ '$') : Leaves [c] [roundBracket c] := by
  intro rest
  have stays : roundBracket c ≠ '$' := by
    unfold roundBracket
    split
    · decide
    split
    · decide
    · exact no_position
  change withoutPositions false (roundBracket c :: rest.map roundBracket) = _
  rw [withoutPositions, if_neg (by simp), if_neg (by simp), if_neg stays]
  rfl

/-- Characters that are printed as they are written. -/
theorem leaves_word {word : List Char} (plain : ∀ c ∈ word, c ≠ '$' ∧ roundBracket c = c) : Leaves word word := by
  induction word with
  | nil => exact fun _ => rfl
  | cons c word ih =>
    obtain ⟨⟨no_position, same⟩, others⟩ := List.forall_mem_cons.mp plain
    have first := leaves_char no_position
    rw [same] at first
    exact first.append (ih others)

theorem withoutPositions_digits {digits : List Char} (only : ∀ c ∈ digits, c.isDigit = true) (rest : List Char) :
    withoutPositions true (digits ++ ':' :: rest) = withoutPositions false rest := by
  induction digits with
  | nil => rfl
  | cons c digits ih =>
    obtain ⟨digit, others⟩ := List.forall_mem_cons.mp only
    rw [List.cons_append, withoutPositions, digit]
    exact ih others

theorem roundBracket_of_isDigit {c : Char} (digit : c.isDigit = true) : roundBracket c = c := by
  unfold roundBracket
  rw [if_neg (by rintro rfl; cases digit), if_neg (by rintro rfl; cases digit)]

/-- Nothing is left of a position. -/
theorem leaves_position (index : Nat) : Leaves ('$' :: (Int.repr index).toList ++ [':']) [] := by
  intro rest
  have only : ∀ c ∈ (Int.repr index).toList, c.isDigit = true := by
    intro c inside
    change c ∈ (Nat.repr index).toList at inside
    rw [Nat.toList_repr] at inside
    exact Nat.isDigit_of_mem_toDigits (by decide) (by decide) inside
  have same : (Int.repr index).toList.map roundBracket = (Int.repr index).toList :=
    (List.map_congr_left fun c inside => roundBracket_of_isDigit (only c inside)).trans (List.map_id _)
  unfold plainChars
  rw [List.map_append, List.map_append, List.map_cons, same, List.append_assoc]
  exact withoutPositions_digits only _

/-- A numeral or a name. -/
inductive Word : Lexeme → Prop
  | number {text : String} (numeral : Number.isNumeral text.toList = true) : Word (.number text)
  | name {text : String} (named : Text.isName (Text.ofString text) = true) : Word (.name text)

theorem Word.proper {l : Lexeme} (word : Word l) : l.Proper := by
  cases word with
  | number numeral => exact numeral
  | name named => exact named

theorem plain_of_isNamePart {c : Char} (part : Text.isNamePart c = true) : c ≠ '$' ∧ roundBracket c = c := by
  constructor
  · rintro rfl
    cases part
  · unfold roundBracket
    rw [if_neg (by rintro rfl; cases part), if_neg (by rintro rfl; cases part)]

theorem Word.leaves {l : Lexeme} (word : Word l) : Leaves l.text.toList l.text.toList := by
  apply leaves_word
  intro c inside
  cases word with
  | @number text numeral =>
    have plain := (Number.isNumeral_iff.mp numeral).1
    rcases (Number.digitsAndPoint_iff.mp plain).1 c inside with digit | rfl
    · exact plain_of_isNamePart (Text.isNamePart_of_isDigit digit)
    · decide
  | name named => exact plain_of_isNamePart (Text.isNamePart_of_isName named c inside)

theorem Word.stops {l : Lexeme} (word : Word l) {c : Char} (no_point : c ≠ '.')
    (no_part : Text.isNamePart c = false) : l.Stops (some c) := by
  intro d same
  cases same
  cases word with
  | number => exact ⟨no_point, no_part⟩
  | name => exact no_part

/-- A word before a blank. -/
theorem Word.renders_spaced {l : Lexeme} (word : Word l) : Renders (l.text.toList ++ [' ']) [l] := by
  refine ⟨_, word.leaves.append (leaves_char (by decide)), fun spells => ?_⟩
  rw [List.append_assoc]
  exact .lexeme word.proper (word.stops (by decide) rfl) (.blank rfl spells)

/-- A word before the end of its node. -/
theorem Word.renders_closed {l : Lexeme} (word : Word l) (square : Bool) :
    Renders (l.text.toList ++ (closeMark square).toList) [l, .closeBracket] := by
  have closing : Leaves (closeMark square).toList [')'] := by
    cases square with
    | false => exact leaves_char (by decide)
    | true => exact leaves_char (by decide)
  refine ⟨_, word.leaves.append closing, fun spells => ?_⟩
  have bracket : Spells (Lexeme.closeBracket.text.toList ++ _) (.closeBracket :: _) :=
    .lexeme trivial (fun _ _ => trivial) spells
  rw [List.append_assoc]
  exact .lexeme word.proper (word.stops (by decide) rfl) bracket

/-- A lexeme that ends by itself. -/
theorem renders_mark {l : Lexeme} (leaves : Leaves printed l.text.toList) (proper : l.Proper)
    (stops : ∀ next, l.Stops next) : Renders printed [l] :=
  ⟨_, leaves, fun spells => .lexeme proper (stops _) spells⟩

theorem renders_open (square : Bool) : Renders (openMark square).toList [.openBracket] := by
  refine renders_mark ?_ trivial fun _ _ _ => trivial
  cases square with
  | false => exact leaves_char (by decide)
  | true => exact leaves_char (by decide)

theorem renders_close (square : Bool) : Renders (closeMark square).toList [.closeBracket] := by
  refine renders_mark ?_ trivial fun _ _ _ => trivial
  cases square with
  | false => exact leaves_char (by decide)
  | true => exact leaves_char (by decide)

theorem renders_sign (s : Sign) : Renders s.text.toList [.sign s] := by
  refine renders_mark ?_ trivial fun _ _ _ => trivial
  cases s <;> exact leaves_char (by decide)

theorem renders_space : Renders [' '] [] :=
  ⟨_, leaves_char (by decide), fun spells => .blank rfl spells⟩

theorem renders_assign : Renders ['=', ' '] [.assign] := by
  refine ⟨['=', ' '], leaves_word (by simp [roundBracket]), fun {rest more} spells => ?_⟩
  have stops : Lexeme.assign.Stops (' ' :: rest).head? := by simp [Lexeme.Stops]
  have assign : Spells (Lexeme.assign.text.toList ++ ' ' :: rest) (.assign :: more) :=
    .lexeme trivial stops (.blank rfl spells)
  exact assign

theorem renders_arrow : Renders ['=', '>', ' '] [.arrow] := by
  have arrow : Leaves ['=', '>'] Lexeme.arrow.text.toList := leaves_word (by simp [roundBracket])
  exact (renders_mark arrow trivial fun _ _ _ => trivial).append renders_space

/-- A tree that is printed with the lexemes of an expression in its brackets. -/
def Reprints (params : List String) (t : Tree) : Prop :=
  ∃ e ls, Derives params (.sum e) ls t ∧ ∀ square, ∃ printed : String,
    (∀ written, t.write square written = .ok (written ++ printed)) ∧
      Renders printed.toList (.openBracket :: ls ++ [.closeBracket])

theorem reprints_of_inside {e : Ending} (derived : Derives params (.sum e) ls t)
    (prints : ∀ square, ∃ inside : String,
      (∀ written, t.write square written = .ok (written ++ openMark square ++ inside ++ closeMark square)) ∧
        Renders (inside ++ closeMark square).toList (ls ++ [.closeBracket])) : Reprints params t := by
  refine ⟨e, ls, derived, fun square => ?_⟩
  obtain ⟨inside, writes, renders⟩ := prints square
  refine ⟨openMark square ++ (inside ++ closeMark square), fun written => ?_, ?_⟩
  · rw [writes, String.append_assoc, String.append_assoc]
  · rw [String.toList_append]
    exact (renders_open square).append renders

theorem sum_of_primary {e : Ending} (derived : Derives params (.primary e) ls t) : Derives params (.sum e) ls t :=
  .sum_product (.product_unary (.unary_primary derived))

theorem reprints_number {text : String} (numeral : Number.isNumeral text.toList = true) :
    Reprints params (.number text) := by
  refine reprints_of_inside (sum_of_primary (.number text)) fun square => ⟨text, fun written => rfl, ?_⟩
  rw [String.toList_append]
  exact (Word.number numeral).renders_closed square

theorem ne_empty_of_isName {name : String} (named : Text.isName (Text.ofString name) = true) : name ≠ "" := by
  rintro rfl
  cases named

theorem reprints_leaf {name : String} (named : Text.isName (Text.ofString name) = true)
    (leaf : Leaf params name t) : Reprints params t := by
  refine reprints_of_inside (sum_of_primary (.name leaf)) fun square => ?_
  have renders := (Word.name named).renders_closed square
  cases leaf with
  | ident free =>
    refine ⟨name, fun written => rfl, ?_⟩
    rw [String.toList_append]
    exact renders
  | param index at_index =>
    refine ⟨paramText index name, fun written => rfl, ?_⟩
    obtain ⟨shown, leaves, spelled⟩ := renders
    refine ⟨shown, ?_, spelled⟩
    have parts := (leaves_position index).append leaves
    simpa [paramText, ne_empty_of_isName named, Lexeme.text] using parts

theorem reprints_assign {name : String} {value : Tree} (named : Text.isName (Text.ofString name) = true)
    (free : name ∉ params) (value_ok : Reprints params value) : Reprints params (.assign name value) := by
  obtain ⟨e, ls, derived, prints⟩ := value_ok
  refine reprints_of_inside (sum_of_primary (.assign free (sum_of_primary (.group derived)))) fun square => ?_
  obtain ⟨printed, writes, renders⟩ := prints (!square)
  refine ⟨name ++ " = " ++ printed, fun written => ?_, ?_⟩
  · rw [write, writes]
    simp [closed, Except.map, String.append_assoc]
  · have parts := (((Word.name named).renders_spaced.append renders_assign).append renders).append
      (renders_close square)
    simpa [Lexeme.text] using parts

theorem reprints_unary {operand : Tree} (op : UnaryOp) (operand_ok : Reprints params operand) :
    Reprints params (.unary op operand) := by
  obtain ⟨e, ls, derived, prints⟩ := operand_ok
  have leading : Leading op.sign op := by cases op <;> constructor
  refine reprints_of_inside
    (.sum_product (.product_unary (.unary_sign leading (.unary_primary (.group derived))))) fun square => ?_
  obtain ⟨printed, writes, renders⟩ := prints (!square)
  refine ⟨op.text ++ printed, fun written => ?_, ?_⟩
  · rw [write, writes]
    simp [closed, Except.map, String.append_assoc]
  · have parts := ((renders_sign op.sign).append renders).append (renders_close square)
    simpa [UnaryOp.text] using parts

/-- Every operator stands between two operands in brackets. -/
theorem derives_binary {left right : Tree} (op : BinaryOp) {ls rs : List Lexeme}
    (left_ok : Derives params (.primary .closed) ls left) (right_ok : Derives params (.primary .closed) rs right) :
    Derives params (.sum .closed) (ls ++ .sign op.sign :: rs) (.binary op left right) := by
  have factor : Derives params (.product .closed) ls left := .product_unary (.unary_primary left_ok)
  have last : Derives params (.unary .closed) rs right := .unary_primary right_ok
  cases op with
  | add => exact .sum_step .plus (.sum_product factor) (.product_unary last)
  | sub => exact .sum_step .minus (.sum_product factor) (.product_unary last)
  | mul => exact .sum_product (.product_step .times factor last)
  | div => exact .sum_product (.product_step .divide factor last)
  | mod => exact .sum_product (.product_step .percent factor last)

theorem reprints_binary {left right : Tree} (op : BinaryOp) (left_ok : Reprints params left)
    (right_ok : Reprints params right) : Reprints params (.binary op left right) := by
  obtain ⟨e, ls, left_derived, left_prints⟩ := left_ok
  obtain ⟨e', rs, right_derived, right_prints⟩ := right_ok
  refine reprints_of_inside (derives_binary op (.group left_derived) (.group right_derived)) fun square => ?_
  obtain ⟨before, left_writes, left_renders⟩ := left_prints (!square)
  obtain ⟨behind, right_writes, right_renders⟩ := right_prints (!square)
  refine ⟨before ++ " " ++ op.text ++ " " ++ behind, fun written => ?_, ?_⟩
  · rw [write, left_writes]
    simp [right_writes, closed, Except.map, bind, Except.bind, String.append_assoc]
  · have signed := (renders_space.append (renders_sign op.sign)).append renders_space
    have parts := ((left_renders.append signed).append right_renders).append (renders_close square)
    simpa [BinaryOp.text] using parts

/-- Arguments go on after those that a call has already. -/
theorem reprints_args {args : List Tree} (args_ok : ∀ a ∈ args, Reprints params a) :
    ∃ ls, (∀ {function heads before}, Derives params .call heads (.call function before) →
        Derives params .call (heads ++ ls) (.call function (before ++ args))) ∧
      ∀ square, ∃ printed : String, (∀ written, writeArgs square args written = .ok (written ++ printed)) ∧
        Renders printed.toList ls := by
  induction args with
  | nil =>
    refine ⟨[], fun derived => ?_, fun square => ⟨"", fun written => ?_, renders_nothing⟩⟩
    · rw [List.append_nil, List.append_nil]
      exact derived
    · rw [writeArgs, String.append_empty]
  | cons a args ih =>
    obtain ⟨⟨e, first, derived, prints⟩, others_ok⟩ := List.forall_mem_cons.mp args_ok
    obtain ⟨ls, calls, others_print⟩ := ih others_ok
    refine ⟨(.openBracket :: first ++ [.closeBracket]) ++ ls, fun before => ?_, fun square => ?_⟩
    · have called := calls (.call_next before (.atom_group derived))
      simpa using called
    · obtain ⟨printed, writes, renders⟩ := prints square
      obtain ⟨others, others_write, others_render⟩ := others_print square
      refine ⟨" " ++ printed ++ others, fun written => ?_, ?_⟩
      · rw [writeArgs, writes]
        simp [others_write, bind, Except.bind, String.append_assoc]
      · have parts := (renders_space.append renders).append others_render
        simpa using parts

theorem reprints_call {function : String} {args : List Tree} (named : Text.isName (Text.ofString function) = true)
    (free : function ∉ params) (some_args : args ≠ []) (args_ok : ∀ a ∈ args, Reprints params a) :
    Reprints params (.call function args) := by
  -- the blank after the name belongs to the first argument, but the name needs it to end
  obtain ⟨a, others, rfl⟩ := List.exists_cons_of_ne_nil some_args
  obtain ⟨⟨e, first, derived, prints⟩, others_ok⟩ := List.forall_mem_cons.mp args_ok
  obtain ⟨ls, calls, others_print⟩ := reprints_args others_ok
  have called := calls (.call_next (.call_head free) (.atom_group derived))
  refine reprints_of_inside (sum_of_primary (.call some_args called)) fun square => ?_
  obtain ⟨printed, writes, renders⟩ := prints (!square)
  obtain ⟨behind, others_write, others_render⟩ := others_print (!square)
  refine ⟨function ++ " " ++ printed ++ behind, fun written => ?_, ?_⟩
  · rw [write, writeArgs, writes]
    simp [others_write, closed, Except.map, bind, Except.bind, String.append_assoc]
  · have parts := (((Word.name named).renders_spaced.append renders).append others_render).append
      (renders_close square)
    simpa [Lexeme.text] using parts

theorem reprints_of_readable (readable : Readable params t) : Reprints params t := by
  induction readable with
  | number numeral => exact reprints_number numeral
  | leaf named leaf => exact reprints_leaf named leaf
  | assign named free _ value => exact reprints_assign named free value
  | call named free some_args _ args => exact reprints_call named free some_args args
  | unary op _ operand => exact reprints_unary op operand
  | binary op _ _ left right => exact reprints_binary op left right

theorem spaced_cons (word : String) (words : List String) : spaced (word :: words) = " " ++ word ++ spaced words := by
  have moves : ∀ (words : List String) (text : String),
      words.foldl (fun text word => text ++ " " ++ word) text = text ++ spaced words := by
    intro words
    induction words with
    | nil => exact fun text => (String.append_empty).symm
    | cons word words ih =>
      intro text
      rw [spaced, List.foldl_cons, List.foldl_cons, ih, ih]
      simp [String.append_assoc]
  rw [spaced, List.foldl_cons, moves, String.empty_append]

/-- The head of a definition. -/
theorem renders_head {function : String}
    (named : ∀ name ∈ function :: params, Text.isName (Text.ofString name) = true) :
    Renders (function ++ spaced params ++ " ").toList (.name function :: params.map .name) := by
  induction params generalizing function with
  | nil =>
    have alone := (Word.name (named function (List.mem_cons_self ..))).renders_spaced
    simpa [spaced, Lexeme.text] using alone
  | cons param params ih =>
    obtain ⟨first, others⟩ := List.forall_mem_cons.mp named
    have parts := (Word.name first).renders_spaced.append (ih others)
    simpa [spaced_cons, Lexeme.text] using parts

/-- What is left of a printed definition in its brackets spells its head, the arrow and the body. -/
theorem reprints_define {function : String} {body : Tree}
    (named : ∀ name ∈ function :: params, Text.isName (Text.ofString name) = true)
    (body_ok : Reprints params body) :
    ∃ e ls inside, Derives params (.sum e) ls body ∧
      (define function params body).print false = .ok ("(" ++ inside ++ ")") ∧
      Renders inside.toList (.name function :: params.map .name ++ .arrow :: ls) := by
  obtain ⟨e, ls, derived, prints⟩ := body_ok
  obtain ⟨printed, writes, renders⟩ := prints true
  refine ⟨.closed, _, function ++ spaced params ++ " => " ++ printed, sum_of_primary (.group derived), ?_, ?_⟩
  · rw [print, write]
    change closed false (write true body _) = _
    rw [writes]
    simp [closed, Except.map, openMark, closeMark, String.append_assoc]
  · have parts := ((renders_head named).append renders_arrow).append renders
    simpa using parts

theorem Leaves.plainChars_eq (leaves : Leaves printed shown) : plainChars printed = shown := by
  have whole := leaves []
  rw [List.append_nil] at whole
  rw [whole]
  exact List.append_nil shown

theorem Renders.spells (renders : Renders printed ls) : Spells (plainChars printed) ls := by
  obtain ⟨shown, leaves, spelled⟩ := renders
  have alone := spelled .nothing
  rw [List.append_nil, List.append_nil] at alone
  rw [leaves.plainChars_eq]
  exact alone

/-- The brackets around a definition are no part of what is left of it. -/
theorem plainText_define {inside : String} (renders : Renders inside.toList ls) (function : String)
    (params : List String) (body : Tree) :
    (plainText (define function params body) ("(" ++ inside ++ ")")).toList = plainChars inside.toList := by
  obtain ⟨shown, leaves, -⟩ := renders
  have bracketed : Leaves ("(" ++ inside ++ ")").toList (['('] ++ shown ++ [')']) := by
    rw [String.toList_append, String.toList_append]
    exact ((leaves_char (by decide)).append leaves).append (leaves_char (by decide))
  rw [plainText, bracketed.plainChars_eq, leaves.plainChars_eq, String.toList_ofList]
  change ((shown ++ [')']).dropLast) = shown
  exact List.dropLast_concat

end Tree

namespace Parser

/-- A line whose lexemes are proper is printed, and what is left of it is read as the same line. -/
theorem exists_print_of_line {ls : List Lexeme} {t : Tree} (derived : Grammar.Line (ls ++ [.ending]) t)
    (proper : ∀ l ∈ ls, l.Proper) :
    ∃ printed, t.print false = .ok printed ∧
      parse {} (t.plainText printed).toList = .ok { tree := t, vars := t.vars } := by
  generalize whole : ls ++ [.ending] = all at derived
  cases derived with
  | expression body =>
    have same := List.append_cancel_right whole
    subst same
    -- the brackets around an expression stay: they are a group
    have not_definition := body.not_definition
    obtain ⟨e, inside, again, prints⟩ := Tree.reprints_of_readable (Tree.gives_of_derives body proper)
    obtain ⟨printed, writes, renders⟩ := prints false
    refine ⟨"" ++ printed, writes "", ?_⟩
    rw [Tree.plainText, not_definition, String.empty_append, String.toList_ofList]
    exact parse_of_spells renders.spells (.expression (Tree.sum_of_primary (.group again)))
  | @definition e function params body_ls body distinct derived =>
    have same := List.append_cancel_right whole
    subst same
    obtain ⟨head_proper, tail_proper⟩ := List.forall_mem_append.mp proper
    have body_proper := (List.forall_mem_cons.mp tail_proper).2
    have named : ∀ name ∈ function :: params, Text.isName (Text.ofString name) = true := fun name inside =>
      head_proper (.name name) (List.mem_map_of_mem (f := Lexeme.name) inside)
    obtain ⟨e, inside, printed, again, prints, renders⟩ :=
      Tree.reprints_define named (Tree.reprints_of_readable (Tree.gives_of_derives derived body_proper))
    refine ⟨_, prints, ?_⟩
    rw [Tree.plainText_define renders]
    exact parse_of_spells renders.spells (.definition distinct again)

/-- Reading what is left of a printed line gives the line. -/
theorem parse_print {text : Text} {line : Line} (read : parseText text = .ok line) :
    ∃ printed, line.tree.print false = .ok printed ∧
      parseText (.ofString (line.tree.plainText printed)) = .ok line := by
  have parsed := parse_of_parseText read
  obtain ⟨ls, spells, derived⟩ := spells_of_parse parsed
  obtain ⟨printed, prints, again⟩ := exists_print_of_line derived spells.proper
  refine ⟨printed, prints, parseText_of_parse ?_⟩
  rw [Text.toChars_ofString, again, ← vars_of_parse parsed]

/-- A parameter, a variable and a call in one body. -/
theorem parse_print_definition :
    ∃ line, parseText (.ofString "f a => b = a - g a 2") = .ok line ∧
      line.tree.print false = .ok "(f a => [b = ([$0:a] - [g ($0:a) (2)])])" ∧
      line.tree.plainText "(f a => [b = ([$0:a] - [g ($0:a) (2)])])" = "f a => (b = ((a) - (g (a) (2))))" ∧
      ∃ printed, line.tree.print false = .ok printed ∧
        parseText (.ofString (line.tree.plainText printed)) = .ok line := by
  have read : parseText (.ofString "f a => b = a - g a 2") = .ok
      { tree := .define "f" ["a"] (.assign "b"
          (.binary .sub (.param 0 "a") (.call "g" [.param 0 "a", .number "2"]))), vars := ["b"] } := by cbv
  exact ⟨_, read, by cbv, by cbv, parse_print read⟩

end Parser

end Abacus
