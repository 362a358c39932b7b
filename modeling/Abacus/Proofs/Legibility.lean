import Abacus.Proofs.Functions
import Abacus.Proofs.Messages
import Mathlib

/-!
Printed functions can be told apart.

The first character in the brackets of a printed node tells what sort of node it is. The names and numbers in them end
where something stands that cannot be part of them, and an operand ends with its own bracket. So a printed text is that
of one function only, though it is no line that could be read: positions of parameters are printed, but never written.
-/

namespace Abacus

namespace Tree

/-- What the brackets of a printed node begin with. -/
inductive Opening
  | numeral
  | name
  | position
  | sign
  | bracket

def Opening.ofChar (c : Char) : Opening :=
  if c = '$' then .position
  else if c = '(' ∨ c = '[' then .bracket
  else if c = '+' ∨ c = '-' then .sign
  else if c.isDigit || c == '.' then .numeral
  else .name

def opening : Tree → Opening
  | .number _ => .numeral
  | .param _ _ => .position
  | .unary _ _ => .sign
  | .binary _ _ _ => .bracket
  | _ => .name

def opener (square : Bool) : Char :=
  if square then '[' else '('

def closer (square : Bool) : Char :=
  if square then ']' else ')'

/-- The text begins with the tree as it is printed, and `rest` comes after that. Calls are left out. -/
inductive Shows : (square : Bool) → Tree → (rest text : List Char) → Prop
  | number {square : Bool} {text : String} {rest : List Char} (numeral : Number.isNumeral text.toList = true) :
      Shows square (.number text) rest (opener square :: (text.toList ++ closer square :: rest))
  | ident {square : Bool} {name : String} {rest : List Char} (named : Text.isName (Text.ofString name) = true) :
      Shows square (.ident name) rest (opener square :: (name.toList ++ closer square :: rest))
  | param {square : Bool} (index : Nat) {name : String} {rest : List Char}
      (named : Text.isName (Text.ofString name) = true) :
      Shows square (.param index name) rest
        (opener square :: '$' :: ((Nat.repr index).toList ++ ':' :: (name.toList ++ closer square :: rest)))
  | assign {square : Bool} {name : String} {value : Tree} {rest shown : List Char}
      (named : Text.isName (Text.ofString name) = true)
      (value_shows : Shows (!square) value (closer square :: rest) shown) :
      Shows square (.assign name value) rest (opener square :: (name.toList ++ ' ' :: '=' :: ' ' :: shown))
  | unary {square : Bool} (op : UnaryOp) {operand : Tree} {rest shown : List Char}
      (operand_shows : Shows (!square) operand (closer square :: rest) shown) :
      Shows square (.unary op operand) rest (opener square :: op.sign.toChar :: shown)
  | binary {square : Bool} (op : BinaryOp) {left right : Tree} {rest before behind : List Char}
      (right_shows : Shows (!square) right (closer square :: rest) behind)
      (left_shows : Shows (!square) left (' ' :: op.sign.toChar :: ' ' :: behind) before) :
      Shows square (.binary op left right) rest (opener square :: before)

variable {square square' : Bool} {t t' : Tree} {text text' rest rest' : List Char} {params : List String}

@[simp] theorem toList_openMark (square : Bool) : (openMark square).toList = [opener square] := by
  cases square <;> rfl

@[simp] theorem toList_closeMark (square : Bool) : (closeMark square).toList = [closer square] := by
  cases square <;> rfl

/-- What is shown of a tree is what printing writes. -/
theorem Shows.write (shows : Shows square t rest text) :
    ∃ shown : String, (∀ written, t.write square written = .ok (written ++ shown)) ∧ text = shown.toList ++ rest := by
  induction shows with
  | @number square text | @ident square text =>
    refine ⟨openMark square ++ text ++ closeMark square, fun written => ?_, by simp⟩
    simp [Tree.write, String.append_assoc]
  | @param square index name _ named =>
    refine ⟨openMark square ++ paramText index name ++ closeMark square, fun written => ?_, ?_⟩
    · simp [Tree.write, String.append_assoc]
    · simp [paramText, ne_empty_of_isName named, Int.repr]
  | @assign square name _ _ _ _ _ value =>
    obtain ⟨shown, writes, rfl⟩ := value
    refine ⟨openMark square ++ name ++ " = " ++ shown ++ closeMark square, fun written => ?_, by simp⟩
    rw [Tree.write, closed, writes]
    simp [Except.map, String.append_assoc]
  | @unary square op _ _ _ _ operand =>
    obtain ⟨shown, writes, rfl⟩ := operand
    refine ⟨openMark square ++ op.text ++ shown ++ closeMark square, fun written => ?_,
      by simp [UnaryOp.text, Sign.text]⟩
    rw [Tree.write, closed, writes]
    simp [Except.map, String.append_assoc]
  | @binary square op _ _ _ _ _ _ _ right left =>
    obtain ⟨behind, right_writes, rfl⟩ := right
    obtain ⟨before, left_writes, rfl⟩ := left
    refine ⟨openMark square ++ before ++ " " ++ op.text ++ " " ++ behind ++ closeMark square, fun written => ?_,
      by simp [BinaryOp.text, Sign.text]⟩
    rw [Tree.write, left_writes]
    simp [right_writes, closed, Except.map, bind, Except.bind, String.append_assoc]

theorem Opening.ofChar_of_numeric {c : Char} (numeric : c.isDigit = true ∨ c = '.') : ofChar c = .numeral := by
  have fits : (c.isDigit || c == '.') = true := by simpa using numeric
  unfold ofChar
  rw [if_neg (by rintro rfl; cases fits), if_neg (by rintro (rfl | rfl) <;> cases fits),
    if_neg (by rintro (rfl | rfl) <;> cases fits), if_pos fits]

theorem Opening.ofChar_of_isNameStart {c : Char} (start : Text.isNameStart c = true) : ofChar c = .name := by
  unfold ofChar
  rw [if_neg (by rintro rfl; cases start), if_neg (by rintro (rfl | rfl) <;> cases start),
    if_neg (by rintro (rfl | rfl) <;> cases start), Text.not_numeric_of_isNameStart start]
  rfl

theorem Shows.exists_cons (shows : Shows square t rest text) : ∃ more, text = opener square :: more := by
  cases shows <;> exact ⟨_, rfl⟩

/-- The first character in the brackets tells the sort of the node. -/
theorem Shows.begins (shows : Shows square t rest text) :
    ∃ c more, text = opener square :: c :: more ∧ Opening.ofChar c = t.opening := by
  cases shows with
  | @number _ text _ numeral =>
    obtain ⟨plain, some_digit⟩ := Number.isNumeral_iff.mp numeral
    cases chars : text.toList with
    | nil => simp [chars] at some_digit
    | cons c more =>
      have first : c ∈ text.toList := by simp [chars]
      exact ⟨c, _, rfl, Opening.ofChar_of_numeric ((Number.digitsAndPoint_iff.mp plain).1 c first)⟩
  | ident named | assign named =>
    obtain ⟨c, more, chars, start, -⟩ := Text.isName_iff.mp named
    exact ⟨c, _, by rw [chars]; rfl, Opening.ofChar_of_isNameStart start⟩
  | param => exact ⟨'$', _, rfl, rfl⟩
  | unary op => exact ⟨_, _, rfl, by cases op <;> rfl⟩
  | binary op right_shows left_shows =>
    obtain ⟨more, rfl⟩ := left_shows.exists_cons
    exact ⟨_, _, rfl, by cases square <;> rfl⟩

theorem Shows.opening_eq (shows : Shows square t rest text) (shows' : Shows square' t' rest' text')
    (same : text = text') : t.opening = t'.opening := by
  obtain ⟨c, more, rfl, sort⟩ := shows.begins
  obtain ⟨c', more', rfl, sort'⟩ := shows'.begins
  simp only [List.cons.injEq] at same
  rw [← sort, ← sort', same.2.1]

/-- A word ends with the last character that can be part of it. -/
theorem word_unique {part : Char → Bool} {word word' : String} {stop stop' : Char}
    (parts : ∀ c ∈ word.toList, part c = true) (parts' : ∀ c ∈ word'.toList, part c = true) (ends : part stop = false)
    (ends' : part stop' = false) (same : word.toList ++ stop :: rest = word'.toList ++ stop' :: rest') :
    word = word' ∧ stop = stop' ∧ rest = rest' := by
  have taken {word rest : List Char} {stop : Char} (parts : ∀ c ∈ word, part c = true) (ends : part stop = false) :
      (word ++ stop :: rest).takeWhile part = word := by
    rw [List.takeWhile_append_of_pos parts, List.takeWhile_cons_of_neg (by simp [ends]), List.append_nil]
  have words : word.toList = word'.toList := by rw [← taken parts ends, same, taken parts' ends']
  rw [words] at same
  exact ⟨String.toList_inj.mp words, List.cons.inj (List.append_cancel_left same)⟩

theorem name_unique {name name' : String} {stop stop' : Char} (named : Text.isName (Text.ofString name) = true)
    (named' : Text.isName (Text.ofString name') = true) (ends : Text.isNamePart stop = false)
    (ends' : Text.isNamePart stop' = false) (same : name.toList ++ stop :: rest = name'.toList ++ stop' :: rest') :
    name = name' ∧ stop = stop' ∧ rest = rest' :=
  word_unique (Text.isNamePart_of_isName named) (Text.isNamePart_of_isName named') ends ends' same

theorem numeral_unique {number number' : String} (numeral : Number.isNumeral number.toList = true)
    (numeral' : Number.isNumeral number'.toList = true)
    (same : number.toList ++ closer square :: rest = number'.toList ++ closer square :: rest') :
    number = number' ∧ rest = rest' := by
  have numeric {number : String} (numeral : Number.isNumeral number.toList = true) :
      ∀ c ∈ number.toList, (c.isDigit || c == '.') = true := fun c inside => by
    simpa using (Number.digitsAndPoint_iff.mp (Number.isNumeral_iff.mp numeral).1).1 c inside
  have ends : ((closer square).isDigit || closer square == '.') = false := by cases square <;> rfl
  obtain ⟨words, -, after⟩ := word_unique (numeric numeral) (numeric numeral') ends ends same
  exact ⟨words, after⟩

theorem position_unique {index index' : Nat}
    (same : (Nat.repr index).toList ++ ':' :: rest = (Nat.repr index').toList ++ ':' :: rest') :
    index = index' ∧ rest = rest' := by
  have digits (index : Nat) : ∀ c ∈ (Nat.repr index).toList, c.isDigit = true := by
    rw [Nat.toList_repr]
    exact fun c inside => Nat.isDigit_of_mem_toDigits (by decide) (by decide) inside
  obtain ⟨positions, -, after⟩ := word_unique (digits index) (digits index') rfl rfl same
  exact ⟨Nat.repr_inj.mp positions, after⟩

theorem isNamePart_closer (square : Bool) : Text.isNamePart (closer square) = false := by
  cases square <;> rfl

theorem closer_ne_blank (square : Bool) : closer square ≠ ' ' := by
  cases square <;> decide

/-- No text begins with two trees. The induction is on one of them, with what comes after it left open, since operands
are followed by more. -/
theorem Shows.unique (shows : Shows square t rest text) (shows' : Shows square t' rest' text') (same : text = text') :
    t = t' ∧ rest = rest' := by
  induction shows generalizing t' text' rest' with
  | @number square _ _ numeral =>
    have sorts := (number numeral).opening_eq shows' same
    cases shows' with
    | ident | param | assign | unary | binary => cases sorts
    | number numeral' =>
      obtain ⟨rfl, rfl⟩ := numeral_unique numeral numeral' (List.cons.inj same).2
      exact ⟨rfl, rfl⟩
  | @ident square _ _ named =>
    have sorts := (ident named).opening_eq shows' same
    have ends := isNamePart_closer square
    cases shows' with
    | number | param | unary | binary => cases sorts
    | ident named' =>
      obtain ⟨rfl, -, rfl⟩ := name_unique named named' ends ends (List.cons.inj same).2
      exact ⟨rfl, rfl⟩
    | assign named' =>
      obtain ⟨-, stop, -⟩ := name_unique named named' ends rfl (List.cons.inj same).2
      exact absurd stop (closer_ne_blank square)
  | @param square index _ _ named =>
    have sorts := (param index named).opening_eq shows' same
    have ends := isNamePart_closer square
    cases shows' with
    | number | ident | assign | unary | binary => cases sorts
    | param index' named' =>
      obtain ⟨rfl, names⟩ := position_unique (List.cons.inj (List.cons.inj same).2).2
      obtain ⟨rfl, -, rfl⟩ := name_unique named named' ends ends names
      exact ⟨rfl, rfl⟩
  | @assign square _ _ _ _ named value_shows ih =>
    have sorts := (assign named value_shows).opening_eq shows' same
    have ends := isNamePart_closer square
    cases shows' with
    | number | param | unary | binary => cases sorts
    | ident named' =>
      obtain ⟨-, stop, -⟩ := name_unique named named' rfl ends (List.cons.inj same).2
      exact absurd stop.symm (closer_ne_blank square)
    | assign named' value_shows' =>
      obtain ⟨rfl, -, values⟩ := name_unique named named' rfl rfl (List.cons.inj same).2
      simp only [List.cons.injEq, true_and] at values
      obtain ⟨rfl, after⟩ := ih value_shows' values
      exact ⟨rfl, (List.cons.inj after).2⟩
  | unary op operand_shows ih =>
    have sorts := (unary op operand_shows).opening_eq shows' same
    cases shows' with
    | number | ident | param | assign | binary => cases sorts
    | unary op' operand_shows' =>
      simp only [List.cons.injEq, true_and] at same
      obtain ⟨signs, operands⟩ := same
      have ops : op = op' := by cases op <;> cases op' <;> first | rfl | cases signs
      obtain ⟨rfl, after⟩ := ih operand_shows' operands
      exact ⟨by rw [ops], (List.cons.inj after).2⟩
  | binary op right_shows left_shows right_ih left_ih =>
    have sorts := (binary op right_shows left_shows).opening_eq shows' same
    cases shows' with
    | number | ident | param | assign | unary => cases sorts
    | binary op' right_shows' left_shows' =>
      have lefts := (List.cons.inj same).2
      obtain ⟨rfl, between⟩ := left_ih left_shows' lefts
      simp only [List.cons.injEq, true_and] at between
      obtain ⟨signs, rights⟩ := between
      have ops : op = op' := by cases op <;> cases op' <;> first | rfl | cases signs
      obtain ⟨rfl, after⟩ := right_ih right_shows' rights
      exact ⟨by rw [ops], (List.cons.inj after).2⟩

/-- The words, each with a space after it. -/
def wordsText (words : List String) : List Char :=
  words.flatMap fun word => word.toList ++ [' ']

theorem toList_spaced (words : List String) : (spaced words).toList ++ [' '] = ' ' :: wordsText words := by
  induction words with
  | nil => rfl
  | cons word words ih => simp [spaced_cons, wordsText, ih]

/-- The head of a printed function. -/
theorem toList_head (function : String) (params : List String) :
    (function ++ spaced params ++ " => ").toList = wordsText (function :: params) ++ ['=', '>', ' '] := by
  have arrow : " => ".toList = [' '] ++ ['=', '>', ' '] := rfl
  calc (function ++ spaced params ++ " => ").toList
    _ = function.toList ++ ((spaced params).toList ++ [' ']) ++ ['=', '>', ' '] := by simp [arrow]
    _ = wordsText (function :: params) ++ ['=', '>', ' '] := by
      rw [toList_spaced]
      simp [wordsText]

/-- Names end where the arrow begins. -/
theorem wordsText_unique {words words' : List String}
    (named : ∀ word ∈ words, Text.isName (Text.ofString word) = true)
    (named' : ∀ word ∈ words', Text.isName (Text.ofString word) = true)
    (same : wordsText words ++ '=' :: rest = wordsText words' ++ '=' :: rest') : words = words' ∧ rest = rest' := by
  have no_arrow {word : String} {words : List String} {rest rest' : List Char}
      (named : Text.isName (Text.ofString word) = true) :
      '=' :: rest ≠ wordsText (word :: words) ++ '=' :: rest' := by
    obtain ⟨first, others, chars, start, -⟩ := Text.isName_iff.mp named
    rw [wordsText, List.flatMap_cons, chars]
    intro same
    rw [← (List.cons.inj same).1] at start
    cases start
  induction words generalizing words' with
  | nil =>
    cases words' with
    | nil => exact ⟨rfl, (List.cons.inj same).2⟩
    | cons word' words' => exact absurd same (no_arrow (named' word' (List.mem_cons_self ..)))
  | cons word words ih =>
    obtain ⟨word_named, words_named⟩ := List.forall_mem_cons.mp named
    cases words' with
    | nil => exact absurd same.symm (no_arrow word_named)
    | cons word' words' =>
      obtain ⟨word_named', words_named'⟩ := List.forall_mem_cons.mp named'
      simp only [wordsText, List.flatMap_cons, List.append_assoc, List.cons_append, List.nil_append] at same
      obtain ⟨rfl, -, others⟩ := name_unique word_named word_named' rfl rfl same
      obtain ⟨rfl, after⟩ := ih words_named words_named' others
      exact ⟨rfl, after⟩

/-- Whether the name of a variable is one, if the node has a variable. -/
def nameFits : Tree → Bool
  | .ident name => Text.isName (Text.ofString name)
  | .assign name _ => Text.isName (Text.ofString name)
  | _ => true

/-- All variables in the tree have names. -/
def Named (t : Tree) : Prop :=
  ∀ node ∈ t.nodes, node.nameFits = true

theorem Named.of_hasHead {node : Tree} (named : t.Named) (has : t.HasHead node) : node.nameFits = true := by
  have of_head (u : Tree) : u.head.nameFits = u.nameFits := by cases u <;> rfl
  obtain ⟨part, inside, same⟩ := has
  rw [← of_head, ← same, of_head]
  exact named part inside

theorem Readable.named (readable : t.Readable params) : t.Named := by
  induction readable with
  | number => exact List.forall_mem_singleton.mpr rfl
  | leaf named leaf =>
    cases leaf with
    | ident => exact List.forall_mem_singleton.mpr named
    | param => exact List.forall_mem_singleton.mpr rfl
  | assign named _ _ ih => exact List.forall_mem_cons.mpr ⟨named, ih⟩
  | call _ _ _ _ ih =>
    refine List.forall_mem_cons.mpr ⟨rfl, fun node inside => ?_⟩
    obtain ⟨a, a_inside, below⟩ := mem_nodesOfAll_iff.mp inside
    exact ih a a_inside node below
  | unary op _ ih => exact List.forall_mem_cons.mpr ⟨rfl, ih⟩
  | binary op _ _ left right => exact List.forall_mem_cons.mpr ⟨rfl, List.forall_mem_append.mpr ⟨left, right⟩⟩

/-- A body that calls nothing can be printed before anything. -/
theorem Expression.exists_shows (ok : t.Expression false params)
    (params_named : ∀ name ∈ params, Text.isName (Text.ofString name) = true)
    (fits : ∀ node ∈ t.nodes, node.fitsBody params = true ∧ node.nameFits = true) (square : Bool) (rest : List Char) :
    ∃ text, Shows square t rest text := by
  induction ok generalizing square rest with
  | number => exact ⟨_, .number (fits _ (List.mem_singleton_self _)).1⟩
  | ident => exact ⟨_, .ident (fits _ (List.mem_singleton_self _)).2⟩
  | param index name at_index => exact ⟨_, .param index (params_named name (List.mem_of_getElem? at_index))⟩
  | assign name _ ih =>
    obtain ⟨⟨-, named⟩, below⟩ := List.forall_mem_cons.mp fits
    obtain ⟨shown, shows⟩ := ih below (!square) (closer square :: rest)
    exact ⟨_, .assign named shows⟩
  | call function allowed => cases allowed
  | unary op _ ih =>
    obtain ⟨-, below⟩ := List.forall_mem_cons.mp fits
    obtain ⟨shown, shows⟩ := ih below (!square) (closer square :: rest)
    exact ⟨_, .unary op shows⟩
  | binary op _ _ left_ih right_ih =>
    obtain ⟨-, below⟩ := List.forall_mem_cons.mp fits
    obtain ⟨left_fits, right_fits⟩ := List.forall_mem_append.mp below
    obtain ⟨behind, right_shows⟩ := right_ih right_fits (!square) (closer square :: rest)
    obtain ⟨before, left_shows⟩ := left_ih left_fits (!square) (' ' :: op.sign.toChar :: ' ' :: behind)
    exact ⟨_, .binary op right_shows left_shows⟩

end Tree

/-- The function, its parameters and the variables in its body have names. -/
structure Func.Named (f : Func) : Prop where
  head : ∀ name ∈ f.name :: f.params, Text.isName (Text.ofString name) = true
  body : f.body.Named

/-- In a definition that is read, all names are names. -/
theorem Parser.named_of_parse {source : Lexer.Source} {text : List Char} {line : Line} {function : String}
    {params : List String} {body : Tree} (read : Parser.parse source text = .ok line)
    (tree : line.tree = .define function params body) :
    (∀ name ∈ function :: params, Text.isName (Text.ofString name) = true) ∧ body.Named := by
  obtain ⟨ls, spells, derived⟩ := spells_of_parse (parse_of_source read)
  have readable := readableLine_of_line derived spells.proper
  rw [tree] at readable
  cases readable with
  | expression readable =>
    cases readable with
    | leaf named leaf => cases leaf
  | definition named readable => exact ⟨named, readable.named⟩

namespace Environment

variable {env : Environment} {line : Line} {params : List String} {body : Tree} {function : String} {f : Func}

def Named (env : Environment) : Prop :=
  env.functions.All fun _ f => f.Named

/-- The variables of a stored body are those of the definition and of the functions that it calls. -/
theorem Named.define (named : env.Named) (closed : env.Closed) (ok : body.Expression true params)
    (head_named : ∀ name ∈ function :: params, Text.isName (Text.ofString name) = true) (body_named : body.Named)
    (defined : env.define function params body = .ok f) : f.Named := by
  obtain ⟨body', inlined, rfl⟩ := define_eq_ok_iff.mp defined
  refine ⟨head_named, fun node inside => ?_⟩
  rcases draws_of_inline closed.flat ok inlined inside with own | ⟨g, ⟨name, found, -⟩, has⟩
  · exact body_named.of_hasHead own
  · exact (named name g found).body.of_hasHead has

theorem Named.evaluate (named : env.Named) (closed : env.Closed) {source : Lexer.Source} {text : List Char}
    (read : Parser.parse source text = .ok line) : (env.evaluate line).2.Named := by
  rcases functions_evaluate (Parser.ofLine_of_parse read) with
    same | ⟨function, params, body, f, tree, defined, evaluated⟩
  · rw [Named, same]
    exact named
  · obtain ⟨-, body_ok, -⟩ := Parser.definition_of_parse read tree
    obtain ⟨head_named, body_named⟩ := Parser.named_of_parse read tree
    rw [evaluated]
    exact Bindings.All.insert named (named.define closed body_ok head_named body_named defined)

end Environment

theorem Reachable.named {policy : Policy} {env : Environment} (reachable : Reachable policy env) : env.Named := by
  induction reachable with
  | create created _ =>
    rw [Environment.Named, Environment.functions_clone created]
    exact Bindings.all_empty
  | evaluate before read _ ih => exact ih.evaluate before.closed read
  | set _ bound ih =>
    rw [Environment.Named, Environment.functions_set bound]
    exact ih
  | clone _ copied _ ih =>
    rw [Environment.Named, Environment.functions_clone copied]
    exact ih

namespace Func

variable {f g : Func}

/-- A function is printed with its head and its body. -/
theorem exists_print (closed : f.Closed) (named : f.Named) :
    ∃ printed shown, f.print = .ok printed ∧ f.body.Shows false [] shown ∧
      printed.toList = Tree.wordsText (f.name :: f.params) ++ '=' :: '>' :: ' ' :: shown := by
  have params_named := (List.forall_mem_cons.mp named.head).2
  obtain ⟨shown, shows⟩ := closed.body.exists_shows params_named
    (fun node inside => ⟨closed.fitsBody inside, named.body node inside⟩) false []
  obtain ⟨text, writes, rfl⟩ := shows.write
  refine ⟨_, _, writes _, shows, ?_⟩
  rw [String.toList_append, Tree.toList_head]
  simp

/-- Functions that print alike have the same head and the same body. -/
theorem eq_of_print_eq (f_closed : f.Closed) (f_named : f.Named) (g_closed : g.Closed) (g_named : g.Named)
    (same : f.print = g.print) : f.name = g.name ∧ f.params = g.params ∧ f.body = g.body := by
  obtain ⟨printed, shown, f_print, f_shows, text⟩ := exists_print f_closed f_named
  obtain ⟨printed', shown', g_print, g_shows, text'⟩ := exists_print g_closed g_named
  rw [f_print, g_print, Except.ok.injEq] at same
  rw [same, text'] at text
  obtain ⟨heads, after⟩ := Tree.wordsText_unique g_named.head f_named.head text
  simp only [List.cons.injEq, true_and] at heads after
  obtain ⟨bodies, -⟩ := g_shows.unique f_shows after
  exact ⟨heads.1.symm, heads.2.symm, bodies.symm⟩

/-- A parameter is printed with its position, which no name begins with. -/
theorem print_param_ne_ident (f_closed : f.Closed) (f_named : f.Named) (g_named : g.Named) {index : Int}
    {name free : String} (param : .param index name ∈ f.body.nodes) (ident : .ident free ∈ g.body.nodes)
    (square square' : Bool) : (Tree.param index name).print square ≠ (Tree.ident free).print square' := by
  have params_named := (List.forall_mem_cons.mp f_named.head).2
  cases f_closed.body.of_node param with
  | param index name at_index =>
    have param_shows : Tree.Shows square (.param index name) [] _ :=
      .param index (params_named name (List.mem_of_getElem? at_index))
    have ident_shows : Tree.Shows square' (.ident free) [] _ := .ident (g_named.body _ ident)
    obtain ⟨text, param_writes, shown⟩ := param_shows.write
    obtain ⟨text', ident_writes, shown'⟩ := ident_shows.write
    rw [Tree.print, Tree.print, param_writes, ident_writes]
    intro same
    have texts : text = text' := by simpa using same
    rw [← texts] at shown'
    cases param_shows.opening_eq ident_shows (shown.trans shown'.symm)

end Func

namespace Environment

/-- Functions of whatever environments are printed, and alike only if they are the same: their names, their parameters
and their bodies. A parameter never looks like a variable, not even like one of the same name that came into the body
with a function that was called. -/
theorem printed_functions_unique {policy policy' : Policy} {env env' : Environment} (reachable : Reachable policy env)
    (reachable' : Reachable policy' env') {key key' : String} {f g : Func}
    (found : env.functions.find? key = some f) (found' : env'.functions.find? key' = some g) :
    (∃ printed, f.print = .ok printed) ∧
      (f.print = g.print ↔ f.name = g.name ∧ f.params = g.params ∧ f.body = g.body) ∧
      ∀ index name free square square', .param index name ∈ f.body.nodes → .ident free ∈ g.body.nodes →
        (Tree.param index name).print square ≠ (Tree.ident free).print square' := by
  have f_closed := (reachable.closed key f found).2
  have g_closed := (reachable'.closed key' g found').2
  have f_named := reachable.named key f found
  have g_named := reachable'.named key' g found'
  obtain ⟨printed, -, prints, -⟩ := Func.exists_print f_closed f_named
  refine ⟨⟨printed, prints⟩, ⟨Func.eq_of_print_eq f_closed f_named g_closed g_named, ?_⟩, ?_⟩
  · rintro ⟨names, params, bodies⟩
    rw [Func.print, Func.print, names, params, bodies]
  · intro index name free square square' param ident
    exact Func.print_param_ne_ident f_closed f_named g_named param ident square square'

/-- Two functions of one name, one with a variable where the other has a parameter that is called like it. -/
theorem printed_functions_unique_inlined :
    ∃ env env' f g, Reachable .rising env ∧ Reachable .rising env' ∧ env.functions.find? "f" = some f ∧
      env'.functions.find? "f" = some g ∧ f.print = .ok "f y => ([$0:y] * [y])" ∧
      g.print = .ok "f y => ([$0:y] * [$0:y])" ∧
      (f.print = g.print ↔ f.name = g.name ∧ f.params = g.params ∧ f.body = g.body) ∧
      (Tree.param 0 "y").print true ≠ (Tree.ident "y").print true := by
  have start := reachable_blank (Nat.succ_pos 7)
  have given : ((blank 8).give (Text.ofString "y=2")).1 = .ok () := by cbv
  have bound := start.give (Text.ofString "y=2") (by simp [given])
  have first := bound.exec_ok (show (exec _ (Text.ofString "g a=>a*y")).1 = .ok .defined by cbv)
  have second := first.exec_ok (show (exec _ (Text.ofString "f y=>g y")).1 = .ok .defined by cbv)
  have other := start.exec_ok (show (exec _ (Text.ofString "f y=>y*y")).1 = .ok .defined by cbv)
  let f : Func := { name := "f", params := ["y"], body := .binary .mul (.param 0 "y") (.ident "y") }
  let g : Func := { name := "f", params := ["y"], body := .binary .mul (.param 0 "y") (.param 0 "y") }
  obtain ⟨env, reached, found⟩ : ∃ env, Reachable .rising env ∧ env.functions.find? "f" = some f :=
    ⟨_, second, by cbv⟩
  obtain ⟨env', reached', found'⟩ : ∃ env, Reachable .rising env ∧ env.functions.find? "f" = some g :=
    ⟨_, other, by cbv⟩
  have differ := (printed_functions_unique reached reached found found).2.2 0 "y" "y" true true
  have f_print : f.print = .ok "f y => ([$0:y] * [y])" := by cbv
  have g_print : g.print = .ok "f y => ([$0:y] * [$0:y])" := by cbv
  refine ⟨env, env', f, g, reached, reached', found, found', f_print, g_print,
    (printed_functions_unique reached reached' found found').2.1, differ ?_ ?_⟩
  · simp [f, Tree.nodes]
  · simp [f, Tree.nodes]

end Environment

end Abacus
