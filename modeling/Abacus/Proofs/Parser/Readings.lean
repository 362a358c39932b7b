import Abacus.Proofs.Parser.Steps
import Mathlib

/-!
Two readings of the same lexemes.

Where a token stands plays no role in how it is read: columns go into errors and nowhere else. So two lists of tokens
with the same lexemes are read alike, up to the columns of errors, and these are the columns of one and the same token.
Both readings record the same names on the way, and these are the names of the tree that is read, each once for
every node that has it.
-/

namespace Abacus

/-- The error in another column. -/
def InputError.inColumn (column : Int) : InputError → InputError
  | .token text kind _ => .token text kind column
  | .unexpected _ expected found => .unexpected column expected found
  | .operator _ sign unary => .operator column sign unary
  | .bracket _ left right => .bracket column left right
  | .emptyExpression _ close => .emptyExpression column close

namespace Parser

variable {ctx : Context} {outer : Binding} {columns : Nat → Nat → Prop} {endColumn : Nat} {before : List String}
  {t t' : Token} {tokens tokens' rest : List Token} {α β : Type} {P P' Q Q' : List Token → Prop}
  {names : α → List String} {more : β → List String}

/-- Two outcomes are alike: both succeed, with results that are related, or both fail with the same error, in columns
that correspond. -/
inductive Alike (columns : Nat → Nat → Prop) (related : α → β → Prop) : Except InputError α → Except InputError β → Prop
  | ok {a : α} {b : β} (results : related a b) : Alike columns related (.ok a) (.ok b)
  | error {e e' : InputError} {column column' : Nat} (corresponds : columns column column')
      (located : e.column = column) (same : e' = e.inColumn column') : Alike columns related (.error e) (.error e')

/-- Tokens that say the same, in columns that correspond. -/
structure Matches (columns : Nat → Nat → Prop) (t t' : Token) : Prop where
  lexeme : t.lexeme = t'.lexeme
  column : columns t.column t'.column

/-- Two readings of the same: what was read and recorded is equal, and the tokens left over match. With `before` what
was recorded are the names of what was read, in some order. -/
structure SameReading (columns : Nat → Nat → Prop) (before : List String) (names : α → List String)
    (x : α × List String × { rest // P rest }) (x' : α × List String × { rest // P' rest }) : Prop where
  value : x.1 = x'.1
  recorded : x.2.1 = x'.2.1
  names_recorded : (before ++ x.2.1).Perm (names x.1)
  left : List.Forall₂ (Matches columns) x.2.2.1 x'.2.2.1

abbrev Agree (columns : Nat → Nat → Prop) (before : List String) (names : α → List String)
    (r : Except InputError (α × List String × { rest // P rest }))
    (r' : Except InputError (α × List String × { rest // P' rest })) : Prop :=
  Alike columns (SameReading columns before names) r r'

theorem agree_read {a : α} {found : List String} {rest : { rest // P rest }} {rest' : { rest // P' rest }}
    (recorded : (before ++ found).Perm (names a)) (left : List.Forall₂ (Matches columns) rest.1 rest'.1) :
    Agree columns before names (.ok (a, found, rest)) (.ok (a, found, rest')) :=
  .ok ⟨rfl, rfl, recorded, left⟩

theorem Alike.bind {γ δ : Type} {related : α → β → Prop} {related' : γ → δ → Prop} {x : Except InputError α}
    {x' : Except InputError β} {next : α → Except InputError γ} {next' : β → Except InputError δ}
    (first : Alike columns related x x') (later : ∀ a b, related a b → Alike columns related' (next a) (next' b)) :
    Alike columns related' (x >>= next) (x' >>= next') := by
  cases first with
  | ok results => exact later _ _ results
  | error corresponds located same => exact .error corresponds located same

/-- What follows a reading is alike if it is so for all that the reading can give. -/
theorem Alike.after {γ δ : Type} {related : γ → δ → Prop}
    {r : Except InputError (α × List String × { rest // P rest })}
    {r' : Except InputError (α × List String × { rest // P' rest })}
    {next : α × List String × { rest // P rest } → Except InputError γ}
    {next' : α × List String × { rest // P' rest } → Except InputError δ}
    (first : Agree columns before names r r')
    (later : ∀ a found rest rest', (before ++ found).Perm (names a) →
      List.Forall₂ (Matches columns) rest.1 rest'.1 →
        Alike columns related (next (a, found, rest)) (next' (a, found, rest'))) :
    Alike columns related (r >>= next) (r' >>= next') := by
  refine first.bind fun x x' results => ?_
  obtain ⟨a, found, rest⟩ := x
  obtain ⟨a', found', rest'⟩ := x'
  obtain ⟨value, recorded, names_recorded, left⟩ := results
  cases value
  cases recorded
  exact later a found rest rest' names_recorded left

theorem matches_cons {l : Lexeme} {column : Nat}
    (matched : List.Forall₂ (Matches columns) (⟨l, column⟩ :: rest) tokens') :
    ∃ column' rest', tokens' = ⟨l, column'⟩ :: rest' ∧ columns column column' ∧
      List.Forall₂ (Matches columns) rest rest' := by
  obtain ⟨⟨l', column'⟩, rest', ⟨same, corresponds⟩, left, rfl⟩ := List.forall₂_cons_left_iff.mp matched
  cases same
  exact ⟨column', rest', rfl, corresponds, left⟩

theorem alike_misplaced {related : α → β → Prop} (matched : Matches columns t t') (tree : Tree) (expected : String) :
    Alike columns related (.error (misplaced t tree expected)) (.error (misplaced t' tree expected)) := by
  obtain ⟨l, column⟩ := t
  obtain ⟨l', column'⟩ := t'
  obtain ⟨same, corresponds⟩ := matched
  cases same
  cases l <;> exact .error corresponds rfl rfl

/-- A name as an operand is recorded exactly if it stays a name. -/
theorem recorded_perm (ctx : Context) (name : String) :
    (ctx.recorded name).Perm (ctx.operandOf name).names := by
  rw [Context.recorded, Context.operandOf]
  cases index : ctx.params.idxOf? name with
  | none =>
    rw [if_neg (List.idxOf?_eq_none_iff.mp index)]
    exact .refl _
  | some index' =>
    have inside : name ∈ ctx.params := by
      by_contra absent
      rw [List.idxOf?_eq_none_iff.mpr absent] at index
      cases index
    rw [if_pos inside]
    exact .refl _

/-- The same parameters in a text that ends elsewhere. -/
def Context.endingIn (ctx : Context) (column : Nat) : Context :=
  { ctx with endColumn := column }

/-- What a reading function does with the tokens it does with all that match them. -/
def ReadAlike (columns : Nat → Nat → Prop) (before : List String) (names : α → List String)
    {P : List Token → List Token → Prop}
    (read read' : (tokens : List Token) → Except InputError (α × List String × { rest // P tokens rest }))
    (tokens : List Token) : Prop :=
  ∀ tokens', List.Forall₂ (Matches columns) tokens tokens' → Agree columns before names (read tokens) (read' tokens')

/-- The tokens are read alike as a term, whatever operator stands before it. -/
def TermAlike (columns : Nat → Nat → Prop) (ctx : Context) (endColumn : Nat) (tokens : List Token) : Prop :=
  ∀ outer, ReadAlike columns [] Tree.names (term ctx outer) (term (ctx.endingIn endColumn) outer) tokens

/-! ### The operators after an operand -/

theorem readAlike_operations_stop {left : Tree} (stop : NoSign tokens) :
    ReadAlike columns left.names Tree.names (operations ctx outer left) (operations (ctx.endingIn endColumn) outer left)
      tokens := by
  intro tokens' matched
  have nothing : (left.names ++ []).Perm left.names := by rw [List.append_nil]
  rcases tokens with _ | ⟨⟨l, column⟩, rest⟩
  · cases matched
    rw [operations, operations]
    exact agree_read nothing .nil
  · obtain ⟨column', rest', rfl, -, -⟩ := matches_cons matched
    rw [operations, operations]
    cases l with
    | sign s => exact absurd rfl (stop s column rest)
    | _ => exact agree_read nothing matched

theorem readAlike_operations_sign {left : Tree} {s : Sign} (column : Nat)
    (right_alike : TermAlike columns ctx endColumn rest)
    (later : ∀ right (rest' : Shorter rest),
      ReadAlike columns (Tree.binary (BinaryOp.ofSign s) left right).names Tree.names
        (operations ctx outer (.binary (BinaryOp.ofSign s) left right))
        (operations (ctx.endingIn endColumn) outer (.binary (BinaryOp.ofSign s) left right)) rest'.1) :
    ReadAlike columns left.names Tree.names (operations ctx outer left) (operations (ctx.endingIn endColumn) outer left)
      (⟨.sign s, column⟩ :: rest) := by
  intro tokens' matched
  obtain ⟨column', rest', rfl, -, rest_matched⟩ := matches_cons matched
  rw [operations, operations]
  dsimp only
  split
  · refine (right_alike _ rest' rest_matched).after fun right found after after' recorded matched' => ?_
    refine (later right after after'.1 matched').after fun tree found' _ _ recorded' left_matched => ?_
    refine agree_read ?_ left_matched
    have right_first := (recorded.append_left left.names).append_right found'
    rw [List.nil_append, List.append_assoc] at right_first
    exact right_first.trans recorded'
  · exact agree_read (by rw [List.append_nil]) matched

theorem readAlike_operations (left : Tree)
    (below : ∀ ts : List Token, ts.length < tokens.length → TermAlike columns ctx endColumn ts) :
    ReadAlike columns left.names Tree.names (operations ctx outer left) (operations (ctx.endingIn endColumn) outer left)
      tokens := by
  induction size : tokens.length using Nat.strongRecOn generalizing tokens left with
  | ind size' ih =>
    subst size
    rcases noSign_or_sign tokens with stop | ⟨s, column, rest, rfl⟩
    · exact readAlike_operations_stop stop
    · rw [List.length_cons] at ih below
      refine readAlike_operations_sign column (below rest (Nat.lt_succ_self _)) fun right rest' => ?_
      have shorter : rest'.1.length < rest.length + 1 := Nat.lt_succ_of_lt rest'.2
      exact ih _ shorter _ (fun ts smaller => below ts (smaller.trans shorter)) rfl

/-! ### An expression in brackets -/

/-- Two readings of an expression in brackets end alike if those of the inside do. -/
theorem readAlike_group_inside {opening opening' : Token} (opening_matched : Matches columns opening opening')
    (some_inside : t.lexeme ≠ .closeBracket) (inside_alike : TermAlike columns ctx endColumn (t :: rest)) :
    ReadAlike columns [] Tree.names (group ctx opening) (group (ctx.endingIn endColumn) opening') (t :: rest) := by
  intro tokens' matched
  obtain ⟨l, column⟩ := t
  have inside_agree := inside_alike .expression tokens' matched
  obtain ⟨column', rest', rfl, -, -⟩ := matches_cons matched
  rw [group, group, if_neg some_inside, if_neg some_inside]
  refine inside_agree.after fun tree found left left' recorded left_matched => ?_
  obtain ⟨_ | ⟨closing, left⟩, shorter⟩ := left <;> obtain ⟨_ | ⟨closing', left'⟩, shorter'⟩ := left'
  · refine .error opening_matched.column rfl ?_
    rw [opening_matched.lexeme]
    rfl
  · cases left_matched
  · cases left_matched
  · obtain ⟨closing_matched, left_matched⟩ := List.forall₂_cons.mp left_matched
    dsimp only
    rw [← closing_matched.lexeme]
    split
    · exact agree_read recorded left_matched
    · exact alike_misplaced closing_matched tree _

theorem readAlike_group (ends : columns ctx.endColumn endColumn) {opening opening' : Token}
    (opening_matched : Matches columns opening opening') (inside_alike : TermAlike columns ctx endColumn tokens) :
    ReadAlike columns [] Tree.names (group ctx opening) (group (ctx.endingIn endColumn) opening') tokens := by
  rcases tokens with _ | ⟨⟨l, column⟩, rest⟩
  · intro tokens' matched
    cases matched
    rw [group, group]
    exact .error ends rfl rfl
  by_cases closes : l = .closeBracket
  · intro tokens' matched
    obtain ⟨column', rest', rfl, corresponds, -⟩ := matches_cons matched
    rw [group, group, if_pos closes, if_pos closes]
    exact .error corresponds rfl rfl
  · exact readAlike_group_inside opening_matched closes inside_alike

/-! ### The arguments of a call -/

theorem readAlike_arguments_open (ends : columns ctx.endColumn endColumn) (column : Nat)
    (inside_alike : TermAlike columns ctx endColumn rest)
    (later : ∀ rest' : Shorter rest,
      ReadAlike columns [] Tree.namesOfAll (arguments ctx) (arguments (ctx.endingIn endColumn)) rest'.1) :
    ReadAlike columns [] Tree.namesOfAll (arguments ctx) (arguments (ctx.endingIn endColumn))
      (⟨.openBracket, column⟩ :: rest) := by
  intro tokens' matched
  obtain ⟨column', rest', rfl, corresponds, matched⟩ := matches_cons matched
  have opening_matched : Matches columns ⟨.openBracket, column⟩ ⟨.openBracket, column'⟩ := ⟨rfl, corresponds⟩
  have inside_agree := readAlike_group ends opening_matched inside_alike rest' matched
  rw [arguments, arguments]
  refine inside_agree.after fun arg found left left' recorded matched' => ?_
  refine (later left left'.1 matched').after fun args found' _ _ recorded' left_matched => ?_
  exact agree_read (recorded.append recorded') left_matched

theorem readAlike_arguments (ends : columns ctx.endColumn endColumn)
    (below : ∀ ts : List Token, ts.length < tokens.length → TermAlike columns ctx endColumn ts) :
    ReadAlike columns [] Tree.namesOfAll (arguments ctx) (arguments (ctx.endingIn endColumn)) tokens := by
  induction size : tokens.length using Nat.strongRecOn generalizing tokens with
  | ind size' ih =>
    subst size
    rcases tokens with _ | ⟨⟨l, column⟩, rest⟩
    · intro tokens' matched
      cases matched
      rw [arguments, arguments]
      exact agree_read (.refl _) .nil
    rw [List.length_cons] at ih below
    have later : ∀ after : List Token, after.length < rest.length + 1 →
        ReadAlike columns [] Tree.namesOfAll (arguments ctx) (arguments (ctx.endingIn endColumn)) after :=
      fun after shorter => ih _ shorter (fun ts smaller => below ts (smaller.trans shorter)) rfl
    cases l with
    | openBracket =>
      exact readAlike_arguments_open ends column (below rest (Nat.lt_succ_self _)) fun rest' =>
        later rest'.1 (Nat.lt_succ_of_lt rest'.2)
    | number text =>
      intro tokens' matched
      obtain ⟨column', rest', rfl, -, matched⟩ := matches_cons matched
      rw [arguments, arguments]
      refine (later rest (Nat.lt_succ_self _) rest' matched).after fun args found _ _ recorded left_matched => ?_
      exact agree_read recorded left_matched
    | name name =>
      intro tokens' matched
      obtain ⟨column', rest', rfl, -, matched⟩ := matches_cons matched
      rw [arguments, arguments]
      refine (later rest (Nat.lt_succ_self _) rest' matched).after fun args found _ _ recorded left_matched => ?_
      exact agree_read ((recorded_perm ctx name).append recorded) left_matched
    | ending | sign | assign | arrow | closeBracket =>
      intro tokens' matched
      obtain ⟨column', rest', rfl, -, -⟩ := matches_cons matched
      rw [arguments, arguments]
      exact agree_read (.refl _) matched

/-! ### One operand -/

theorem readAlike_operand_alone {name : String} (column : Nat) (alone : EndsName rest) :
    ReadAlike columns [] Tree.names (operand ctx) (operand (ctx.endingIn endColumn))
      (⟨.name name, column⟩ :: rest) := by
  intro tokens' matched
  obtain ⟨column', rest', rfl, -, rest_matched⟩ := matches_cons matched
  rw [operand, operand]
  rcases rest with _ | ⟨⟨l, column⟩, rest⟩
  · cases rest_matched
    exact agree_read (recorded_perm ctx name) .nil
  · obtain ⟨no_assign, no_atom⟩ := alone ⟨l, column⟩ rfl
    obtain ⟨column', after', rfl, -, -⟩ := matches_cons rest_matched
    simp only [if_neg no_assign, no_atom]
    exact agree_read (recorded_perm ctx name) rest_matched

/-- Neither reading takes a parameter for a function or for a target. -/
theorem readAlike_operand_param {name : String} (column : Nat) (isParam : name ∈ ctx.params)
    (takes : t.lexeme = .assign ∨ t.lexeme.beginsAtom = true) :
    ReadAlike columns [] Tree.names (operand ctx) (operand (ctx.endingIn endColumn))
      (⟨.name name, column⟩ :: t :: rest) := by
  intro tokens' matched
  have isParam' : name ∈ (ctx.endingIn endColumn).params := isParam
  obtain ⟨l, place⟩ := t
  obtain ⟨column', rest', rfl, corresponds, matched⟩ := matches_cons matched
  obtain ⟨place', rest', rfl, place_corresponds, -⟩ := matches_cons matched
  rw [operand, operand]
  by_cases assigns : l = .assign
  · simp only [if_pos assigns, if_pos isParam, if_pos isParam']
    exact .error corresponds rfl rfl
  · have begins := takes.resolve_left assigns
    simp only [if_neg assigns, if_pos begins, if_pos isParam, if_pos isParam']
    exact .error place_corresponds rfl rfl

theorem readAlike_operand_assign {name : String} (column place : Nat) (free : name ∉ ctx.params)
    (value_alike : TermAlike columns ctx endColumn rest) :
    ReadAlike columns [] Tree.names (operand ctx) (operand (ctx.endingIn endColumn))
      (⟨.name name, column⟩ :: ⟨.assign, place⟩ :: rest) := by
  intro tokens' matched
  have free' : name ∉ (ctx.endingIn endColumn).params := free
  obtain ⟨column', rest', rfl, -, matched⟩ := matches_cons matched
  obtain ⟨place', rest', rfl, -, matched⟩ := matches_cons matched
  rw [operand, operand]
  simp only [if_true, if_neg free, if_neg free']
  refine (value_alike .expression rest' matched).after fun value found _ _ recorded left_matched => ?_
  exact agree_read ((List.perm_append_singleton name found).trans (recorded.cons name)) left_matched

theorem readAlike_operand_call {name : String} (column : Nat) (free : name ∉ ctx.params)
    (no_assign : t.lexeme ≠ .assign) (begins : t.lexeme.beginsAtom = true)
    (args_alike : ReadAlike columns [] Tree.namesOfAll (arguments ctx) (arguments (ctx.endingIn endColumn))
      (t :: rest)) :
    ReadAlike columns [] Tree.names (operand ctx) (operand (ctx.endingIn endColumn))
      (⟨.name name, column⟩ :: t :: rest) := by
  intro tokens' matched
  have free' : name ∉ (ctx.endingIn endColumn).params := free
  obtain ⟨l, place⟩ := t
  obtain ⟨column', rest', rfl, -, matched⟩ := matches_cons matched
  have args_agree := args_alike rest' matched
  obtain ⟨place', rest', rfl, -, -⟩ := matches_cons matched
  rw [operand, operand]
  simp only [if_neg no_assign, if_pos begins, if_neg free, if_neg free']
  exact args_agree.after fun args found _ _ recorded left_matched => agree_read recorded left_matched

/-- What begins with a name is decided by the token after it. -/
theorem readAlike_operand_name (ends : columns ctx.endColumn endColumn) {name : String} (column : Nat)
    (below : ∀ ts : List Token, ts.length ≤ rest.length → TermAlike columns ctx endColumn ts) :
    ReadAlike columns [] Tree.names (operand ctx) (operand (ctx.endingIn endColumn))
      (⟨.name name, column⟩ :: rest) := by
  rcases rest with _ | ⟨⟨l, place⟩, rest⟩
  · exact readAlike_operand_alone column (by rintro _ ⟨⟩)
  by_cases alone : l ≠ .assign ∧ l.beginsAtom = false
  · refine readAlike_operand_alone column ?_
    rintro _ ⟨⟩
    exact alone
  by_cases isParam : name ∈ ctx.params
  · refine readAlike_operand_param column isParam ?_
    by_cases assigns : l = .assign
    · exact .inl assigns
    · exact .inr (by simpa [assigns] using alone)
  by_cases assigns : l = .assign
  · subst assigns
    exact readAlike_operand_assign column place isParam (below rest (Nat.le_succ _))
  · have begins : l.beginsAtom = true := by simpa [assigns] using alone
    refine readAlike_operand_call column isParam assigns begins (readAlike_arguments ends ?_)
    exact fun ts smaller => below ts smaller.le

theorem readAlike_operand_sign (s : Sign) (column : Nat) (operand_alike : TermAlike columns ctx endColumn rest) :
    ReadAlike columns [] Tree.names (operand ctx) (operand (ctx.endingIn endColumn))
      (⟨.sign s, column⟩ :: rest) := by
  intro tokens' matched
  obtain ⟨column', rest', rfl, corresponds, matched⟩ := matches_cons matched
  rw [operand, operand]
  cases leading : UnaryOp.ofSign? s with
  | none =>
    simp only [leading]
    exact .error corresponds rfl rfl
  | some op =>
    simp only [leading]
    refine (operand_alike .unary rest' matched).after fun t found _ _ recorded left_matched => ?_
    exact agree_read recorded left_matched

theorem readAlike_operand_open (ends : columns ctx.endColumn endColumn) (column : Nat)
    (inside_alike : TermAlike columns ctx endColumn rest) :
    ReadAlike columns [] Tree.names (operand ctx) (operand (ctx.endingIn endColumn))
      (⟨.openBracket, column⟩ :: rest) := by
  intro tokens' matched
  obtain ⟨column', rest', rfl, corresponds, matched⟩ := matches_cons matched
  have opening_matched : Matches columns ⟨.openBracket, column⟩ ⟨.openBracket, column'⟩ := ⟨rfl, corresponds⟩
  have inside_agree := readAlike_group ends opening_matched inside_alike rest' matched
  rw [operand, operand]
  exact inside_agree.after fun t found _ _ recorded left_matched => agree_read recorded left_matched

theorem readAlike_operand (ends : columns ctx.endColumn endColumn)
    (below : ∀ ts : List Token, ts.length < tokens.length → TermAlike columns ctx endColumn ts) :
    ReadAlike columns [] Tree.names (operand ctx) (operand (ctx.endingIn endColumn)) tokens := by
  rcases tokens with _ | ⟨⟨l, column⟩, rest⟩
  · intro tokens' matched
    cases matched
    rw [operand, operand]
    exact .error ends rfl rfl
  have rest_alike : TermAlike columns ctx endColumn rest := below rest (Nat.lt_succ_self _)
  cases l with
  | name name => exact readAlike_operand_name ends column fun ts smaller => below ts (Nat.lt_succ_of_le smaller)
  | sign s => exact readAlike_operand_sign s column rest_alike
  | openBracket => exact readAlike_operand_open ends column rest_alike
  | number text =>
    intro tokens' matched
    obtain ⟨column', rest', rfl, -, matched⟩ := matches_cons matched
    rw [operand, operand]
    exact agree_read (.refl _) matched
  | ending | assign | arrow | closeBracket =>
    intro tokens' matched
    obtain ⟨column', rest', rfl, corresponds, -⟩ := matches_cons matched
    rw [operand, operand]
    exact .error corresponds rfl rfl

/-! ### A whole line -/

/-- Tokens that match are read alike, by induction on how many there are. -/
theorem termAlike (ends : columns ctx.endColumn endColumn) (tokens : List Token) :
    TermAlike columns ctx endColumn tokens := by
  induction size : tokens.length using Nat.strongRecOn generalizing tokens with
  | ind size' ih =>
    subst size
    have below : ∀ ts : List Token, ts.length < tokens.length → TermAlike columns ctx endColumn ts :=
      fun ts shorter => ih ts.length shorter ts rfl
    intro outer tokens' matched
    rw [term, term]
    refine (readAlike_operand ends below tokens' matched).after fun left found rest rest' recorded matched' => ?_
    have later : ReadAlike columns left.names Tree.names (operations ctx outer left)
        (operations (ctx.endingIn endColumn) outer left) rest.1 :=
      readAlike_operations left fun ts smaller => below ts (smaller.trans rest.2)
    refine (later rest'.1 matched').after fun tree found' _ _ recorded' left_matched => ?_
    exact agree_read ((recorded.append_right found').trans recorded') left_matched

/-- Two readings of a whole give the same tree, and record the same names, which are those of the tree. -/
structure SameTree (x x' : Tree × List String) : Prop where
  same : x = x'
  names_recorded : x.2.Perm x.1.names

theorem expressionOf_alike (ctx : Context) (ends : columns ctx.endColumn endColumn)
    (matched : List.Forall₂ (Matches columns) tokens tokens') :
    Alike columns SameTree (expressionOf ctx tokens) (expressionOf (ctx.endingIn endColumn) tokens') := by
  have agree := termAlike ends tokens .expression tokens' matched
  rw [expressionOf, expressionOf]
  refine agree.after fun tree found left left' recorded left_matched => ?_
  obtain ⟨_ | ⟨next, left⟩, shorter⟩ := left <;> obtain ⟨_ | ⟨next', left'⟩, shorter'⟩ := left'
  · exact .ok ⟨rfl, recorded⟩
  · cases left_matched
  · cases left_matched
  · exact alike_misplaced (List.forall₂_cons.mp left_matched).1 tree _

theorem distinctNames_alike {seen : List String} (matched : List.Forall₂ (Matches columns) tokens tokens') :
    Alike columns Eq (distinctNames seen tokens) (distinctNames seen tokens') := by
  induction matched generalizing seen with
  | nil => exact .ok rfl
  | @cons t t' rest rest' first _ ih =>
    obtain ⟨l, column⟩ := t
    obtain ⟨l', column'⟩ := t'
    obtain ⟨same, corresponds⟩ := first
    cases same
    rw [distinctNames, distinctNames]
    split
    · exact .error corresponds rfl rfl
    · exact ih

theorem isNameToken_congr (matched : Matches columns t t') : isNameToken t = isNameToken t' := by
  rw [isNameToken, isNameToken, matched.lexeme]

theorem matches_names (matched : List.Forall₂ (Matches columns) tokens tokens') :
    List.Forall₂ (Matches columns) (tokens.takeWhile isNameToken) (tokens'.takeWhile isNameToken) ∧
      List.Forall₂ (Matches columns) (tokens.dropWhile isNameToken) (tokens'.dropWhile isNameToken) := by
  induction matched with
  | nil => exact ⟨.nil, .nil⟩
  | @cons t t' rest rest' first rest_matched ih =>
    rw [List.takeWhile_cons, List.takeWhile_cons, List.dropWhile_cons, List.dropWhile_cons, ← isNameToken_congr first]
    split
    · exact ⟨.cons first ih.1, ih.2⟩
    · exact ⟨.nil, .cons first rest_matched⟩

/-- Lines whose tokens match are read alike. -/
theorem lineOf_alike {endColumn' : Nat} (ends : columns endColumn endColumn')
    (matched : List.Forall₂ (Matches columns) tokens tokens') :
    Alike columns SameTree (lineOf tokens endColumn) (lineOf tokens' endColumn') := by
  have expression : Alike columns SameTree (expressionOf { params := [], endColumn } tokens)
      (expressionOf { params := [], endColumn := endColumn' } tokens') :=
    expressionOf_alike { params := [], endColumn } ends matched
  obtain ⟨heads_matched, others_matched⟩ := matches_names matched
  rw [lineOf, lineOf]
  generalize tokens.takeWhile isNameToken = heads, tokens'.takeWhile isNameToken = heads',
    tokens.dropWhile isNameToken = others, tokens'.dropWhile isNameToken = others' at heads_matched others_matched ⊢
  cases heads_matched with
  | nil => exact expression
  | @cons function function' params params' function_matched params_matched =>
    cases others_matched with
    | nil => exact expression
    | @cons arrow arrow' body body' arrow_matched body_matched =>
      obtain ⟨l, column⟩ := arrow
      obtain ⟨l', column'⟩ := arrow'
      obtain ⟨same, -⟩ := arrow_matched
      cases same
      cases l with
      | arrow =>
        dsimp only
        rw [← function_matched.lexeme]
        refine (distinctNames_alike params_matched).bind fun names names' same => ?_
        subst same
        have body_alike : Alike columns SameTree (expressionOf { params := names, endColumn } body)
            (expressionOf { params := names, endColumn := endColumn' } body') :=
          expressionOf_alike { params := names, endColumn } ends body_matched
        refine body_alike.bind fun x x' same => ?_
        obtain ⟨rfl, recorded⟩ := same
        exact .ok ⟨rfl, recorded⟩
      | _ => exact expression

/-- The names that are recorded while a line is read are those of its tree, in some order. -/
theorem recorded_of_lineOf {tree : Tree} {found : List String} (success : lineOf tokens endColumn = .ok (tree, found)) :
    found.Perm tree.names := by
  have matched : List.Forall₂ (Matches Eq) tokens tokens := List.forall₂_same.mpr fun _ _ => ⟨rfl, rfl⟩
  have alike := lineOf_alike (rfl : endColumn = endColumn) matched
  rw [success] at alike
  cases alike with
  | ok results => exact results.names_recorded

end Parser

end Abacus
