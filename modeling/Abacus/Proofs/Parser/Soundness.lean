import Abacus.Proofs.Grammar
import Abacus.Proofs.Parser.Steps
import Mathlib

/-!
What is read is derived by the grammar.

The induction is on the number of tokens. A phrase that ends in an assignment without brackets is followed by
no sign, since the assignment would have taken the sign; so in a loop over operators the operand on the
left is always closed.
-/

namespace Abacus.Parser

open Grammar

variable {ctx : Context} {outer : Binding} {left t : Tree} {tokens rest : List Token}

/-- The lexemes of tokens. -/
abbrev lexemes (tokens : List Token) : List Lexeme :=
  tokens.map (·.lexeme)

/-- Which phrase a term is, by the operator before it. -/
inductive Level : Binding → (Ending → Phrase) → Prop
  | expression : Level .expression .sum
  | sum : Level .sum .product
  | product : Level .product .unary
  | unary : Level .unary .unary

/-- What follows a phrase that was read to its end: a sign only if it binds no tighter than the operator
before the phrase, and none after an open assignment. -/
def Stops (outer : Binding) (e : Ending) (rest : List Token) : Prop :=
  ∀ s column after, rest = ⟨.sign s, column⟩ :: after →
    e = .closed ∧ (BinaryOp.ofSign s).binding.tighterThan outer = false

/-- Reading these tokens as a term gives what the grammar derives. -/
def TermSound (ctx : Context) (tokens : List Token) : Prop :=
  ∀ outer phrase t rest, Level outer phrase → readTerm ctx outer tokens = .ok (t, rest) →
    ∃ used e, tokens = used ++ rest ∧ Derives ctx.params (phrase e) (lexemes used) t ∧
      Stops outer e rest

/-- The left operand when a loop over operators goes on: what has been read so far can be extended by the
next sign. -/
inductive Extends (params : List String) (ts : List Lexeme) (t : Tree) (e : Ending)
    (rest : List Token) : Binding → Prop
  | expression (derived : Derives params (.sum e) ts t)
      (next : ∀ s op column after, Multiplicative s op → rest = ⟨.sign s, column⟩ :: after →
        Derives params (.product e) ts t) : Extends params ts t e rest .expression
  | sum (derived : Derives params (.product e) ts t) : Extends params ts t e rest .sum
  | product (derived : Derives params (.unary e) ts t) : Extends params ts t e rest .product
  | unary (derived : Derives params (.unary e) ts t) : Extends params ts t e rest .unary

theorem leaf_operandOf (ctx : Context) (name : String) : Leaf ctx.params name (ctx.operandOf name) := by
  unfold Context.operandOf
  cases found : ctx.params.idxOf? name with
  | none => exact .ident (by simpa using found)
  | some index =>
    obtain ⟨inside, named, -⟩ := List.idxOf?_eq_some_iff.mp found
    exact .param index (by rw [List.getElem?_eq_getElem inside, named])

theorem additive_or_multiplicative (s : Sign) :
    (Additive s (BinaryOp.ofSign s) ∧ (BinaryOp.ofSign s).binding = .sum) ∨
      (Multiplicative s (BinaryOp.ofSign s) ∧ (BinaryOp.ofSign s).binding = .product) := by
  cases s with
  | plus => exact .inl ⟨.plus, rfl⟩
  | minus => exact .inl ⟨.minus, rfl⟩
  | times => exact .inr ⟨.times, rfl⟩
  | divide => exact .inr ⟨.divide, rfl⟩
  | percent => exact .inr ⟨.percent, rfl⟩

theorem leading_of_ofSign? {s : Sign} {op : UnaryOp} (found : UnaryOp.ofSign? s = some op) :
    Leading s op := by
  cases s with
  | plus => cases found; exact .plus
  | minus => cases found; exact .minus
  | times | divide | percent => cases found

theorem Stops.noSign_of_greedy {e : Ending} (stops : Stops outer e rest) :
    e = .greedy → NoSign rest := by
  rintro rfl s column after same
  cases (stops s column after same).1

/-- Every sign binds tighter than a whole expression. -/
theorem Stops.noSign {e : Ending} (stops : Stops .expression e rest) : NoSign rest := by
  intro s column after same
  have loose := (stops s column after same).2
  cases s <;> cases loose

theorem Extends.derives {params : List String} {ts : List Lexeme} {e : Ending}
    {phrase : Ending → Phrase} (extends_left : Extends params ts t e rest outer)
    (level : Level outer phrase) : Derives params (phrase e) ts t := by
  cases level with
  | expression => cases extends_left with | expression derived next => exact derived
  | sum => cases extends_left with | sum derived => exact derived
  | product => cases extends_left with | product derived => exact derived
  | unary => cases extends_left with | unary derived => exact derived

theorem Extends.additive {params : List String} {ls rs : List Lexeme} {l r : Tree} {e : Ending}
    {s : Sign} {op : BinaryOp} {before after : List Token} (sign : Additive s op)
    (tighter : Binding.sum.tighterThan outer = true)
    (left : Extends params ls l .closed before outer) (right : Derives params (.product e) rs r)
    (stops : Stops .sum e after) :
    Extends params (ls ++ .sign s :: rs) (.binary op l r) e after outer := by
  cases left with
  | expression derived next =>
    refine .expression (.sum_step sign derived right) ?_
    intro s' op' column rest multiplicative same
    have loose := (stops s' column rest same).2
    cases multiplicative <;> cases loose
  | sum derived | product derived | unary derived => cases tighter

theorem Extends.multiplicative {params : List String} {ls rs : List Lexeme} {l r : Tree}
    {e : Ending} {s : Sign} {op : BinaryOp} {column : Nat} {before after : List Token}
    (sign : Multiplicative s op) (tighter : Binding.product.tighterThan outer = true)
    (left : Extends params ls l .closed (⟨.sign s, column⟩ :: before) outer)
    (right : Derives params (.unary e) rs r) :
    Extends params (ls ++ .sign s :: rs) (.binary op l r) e after outer := by
  cases left with
  | expression derived next =>
    have product := Derives.product_step sign (next s op column before sign rfl) right
    exact .expression (.sum_product product) fun _ _ _ _ _ _ => product
  | sum derived => exact .sum (.product_step sign derived right)
  | product derived | unary derived => cases tighter

/-- The loop over operators keeps that the tree so far is derived from the tokens so far. -/
theorem readOperations_sound {phrase : Ending → Phrase} (level : Level outer phrase) {n : Nat}
    (below : ∀ tokens, tokens.length < n → TermSound ctx tokens) :
    ∀ {tokens : List Token} {left : Tree} {ts : List Lexeme} {e : Ending}, tokens.length ≤ n →
      Extends ctx.params ts left e tokens outer → (e = .greedy → NoSign tokens) →
      readOperations ctx outer left tokens = .ok (t, rest) →
      ∃ used e', tokens = used ++ rest ∧
        Derives ctx.params (phrase e') (ts ++ lexemes used) t ∧ Stops outer e' rest := by
  intro tokens
  induction size : tokens.length using Nat.strongRecOn generalizing tokens with
  | ind size' ih =>
    intro left ts e bound extends_left closed success
    rcases noSign_or_sign tokens with stop | ⟨s, column, after, rfl⟩
    · rw [readOperations_of_noSign stop] at success
      cases success
      refine ⟨[], e, rfl, ?_, fun s column after same => absurd same (stop s column after)⟩
      simpa using extends_left.derives level
    · have e_closed : e = .closed := by
        cases e with
        | closed => rfl
        | greedy => exact absurd rfl (closed rfl s column after)
      subst e_closed
      rw [readOperations_sign] at success
      by_cases tighter : (BinaryOp.ofSign s).binding.tighterThan outer = true
      · rw [if_pos tighter, Except.bind_eq_ok_iff] at success
        obtain ⟨⟨right, after'⟩, right_read, loop_read⟩ := success
        simp only [List.length_cons] at size
        have after_below : TermSound ctx after := below after (by omega)
        have shorter := readTerm_length right_read
        obtain ⟨used₁, e₁, split₁, stops₁, extends_next⟩ : ∃ used₁ e₁, after = used₁ ++ after' ∧
            Stops (BinaryOp.ofSign s).binding e₁ after' ∧
            Extends ctx.params (ts ++ .sign s :: lexemes used₁)
              (.binary (BinaryOp.ofSign s) left right) e₁ after' outer := by
          rcases additive_or_multiplicative s with ⟨sign, binds⟩ | ⟨sign, binds⟩
          · rw [binds] at right_read tighter ⊢
            obtain ⟨used₁, e₁, split₁, derived, stops₁⟩ := after_below _ _ _ _ .sum right_read
            exact ⟨used₁, e₁, split₁, stops₁, extends_left.additive sign tighter derived stops₁⟩
          · rw [binds] at right_read tighter ⊢
            obtain ⟨used₁, e₁, split₁, derived, stops₁⟩ := after_below _ _ _ _ .product right_read
            exact ⟨used₁, e₁, split₁, stops₁, extends_left.multiplicative sign tighter derived⟩
        obtain ⟨used₂, e₂, split₂, derived, stops₂⟩ :=
          ih after'.length (by omega) rfl (by omega) extends_next stops₁.noSign_of_greedy loop_read
        refine ⟨⟨.sign s, column⟩ :: used₁ ++ used₂, e₂, ?_, ?_, stops₂⟩
        · simp [split₁, split₂]
        · simpa using derived
      · rw [if_neg tighter] at success
        cases success
        refine ⟨[], .closed, rfl, ?_, ?_⟩
        · simpa using extends_left.derives level
        · intro s' column' after' same
          cases same
          exact ⟨rfl, by simpa using tighter⟩

theorem readGroup_sound {opening : Token} (below : TermSound ctx tokens)
    (success : readGroup ctx opening tokens = .ok (t, rest)) :
    ∃ used e column, tokens = used ++ ⟨.closeBracket, column⟩ :: rest ∧
      Derives ctx.params (.sum e) (lexemes used) t := by
  obtain ⟨column, inside_read⟩ := readGroup_eq_ok_iff.mp success
  obtain ⟨used, e, split, derived, -⟩ := below _ _ _ _ .expression inside_read
  exact ⟨used, e, column, split, derived⟩

theorem readArguments_ne_nil {next : Token} {after : List Token} {args : List Tree}
    (begins : next.lexeme.beginsAtom = true)
    (success : readArguments ctx (next :: after) = .ok (args, rest)) : args ≠ [] := by
  obtain ⟨lexeme, column⟩ := next
  rintro rfl
  cases lexeme with
  | number text =>
    rw [readArguments_number, Except.map_eq_ok_iff] at success
    obtain ⟨⟨args, left⟩, -, same⟩ := success
    cases same
  | name name =>
    rw [readArguments_name, Except.map_eq_ok_iff] at success
    obtain ⟨⟨args, left⟩, -, same⟩ := success
    cases same
  | openBracket =>
    rw [readArguments_open, Except.bind_eq_ok_iff] at success
    obtain ⟨⟨arg, left⟩, -, success⟩ := success
    obtain ⟨⟨args, left'⟩, -, same⟩ := Except.map_eq_ok_iff.mp success
    cases same
  | ending | sign | assign | arrow | closeBracket => cases begins

/-- Arguments extend the call that they follow. -/
theorem readArguments_sound {function : String} {n : Nat}
    (below : ∀ tokens, tokens.length < n → TermSound ctx tokens) :
    ∀ {tokens : List Token} {ts : List Lexeme} {before args : List Tree}, tokens.length ≤ n →
      Derives ctx.params .call ts (.call function before) →
      readArguments ctx tokens = .ok (args, rest) →
      ∃ used, tokens = used ++ rest ∧
        Derives ctx.params .call (ts ++ lexemes used) (.call function (before ++ args)) := by
  intro tokens
  induction size : tokens.length using Nat.strongRecOn generalizing tokens with
  | ind size' ih =>
    intro ts before args bound head success
    -- Whatever the first argument is, the others extend the call that it ends.
    have extend : ∀ first {after us arg args'}, tokens = first ++ after → first ≠ [] →
        lexemes first = us → Derives ctx.params .atom us arg → args = arg :: args' →
        readArguments ctx after = .ok (args', rest) →
        ∃ used, tokens = used ++ rest ∧
          Derives ctx.params .call (ts ++ lexemes used) (.call function (before ++ args)) := by
      rintro first after us arg args' rfl some_first rfl atom rfl rest_read
      have := List.length_pos_iff.mpr some_first
      simp only [List.length_append] at size
      obtain ⟨used, split, derived⟩ :=
        ih after.length (by omega) rfl (by omega) (.call_next head atom) rest_read
      exact ⟨first ++ used, by simp [split], by simpa using derived⟩
    rcases tokens with _ | ⟨⟨lexeme, column⟩, after⟩
    · rw [readArguments_of_not_begins (by simp)] at success
      cases success
      exact ⟨[], rfl, by simpa using head⟩
    · cases lexeme with
      | number text =>
        rw [readArguments_number, Except.map_eq_ok_iff] at success
        obtain ⟨⟨args', left⟩, rest_read, same⟩ := success
        cases same
        exact extend [⟨.number text, column⟩] rfl (by simp) rfl (.atom_number text) rfl
          rest_read
      | name name =>
        rw [readArguments_name, Except.map_eq_ok_iff] at success
        obtain ⟨⟨args', left⟩, rest_read, same⟩ := success
        cases same
        exact extend [⟨.name name, column⟩] rfl (by simp) rfl
          (.atom_name (leaf_operandOf ctx name)) rfl rest_read
      | openBracket =>
        rw [readArguments_open, Except.bind_eq_ok_iff] at success
        obtain ⟨⟨arg, left⟩, inside_read, success⟩ := success
        obtain ⟨⟨args', left'⟩, rest_read, same⟩ := Except.map_eq_ok_iff.mp success
        cases same
        simp only [List.length_cons] at size
        obtain ⟨used, e, column', split, derived⟩ :=
          readGroup_sound (below after (by omega)) inside_read
        exact extend (⟨.openBracket, column⟩ :: used ++ [⟨.closeBracket, column'⟩])
          (by simp [split]) (by simp) (by simp) (.atom_group derived) rfl rest_read
      | ending | sign | assign | arrow | closeBracket =>
        rw [readArguments_of_not_begins (by simp [Lexeme.beginsAtom])] at success
        cases success
        exact ⟨[], rfl, by simpa using head⟩

theorem readOperand_sound (below : ∀ ts : List Token, ts.length < tokens.length → TermSound ctx ts)
    (success : readOperand ctx tokens = .ok (t, rest)) :
    ∃ used e, tokens = used ++ rest ∧ Derives ctx.params (.unary e) (lexemes used) t ∧
      (e = .greedy → NoSign rest) := by
  cases readOperand_eq_ok_iff.mp success with
  | number text column =>
    exact ⟨[⟨.number text, column⟩], .closed, rfl, .unary_primary (.number text), nofun⟩
  | name name column alone =>
    exact ⟨[⟨.name name, column⟩], .closed, rfl, .unary_primary (.name (leaf_operandOf ctx name)),
      nofun⟩
  | @assign name column column' after _ value free value_read =>
    obtain ⟨used, e, split, derived, stops⟩ :=
      below after (by simp only [List.length_cons]; omega) _ _ _ _ .expression value_read
    exact ⟨⟨.name name, column⟩ :: ⟨.assign, column'⟩ :: used, .greedy, by simp [split],
      .unary_primary (.assign free derived), fun _ => stops.noSign⟩
  | @call function column next after _ args free begins args_read =>
    obtain ⟨used, split, derived⟩ :=
      readArguments_sound below (by simp) (.call_head free) args_read
    exact ⟨⟨.name function, column⟩ :: used, .closed, by simp [split],
      .unary_primary (.call (readArguments_ne_nil begins args_read) derived), nofun⟩
  | @sign s op column after _ t leading operand_read =>
    obtain ⟨used, e, split, derived, stops⟩ :=
      below after (by simp) _ _ _ _ .unary operand_read
    exact ⟨⟨.sign s, column⟩ :: used, e, by simp [split],
      .unary_sign (leading_of_ofSign? leading) derived, stops.noSign_of_greedy⟩
  | @group column after _ t inside_read =>
    obtain ⟨used, e, column', split, derived⟩ := readGroup_sound (below after (by simp)) inside_read
    exact ⟨⟨.openBracket, column⟩ :: used ++ [⟨.closeBracket, column'⟩], .closed, by simp [split],
      by simpa using Derives.unary_primary (.group derived), nofun⟩

theorem Extends.of_unary {params : List String} {ts : List Lexeme} {e : Ending}
    {phrase : Ending → Phrase} (level : Level outer phrase) (derived : Derives params (.unary e) ts t) :
    Extends params ts t e rest outer := by
  cases level with
  | expression =>
    exact .expression (.sum_product (.product_unary derived)) fun _ _ _ _ _ _ => .product_unary derived
  | sum => exact .sum (.product_unary derived)
  | product => exact .product derived
  | unary => exact .unary derived

theorem termSound (ctx : Context) (tokens : List Token) : TermSound ctx tokens := by
  induction size : tokens.length using Nat.strongRecOn generalizing tokens with
  | ind size' ih =>
    intro outer phrase t rest level success
    have below : ∀ ts : List Token, ts.length < tokens.length → TermSound ctx ts :=
      fun ts shorter => ih ts.length (by omega) ts rfl
    obtain ⟨first, after, operand_read, loop_read⟩ := readTerm_eq_ok_iff.mp success
    obtain ⟨used, e, split, derived, closed⟩ := readOperand_sound below operand_read
    have shorter : after.length < tokens.length := plain_ok operand_read
    obtain ⟨used', e', split', derived', stops⟩ :=
      readOperations_sound level (fun ts smaller => below ts (Nat.lt_trans smaller shorter))
        (Nat.le_refl _) (Extends.of_unary level derived) closed loop_read
    exact ⟨used ++ used', e', by simp [split, split'], by simpa using derived', stops⟩

end Abacus.Parser
