import Abacus.Proofs.Brackets
import Abacus.Proofs.Parser.Soundness
import Mathlib

/-!
What reading passes over.

A phrase that was read has balanced brackets. If `=` follows it, it does not end in a name that this could assign to,
since such a name takes the `=` for its own. The induction is on the number of tokens.
-/

namespace Abacus

/-- An operand begins after this. -/
def Lexeme.precedesOperand : Lexeme → Bool
  | .sign _ => true
  | .assign => true
  | .arrow => true
  | .openBracket => true
  | _ => false

namespace Grammar

variable {ls rs : List Lexeme}

/-- The last lexeme is a name that begins an operand: at the start, or after a sign, `(`, `=` or `=>`. -/
def EndsInTarget (ls : List Lexeme) : Prop :=
  ∃ before name, ls = before ++ [.name name] ∧ ∀ l ∈ before.getLast?, l.precedesOperand = true

theorem EndsInTarget.of_append (ends : EndsInTarget (ls ++ rs)) (some_right : rs ≠ []) : EndsInTarget rs := by
  obtain ⟨before, name, same, begins⟩ := ends
  obtain ⟨init, last, rfl⟩ := (List.eq_nil_or_concat rs).resolve_left some_right
  rw [List.concat_eq_append] at same ⊢
  rw [← List.append_assoc] at same
  obtain ⟨rfl, last_same⟩ := List.append_inj' same rfl
  refine ⟨init, name, by rw [last_same], fun l inside => begins l ?_⟩
  rw [List.getLast?_append, Option.mem_def.mp inside]
  rfl

theorem not_endsInTarget_concat {l : Lexeme} (no_name : ∀ name, l ≠ .name name) : ¬EndsInTarget (ls ++ [l]) := by
  rintro ⟨before, name, same, -⟩
  have last_same := (List.append_inj' same rfl).2
  exact no_name name (List.cons.inj last_same).1

theorem not_endsInTarget_pair {l : Lexeme} (apart : l.precedesOperand = false) (name : String) :
    ¬EndsInTarget [l, .name name] := by
  rintro ⟨before, name', same, begins⟩
  obtain ⟨rfl, -⟩ := List.append_inj' (show [l] ++ [Lexeme.name name] = before ++ [.name name'] from same) rfl
  rw [begins l rfl] at apart
  cases apart

end Grammar

namespace Parser

open Grammar

variable {ctx : Context} {outer : Binding} {left t : Tree} {tokens rest : List Token} {e : InputError}

/-- A phrase that was read, before the rest: its brackets are balanced, and if `=` follows, it does not end in a name
that this could assign to. -/
structure Passed (used rest : List Token) : Prop where
  some_used : used ≠ []
  balanced : Balanced (lexemes used)
  untargeted : ∀ next ∈ rest.head?, next.lexeme = .assign → ¬EndsInTarget (lexemes used)

/-- What the tokens have and the rest has not is a phrase. -/
def Passes (tokens rest : List Token) : Prop :=
  ∃ used, tokens = used ++ rest ∧ Passed used rest

theorem Passes.trans {after : List Token} (first : Passes tokens after) (next : after = rest ∨ Passes after rest) :
    Passes tokens rest := by
  rcases next with rfl | ⟨used', rfl, passed'⟩
  · exact first
  · obtain ⟨used, rfl, passed⟩ := first
    refine ⟨used ++ used', (List.append_assoc ..).symm, by simp [passed.some_used], ?_, ?_⟩
    · rw [lexemes, List.map_append]
      exact .append passed.balanced passed'.balanced
    · intro next inside assigns ends
      rw [lexemes, List.map_append] at ends
      exact passed'.untargeted next inside assigns (ends.of_append (by simp [passed'.some_used]))

/-- A token before a phrase that is no bracket belongs to it. -/
theorem Passes.cons {first : Token} (no_open : first.lexeme ≠ .openBracket) (no_close : first.lexeme ≠ .closeBracket)
    (passes : Passes tokens rest) : Passes (first :: tokens) rest := by
  obtain ⟨used, rfl, passed⟩ := passes
  refine ⟨first :: used, rfl, by simp, passed.balanced.cons no_open no_close, ?_⟩
  intro next inside assigns ends
  have whole_ends : EndsInTarget ([first.lexeme] ++ lexemes used) := ends
  exact passed.untargeted next inside assigns (whole_ends.of_append (by simp [passed.some_used]))

theorem lexemes_group (column column' : Nat) (tokens : List Token) :
    lexemes (⟨.openBracket, column⟩ :: tokens ++ [⟨.closeBracket, column'⟩]) =
      .openBracket :: lexemes tokens ++ [.closeBracket] := by
  simp

/-- A phrase in brackets. -/
theorem Passes.group {column column' : Nat} (inside : Passes tokens (⟨.closeBracket, column'⟩ :: rest)) :
    Passes (⟨.openBracket, column⟩ :: tokens) rest := by
  obtain ⟨used, rfl, passed⟩ := inside
  refine ⟨⟨.openBracket, column⟩ :: used ++ [⟨.closeBracket, column'⟩], by simp, by simp, ?_, ?_⟩
  · rw [lexemes_group]
    exact .group passed.balanced
  · intro next _ _
    rw [lexemes_group]
    exact not_endsInTarget_concat (by simp)

/-- Arguments, as many as there are, before the rest: they are balanced, and after what they follow the last of them
begins no operand. -/
def ArgumentsPass (tokens rest : List Token) : Prop :=
  ∃ used, tokens = used ++ rest ∧ Balanced (lexemes used) ∧
    ∀ l, l.precedesOperand = false → used ≠ [] → ¬EndsInTarget (l :: lexemes used)

/-- One argument more, whose last token is `last`. -/
theorem ArgumentsPass.after {init after : List Token} {last : Token}
    (balanced : Balanced (lexemes (init ++ [last]))) (apart : last.lexeme.precedesOperand = false)
    (alone : ∀ l, l.precedesOperand = false → ¬EndsInTarget (l :: lexemes (init ++ [last])))
    (later : ArgumentsPass after rest) : ArgumentsPass (init ++ last :: after) rest := by
  obtain ⟨used, rfl, used_balanced, untargeted⟩ := later
  refine ⟨init ++ last :: used, by simp, ?_, ?_⟩
  · have whole := balanced.append used_balanced
    simpa using whole
  · intro l l_apart _ ends
    by_cases nothing : used = []
    · subst nothing
      exact alone l l_apart ends
    · have whole_ends : EndsInTarget ((l :: lexemes init) ++ (last.lexeme :: lexemes used)) := by
        simpa using ends
      exact untargeted _ apart nothing (whole_ends.of_append (by simp))

theorem ArgumentsPass.number {after : List Token} (text : String) (column : Nat) (later : ArgumentsPass after rest) :
    ArgumentsPass (⟨.number text, column⟩ :: after) rest := by
  have alone : ∀ l, ¬EndsInTarget ([l] ++ [.number text]) := fun l => not_endsInTarget_concat (by simp)
  have all : ArgumentsPass ([] ++ ⟨.number text, column⟩ :: after) rest :=
    .after (.other (by simp) (by simp)) rfl (fun l _ => alone l) later
  exact all

theorem ArgumentsPass.name {after : List Token} (name : String) (column : Nat) (later : ArgumentsPass after rest) :
    ArgumentsPass (⟨.name name, column⟩ :: after) rest := by
  have all : ArgumentsPass ([] ++ ⟨.name name, column⟩ :: after) rest :=
    .after (.other (by simp) (by simp)) rfl (fun l apart => not_endsInTarget_pair apart name) later
  exact all

theorem ArgumentsPass.group {after : List Token} {column' : Nat} (column : Nat)
    (inside : Passes tokens (⟨.closeBracket, column'⟩ :: after)) (later : ArgumentsPass after rest) :
    ArgumentsPass (⟨.openBracket, column⟩ :: tokens) rest := by
  obtain ⟨used, rfl, passed⟩ := inside
  have balanced : Balanced (lexemes (⟨.openBracket, column⟩ :: used ++ [⟨.closeBracket, column'⟩])) := by
    rw [lexemes_group]
    exact .group passed.balanced
  refine .after balanced rfl (fun l _ => ?_) later
  rw [lexemes_group, ← List.cons_append]
  exact not_endsInTarget_concat (by simp)

/-- Reading these tokens as a term passes a phrase. -/
def TermPasses (ctx : Context) (tokens : List Token) : Prop :=
  ∀ outer t rest, readTerm ctx outer tokens = .ok (t, rest) → Passes tokens rest

theorem readGroup_passes {opening : Token} (inside_passes : TermPasses ctx tokens)
    (success : readGroup ctx opening tokens = .ok (t, rest)) :
    ∃ column, Passes tokens (⟨.closeBracket, column⟩ :: rest) := by
  obtain ⟨column, inside_read⟩ := readGroup_eq_ok_iff.mp success
  exact ⟨column, inside_passes _ _ _ inside_read⟩

theorem readArguments_pass {n : Nat} (below : ∀ tokens, tokens.length < n → TermPasses ctx tokens) :
    ∀ {tokens : List Token} {args : List Tree}, tokens.length ≤ n →
      readArguments ctx tokens = .ok (args, rest) → ArgumentsPass tokens rest := by
  intro tokens
  induction size : tokens.length using Nat.strongRecOn generalizing tokens with
  | ind size' ih =>
    intro args bound success
    have stop : readArguments ctx tokens = .ok ([], tokens) → ArgumentsPass tokens rest := by
      intro stopped
      rw [stopped] at success
      cases success
      exact ⟨[], rfl, .nothing, fun _ _ some_used => absurd rfl some_used⟩
    rcases tokens with _ | ⟨⟨lexeme, column⟩, after⟩
    · exact stop (readArguments_of_not_begins (by simp))
    · simp only [List.length_cons] at size
      cases lexeme with
      | number text =>
        rw [readArguments_number, Except.map_eq_ok_iff] at success
        obtain ⟨⟨args', left⟩, rest_read, same⟩ := success
        cases same
        exact .number text column (ih after.length (by omega) rfl (by omega) rest_read)
      | name name =>
        rw [readArguments_name, Except.map_eq_ok_iff] at success
        obtain ⟨⟨args', left⟩, rest_read, same⟩ := success
        cases same
        exact .name name column (ih after.length (by omega) rfl (by omega) rest_read)
      | openBracket =>
        rw [readArguments_open, Except.bind_eq_ok_iff] at success
        obtain ⟨⟨arg, left⟩, inside_read, success⟩ := success
        obtain ⟨⟨args', left'⟩, rest_read, same⟩ := Except.map_eq_ok_iff.mp success
        cases same
        obtain ⟨column', inside⟩ := readGroup_passes (below after (by omega)) inside_read
        have shorter : left.length < after.length := plain_ok inside_read
        exact .group column inside (ih left.length (by omega) rfl (by omega) rest_read)
      | ending | sign | assign | arrow | closeBracket =>
        exact stop (readArguments_of_not_begins (by simp [Lexeme.beginsAtom]))

theorem readOperand_passes (below : ∀ ts : List Token, ts.length < tokens.length → TermPasses ctx ts)
    (success : readOperand ctx tokens = .ok (t, rest)) : Passes tokens rest := by
  cases readOperand_eq_ok_iff.mp success with
  | number text column =>
    have last : ¬EndsInTarget ([] ++ [.number text]) := not_endsInTarget_concat (by simp)
    exact ⟨[⟨.number text, column⟩], rfl, by simp, .other (by simp) (by simp), fun _ _ _ => last⟩
  | name name column alone =>
    refine ⟨[⟨.name name, column⟩], rfl, by simp, .other (by simp) (by simp), ?_⟩
    intro next inside assigns
    exact absurd assigns (alone next inside).1
  | @assign name column column' after _ value free value_read =>
    have value_passes : Passes after rest := below after (by simp only [List.length_cons]; omega) _ _ _ value_read
    exact (value_passes.cons (by simp) (by simp)).cons (by simp) (by simp)
  | @call function column next after _ args free begins args_read =>
    obtain ⟨used, split, balanced, untargeted⟩ := readArguments_pass below (by simp) args_read
    refine ⟨⟨.name function, column⟩ :: used, by simp [split], by simp, balanced.cons (by simp) (by simp), ?_⟩
    intro other inside assigns
    refine untargeted (.name function) rfl ?_
    -- without arguments the next token would both begin one and be `=`
    rintro rfl
    rw [List.nil_append] at split
    subst split
    cases inside
    rw [assigns] at begins
    cases begins
  | @sign s op column after _ t leading operand_read =>
    have operand_passes : Passes after rest := below after (by simp) _ _ _ operand_read
    exact operand_passes.cons (by simp) (by simp)
  | @group column after _ t inside_read =>
    obtain ⟨column', inside⟩ := readGroup_passes (below after (by simp)) inside_read
    exact inside.group

theorem readOperations_pass {n : Nat} (below : ∀ tokens, tokens.length < n → TermPasses ctx tokens) :
    ∀ {tokens : List Token} {left : Tree}, tokens.length ≤ n →
      readOperations ctx outer left tokens = .ok (t, rest) → tokens = rest ∨ Passes tokens rest := by
  intro tokens
  induction size : tokens.length using Nat.strongRecOn generalizing tokens with
  | ind size' ih =>
    intro left bound success
    rcases noSign_or_sign tokens with stop | ⟨s, column, after, rfl⟩
    · rw [readOperations_of_noSign stop] at success
      cases success
      exact .inl rfl
    · rw [readOperations_sign] at success
      by_cases tighter : (BinaryOp.ofSign s).binding.tighterThan outer = true
      · rw [if_pos tighter, Except.bind_eq_ok_iff] at success
        obtain ⟨⟨right, after'⟩, right_read, loop_read⟩ := success
        simp only [List.length_cons] at size
        have shorter := readTerm_length right_read
        have right_passes : Passes after after' := below after (by omega) _ _ _ right_read
        have both := right_passes.trans (ih after'.length (by omega) rfl (by omega) loop_read)
        exact .inr (both.cons (by simp) (by simp))
      · rw [if_neg tighter] at success
        cases success
        exact .inl rfl

theorem termPasses (ctx : Context) (tokens : List Token) : TermPasses ctx tokens := by
  induction size : tokens.length using Nat.strongRecOn generalizing tokens with
  | ind size' ih =>
    intro outer t rest success
    have below : ∀ ts : List Token, ts.length < tokens.length → TermPasses ctx ts :=
      fun ts shorter => ih ts.length (by omega) ts rfl
    obtain ⟨first, after, operand_read, loop_read⟩ := readTerm_eq_ok_iff.mp success
    have shorter : after.length < tokens.length := plain_ok operand_read
    have operand_passes := readOperand_passes below operand_read
    exact operand_passes.trans (readOperations_pass below shorter.le loop_read)

end Parser

end Abacus
