import Abacus.Proofs.Reprinting
import Mathlib

/-!
Expressions whose texts are put together from the texts of others.

A text that spells lexemes can be followed by any mark that ends them all, so brackets and operators with
blanks around them join two expressions. A text that begins with a name and `=` is read in no other way than
as an assignment of what the rest is.
-/

namespace Abacus

/-- A mark that is part of no number, name or arrow ends every lexeme. -/
theorem Lexeme.stops_of_mark {c : Char} (no_point : c ≠ '.') (no_part : Text.isNamePart c = false)
    (no_arrow : c ≠ '>') (l : Lexeme) : l.Stops (some c) := by
  intro d same
  cases same
  cases l with
  | number => exact ⟨no_point, no_part⟩
  | name => exact no_part
  | assign => exact no_arrow
  | _ => trivial

/-- The line that has a tree, with the names in it. -/
def Tree.toLine (t : Tree) : Line :=
  { tree := t, vars := t.vars }

namespace Lexer

variable {text rest : List Char} {ls more : List Lexeme} {l : Lexeme} {c : Char}

/-- Two texts spell their lexemes in turn if the second begins with a mark that ends every lexeme. -/
theorem Spells.append (spells : Spells text ls) (after : Spells rest more)
    (stops : ∀ l : Lexeme, l.Stops rest.head?) : Spells (text ++ rest) (ls ++ more) := by
  induction spells with
  | nothing => exact after
  | blank white _ ih => exact .blank white ih
  | @lexeme l inner _ proper ends _ ih =>
    rw [List.append_assoc]
    refine .lexeme proper ?_ ih
    cases inner with
    | nil => exact stops l
    | cons d inner => exact ends

theorem spells_blank_iff (white : Text.isBlank c = true) : Spells (c :: rest) ls ↔ Spells rest ls := by
  refine ⟨fun spells => ?_, .blank white⟩
  obtain ⟨tokens, collected, same⟩ := collect_of_spells spells 1
  rw [scanFrom_blank white] at collected
  exact spells_of_scanFrom collected same

theorem spells_blanks_iff {blanks : List Char} (white : ∀ c ∈ blanks, Text.isBlank c = true) :
    Spells (blanks ++ rest) ls ↔ Spells rest ls := by
  induction blanks with
  | nil => rfl
  | cons c blanks ih =>
    obtain ⟨first, others⟩ := List.forall_mem_cons.mp white
    rw [List.cons_append, spells_blank_iff first]
    exact ih others

/-- A proper lexeme that ends where it has to is the first that a text spells. -/
theorem spells_lexeme_iff (proper : l.Proper) (stops : l.Stops rest.head?) :
    Spells (l.text.toList ++ rest) ls ↔ ∃ others, ls = l :: others ∧ Spells rest others := by
  constructor
  · intro spells
    obtain ⟨tokens, collected, same⟩ := collect_of_spells spells 1
    have inner : l ≠ .ending := by
      rintro rfl
      exact proper
    rw [readsNext_of_proper proper 1 rest stops] at collected
    change (if l = .ending then _ else _) = _ at collected
    rw [if_neg inner] at collected
    obtain ⟨later, later_collected, rfl⟩ := Except.map_eq_ok_iff.mp collected
    rw [Parser.lexemes, List.map_cons] at same
    cases ls with
    | nil => exact absurd (List.cons.inj same).1 inner
    | cons first others =>
      obtain ⟨rfl, later_same⟩ := List.cons.inj same
      exact ⟨others, rfl, spells_of_scanFrom later_collected later_same⟩
  · rintro ⟨others, rfl, spells⟩
    exact .lexeme proper stops spells

end Lexer

namespace Grammar

open Lexer

variable {params : List String} {p : Phrase} {ls : List Lexeme} {t : Tree}

theorem Derives.head_ne_assign (derived : Derives params p ls t) : ls.head? ≠ some .assign := by
  induction derived with
  | sum_step _ left _ left_ih | product_step _ left _ left_ih =>
    rw [List.head?_append_of_ne_nil _ left.ne_nil]
    exact left_ih
  | call_next before _ before_ih =>
    rw [List.head?_append_of_ne_nil _ before.ne_nil]
    exact before_ih
  | sum_product _ ih | product_unary _ ih | unary_primary _ ih | call _ _ ih => exact ih
  | unary_sign | assign | name | number | group | call_head | atom_name | atom_number | atom_group => simp

/-- Whether a phrase ends in an assignment that no bracket closes. -/
def Phrase.ending : Phrase → Ending
  | .sum e | .product e | .unary e | .primary e => e
  | .call | .atom => .closed

/-- A phrase in front of another ends before the `=` or contains it, and then it is not closed. -/
theorem Derives.append_ne_assign {name : String} {tails ts : List Lexeme} (derived : Derives params p ls t)
    (greedy : ∀ ts, ls = .name name :: .assign :: ts → p.ending = .greedy) (closed : p.ending = .closed)
    (no_assign : tails.head? ≠ some .assign) : ls ++ tails ≠ .name name :: .assign :: ts := by
  intro split
  rcases ls with - | ⟨first, - | ⟨second, others⟩⟩
  · exact derived.ne_nil rfl
  · have same : tails = .assign :: ts := (List.cons.inj split).2
    exact no_assign (congrArg List.head? same)
  · obtain ⟨rfl, same⟩ := List.cons.inj split
    obtain ⟨rfl, -⟩ := List.cons.inj same
    cases closed.symm.trans (greedy others rfl)

/-- What begins with a name and `=` is an assignment as a whole, so it is the left operand of nothing. -/
theorem Derives.assign_inv {name : String} {ts : List Lexeme} (derived : Derives params p ls t)
    (begins : ls = .name name :: .assign :: ts) :
    p.ending = .greedy ∧ ∃ e v, t = .assign name v ∧ Derives params (.sum e) ts v := by
  induction derived generalizing ts with
  | sum_product _ ih | product_unary _ ih | unary_primary _ ih => exact ih begins
  | sum_step _ left _ left_ih | product_step _ left _ left_ih =>
    exact absurd begins (left.append_ne_assign (fun _ same => (left_ih same).1) rfl (by simp))
  | call_next before arg before_ih =>
    exact absurd begins (before.append_ne_assign (fun _ same => (before_ih same).1) rfl arg.head_ne_assign)
  | call _ _ ih => cases (ih begins).1
  | @assign e _ _ v free value =>
    cases begins
    exact ⟨rfl, e, v, rfl, value⟩
  | unary_sign | name | number | group | call_head | atom_name | atom_number | atom_group => cases begins

/-- The text is an expression with the given tree. -/
def Expresses (text : List Char) (t : Tree) : Prop :=
  ∃ e ls, Spells text ls ∧ Derives [] (.sum e) ls t

/-- The text is an operand with the given tree on both sides of every operator. -/
def Operand (text : List Char) (t : Tree) : Prop :=
  ∃ ls, Spells text ls ∧ Derives [] (.primary .closed) ls t

theorem Expresses.expression {text : List Char} (expresses : Expresses text t) : t.Expression true [] := by
  obtain ⟨e, ls, -, derived⟩ := expresses
  exact derived.expression

/-- A text is an expression exactly if it is read as a line that defines nothing. -/
theorem expresses_iff {text : Text} :
    Expresses text.toChars t ↔ Parser.parseText text = .ok t.toLine ∧ t.isDefinition = false := by
  constructor
  · rintro ⟨e, ls, spells, derived⟩
    have read := Parser.parse_of_spells spells (.expression derived)
    exact ⟨Parser.parseText_of_parse read, derived.not_definition⟩
  · rintro ⟨read, expression⟩
    obtain ⟨ls, spells, line⟩ := Parser.spells_of_parse (Parser.parse_of_parseText read)
    change Grammar.Line (ls ++ [.ending]) t at line
    generalize ended : ls ++ [Lexeme.ending] = all at line
    cases line with
    | definition => cases expression
    | @expression e ts _ body =>
      have same : ls = ts := List.append_cancel_right ended
      exact ⟨e, ls, spells, same ▸ body⟩

theorem expresses_of_read {text : Text} {line : Abacus.Line} (read : Parser.parseText text = .ok line)
    (expression : line.isDefinition = false) : Expresses text.toChars line.tree := by
  refine expresses_iff.mpr ⟨?_, expression⟩
  rw [read, Tree.toLine, ← Parser.vars_of_parse (Parser.parse_of_parseText read)]

theorem operand_name {name : String} (named : Text.isName (Text.ofString name) = true) :
    Operand name.toList (.ident name) := by
  have spells : Spells (name.toList ++ []) [.name name] :=
    .lexeme (l := .name name) named (by simp [Lexeme.Stops]) .nothing
  rw [List.append_nil] at spells
  exact ⟨_, spells, .name (.ident (by simp))⟩

theorem Expresses.inBrackets {text : List Char} (inside : Expresses text t) :
    Operand ('(' :: text ++ [')']) t := by
  obtain ⟨e, ls, spells, derived⟩ := inside
  have close : Spells [')'] [.closeBracket] := .lexeme (l := .closeBracket) trivial (fun _ _ => trivial) .nothing
  have closed := spells.append close (Lexeme.stops_of_mark (by decide) rfl (by decide))
  have opened : Spells ('(' :: (text ++ [')'])) (.openBracket :: (ls ++ [.closeBracket])) :=
    .lexeme (l := .openBracket) trivial (fun _ _ => trivial) closed
  exact ⟨_, opened, .group derived⟩

/-- Any operator with a blank on each side joins two operands. -/
theorem Operand.joined {left right : List Char} {a b : Tree} (left_ok : Operand left a) (right_ok : Operand right b)
    (op : BinaryOp) : Expresses (left ++ ' ' :: op.text.toList ++ ' ' :: right) (.binary op a b) := by
  obtain ⟨ls, left_spells, left_derived⟩ := left_ok
  obtain ⟨rs, right_spells, right_derived⟩ := right_ok
  have sign : Spells (op.text.toList ++ ' ' :: right) (.sign op.sign :: rs) :=
    .lexeme (l := .sign op.sign) trivial (fun _ _ => trivial) (.blank rfl right_spells)
  have spaced : Spells (' ' :: (op.text.toList ++ ' ' :: right)) (.sign op.sign :: rs) := .blank rfl sign
  have spells := left_spells.append spaced (Lexeme.stops_of_mark (by decide) rfl (by decide))
  refine ⟨.closed, _, ?_, Tree.derives_binary op left_derived right_derived⟩
  rw [List.append_assoc]
  exact spells

/-- A text that begins with a name and `=` is an expression exactly if what comes after that is one, and then
it is the assignment of it. -/
theorem expresses_assign_iff {name : String} {before between value : List Char}
    (named : Text.isName (Text.ofString name) = true) (before_white : ∀ c ∈ before, Text.isBlank c = true)
    (between_white : ∀ c ∈ between, Text.isBlank c = true) (no_arrow : value.head? ≠ some '>') :
    Expresses (before ++ (name.toList ++ (between ++ '=' :: value))) t ↔
      ∃ v, t = .assign name v ∧ Expresses value v := by
  have assign_stops : Lexeme.assign.Stops value.head? := by
    rintro c follows rfl
    exact no_arrow follows
  have name_stops : (Lexeme.name name).Stops (between ++ '=' :: value).head? := by
    intro c follows
    cases between with
    | nil =>
      cases follows
      rfl
    | cons d between =>
      cases follows
      exact Text.isNamePart_eq_false_of_isBlank (between_white c (List.mem_cons_self ..))
  have spells {ls : List Lexeme} : Spells (before ++ (name.toList ++ (between ++ '=' :: value))) ls ↔
      ∃ vs, ls = .name name :: .assign :: vs ∧ Spells value vs := by
    have after_name {ls : List Lexeme} : Spells (between ++ '=' :: value) ls ↔
        ∃ vs, ls = .assign :: vs ∧ Spells value vs :=
      (spells_blanks_iff between_white).trans (spells_lexeme_iff (l := .assign) trivial assign_stops)
    refine (spells_blanks_iff before_white).trans ((spells_lexeme_iff (l := .name name) named name_stops).trans ?_)
    simp [after_name]
  constructor
  · rintro ⟨e, ls, spelled, derived⟩
    obtain ⟨vs, begins, value_spelled⟩ := spells.mp spelled
    obtain ⟨-, e', v, rfl, value_derived⟩ := derived.assign_inv begins
    exact ⟨v, rfl, e', vs, value_spelled, value_derived⟩
  · rintro ⟨v, rfl, e, vs, value_spelled, derived⟩
    exact ⟨.greedy, _, spells.mpr ⟨vs, rfl, value_spelled⟩, Tree.sum_of_primary (.assign (by simp) derived)⟩

end Grammar

end Abacus
