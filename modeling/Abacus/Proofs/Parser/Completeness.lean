import Abacus.Proofs.Parser.Soundness
import Mathlib

/-!
What the grammar derives is read.

The induction is on the derivation. A sum or a product is derived from the left, while reading loops to the
right: reading its tokens brings the loop to the state in which it stands before what follows.
-/

namespace Abacus.Parser

open Grammar

variable {ctx : Context} {outer : Binding} {e : Ending} {t : Tree} {tokens rest : List Token}

/-- What may follow a phrase: the end of its group, or a sign of those `allowed` if no open assignment
would take it. -/
def Follows (e : Ending) (allowed : Sign → Prop) (rest : List Token) : Prop :=
  ∀ next ∈ rest.head?, next.lexeme = .closeBracket ∨
    ∃ s, next.lexeme = .sign s ∧ e = .closed ∧ allowed s

def AnySign (_ : Sign) : Prop :=
  True

def SumSign (s : Sign) : Prop :=
  ∃ op, Additive s op

/-- How the tokens of a phrase are read. -/
def Reads (ctx : Context) : Phrase → List Lexeme → Tree → Prop
  | .sum e, ts, t => ∀ tokens rest, lexemes tokens = ts → Follows e SumSign rest →
      readTerm ctx .expression (tokens ++ rest) = readOperations ctx .expression t rest
  | .product e, ts, t => ∀ outer tokens rest, Binding.product.tighterThan outer = true →
      lexemes tokens = ts → Follows e AnySign rest →
      readTerm ctx outer (tokens ++ rest) = readOperations ctx outer t rest
  | .unary e, ts, t => ∀ tokens rest, lexemes tokens = ts → Follows e AnySign rest →
      readOperand ctx (tokens ++ rest) = .ok (t, rest)
  | .primary e, ts, t => ∀ tokens rest, lexemes tokens = ts → Follows e AnySign rest →
      readOperand ctx (tokens ++ rest) = .ok (t, rest)
  | .call, ts, t => ∀ tokens, lexemes tokens = ts → ∃ function column after args,
      tokens = ⟨.name function, column⟩ :: after ∧ t = .call function args ∧
      function ∉ ctx.params ∧ (args ≠ [] → after ≠ []) ∧
      (∀ next ∈ after.head?, next.lexeme.beginsAtom = true) ∧
      ∀ rest, readArguments ctx (after ++ rest) =
        (readArguments ctx rest).map fun r => (args ++ r.1, r.2)
  | .atom, ts, t => ∀ tokens, lexemes tokens = ts →
      (∃ next after, tokens = next :: after ∧ next.lexeme.beginsAtom = true) ∧
      ∀ rest, readArguments ctx (tokens ++ rest) =
        (readArguments ctx rest).map fun r => (t :: r.1, r.2)

theorem lexemes_eq_cons {a : Lexeme} {ts : List Lexeme} (same : lexemes tokens = a :: ts) :
    ∃ column after, tokens = ⟨a, column⟩ :: after ∧ lexemes after = ts := by
  obtain ⟨⟨lexeme, column⟩, after, rfl, rfl, rest_same⟩ := List.map_eq_cons_iff.mp same
  exact ⟨column, after, rfl, rest_same⟩

/-- Distinct parameters have one position each. -/
theorem operandOf_of_leaf {name : String} (distinct : ctx.params.Nodup)
    (leaf : Leaf ctx.params name t) : ctx.operandOf name = t := by
  unfold Context.operandOf
  cases leaf with
  | param index named =>
    obtain ⟨inside, named⟩ := List.getElem?_eq_some_iff.mp named
    have found : ctx.params.idxOf? name = some index := by
      refine List.idxOf?_eq_some_iff.mpr ⟨inside, named, fun j earlier same => ?_⟩
      have apart := List.pairwise_iff_getElem.mp distinct j index (by omega) inside earlier
      exact apart (same.trans named.symm)
    rw [found]
  | ident free => rw [List.idxOf?_eq_none_iff.mpr free]

theorem Follows.noSign {allowed : Sign → Prop} (follows : Follows .greedy allowed rest) :
    NoSign rest := by
  rintro s column after rfl
  rcases follows _ rfl with closes | ⟨_, _, greedy, _⟩
  · cases closes
  · cases greedy

theorem Follows.endsName {allowed : Sign → Prop} (follows : Follows e allowed rest) :
    EndsName rest := by
  intro next first
  rcases follows next first with closes | ⟨s, sign, -⟩
  · simp [closes, Lexeme.beginsAtom]
  · simp [sign, Lexeme.beginsAtom]

theorem Follows.any {allowed : Sign → Prop} (follows : Follows e allowed rest) :
    Follows e AnySign rest := by
  intro next first
  rcases follows next first with closes | ⟨s, sign, closed, -⟩
  · exact .inl closes
  · exact .inr ⟨s, sign, closed, trivial⟩

/-- After an open assignment only the end of the group follows, and that may follow anything. -/
theorem Follows.of_greedy {allowed allowed' : Sign → Prop} (follows : Follows .greedy allowed rest) :
    Follows e allowed' rest := by
  intro next first
  rcases follows next first with closes | ⟨s, sign, greedy, -⟩
  · exact .inl closes
  · cases greedy

theorem follows_sign {allowed : Sign → Prop} {s : Sign} {column : Nat} (ok : allowed s) :
    Follows .closed allowed (⟨.sign s, column⟩ :: rest) := by
  rintro next ⟨⟩
  exact .inr ⟨s, rfl, rfl, ok⟩

theorem follows_close {allowed : Sign → Prop} {column : Nat} :
    Follows e allowed (⟨.closeBracket, column⟩ :: rest) := by
  rintro next ⟨⟩
  exact .inl rfl

theorem follows_nil {allowed : Sign → Prop} : Follows e allowed [] :=
  nofun

/-- The loop stops before a sign that binds no tighter than the operator before it. -/
theorem readOperations_of_loose (loose : ∀ s column after, rest = ⟨.sign s, column⟩ :: after →
    (BinaryOp.ofSign s).binding.tighterThan outer = false) :
    readOperations ctx outer t rest = .ok (t, rest) := by
  rcases noSign_or_sign rest with stop | ⟨s, column, after, rfl⟩
  · exact readOperations_of_noSign stop
  · rw [readOperations_sign, loose s column after rfl]
    rfl

variable {s : Sign} {op : BinaryOp} {function : String} {ts ls rs : List Lexeme} {l r a : Tree}
  {args : List Tree}

theorem Reads.sum_step (sign : Additive s op) (left : Reads ctx (.sum .closed) ls l)
    (right : Reads ctx (.product e) rs r) :
    Reads ctx (.sum e) (ls ++ .sign s :: rs) (.binary op l r) := by
  intro tokens rest same follows
  obtain ⟨before, signed, rfl, left_same, signed_same⟩ := List.map_eq_append_iff.mp same
  obtain ⟨column, after, rfl, right_same⟩ := lexemes_eq_cons signed_same
  have binds : BinaryOp.ofSign s = op ∧ op.binding = .sum := by
    cases sign <;> exact ⟨rfl, rfl⟩
  have right_read : readTerm ctx .sum (after ++ rest) = .ok (r, rest) := by
    rw [right .sum after rest rfl right_same follows.any]
    apply readOperations_of_loose
    rintro s' column' rest' rfl
    rcases follows _ rfl with closes | ⟨_, ⟨⟩, _, op', additive⟩
    · cases closes
    · cases additive <;> rfl
  rw [List.append_assoc, List.cons_append,
    left before _ left_same (follows_sign ⟨op, sign⟩), readOperations_sign, binds.1, binds.2,
    if_pos (by decide), right_read]
  rfl

theorem Reads.product_unary (unary : Reads ctx (.unary e) ts t) : Reads ctx (.product e) ts t := by
  intro outer tokens rest tighter same follows
  rw [readTerm_eq, unary tokens rest same follows]
  rfl

/-- No sign binds tighter than a product or a sign before an operand. -/
theorem readTerm_of_unary (tight : ∀ s : Sign, (BinaryOp.ofSign s).binding.tighterThan outer = false)
    (unary : Reads ctx (.unary e) ts t) (same : lexemes tokens = ts)
    (follows : Follows e AnySign rest) : readTerm ctx outer (tokens ++ rest) = .ok (t, rest) := by
  rw [readTerm_eq, unary tokens rest same follows]
  exact readOperations_of_loose fun s _ _ _ => tight s

theorem Reads.product_step (sign : Multiplicative s op) (left : Reads ctx (.product .closed) ls l)
    (right : Reads ctx (.unary e) rs r) :
    Reads ctx (.product e) (ls ++ .sign s :: rs) (.binary op l r) := by
  intro outer tokens rest tighter same follows
  obtain ⟨before, signed, rfl, left_same, signed_same⟩ := List.map_eq_append_iff.mp same
  obtain ⟨column, after, rfl, right_same⟩ := lexemes_eq_cons signed_same
  have binds : BinaryOp.ofSign s = op ∧ op.binding = .product := by
    cases sign <;> exact ⟨rfl, rfl⟩
  have right_read : readTerm ctx .product (after ++ rest) = .ok (r, rest) :=
    readTerm_of_unary (by intro s; cases s <;> rfl) right right_same follows
  rw [List.append_assoc, List.cons_append,
    left outer before _ tighter left_same (follows_sign trivial), readOperations_sign, binds.1,
    binds.2, if_pos tighter, right_read]
  rfl

theorem Reads.unary_sign {op : UnaryOp} (sign : Leading s op) (operand : Reads ctx (.unary e) ts t) :
    Reads ctx (.unary e) (.sign s :: ts) (.unary op t) := by
  intro tokens rest same follows
  obtain ⟨column, after, rfl, operand_same⟩ := lexemes_eq_cons same
  have leading : UnaryOp.ofSign? s = some op := by cases sign <;> rfl
  rw [List.cons_append]
  refine readOperand_eq_ok_iff.mpr (.sign column leading ?_)
  exact readTerm_of_unary (by intro s; cases s <;> rfl) operand operand_same follows

theorem Reads.assign {name : String} (free : name ∉ ctx.params) (value : Reads ctx (.sum e) ts t) :
    Reads ctx (.primary .greedy) (.name name :: .assign :: ts) (.assign name t) := by
  intro tokens rest same follows
  obtain ⟨column, equals, rfl, equals_same⟩ := lexemes_eq_cons same
  obtain ⟨column', after, rfl, value_same⟩ := lexemes_eq_cons equals_same
  rw [List.cons_append, List.cons_append]
  refine readOperand_eq_ok_iff.mpr (.assign column column' free ?_)
  rw [value after rest value_same follows.of_greedy]
  exact readOperations_of_noSign follows.noSign

theorem Reads.call (some_args : args ≠ []) (call : Reads ctx .call ts (.call function args)) :
    Reads ctx (.primary .closed) ts (.call function args) := by
  intro tokens rest same follows
  obtain ⟨_, column, after, _, rfl, ⟨⟩, free, some_after, begins, args_read⟩ := call tokens same
  obtain ⟨next, after, rfl⟩ := List.exists_cons_of_ne_nil (some_after some_args)
  have ends : readArguments ctx rest = .ok ([], rest) :=
    readArguments_of_not_begins fun next first => (follows.endsName next first).2
  rw [List.cons_append, List.cons_append]
  refine readOperand_eq_ok_iff.mpr (.call column free (begins next rfl) ?_)
  rw [← List.cons_append, args_read rest, ends]
  simp [Except.map]

theorem readGroup_of_reads {opening : Token} {column : Nat} (inside : Reads ctx (.sum e) ts t)
    (same : lexemes tokens = ts) :
    readGroup ctx opening (tokens ++ ⟨.closeBracket, column⟩ :: rest) = .ok (t, rest) := by
  refine readGroup_eq_ok_iff.mpr ⟨column, ?_⟩
  rw [inside tokens _ same follows_close]
  exact readOperations_of_noSign nofun

/-- The tokens of a group in brackets. -/
theorem lexemes_eq_group (same : lexemes tokens = .openBracket :: ts ++ [.closeBracket]) :
    ∃ column inner column', tokens = ⟨.openBracket, column⟩ :: (inner ++ [⟨.closeBracket, column'⟩]) ∧
      lexemes inner = ts := by
  obtain ⟨column, after, rfl, after_same⟩ := lexemes_eq_cons same
  obtain ⟨inner, last, rfl, inner_same, last_same⟩ := List.map_eq_append_iff.mp after_same
  obtain ⟨column', nothing, rfl, nothing_same⟩ := lexemes_eq_cons last_same
  cases List.map_eq_nil_iff.mp nothing_same
  exact ⟨column, inner, column', rfl, inner_same⟩

theorem Reads.group (inside : Reads ctx (.sum e) ts t) :
    Reads ctx (.primary .closed) (.openBracket :: ts ++ [.closeBracket]) t := by
  intro tokens rest same follows
  obtain ⟨column, inner, column', rfl, inner_same⟩ := lexemes_eq_group same
  rw [List.cons_append, List.append_assoc]
  exact readOperand_eq_ok_iff.mpr (.group column (readGroup_of_reads inside inner_same))

theorem lexemes_eq_singleton {a : Lexeme} (same : lexemes tokens = [a]) :
    ∃ column, tokens = [⟨a, column⟩] := by
  obtain ⟨column, nothing, rfl, nothing_same⟩ := lexemes_eq_cons same
  cases List.map_eq_nil_iff.mp nothing_same
  exact ⟨column, rfl⟩

theorem Reads.name {name : String} (distinct : ctx.params.Nodup) (leaf : Leaf ctx.params name t) :
    Reads ctx (.primary .closed) [.name name] t := by
  intro tokens rest same follows
  obtain ⟨column, rfl⟩ := lexemes_eq_singleton same
  rw [← operandOf_of_leaf distinct leaf]
  exact readOperand_eq_ok_iff.mpr (.name name column follows.endsName)

theorem Reads.call_head (free : function ∉ ctx.params) :
    Reads ctx .call [.name function] (.call function []) := by
  intro tokens same
  obtain ⟨column, rfl⟩ := lexemes_eq_singleton same
  refine ⟨function, column, [], [], rfl, rfl, free, by simp, nofun, fun rest => ?_⟩
  rw [List.nil_append]
  cases readArguments ctx rest <;> rfl

theorem Reads.call_next (before : Reads ctx .call ls (.call function args))
    (arg : Reads ctx .atom rs a) : Reads ctx .call (ls ++ rs) (.call function (args ++ [a])) := by
  intro tokens same
  obtain ⟨called, atom, rfl, called_same, atom_same⟩ := List.map_eq_append_iff.mp same
  obtain ⟨_, column, after, _, rfl, ⟨⟩, free, -, begins, args_read⟩ := before called called_same
  obtain ⟨⟨next, atom, rfl, atom_begins⟩, atom_read⟩ := arg atom atom_same
  refine ⟨function, column, after ++ next :: atom, args ++ [a], rfl, rfl, free, by simp, ?_, ?_⟩
  · cases after with
    | nil =>
      rintro _ ⟨⟩
      exact atom_begins
    | cons head after => exact begins
  · intro rest
    rw [List.append_assoc, args_read, atom_read]
    cases readArguments ctx rest <;> simp [Except.map]

theorem Reads.atom_name {name : String} (distinct : ctx.params.Nodup)
    (leaf : Leaf ctx.params name t) : Reads ctx .atom [.name name] t := by
  intro tokens same
  obtain ⟨column, rfl⟩ := lexemes_eq_singleton same
  refine ⟨⟨_, _, rfl, rfl⟩, fun rest => ?_⟩
  rw [← operandOf_of_leaf distinct leaf]
  exact readArguments_name name column rest

theorem Reads.atom_number (text : String) : Reads ctx .atom [.number text] (.number text) := by
  intro tokens same
  obtain ⟨column, rfl⟩ := lexemes_eq_singleton same
  exact ⟨⟨_, _, rfl, rfl⟩, readArguments_number text column⟩

theorem Reads.atom_group (inside : Reads ctx (.sum e) ts t) :
    Reads ctx .atom (.openBracket :: ts ++ [.closeBracket]) t := by
  intro tokens same
  obtain ⟨column, inner, column', rfl, inner_same⟩ := lexemes_eq_group same
  refine ⟨⟨_, _, rfl, rfl⟩, fun rest => ?_⟩
  rw [List.cons_append, List.append_assoc, readArguments_open,
    List.singleton_append, readGroup_of_reads inside inner_same]
  rfl

theorem reads_of_derives (distinct : ctx.params.Nodup) {p : Phrase}
    (derived : Derives ctx.params p ts t) : Reads ctx p ts t := by
  induction derived with
  | sum_product product ih =>
    intro tokens rest same follows
    exact ih .expression tokens rest rfl same follows.any
  | sum_step sign left right left_ih right_ih => exact .sum_step sign left_ih right_ih
  | product_unary unary ih => exact .product_unary ih
  | product_step sign left right left_ih right_ih => exact .product_step sign left_ih right_ih
  | unary_sign sign operand ih => exact .unary_sign sign ih
  | unary_primary primary ih => exact ih
  | assign free value ih => exact .assign free ih
  | call some_args call ih => exact .call some_args ih
  | name leaf => exact .name distinct leaf
  | number text =>
    intro tokens rest same follows
    obtain ⟨column, rfl⟩ := lexemes_eq_singleton same
    exact readOperand_eq_ok_iff.mpr (.number text column rest)
  | group inside ih => exact .group ih
  | call_head free => exact .call_head free
  | call_next before arg before_ih arg_ih => exact .call_next before_ih arg_ih
  | atom_name leaf => exact .atom_name distinct leaf
  | atom_number text => exact .atom_number text
  | atom_group inside ih => exact .atom_group ih

end Abacus.Parser
