import Abacus.Proofs.Bindings
import Abacus.Proofs.Grammar
import Abacus.Proofs.Meaning
import Abacus.Proofs.Outcomes
import Mathlib

/-!
What a definition stores.

Bodies that call nothing are put in the place of calls, so the body that is stored calls nothing either, and
its parameters are those of the definition.
-/

namespace Abacus

namespace Tree

variable {params outer : List String} {args : List Tree} {t : Tree}

theorem argument_eq_ok_iff {α : Type} {args : List α} {index : Nat} {a : α} :
    argument args (index : Int) = .ok a ↔ args[index]? = some a := by
  have natural : ¬(index : Int) < 0 := by omega
  cases found : args[index]? with
  | none => simp [argument, natural, found]
  | some b => simp [argument, natural, found]

theorem substitute_unary_eq_ok_iff {args : Option (List Tree)} {op : UnaryOp} {operand : Tree} :
    (unary op operand).substitute args = .ok t ↔
      ∃ operand', operand.substitute args = .ok operand' ∧ .unary op operand' = t := by
  rw [substitute, Except.bind_eq_ok_iff]
  simp only [pure, Except.pure, Except.ok.injEq]

theorem substitute_binary_eq_ok_iff {args : Option (List Tree)} {op : BinaryOp} {left right : Tree} :
    (binary op left right).substitute args = .ok t ↔
      ∃ left' right', left.substitute args = .ok left' ∧ right.substitute args = .ok right' ∧
        .binary op left' right' = t := by
  rw [substitute, Except.bind_eq_ok_iff]
  simp only [Except.bind_eq_ok_iff, pure, Except.pure, Except.ok.injEq, exists_and_left]

/-- A body without parameters is one for any parameters. -/
theorem Expression.weaken (ok : t.Expression false []) : t.Expression false params := by
  induction ok with
  | number text => exact .number text
  | ident name => exact .ident name
  | param index name named => cases named
  | assign name _ ih => exact .assign name ih
  | call function allowed => cases allowed
  | unary op _ ih => exact .unary op ih
  | binary op _ _ left right => exact .binary op left right

theorem Expression.substitute_self (ok : t.Expression false []) (args : Option (List Tree)) :
    t.substitute args = .ok t := by
  induction ok with
  | number | ident => rfl
  | param index name named => cases named
  | assign name _ ih => rw [Tree.substitute, ih]; rfl
  | call function allowed => cases allowed
  | unary op _ ih => exact substitute_unary_eq_ok_iff.mpr ⟨_, ih, rfl⟩
  | binary op _ _ left right => exact substitute_binary_eq_ok_iff.mpr ⟨_, _, left, right, rfl⟩

/-- Substitution succeeds where every parameter has an argument. -/
theorem Expression.substitute (ok : t.Expression false params) (fits : args.length = params.length)
    (args_ok : ∀ a ∈ args, a.Expression false outer) :
    ∃ t', t.substitute (some args) = .ok t' ∧ t'.Expression false outer := by
  induction ok with
  | number text => exact ⟨_, rfl, .number text⟩
  | ident name => exact ⟨_, rfl, .ident name⟩
  | param index name named =>
    have inside : index < args.length := by
      rw [fits]
      exact (List.getElem?_eq_some_iff.mp named).1
    have found : args[index]? = some args[index] := List.getElem?_eq_getElem inside
    exact ⟨args[index], argument_eq_ok_iff.mpr found, args_ok _ (List.getElem_mem inside)⟩
  | assign name _ ih =>
    obtain ⟨value, replaced, value_ok⟩ := ih
    exact ⟨.assign name value, by rw [Tree.substitute, replaced]; rfl, .assign name value_ok⟩
  | call function allowed => cases allowed
  | unary op _ ih =>
    obtain ⟨operand, replaced, operand_ok⟩ := ih
    exact ⟨_, substitute_unary_eq_ok_iff.mpr ⟨operand, replaced, rfl⟩, .unary op operand_ok⟩
  | binary op _ _ left_ih right_ih =>
    obtain ⟨left, left_replaced, left_ok⟩ := left_ih
    obtain ⟨right, right_replaced, right_ok⟩ := right_ih
    exact ⟨_, substitute_binary_eq_ok_iff.mpr ⟨left, right, left_replaced, right_replaced, rfl⟩,
      .binary op left_ok right_ok⟩

end Tree

namespace Environment

variable {env other : Environment} {params : List String} {t t' : Tree}

/-- The bodies of all functions call nothing. -/
def Flat (env : Environment) : Prop :=
  env.functions.All fun _ f => f.body.Expression false f.params

theorem inlineAll_eq_ok_iff {ts ts' : List Tree} :
    env.inlineAll ts = .ok ts' ↔ List.Forall₂ (fun t t' => env.inline t = .ok t') ts ts' :=
  Except.each_eq_ok_iff (by rw [inlineAll]) fun _ _ => by rw [inlineAll]

theorem exists_mem_of_forall₂ {α β : Type} {R : α → β → Prop} {as : List α} {bs : List β} {b : β}
    (all : List.Forall₂ R as bs) (inside : b ∈ bs) : ∃ a ∈ as, R a b := by
  obtain ⟨index, below, rfl⟩ := List.getElem_of_mem inside
  have below' : index < as.length := all.length_eq ▸ below
  exact ⟨as[index], List.getElem_mem below', all.get below' below⟩

theorem exists_getElem?_of_forall₂ {α β : Type} {R : α → β → Prop} {as : List α} {bs : List β}
    {index : Nat} {a : α} (all : List.Forall₂ R as bs) (found : as[index]? = some a) :
    ∃ b, bs[index]? = some b ∧ R a b := by
  obtain ⟨below, rfl⟩ := List.getElem?_eq_some_iff.mp found
  have below' : index < bs.length := all.length_eq ▸ below
  exact ⟨bs[index], List.getElem?_eq_getElem below', all.get below below'⟩

/-- How a call is inlined: its arguments first, then the body with them in the place of the parameters. -/
theorem inline_call_eq_ok_iff {function : String} {args : List Tree} :
    env.inline (.call function args) = .ok t' ↔
      ∃ f args', env.functions.find? function = some f ∧ args.length = f.params.length ∧
        List.Forall₂ (fun a a' => env.inline a = .ok a') args args' ∧
        f.body.substitute (some args') = .ok t' := by
  rw [inline]
  cases found : env.functions.find? function with
  | none => simp
  | some f =>
    by_cases arity : args.length = f.params.length
    · simp only [if_pos arity, Except.bind_eq_ok_iff, inlineAll_eq_ok_iff, Option.some.injEq,
        exists_and_left]
      constructor
      · rintro ⟨args', inlined, replaced⟩
        refine ⟨f, rfl, arity, args', inlined, ?_⟩
        cases result : f.body.substitute (some args') with
        | error e =>
          rw [result] at replaced
          cases replaced
        | ok u =>
          rw [result] at replaced
          cases replaced
          rfl
      · rintro ⟨_, rfl, -, args', inlined, replaced⟩
        exact ⟨args', inlined, by rw [replaced]; rfl⟩
    · simp [arity]

/-- How a name alone is inlined: as the body of the function without parameters that it calls, or not at
all. -/
theorem inline_ident_eq_ok_iff {name : String} :
    env.inline (.ident name) = .ok t' ↔
      (∃ f, env.vars.find? name = none ∧ env.functions.find? name = some f ∧ f.params = [] ∧
          t' = f.body) ∨
        ((env.vars.find? name = none → env.functions.find? name = none) ∧ t' = .ident name) := by
  rw [inline, inlineName]
  cases bound : env.vars.find? name with
  | some x => simp [bind, Except.bind, pure, Except.pure, eq_comm]
  | none =>
    cases found : env.functions.find? name with
    | none => simp [bind, Except.bind, pure, Except.pure, eq_comm]
    | some f =>
      by_cases niladic : f.params = []
      · simp [niladic, bind, Except.bind, pure, Except.pure, eq_comm]
      · simp [niladic, bind, Except.bind]

theorem inline_unary_eq_ok_iff {op : UnaryOp} {operand : Tree} :
    env.inline (.unary op operand) = .ok t' ↔
      ∃ operand', env.inline operand = .ok operand' ∧ .unary op operand' = t' := by
  rw [inline, Except.bind_eq_ok_iff]
  simp only [pure, Except.pure, Except.ok.injEq]

theorem inline_binary_eq_ok_iff {op : BinaryOp} {left right : Tree} :
    env.inline (.binary op left right) = .ok t' ↔
      ∃ left' right', env.inline left = .ok left' ∧ env.inline right = .ok right' ∧
        .binary op left' right' = t' := by
  rw [inline, Except.bind_eq_ok_iff]
  simp only [Except.bind_eq_ok_iff, pure, Except.pure, Except.ok.injEq, exists_and_left]

/-- A body calls nothing once it is inlined. -/
theorem inline_expression (flat : env.Flat) (ok : t.Expression true params)
    (success : env.inline t = .ok t') : t'.Expression false params := by
  induction ok generalizing t' with
  | number text =>
    cases success
    exact .number text
  | ident name =>
    rcases inline_ident_eq_ok_iff.mp success with ⟨f, -, found, niladic, rfl⟩ | ⟨-, rfl⟩
    · have body_ok : f.body.Expression false f.params := flat name f found
      rw [niladic] at body_ok
      exact body_ok.weaken
    · exact .ident name
  | param index name named =>
    cases success
    exact .param index name named
  | assign name _ ih =>
    rw [inline] at success
    obtain ⟨value, inlined, same⟩ := Except.bind_eq_ok_iff.mp success
    cases same
    exact .assign name (ih inlined)
  | call function _ _ ih =>
    obtain ⟨f, args', found, arity, inlined, replaced⟩ := inline_call_eq_ok_iff.mp success
    have args_ok : ∀ a' ∈ args', a'.Expression false params := by
      intro a' inside
      obtain ⟨a, a_inside, a_inlined⟩ := exists_mem_of_forall₂ inlined inside
      exact ih a a_inside a_inlined
    have fits : args'.length = f.params.length := inlined.length_eq ▸ arity
    obtain ⟨result, replaced', result_ok⟩ := (flat function f found).substitute fits args_ok
    cases replaced.symm.trans replaced'
    exact result_ok
  | unary op _ ih =>
    obtain ⟨operand, inlined, rfl⟩ := inline_unary_eq_ok_iff.mp success
    exact .unary op (ih inlined)
  | binary op _ _ left_ih right_ih =>
    obtain ⟨left, right, left_inlined, right_inlined, rfl⟩ := inline_binary_eq_ok_iff.mp success
    exact .binary op (left_ih left_inlined) (right_ih right_inlined)

theorem inlineAll_congr {ts : List Tree} (all : ∀ t ∈ ts, env.inline t = other.inline t) :
    env.inlineAll ts = other.inlineAll ts := by
  induction ts with
  | nil => rfl
  | cons t rest ih =>
    rw [inlineAll, inlineAll, all t (List.mem_cons_self ..),
      ih fun u inside => all u (List.mem_cons_of_mem _ inside)]

/-- What a definition stores depends on the variables and functions that can be found. -/
theorem inline_congr (same : env.scope = other.scope) (ok : t.Expression true params) :
    env.inline t = other.inline t := by
  have vars_same : env.vars.find? = other.vars.find? := congrArg Scope.vars same
  have functions_same : env.functions.find? = other.functions.find? := congrArg Scope.functions same
  induction ok with
  | number | param => rfl
  | ident name => simp only [inline, inlineName, vars_same, functions_same]
  | assign _ _ ih | unary _ _ ih => simp only [inline, ih]
  | call _ _ _ ih => simp only [inline, functions_same, inlineAll_congr ih]
  | binary _ _ _ left right => simp only [inline, left, right]

theorem define_congr (same : env.scope = other.scope) (ok : t.Expression true params)
    (function : String) : env.define function params t = other.define function params t := by
  rw [define, define, inline_congr same ok]

theorem define_eq_ok_iff {function : String} {f : Func} :
    env.define function params t = .ok f ↔
      ∃ body, env.inline t = .ok body ∧ f = { name := function, params, body } := by
  rw [define, Except.bind_eq_ok_iff]
  simp only [pure, Except.pure, Except.ok.injEq, eq_comm]

/-- A definition keeps the functions free of calls. -/
theorem Flat.define (flat : env.Flat) (ok : t.Expression true params) {function : String} {f : Func}
    (success : env.define function params t = .ok f) : f.body.Expression false f.params := by
  obtain ⟨body, inlined, rfl⟩ := define_eq_ok_iff.mp success
  exact inline_expression flat ok inlined

end Environment

end Abacus
