import Abacus.Proofs.Dependence
import Abacus.Proofs.Functions
import Abacus.Proofs.Uniformity
import Mathlib

/-!
Substitution composes, and inlining commutes with it.

Bodies are put together by substitution alone. A function that is called through another has its body substituted into
twice: with the arguments of the inner call first, and with those of the outer call after that. Doing both at once
gives the same body, since the parameters of the inner function are gone when those of the outer one are replaced: an
argument is copied as it is, and its parameters are those of the caller.
-/

namespace Abacus

namespace ExceptRel

variable {ε ε' α α' β β' : Type} {errors : ε → ε → Prop} {values : α → α' → Prop} {values' : β → β' → Prop}

theorem bind {x : Except ε α} {x' : Except ε α'} {f : α → Except ε β} {f' : α' → Except ε β'}
    (first : ExceptRel errors values x x')
    (next : ∀ a a', x = .ok a → values a a' → ExceptRel errors values' (f a) (f' a')) :
    ExceptRel errors values' (x >>= f) (x' >>= f') := by
  cases first with
  | ok same => exact next _ _ rfl same
  | error same => exact .error same

theorem of_ok {a : α} {x' : Except ε α'} (related : ExceptRel errors values (.ok a) x') :
    ∃ a', x' = .ok a' ∧ values a a' := by
  cases related with
  | ok same => exact ⟨_, rfl, same⟩

theorem bind_eq {x x' : Except ε α} {step : α → Except ε α}
    (related : ExceptRel Eq (fun a a' => step a = .ok a') x x') : x >>= step = x' := by
  cases related with
  | ok same => exact same
  | error same => exact congrArg Except.error same

theorem mapError {x : Except ε α} {x' : Except ε α'} (related : ExceptRel Eq values x x') (f : ε → ε') :
    ExceptRel Eq values (x.mapError f) (x'.mapError f) := by
  cases related with
  | ok same => exact .ok same
  | error same => exact .error (congrArg f same)

end ExceptRel

namespace Tree

variable {t t' part : Tree} {args args' outer ts ts' : List Tree} {count : Nat}

/-- The tree with the arguments in the place of its parameters is the other one. -/
abbrev SubstitutesTo (args : List Tree) (t t' : Tree) : Prop :=
  t.substitute (some args) = .ok t'

theorem substituteAll_eq_ok_iff :
    substituteAll (some args) ts = .ok ts' ↔ List.Forall₂ (SubstitutesTo args) ts ts' :=
  Except.each_eq_ok_iff (by rw [substituteAll]) fun _ _ => by rw [substituteAll]

theorem substitute_extended_of_param {name : String} {left right : Tree} (is_param : t.isParam = true) :
    (extended t name ts left right).substitute (some args) = t.substitute (some args) := by
  rw [substitute, is_param]
  rfl

theorem substitute_extended_of_not_param {name : String} {left right : Tree} (no_param : t.isParam = false) :
    (extended t name ts left right).substitute (some args) = (do
      let ts' ← substituteAll (some args) ts
      return .extended (← t.substitute (some args)) name ts' (← left.substitute (some args))
        (← right.substitute (some args))) := by
  rw [substitute, no_param]
  rfl

/-- A node that is no parameter does not become one. -/
theorem isParam_of_substitute (no_param : t.isParam = false) (replaced : t.SubstitutesTo args t') :
    t'.isParam = false := by
  induction t using Tree.induction generalizing t' with
  | absent | number | ident =>
    cases replaced
    rfl
  | param => cases no_param
  | assign | call | define | unary =>
    rw [SubstitutesTo, substitute] at replaced
    obtain ⟨_, -, same⟩ := Except.bind_eq_ok_iff.mp replaced
    cases same
    rfl
  | binary | malformed =>
    rw [SubstitutesTo, substitute] at replaced
    obtain ⟨_, -, right_replaced⟩ := Except.bind_eq_ok_iff.mp replaced
    obtain ⟨_, -, same⟩ := Except.bind_eq_ok_iff.mp right_replaced
    cases same
    rfl
  | extended node name ts left right ih =>
    have node_none : node.isParam = false := no_param
    rw [SubstitutesTo, substitute_extended_of_not_param node_none] at replaced
    simp only [Except.bind_eq_ok_iff] at replaced
    obtain ⟨_, -, node', node_replaced, _, -, _, -, same⟩ := replaced
    cases same
    rw [isParam]
    exact ih node_none node_replaced

theorem substituteAll_composes
    (each : ∀ t ∈ ts, ExceptRel Eq (SubstitutesTo outer) (t.substitute (some args)) (t.substitute (some args'))) :
    ExceptRel Eq (List.Forall₂ (SubstitutesTo outer)) (substituteAll (some args) ts)
      (substituteAll (some args') ts) := by
  induction ts with
  | nil => exact .ok .nil
  | cons t rest ih =>
    obtain ⟨first, others⟩ := List.forall_mem_cons.mp each
    rw [substituteAll, substituteAll]
    refine first.bind fun u u' _ replaced => ?_
    exact (ih others).bind fun us us' _ all => .ok (.cons replaced all)

/-- Substituting into a tree and then into the result is substituting into the arguments and then, once, into the
tree. Where the one fails, the other does. -/
theorem substitute_composes (composed : List.Forall₂ (SubstitutesTo outer) args args') (t : Tree) :
    ExceptRel Eq (SubstitutesTo outer) (t.substitute (some args)) (t.substitute (some args')) := by
  induction t using Tree.induction with
  | absent | number | ident => exact .ok rfl
  | param index name => exact argument_rel composed index
  | assign _ _ ih | define _ _ _ ih | unary _ _ ih =>
    rw [substitute, substitute]
    refine ih.bind fun u u' _ replaced => .ok ?_
    rw [SubstitutesTo, substitute, replaced]
    rfl
  | call function ts ih =>
    rw [substitute, substitute]
    refine (substituteAll_composes ih).bind fun us us' _ all => .ok ?_
    rw [SubstitutesTo, substitute, substituteAll_eq_ok_iff.mpr all]
    rfl
  | binary _ _ _ left_ih right_ih | malformed _ _ _ left_ih right_ih =>
    rw [substitute, substitute]
    refine left_ih.bind fun l l' _ left_replaced => ?_
    refine right_ih.bind fun r r' _ right_replaced => .ok ?_
    rw [SubstitutesTo, substitute, left_replaced, right_replaced]
    rfl
  | extended node name ts left right ih ts_ih left_ih right_ih =>
    cases is_param : node.isParam with
    | true =>
      rw [substitute_extended_of_param is_param, substitute_extended_of_param is_param]
      exact ih
    | false =>
      rw [substitute_extended_of_not_param is_param, substitute_extended_of_not_param is_param]
      refine (substituteAll_composes ts_ih).bind fun us us' _ all => ?_
      refine ih.bind fun n n' node_replaced replaced => ?_
      refine left_ih.bind fun l l' _ left_replaced => ?_
      refine right_ih.bind fun r r' _ right_replaced => .ok ?_
      -- What stands for the node is no parameter either, so the second substitution keeps the other parts too.
      have still_none := isParam_of_substitute is_param node_replaced
      rw [SubstitutesTo, substitute_extended_of_not_param still_none, substituteAll_eq_ok_iff.mpr all, replaced,
        left_replaced, right_replaced]
      rfl

/-- Every parameter in the tree has one of the first `count` positions. -/
def ParamsBelow (count : Nat) (t : Tree) : Prop :=
  ∀ (index : Int) name, .param index name ∈ t.nodes → 0 ≤ index ∧ index < count

theorem ParamsBelow.mono (below : t.ParamsBelow count) (sub : part.nodes ⊆ t.nodes) : part.ParamsBelow count :=
  fun index name node => below index name (sub node)

theorem nodes_of_extended (node : Tree) (name : String) (args : List Tree) (left right : Tree) :
    node.nodes ⊆ (extended node name args left right).nodes ∧
      nodesOfAll args ⊆ (extended node name args left right).nodes ∧
      left.nodes ⊆ (extended node name args left right).nodes ∧
      right.nodes ⊆ (extended node name args left right).nodes := by
  refine ⟨?_, ?_, ?_, ?_⟩ <;>
    intro part inside <;>
    simp [nodes, inside]

theorem exists_argument {α : Type} {args : List α} {index : Int} (natural : 0 ≤ index)
    (inside : index < args.length) : ∃ a, argument args index = .ok a := by
  lift index to Nat using natural
  have below : index < args.length := by omega
  exact ⟨args[index], argument_eq_ok_iff.mpr (List.getElem?_eq_getElem below)⟩

theorem exists_substituteAll (each : ∀ t ∈ ts, ∃ t', t.SubstitutesTo args t') :
    ∃ ts', substituteAll (some args) ts = .ok ts' := by
  induction ts with
  | nil => exact ⟨[], rfl⟩
  | cons t rest ih =>
    obtain ⟨⟨t', replaced⟩, others⟩ := List.forall_mem_cons.mp each
    obtain ⟨rest', all⟩ := ih others
    exact ⟨t' :: rest', substituteAll_eq_ok_iff.mpr (.cons replaced (substituteAll_eq_ok_iff.mp all))⟩

/-- Substitution succeeds where every parameter has an argument. -/
theorem ParamsBelow.exists_substitute (below : t.ParamsBelow args.length) : ∃ t', t.SubstitutesTo args t' := by
  induction t using Tree.induction with
  | absent | number | ident => exact ⟨_, rfl⟩
  | param index name =>
    obtain ⟨natural, inside⟩ := below index name (List.mem_singleton_self _)
    exact exists_argument natural inside
  | assign _ _ ih | define _ _ _ ih | unary _ _ ih =>
    obtain ⟨u, replaced⟩ := ih (below.mono (List.subset_cons_self _ _))
    exact ⟨_, by rw [SubstitutesTo, substitute, replaced]; rfl⟩
  | call function ts ih =>
    obtain ⟨us, all⟩ := exists_substituteAll fun a inside => ih a inside (below.mono (nodes_arg function inside))
    exact ⟨_, by rw [SubstitutesTo, substitute, all]; rfl⟩
  | binary _ _ _ left_ih right_ih | malformed _ _ _ left_ih right_ih =>
    obtain ⟨l, left_replaced⟩ := left_ih (below.mono (by simp [nodes]))
    obtain ⟨r, right_replaced⟩ := right_ih (below.mono (by simp [nodes]))
    exact ⟨_, by rw [SubstitutesTo, substitute, left_replaced, right_replaced]; rfl⟩
  | extended node name ts left right ih ts_ih left_ih right_ih =>
    obtain ⟨node_sub, ts_sub, left_sub, right_sub⟩ := nodes_of_extended node name ts left right
    obtain ⟨n, replaced⟩ := ih (below.mono node_sub)
    cases is_param : node.isParam with
    | true => exact ⟨n, by rw [SubstitutesTo, substitute_extended_of_param is_param, replaced]⟩
    | false =>
      obtain ⟨us, all⟩ := exists_substituteAll fun a inside =>
        ts_ih a inside (below.mono fun _ node => ts_sub (nodes_subset_nodesOfAll inside node))
      obtain ⟨l, left_replaced⟩ := left_ih (below.mono left_sub)
      obtain ⟨r, right_replaced⟩ := right_ih (below.mono right_sub)
      refine ⟨.extended n name us l r, ?_⟩
      rw [SubstitutesTo, substitute_extended_of_not_param is_param, all, replaced, left_replaced, right_replaced]
      rfl

end Tree

namespace Environment

variable {env : Environment} {t : Tree} {params : List String} {given outer ts : List Tree}

/-- Inlining the arguments of a call, before and after they are substituted into. -/
theorem inlineAll_substitute
    (each : ∀ t ∈ ts, ∃ s, t.SubstitutesTo given s ∧
      ExceptRel Eq (Tree.SubstitutesTo outer) (env.inline t) (env.inline s)) :
    ∃ ss, List.Forall₂ (Tree.SubstitutesTo given) ts ss ∧
      ExceptRel Eq (List.Forall₂ (Tree.SubstitutesTo outer)) (env.inlineAll ts) (env.inlineAll ss) := by
  induction ts with
  | nil => exact ⟨[], .nil, .ok .nil⟩
  | cons t rest ih =>
    obtain ⟨⟨s, replaced, first⟩, others⟩ := List.forall_mem_cons.mp each
    obtain ⟨ss, all, related⟩ := ih others
    refine ⟨s :: ss, .cons replaced all, ?_⟩
    rw [inlineAll, inlineAll]
    refine first.bind fun u u' _ u_replaced => ?_
    exact related.bind fun us us' _ us_replaced => .ok (.cons u_replaced us_replaced)

/-- Inlining commutes with substitution: a tree whose parameters are replaced by arguments is inlined to the inlined
tree with the inlined arguments, and fails where the tree does. -/
theorem inline_substitute (flat : env.Flat) (ok : t.Expression true params) (fits : given.length = params.length)
    (inlined : List.Forall₂ (fun a a' => env.inline a = .ok a') given outer) :
    ∃ s, t.SubstitutesTo given s ∧ ExceptRel Eq (Tree.SubstitutesTo outer) (env.inline t) (env.inline s) := by
  induction ok with
  | number text => exact ⟨_, rfl, .ok rfl⟩
  | ident name =>
    refine ⟨_, rfl, ?_⟩
    cases result : env.inline (.ident name) with
    | error e => exact .error rfl
    | ok t' =>
      -- The body of a function without parameters has nothing to replace.
      rcases inline_ident_eq_ok_iff.mp result with ⟨f, -, found, niladic, rfl⟩ | ⟨-, rfl⟩
      · have body_ok : f.body.Expression false f.params := flat name f found
        rw [niladic] at body_ok
        exact .ok (body_ok.substitute_self (some outer))
      · exact .ok rfl
  | param index name named =>
    have below : index < given.length := by
      rw [fits]
      exact (List.getElem?_eq_some_iff.mp named).1
    have found : given[index]? = some given[index] := List.getElem?_eq_getElem below
    obtain ⟨a', found', a_inlined⟩ := exists_getElem?_of_forall₂ inlined found
    refine ⟨given[index], Tree.argument_eq_ok_iff.mpr found, ?_⟩
    rw [inline, a_inlined]
    exact .ok (Tree.argument_eq_ok_iff.mpr found')
  | assign name _ ih =>
    obtain ⟨s, replaced, related⟩ := ih
    refine ⟨.assign name s, by rw [Tree.SubstitutesTo, Tree.substitute, replaced]; rfl, ?_⟩
    rw [inline, inline]
    refine related.bind fun u u' _ u_replaced => .ok ?_
    rw [Tree.SubstitutesTo, Tree.substitute, u_replaced]
    rfl
  | @call function args _ _ ih =>
    obtain ⟨ss, all, related⟩ := inlineAll_substitute ih
    refine ⟨.call function ss, ?_, ?_⟩
    · rw [Tree.SubstitutesTo, Tree.substitute, Tree.substituteAll_eq_ok_iff.mpr all]
      rfl
    · rw [inline, inline, all.length_eq]
      cases env.functions.find? function with
      | none => exact .error rfl
      | some f =>
        dsimp only
        split
        · exact related.bind fun us us' _ composed => (Tree.substitute_composes composed f.body).mapError Stop.fault
        · exact .error rfl
  | unary op _ ih =>
    obtain ⟨s, replaced, related⟩ := ih
    refine ⟨.unary op s, Tree.substitute_unary_eq_ok_iff.mpr ⟨s, replaced, rfl⟩, ?_⟩
    rw [inline, inline]
    exact related.bind fun u u' _ u_replaced =>
      .ok (Tree.substitute_unary_eq_ok_iff.mpr ⟨u', u_replaced, rfl⟩)
  | binary op _ _ left_ih right_ih =>
    obtain ⟨l, left_replaced, left_related⟩ := left_ih
    obtain ⟨r, right_replaced, right_related⟩ := right_ih
    refine ⟨.binary op l r, Tree.substitute_binary_eq_ok_iff.mpr ⟨l, r, left_replaced, right_replaced, rfl⟩, ?_⟩
    rw [inline, inline]
    refine left_related.bind fun u u' _ u_replaced => ?_
    exact right_related.bind fun v v' _ v_replaced =>
      .ok (Tree.substitute_binary_eq_ok_iff.mpr ⟨u', v', u_replaced, v_replaced, rfl⟩)

/-- Substitution composes. Without arguments it changes nothing, and a parameter becomes its argument as that is.
Substituting into a tree and then into the result is substituting into the arguments and then once into the tree, and
it succeeds if every parameter has an argument. So a call of a function whose body came about by substitution is
inlined as if the two substitutions were one; and a call of a function that was defined by a line, whatever that line
calls, is inlined as the body in the line is with the arguments of the call in it. -/
theorem substitution_composes (b : Tree) (args outer : List Tree) :
    b.substitute none = .ok b ∧
    (∀ (index : Nat) name a, args[index]? = some a → (Tree.param index name).substitute (some args) = .ok a) ∧
    (∀ args', List.Forall₂ (Tree.SubstitutesTo outer) args args' →
      b.substitute (some args) >>= Tree.substitute (some outer) = b.substitute (some args')) ∧
    (b.ParamsBelow args.length → (∀ a ∈ args, a.ParamsBelow outer.length) →
      ∃ args' inner composed, List.Forall₂ (Tree.SubstitutesTo outer) args args' ∧
        b.substitute (some args) = .ok inner ∧ inner.substitute (some outer) = .ok composed ∧
        b.substitute (some args') = .ok composed ∧
        ∀ (env : Environment) function f given, env.functions.find? function = some f → f.body = inner →
          given.length = f.params.length → List.Forall₂ (fun a a' => env.inline a = .ok a') given outer →
          env.inline (.call function given) = .ok composed) ∧
    ∀ policy env (other : Environment) source text line function params body f given, Reachable policy env →
      Parser.parse source text = .ok line → line.tree = .define function params body →
      env.define function params body = .ok f → other.functions.find? function = some f →
      given.length = params.length →
      List.Forall₂ (fun a a' => env.inline a = .ok a' ∧ other.inline a = .ok a') given outer →
      ∃ s composed, body.substitute (some given) = .ok s ∧ env.inline s = .ok composed ∧
        other.inline (.call function given) = .ok composed := by
  refine ⟨Tree.substitute_none b, fun _ _ _ found => Tree.argument_eq_ok_iff.mpr found,
    fun args' composed => (Tree.substitute_composes composed b).bind_eq, ?_, ?_⟩
  · intro below args_below
    obtain ⟨args', all⟩ := Tree.exists_substituteAll fun a inside => (args_below a inside).exists_substitute
    have composed := Tree.substituteAll_eq_ok_iff.mp all
    have law := (Tree.substitute_composes composed b).bind_eq
    obtain ⟨inner, replaced⟩ := below.exists_substitute
    rw [composed.length_eq] at below
    obtain ⟨result, once⟩ := below.exists_substitute
    rw [replaced, once] at law
    refine ⟨args', inner, result, composed, replaced, law, once, ?_⟩
    rintro env function f given found rfl arity inlined
    exact inline_call_eq_ok_iff.mpr ⟨f, outer, found, arity, inlined, law⟩
  · intro policy env other source text line function params body f given reachable read tree defined stored arity
      inlined
    obtain ⟨-, body_ok, -⟩ := Parser.definition_of_parse read tree
    obtain ⟨body', body_inlined, rfl⟩ := define_eq_ok_iff.mp defined
    have here := inlined.imp fun _ _ both => both.1
    have there := inlined.imp fun _ _ both => both.2
    obtain ⟨s, replaced, related⟩ := inline_substitute reachable.closed.flat body_ok arity here
    rw [body_inlined] at related
    obtain ⟨result, s_inlined, body_replaced⟩ := related.of_ok
    refine ⟨s, result, replaced, s_inlined, ?_⟩
    exact inline_call_eq_ok_iff.mpr ⟨_, outer, stored, arity, there, body_replaced⟩

/-- A product reaches a square by way of a function that adds one to it. -/
theorem substitution_composes_square :
    ∃ env other line f g, Reachable .rising env ∧ env.functions.find? "f" = some f ∧
      Parser.parse {} "g x=>f(x+1)2".toList = .ok line ∧ env.evaluate line = (.ok .defined, other) ∧
      other.functions.find? "g" = some g ∧ f.body.ParamsBelow 2 ∧
      f.body.substitute (some [.binary .add (.param 0 "x") (.number "1"), .number "2"]) = .ok g.body ∧
      ∃ composed,
        f.body.substitute (some [.binary .add (.binary .mul (.param 1 "d") (.ident "k")) (.number "1"),
          .number "2"]) = .ok composed ∧
        g.body.substitute (some [.binary .mul (.param 1 "d") (.ident "k")]) = .ok composed ∧
        other.inline (.call "g" [.binary .mul (.param 1 "d") (.ident "k")]) = .ok composed ∧
        env.inline (.call "f" [.binary .add (.binary .mul (.param 1 "d") (.ident "k")) (.number "1"),
          .number "2"]) = .ok composed := by
  let f : Func := { name := "f", params := ["a", "b"],
                    body := .binary .sub (.binary .mul (.param 0 "a") (.param 0 "a")) (.param 1 "b") }
  let successor : Tree := .binary .add (.param 0 "x") (.number "1")
  let g : Func := { name := "g", params := ["x"],
                    body := .binary .sub (.binary .mul successor successor) (.number "2") }
  let product : Tree := .binary .mul (.param 1 "d") (.ident "k")
  have read_f : (blank 8).exec (Text.ofString "f a b=>a*a-b") =
      (.ok .defined, (blank 8).withFunction "f" f) := by
    cbv
  have reachable := (reachable_blank (Nat.succ_pos 7)).exec_ok (congrArg Prod.fst read_f)
  rw [read_f] at reachable
  have read_g : Parser.parse {} "g x=>f(x+1)2".toList =
      .ok { tree := .define "g" ["x"] (.call "f" [successor, .number "2"]), vars := [] } := by
    cbv
  have defined : ((blank 8).withFunction "f" f).define "g" ["x"] (.call "f" [successor, .number "2"]) = .ok g := by
    cbv
  let env := (blank 8).withFunction "f" f
  let other := env.withFunction "g" g
  have evaluated : env.evaluate { tree := .define "g" ["x"] (.call "f" [successor, .number "2"]), vars := [] } =
      (.ok .defined, other) := by
    rw [evaluate_definition reachable.ready.idle rfl, defined]
  have stored : other.functions.find? "g" = some g := by cbv
  have f_below : f.body.ParamsBelow 2 := by
    intro index name inside
    simp only [f, Tree.nodes, List.mem_cons, List.mem_append, List.not_mem_nil, reduceCtorEq, Tree.param.injEq,
      false_or, or_false] at inside
    omega
  have args_below : ∀ a ∈ [successor, .number "2"], a.ParamsBelow 1 := by
    intro a a_inside index name inside
    rcases List.mem_pair.mp a_inside with rfl | rfl
    · simp only [successor, Tree.nodes, List.mem_cons, List.mem_append, List.not_mem_nil, reduceCtorEq,
        Tree.param.injEq, false_or, or_false] at inside
      omega
    · simp [Tree.nodes] at inside
  have product_inlined : env.inline product = .ok product ∧ other.inline product = .ok product :=
    ⟨by cbv, by cbv⟩
  obtain ⟨-, -, -, composes, through⟩ := substitution_composes f.body [successor, .number "2"] [product]
  obtain ⟨args', inner, composed, args_replaced, replaced, again, once, inlined⟩ := composes f_below args_below
  have body_g : f.body.substitute (some [successor, .number "2"]) = .ok g.body := by cbv
  have inner_eq : g.body = inner := Except.ok.inj (body_g.symm.trans replaced)
  have args_composed : Tree.substituteAll (some [product]) [successor, .number "2"] =
      .ok [.binary .add product (.number "1"), .number "2"] := by
    cbv
  have args_eq : [.binary .add product (.number "1"), .number "2"] = args' :=
    Except.ok.inj (args_composed.symm.trans (Tree.substituteAll_eq_ok_iff.mpr args_replaced))
  have called := inlined other "g" g [product] stored inner_eq rfl (.cons product_inlined.2 .nil)
  obtain ⟨s, composed', s_replaced, s_inlined, called'⟩ := through .rising env other _ _ _ "g" _ _ g [product]
    reachable read_g rfl defined stored rfl (.cons product_inlined .nil)
  have call_composed : (Tree.call "f" [successor, .number "2"]).substitute (some [product]) =
      .ok (.call "f" [.binary .add product (.number "1"), .number "2"]) := by
    cbv
  have s_eq : .call "f" [.binary .add product (.number "1"), .number "2"] = s :=
    Except.ok.inj (call_composed.symm.trans s_replaced)
  subst inner_eq args_eq s_eq
  rw [called] at called'
  cases called'
  exact ⟨env, other, _, f, g, reachable, by cbv, read_g, evaluated, stored, f_below, body_g, composed, once, again,
    called, s_inlined⟩

end Environment

end Abacus
