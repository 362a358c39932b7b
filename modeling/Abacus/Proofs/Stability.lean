import Abacus.Proofs.Erasure
import Abacus.Proofs.Inlining
import Mathlib

/-!
A function means the same whatever is defined after it.

Its body calls nothing, so of all that later lines can change it depends only on the variables that it names. A name
in it never becomes a call, even if a function of that name is defined later.
-/

namespace Abacus

namespace Meaning

variable {s s' : Scope} {nesting depth : Nat} {frame : List Number} {w : Writes}

/-- The values of numbers depend on the precision alone. -/
theorem values_numbers_congr (prec_same : s.prec = s'.prec) (texts : List String) :
    values s nesting depth frame (texts.map .number) w =
      values s' nesting depth frame (texts.map .number) w := by
  induction texts generalizing w with
  | nil => rw [List.map_nil, values, values]
  | cons text rest ih =>
    rw [List.map_cons, values, values]
    refine bind_congr ?_ fun x w' _ => bind_congr ih fun _ _ _ => rfl
    rw [value_number, value_number, prec_same]

/-- A call with numbers for arguments means the same in scopes that agree on the precision, on the function and
on the variables that its body names. -/
theorem value_call_congr {function : String} {f : Func} (prec_same : s.prec = s'.prec)
    (found : s.functions function = some f) (found' : s'.functions function = some f)
    (body_ok : f.body.Expression false f.params)
    (vars_same : ∀ name ∈ f.vars, s.vars name = s'.vars name) (texts : List String) :
    value s (nesting + 1) depth frame (.call function (texts.map .number)) w =
      value s' (nesting + 1) depth frame (.call function (texts.map .number)) w := by
  have names_same : ∀ name ∈ f.body.names, s.vars name = s'.vars name :=
    fun name inside => vars_same name (Tree.mem_vars_iff.mpr inside)
  rw [value, value, found, found']
  dsimp only
  rw [call, call]
  by_cases arity : (texts.map Tree.number).length = f.params.length
  · rw [if_pos arity, if_pos arity]
    refine bind_congr (values_numbers_congr prec_same texts) fun xs w' _ => ?_
    exact value_deep_congr prec_same body_ok names_same
  · rw [if_neg arity, if_neg arity]

end Meaning

namespace Environment

variable {env other : Environment} {text : Text} {line : Line} {function : String} {names : List String}
  {f : Func}

/-- The line succeeds and defines the function. -/
def Defines (env : Environment) (text : Text) (function : String) : Prop :=
  ∃ line params body, Parser.parseText text = .ok line ∧ line.tree = .define function params body ∧
    (env.exec text).1 = .ok .defined

/-- The line succeeds and assigns the variable, itself or in a function that it calls. -/
def Assigns (env : Environment) (text : Text) (name : String) : Prop :=
  ∃ line m, Parser.parseText text = .ok line ∧ line.isDefinition = false ∧
    Evaluation.evalLine env line.tree env.machine = .ok () m ∧ (m.writes.find? name).isSome = true

/-- The line returns, and neither defines the function nor assigns one of the variables. -/
structure Spares (function : String) (names : List String) (env : Environment) (text : Text) : Prop where
  returns : ∀ f, (env.exec text).1 ≠ .error (.fault f)
  not_defines : ¬env.Defines text function
  not_assigns : ∀ name ∈ names, ¬env.Assigns text name

/-- None of the lines, carried out one after the other, defines the function or assigns one of the variables. -/
def SparesAll (function : String) (names : List String) : Environment → List Text → Prop
  | _, [] => True
  | env, text :: rest => Spares function names env text ∧ SparesAll function names (env.exec text).2 rest

/-- The environments agree on the precision, on the function and on the variables. -/
structure AgreeOn (function : String) (names : List String) (env other : Environment) : Prop where
  prec : env.prec = other.prec
  functions : env.functions.find? function = other.functions.find? function
  vars : ∀ name ∈ names, env.vars.find? name = other.vars.find? name

theorem AgreeOn.refl (env : Environment) : AgreeOn function names env env :=
  ⟨rfl, rfl, fun _ _ => rfl⟩

theorem AgreeOn.trans {last : Environment} (first : AgreeOn function names env other)
    (second : AgreeOn function names other last) : AgreeOn function names env last :=
  ⟨first.prec.trans second.prec, first.functions.trans second.functions,
    fun name inside => (first.vars name inside).trans (second.vars name inside)⟩

/-- What an expression leaves behind agrees on the variables that it does not assign. -/
theorem Ready.evaluate_expression_agrees (ready : env.Ready) (ok : line.tree.Expression true [])
    (unassigned : ∀ m, Evaluation.evalLine env line.tree env.machine = .ok () m →
      ∀ name ∈ names, m.writes.find? name = none) :
    AgreeOn function names env (env.evaluate line).2 := by
  have answers := ready.answers ok 0
  rw [evaluate_expression ready.idle ok]
  generalize Meaning.value env.scope 1 0 [] line.tree .none = meant at answers
  generalize Evaluation.evalLine env line.tree env.machine = result at answers unassigned
  cases answers with
  | @ok m x w tidy live writes =>
    dsimp only
    rw [commit, live]
    refine ⟨rfl, rfl, fun name inside => ?_⟩
    change _ = (env.vars.overriddenBy m.writes).find? name
    rw [Bindings.find?_overriddenBy env.vars, unassigned m rfl name inside, Option.none_or]
  | @error m stop tidy => cases stop <;> exact ⟨rfl, rfl, fun _ _ => rfl⟩

theorem Ready.evaluate_definition_agrees (ready : env.Ready) {defined : String} {params : List String}
    {body : Tree} (tree : line.tree = .define defined params body)
    (other_name : (env.evaluate line).1 = .ok .defined → function ≠ defined) :
    AgreeOn function names env (env.evaluate line).2 := by
  rw [evaluate_definition ready.idle tree] at other_name ⊢
  cases stored : env.define defined params body with
  | error stop => exact .refl env
  | ok f =>
    rw [stored] at other_name
    exact ⟨rfl, (Bindings.find?_insert_of_ne env.functions f (other_name rfl)).symm, fun _ _ => rfl⟩

/-- One line that spares a function and its variables leaves them as they were. -/
theorem Ready.exec_agrees (ready : env.Ready) (spares : Spares function names env text) :
    (env.exec text).2.Ready ∧ AgreeOn function names env (env.exec text).2 := by
  obtain ⟨returns, not_defines, not_assigns⟩ := spares
  cases read : Parser.parseText text with
  | error e =>
    rw [exec_of_error read]
    exact ⟨ready, .refl env⟩
  | ok line =>
    have parsed := Parser.parse_of_parseText read
    have of_line := Parser.ofLine_of_parse parsed
    rw [exec_of_read read] at returns ⊢
    have still_ready : (env.evaluate line).2.Ready :=
      (ready.evaluate of_line).2.1 fun f fails => returns f (by rw [fails]; rfl)
    refine ⟨still_ready, ?_⟩
    generalize tree : line.tree = t at of_line
    cases of_line with
    | expression ok =>
      subst tree
      refine ready.evaluate_expression_agrees ok fun m evaluated name inside => ?_
      by_contra assigned
      refine not_assigns name inside ⟨line, m, read, ?_, evaluated, Option.isSome_iff_ne_none.mpr assigned⟩
      generalize tree : line.tree = t at ok
      rw [Line.isDefinition, tree]
      cases ok <;> rfl
    | definition defined _ _ =>
      refine ready.evaluate_definition_agrees tree fun succeeded same => ?_
      refine not_defines ⟨line, _, _, read, same ▸ tree, ?_⟩
      rw [exec_of_read read, succeeded]
      rfl

/-- Lines that spare a function and its variables leave them as they were. -/
theorem Ready.run_agrees (ready : env.Ready) {lines : List Text}
    (spares : SparesAll function names env lines) :
    (env.run lines).2.Ready ∧ AgreeOn function names env (env.run lines).2 := by
  induction lines generalizing env with
  | nil => exact ⟨ready, .refl env⟩
  | cons text rest ih =>
    obtain ⟨next_ready, agrees⟩ := ready.exec_agrees spares.1
    obtain ⟨last_ready, agrees_after⟩ := ih next_ready spares.2
    exact ⟨last_ready, agrees.trans agrees_after⟩

theorem Yields.result {outcome : Except Stop (Number × Writes)} {result : Except Stop Result × Environment}
    (yields : env.Yields outcome result) : result.1 = outcome.map fun meant => .value meant.1 := by
  cases yields <;> rfl

/-- A call with numbers for arguments gives the same where the function and its variables are the same. -/
theorem Ready.exec_call (ready : env.Ready) (other_ready : other.Ready)
    (found : env.functions.find? function = some f) (agrees : AgreeOn function f.vars env other)
    {texts : List String} (read : Parser.parseText text = .ok line)
    (tree : line.tree = .call function (texts.map .number)) :
    (other.exec text).1 = (env.exec text).1 := by
  have ok : line.tree.Expression true [] := by
    rw [tree]
    refine .call function rfl fun a inside => ?_
    obtain ⟨number, -, rfl⟩ := List.mem_map.mp inside
    exact .number number
  obtain ⟨outcome, meant, yields⟩ := ready.yields ok
  obtain ⟨outcome', meant', yields'⟩ := other_ready.yields ok
  have same : Meaning.value env.scope 1 0 [] line.tree .none =
      Meaning.value other.scope 1 0 [] line.tree .none := by
    rw [tree]
    exact Meaning.value_call_congr agrees.prec found (agrees.functions.symm.trans found)
      (ready.flat function f found) agrees.vars texts
  cases (meant 0).symm.trans (same.trans (meant' 0))
  rw [exec_of_read read, exec_of_read read, yields.result, yields'.result]

/-- Redefinitions never change functions that were defined before. A call with numbers for arguments gives the same
result or the same error before and after any lines that return, as long as none of them defines that function or
assigns a variable that its body names, whatever else they define, redefine or fail to define. -/
theorem call_after_redefinitions (reachable : Reachable .rising env)
    (found : env.functions.find? function = some f) {lines : List Text}
    (spares : SparesAll function f.vars env lines) {texts : List String}
    (read : Parser.parseText text = .ok line)
    (tree : line.tree = .call function (texts.map .number)) :
    ((env.run lines).2.exec text).1 = (env.exec text).1 := by
  obtain ⟨last_ready, agrees⟩ := reachable.ready.run_agrees spares
  exact reachable.ready.exec_call last_ready found agrees read tree

/-- The definition of another function spares a function. -/
theorem spares_definition {defined : String} {params : List String} {body : Tree}
    (read : Parser.parseText text = .ok line) (tree : line.tree = .define defined params body)
    (other_name : function ≠ defined) (returns : ∀ f, (env.exec text).1 ≠ .error (.fault f)) :
    Spares function names env text := by
  refine ⟨returns, ?_, fun name _ => ?_⟩
  · rintro ⟨line', params', body', read', tree', -⟩
    cases read.symm.trans read'
    cases tree.symm.trans tree'
    exact other_name rfl
  · rintro ⟨line', m, read', expression, -⟩
    cases read.symm.trans read'
    rw [Line.isDefinition, tree] at expression
    cases expression

/-- The function that `g` calls is defined anew, the name of its variable becomes that of a function, and a
definition fails. The variable stays undefined. -/
theorem call_after_redefinitions_shadowed :
    ∃ env g, Reachable .rising env ∧ env.functions.find? "g" = some g ∧ g.vars = ["y"] ∧
      SparesAll "g" g.vars env (["f a=>a", "y=>5", "f a=>k a"].map Text.ofString) ∧
      ((env.run (["f a=>a", "y=>5", "f a=>k a"].map Text.ofString)).2.exec (Text.ofString "g 3")).1 =
        .error (.evaluation (.undefinedVariable "y")) := by
  let f : Func := { name := "f", params := ["a"], body := .unary .neg (.param 0 "a") }
  let g : Func := { name := "g", params := ["a"], body := .binary .add f.body (.ident "y") }
  have define_f : (blank 8).exec (Text.ofString "f a=>-a") = (.ok .defined, (blank 8).withFunction "f" f) := by
    cbv
  have define_g : ((blank 8).withFunction "f" f).exec (Text.ofString "g a=>f a+y") =
      (.ok .defined, ((blank 8).withFunction "f" f).withFunction "g" g) := by
    cbv
  have first := (reachable_blank (Nat.succ_pos 7)).exec_ok (congrArg Prod.fst define_f)
  rw [define_f] at first
  have reachable := first.exec_ok (congrArg Prod.fst define_g)
  rw [define_g] at reachable
  generalize same : withFunction _ "g" g = env at reachable
  have found : env.functions.find? "g" = some g := by
    subst same
    cbv
  have read_call : Parser.parseText (Text.ofString "g 3") =
      .ok { tree := .call "g" [.number "3"], vars := [] } := by
    cbv
  have called : (env.exec (Text.ofString "g 3")).1 = .error (.evaluation (.undefinedVariable "y")) := by
    subst same
    cbv
  have read_f : Parser.parseText (Text.ofString "f a=>a") =
      .ok { tree := .define "f" ["a"] (.param 0 "a"), vars := [] } := by
    cbv
  have read_y : Parser.parseText (Text.ofString "y=>5") =
      .ok { tree := .define "y" [] (.number "5"), vars := [] } := by
    cbv
  have read_k : Parser.parseText (Text.ofString "f a=>k a") =
      .ok { tree := .define "f" ["a"] (.call "k" [.param 0 "a"]), vars := [] } := by
    cbv
  have spares : SparesAll "g" ["y"] env (["f a=>a", "y=>5", "f a=>k a"].map Text.ofString) := by
    refine ⟨spares_definition read_f rfl (by decide) ?_, spares_definition read_y rfl (by decide) ?_,
      spares_definition read_k rfl (by decide) ?_, trivial⟩
    · rw [show (env.exec (Text.ofString "f a=>a")).1 = .ok .defined by subst same; cbv]
      rintro f ⟨⟩
    · rw [show ((env.exec (Text.ofString "f a=>a")).2.exec (Text.ofString "y=>5")).1 = .ok .defined by
        subst same; cbv]
      rintro f ⟨⟩
    · rw [show (((env.exec (Text.ofString "f a=>a")).2.exec (Text.ofString "y=>5")).2.exec
        (Text.ofString "f a=>k a")).1 = .error (.evaluation (.undefinedFunction "k")) by subst same; cbv]
      rintro f ⟨⟩
  have vars : g.vars = ["y"] := by cbv
  have tree : Tree.call "g" [.number "3"] = .call "g" (["3"].map .number) := rfl
  exact ⟨env, g, reachable, found, vars, vars ▸ spares,
    (call_after_redefinitions reachable found (vars ▸ spares) read_call tree).trans called⟩

end Environment

end Abacus
