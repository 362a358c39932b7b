import Abacus.Proofs.Uniformity
import Mathlib

/-!
What a line changes.

An expression that succeeds has evaluated all its parts, so it has carried out every assignment in it. Besides these it
has carried out those in the bodies of the functions that it called, and no others. A definition changes nothing but
the function that it defines.
-/

namespace Abacus

open Environment (numberPrec keep)

/-- The variable is assigned somewhere in the tree. -/
def Tree.Targets (t : Tree) (name : String) : Prop :=
  ∃ value, .assign name value ∈ t.nodes

theorem Tree.Targets.mono {t part : Tree} {name : String} (targets : part.Targets name)
    (sub : part.nodes ⊆ t.nodes) : t.Targets name := by
  obtain ⟨value, inside⟩ := targets
  exact ⟨value, sub inside⟩

variable {env : Environment} {must must' must'' may : String → Prop}

/-- What was assigned from one machine to the next: all variables in `must`, and none that is not in `may`. -/
structure Machine.Wrote (must may : String → Prop) (m m' : Machine) : Prop where
  bound : ∀ name, must name ∨ (m.writes.find? name).isSome = true → (m'.writes.find? name).isSome = true
  only : ∀ name, m'.writes.find? name = m.writes.find? name ∨ may name

/-- Nothing has to be assigned. -/
abbrev nothing : String → Prop :=
  fun _ => False

/-- A step that assigns so much where it succeeds. -/
def Evaluation.Effect {α : Type} (must may : String → Prop) (x : Evaluation α) : Prop :=
  ∀ m a m', x m = .ok a m' → m.Wrote must may m'

namespace Evaluation

variable {α β : Type} {x : Evaluation α} {k : α → Evaluation β} {m m' : Machine}
  {call : Option (Func → List Number → Evaluation Unit)} {frame : List Number} {t : Tree} {params : List String}

theorem bind_eq_ok {b : β} (success : (x >>= k) m = .ok b m') :
    ∃ a m₁, x m = .ok a m₁ ∧ k a m₁ = .ok b m' := by
  cases first : x m with
  | ok a m₁ =>
    rw [bind_ok first] at success
    exact ⟨a, m₁, rfl, success⟩
  | error stop m₁ =>
    rw [bind_error first] at success
    cases success

theorem Effect.bind (first : Effect must may x) (next : ∀ a, Effect must' may (k a))
    (split : ∀ name, must'' name → must name ∨ must' name) : Effect must'' may (x >>= k) := by
  intro m b m' success
  obtain ⟨a, m₁, ran, success⟩ := bind_eq_ok success
  have before := first m a m₁ ran
  have after := next a m₁ b m' success
  refine ⟨fun name written => after.bound name ?_, fun name => ?_⟩
  · rcases written with due | earlier
    · rcases split name due with due | due
      · exact .inr (before.bound name (.inl due))
      · exact .inl due
    · exact .inr (before.bound name (.inr earlier))
  · rcases after.only name with same | allowed
    · rw [same]
      exact before.only name
    · exact .inr allowed

/-- What comes after a step that has nothing to assign. -/
theorem Effect.andThen (first : Effect nothing may x) (next : ∀ a, Effect must may (k a)) :
    Effect must may (x >>= k) :=
  first.bind next fun _ => .inr

/-- What comes before a step that has nothing to assign. -/
theorem Effect.followedBy (first : Effect must may x) (next : ∀ a, Effect nothing may (k a)) :
    Effect must may (x >>= k) :=
  first.bind next fun _ => .inl

theorem Effect.mono {may' : String → Prop} (effect : Effect must may x) (fewer : ∀ name, must' name → must name)
    (more : ∀ name, may name → may' name) : Effect must' may' x := by
  intro m a m' success
  have wrote := effect m a m' success
  exact ⟨fun name written => wrote.bound name (written.imp_left (fewer name)),
    fun name => (wrote.only name).imp_right (more name)⟩

/-- A step that does not touch the assignments. -/
theorem effect_of_writes (untouched : ∀ m a m', x m = .ok a m' → m'.writes = m.writes) : Effect nothing may x := by
  intro m a m' success
  have same := untouched m a m' success
  refine ⟨fun name written => ?_, fun name => .inl (by rw [same])⟩
  rw [same]
  exact written.resolve_left id

theorem effect_throw (stop : Stop) : Effect must may (throw stop : Evaluation α) := by
  rintro m a m' ⟨⟩

theorem effect_pure (a : α) : Effect nothing may (pure a : Evaluation α) :=
  effect_of_writes (by rintro m _ _ ⟨⟩; rfl)

theorem effect_push : Effect nothing may (push env) :=
  effect_of_writes (by rintro m _ _ ⟨⟩; rfl)

theorem effect_store (x : Number) : Effect nothing may (store x) :=
  effect_of_writes (by rintro m _ _ ⟨⟩; rfl)

theorem effect_replace (x : Number) : Effect nothing may (replace x) :=
  effect_of_writes (by rintro m _ _ ⟨⟩; rfl)

theorem effect_drop (n : Nat) : Effect nothing may (drop n) :=
  effect_of_writes (by rintro m _ _ ⟨⟩; rfl)

theorem effect_top : Effect nothing may top := by
  refine effect_of_writes fun m x m' success => ?_
  rw [top, get_bind] at success
  cases live : m.stack.live <;> rw [live] at success <;> cases success
  rfl

theorem effect_literal (text : String) : Effect nothing may (literal env text) := by
  refine effect_of_writes fun m x m' success => ?_
  obtain ⟨y, table, -, -, given⟩ | ⟨y, table, -, -, given⟩ | ⟨f, refused⟩ := literal_cases env text m
  · cases given.symm.trans success
    rfl
  · cases given.symm.trans success
    rfl
  · cases refused.symm.trans success

theorem effect_checkArity (f : Func) (given : Nat) : Effect nothing may (checkArity f given) := by
  unfold checkArity
  split
  · exact effect_pure ()
  · exact effect_throw _

theorem effect_assign {name : String} (allowed : may name) (x : Number) :
    Effect (· = name) may (assign env name x) := by
  rintro m _ _ ⟨⟩
  refine ⟨fun other written => ?_, fun other => ?_⟩
  · change ((m.writes.insert name (keep env.prec x)).find? other).isSome = true
    rw [Bindings.find?_insert]
    split
    · rfl
    · rename_i differs
      exact written.resolve_left differs
  · change (m.writes.insert name (keep env.prec x)).find? other = _ ∨ _
    rw [Bindings.find?_insert]
    split
    · rename_i same
      exact .inr (same ▸ allowed)
    · exact .inl rfl

theorem effect_enterBody (count : Nat) {body : List Number → Evaluation Unit}
    (body_effect : ∀ args, Effect nothing may (body args)) : Effect nothing may (enterBody count body) := by
  intro m a m' success
  rw [enterBody, get_bind] at success
  have inner : Effect nothing may (body (m.stack.live.take count).reverse >>= fun _ => top >>= fun x =>
      drop (count + 1) >>= fun _ => store x) := by
    refine (body_effect _).andThen fun _ => ?_
    exact effect_top.andThen fun x => (effect_drop _).andThen fun _ => effect_store x
  exact inner m a m' success

theorem effect_operate (op : BinaryOp) : Effect nothing may (operate op) := by
  rw [operate_eq]
  refine effect_top.andThen fun y => ?_
  refine (effect_drop 1).andThen fun _ => ?_
  refine effect_top.andThen fun x => ?_
  cases op.apply x y with
  | ok z => exact effect_replace z
  | error e => exact (effect_replace _).andThen fun _ => effect_throw _

/-- The bodies of the functions that a tree calls assign what they may. -/
def CalleesEffect (env : Environment) (may : String → Prop) (t : Tree)
    (call : Option (Func → List Number → Evaluation Unit)) : Prop :=
  ∀ enter, call = some enter → ∀ f, env.Calls t f → ∀ args, Effect nothing may (enter f args)

theorem CalleesEffect.mono {part : Tree} (callees : CalleesEffect env may t call) (sub : part.nodes ⊆ t.nodes) :
    CalleesEffect env may part call :=
  fun enter same f calls => callees enter same f (calls.mono sub)

theorem effect_evalAll {ts : List Tree}
    (effects : ∀ t ∈ ts, Effect t.Targets may (eval env call frame t)) :
    Effect (fun name => ∃ t ∈ ts, t.Targets name) may (evalAll env call frame ts) := by
  induction ts with
  | nil =>
    rw [evalAll, evalAllWith]
    exact (effect_pure ()).mono (by simp) fun _ => id
  | cons t rest ih =>
    obtain ⟨first, others⟩ := List.forall_mem_cons.mp effects
    rw [evalAll, evalAllWith]
    refine first.bind (fun _ => ih others) fun name due => ?_
    obtain ⟨u, inside, targets⟩ := due
    rcases List.mem_cons.mp inside with rfl | later
    · exact .inl targets
    · exact .inr ⟨u, later, targets⟩

/-- A name alone assigns nothing itself. If it calls a function, then it is no variable. -/
theorem effect_ident {name : String} (callees : CalleesEffect env may (.ident name) call) :
    Effect nothing may (eval env call frame (.ident name)) := by
  intro m a m' success
  rw [eval, evalWith, bind_ok (lookup_eq env name m)] at success
  cases bound : (m.writes.find? name).or (env.vars.find? name) with
  | some x =>
    rw [bound] at success
    have stored : Effect nothing may (push env >>= fun _ => store x) :=
      effect_push.andThen fun _ => effect_store x
    exact stored m a m' success
  | none =>
    cases call with
    | none =>
      rw [bound] at success
      cases success
    | some enter =>
      cases found : env.functions.find? name with
      | none =>
        rw [bound, found] at success
        cases success
      | some f =>
        rw [bound, found] at success
        have unbound : env.vars.find? name = none := (Option.or_eq_none_iff.mp bound).2
        by_cases arity : 0 = f.params.length
        · have calls := Environment.calls_of_ident unbound found (List.length_eq_zero_iff.mp arity.symm)
          have called :
              Effect nothing may (checkArity f 0 >>= fun _ => push env >>= fun _ => enterBody 0 (enter f)) := by
            refine (effect_checkArity f 0).andThen fun _ => ?_
            exact effect_push.andThen fun _ => effect_enterBody 0 (callees enter rfl f calls)
          exact called m a m' success
        · have refused : checkArity f 0 = throw (.error (.arity f.name f.params.length (0 : Nat))) := if_neg arity
          dsimp only at success
          rw [refused] at success
          cases success

theorem effect_call {function : String} {args : List Tree} (callees : CalleesEffect env may (.call function args) call)
    (args_effect : ∀ a ∈ args, Effect a.Targets may (eval env call frame a)) :
    Effect (Tree.call function args).Targets may (eval env call frame (.call function args)) := by
  have due : ∀ name, (Tree.call function args).Targets name → ∃ a ∈ args, a.Targets name := by
    rintro name ⟨value, inside⟩
    simp only [Tree.nodes, List.mem_cons, reduceCtorEq, false_or, Tree.mem_nodesOfAll_iff] at inside
    obtain ⟨a, a_inside, below⟩ := inside
    exact ⟨a, a_inside, value, below⟩
  cases found : env.functions.find? function with
  | none =>
    simp only [eval, evalWith, found]
    exact effect_throw _
  | some f =>
    cases call with
    | none =>
      simp only [eval, evalWith, found]
      exact effect_throw _
    | some enter =>
      simp only [eval, evalWith, found]
      refine (effect_checkArity f args.length).andThen fun _ => ?_
      refine effect_push.andThen fun _ => ?_
      have evaluated := (effect_evalAll args_effect).mono due fun _ => id
      exact evaluated.followedBy fun _ => effect_enterBody _ (callees enter rfl f (Environment.calls_of_call found))

/-- Evaluating an expression carries out all its assignments, and of others only those of the functions that it
calls. -/
theorem effect_eval (ok : t.Expression call.isSome params) (callees : CalleesEffect env may t call)
    (allowed : ∀ name, t.Targets name → may name) : Effect t.Targets may (eval env call frame t) := by
  have leaf : ∀ {part : Tree}, part.nodes = [part] → (∀ name value, part ≠ .assign name value) →
      ∀ name, part.Targets name → nothing name := by
    rintro part alone differs name ⟨value, inside⟩
    rw [alone] at inside
    exact differs name value (List.mem_singleton.mp inside).symm
  induction ok with
  | number text =>
    have effect : Effect nothing may (eval env call frame (.number text)) := by
      rw [eval, evalWith]
      exact effect_push.andThen fun _ => (effect_literal text).andThen fun x => effect_store x
    exact effect.mono (leaf rfl (by rintro _ _ ⟨⟩)) fun _ => id
  | ident name => exact (effect_ident callees).mono (leaf rfl (by rintro _ _ ⟨⟩)) fun _ => id
  | param index name =>
    have effect : Effect nothing may (eval env call frame (.param index name)) := by
      rw [eval, evalWith]
      refine effect_push.andThen fun _ => ?_
      cases Tree.argument frame index with
      | ok x => exact effect_store x
      | error fault => exact effect_throw _
    exact effect.mono (leaf rfl (by rintro _ _ ⟨⟩)) fun _ => id
  | @assign name value _ ih =>
    have value_effect := ih (callees.mono (Tree.nodes_value name value))
      fun other targets => allowed other (targets.mono (Tree.nodes_value name value))
    have assigned : Effect (· = name) may (top >>= assign env name) :=
      effect_top.andThen (effect_assign (allowed name ⟨value, List.mem_cons_self ..⟩))
    rw [eval, evalWith]
    refine value_effect.bind (fun _ => assigned) ?_
    rintro other ⟨value', inside⟩
    rcases List.mem_cons.mp inside with same | below
    · cases same
      exact .inr rfl
    · exact .inl ⟨value', below⟩
  | @call function args _ _ ih =>
    refine effect_call callees fun a inside => ?_
    exact ih a inside (callees.mono (Tree.nodes_arg function inside))
      fun other targets => allowed other (targets.mono (Tree.nodes_arg function inside))
  | @unary op operand _ ih =>
    have operand_effect := ih (callees.mono (Tree.nodes_operand op operand))
      fun other targets => allowed other (targets.mono (Tree.nodes_operand op operand))
    have due : ∀ name, (Tree.unary op operand).Targets name → operand.Targets name := by
      simp [Tree.Targets, Tree.nodes]
    rw [eval, evalWith]
    exact (operand_effect.mono due fun _ => id).followedBy fun _ => effect_top.andThen fun x => effect_replace _
  | @binary op left right _ _ left_ih right_ih =>
    have left_effect := left_ih (callees.mono (Tree.nodes_left op left right))
      fun other targets => allowed other (targets.mono (Tree.nodes_left op left right))
    have right_effect := right_ih (callees.mono (Tree.nodes_right op left right))
      fun other targets => allowed other (targets.mono (Tree.nodes_right op left right))
    rw [eval, evalWith]
    refine left_effect.bind (fun _ => right_effect.followedBy fun _ => effect_operate op) ?_
    rintro other ⟨value, inside⟩
    simp only [Tree.nodes, List.mem_cons, reduceCtorEq, false_or, List.mem_append] at inside
    exact inside.imp (⟨value, ·⟩) (⟨value, ·⟩)

end Evaluation

namespace Environment

variable {line : Line} {t : Tree} {result : Result}

/-- The variable is assigned in the tree, or in the body of a function that the tree calls. -/
def MayAssign (env : Environment) (t : Tree) (name : String) : Prop :=
  t.Targets name ∨ ∃ f, env.Calls t f ∧ f.body.Targets name

theorem effect_evalLine (flat : env.Flat) (ok : t.Expression true []) :
    Evaluation.Effect t.Targets (env.MayAssign t) (Evaluation.evalLine env t) := by
  refine Evaluation.effect_eval ok ?_ fun _ => .inl
  rintro _ ⟨⟩ f calls args
  obtain ⟨name, found, -⟩ := id calls
  have no_callees : Evaluation.CalleesEffect env f.body.Targets f.body none := by
    rintro _ ⟨⟩
  have body_effect : Evaluation.Effect f.body.Targets f.body.Targets (Evaluation.callBody env f args) :=
    Evaluation.effect_eval (flat name f found) no_callees fun _ => id
  exact body_effect.mono (fun _ => False.elim) fun other targets => .inr ⟨f, calls, targets⟩

/-- The environment after a line whose evaluation ended with one value on the stack. -/
def committed (env : Environment) (m : Machine) : Environment :=
  { settle env { m with stack := m.stack.drop 1 } with vars := env.vars.overriddenBy m.writes }

theorem evaluate_of_evalLine (idle : env.stack.live = []) (ok : line.tree.Expression true []) {m : Machine}
    {x : Number} (ran : Evaluation.evalLine env line.tree env.machine = .ok () m) (live : m.stack.live = [x]) :
    env.evaluate line = (.ok (.value x), env.committed m) := by
  rw [evaluate_expression idle ok, ran]
  dsimp only
  rw [commit, live]
  rfl

/-- An expression that succeeds leaves one value on the stack, and its assignments become variables. -/
theorem evaluate_expression_ok (idle : env.stack.live = []) (ok : line.tree.Expression true [])
    (succeeds : (env.evaluate line).1 = .ok result) :
    ∃ m x, Evaluation.evalLine env line.tree env.machine = .ok () m ∧ m.stack.live = [x] ∧
      env.evaluate line = (.ok (.value x), env.committed m) := by
  rw [evaluate_expression idle ok] at succeeds ⊢
  generalize Evaluation.evalLine env line.tree env.machine = ran at succeeds ⊢
  rcases ran with ⟨⟨⟩, m⟩ | ⟨e | f, m⟩
  · dsimp only at succeeds ⊢
    unfold commit at succeeds ⊢
    rcases live : m.stack.live with _ | ⟨x, _ | ⟨y, below⟩⟩
    · rw [live] at succeeds
      cases succeeds
    · exact ⟨m, x, rfl, live, rfl⟩
    · rw [live] at succeeds
      cases succeeds
  · cases succeeds
  · cases succeeds

theorem evaluate_value (idle : env.stack.live = []) (ok : line.tree.Expression true []) {x : Number}
    (succeeds : (env.evaluate line).1 = .ok (.value x)) :
    ∃ m, Evaluation.evalLine env line.tree env.machine = .ok () m ∧ m.stack.live = [x] ∧
      env.evaluate line = (.ok (.value x), env.committed m) := by
  obtain ⟨m, y, ran, live, evaluated⟩ := evaluate_expression_ok idle ok succeeds
  rw [evaluated] at succeeds
  cases succeeds
  exact ⟨m, ran, live, evaluated⟩

/-- A line that fails changes no variable. -/
theorem vars_of_error (ok : line.tree.Expression true []) {stop : Stop} (fails : (env.evaluate line).1 = .error stop) :
    (env.evaluate line).2.vars = env.vars := by
  by_cases idle : env.stack.live = []
  · rw [evaluate_expression idle ok] at fails ⊢
    generalize Evaluation.evalLine env line.tree env.machine = ran at fails ⊢
    rcases ran with ⟨⟨⟩, m⟩ | ⟨e | f, m⟩
    · dsimp only at fails ⊢
      unfold commit at fails ⊢
      split
      · rename_i x live
        rw [live] at fails
        cases fails
      · rfl
    · rfl
    · rfl
  · rw [evaluate_in_use idle]

theorem functions_of_expression (ok : line.tree.Expression true []) :
    (env.evaluate line).2.functions = env.functions := by
  refine (functions_evaluate (.expression ok)).resolve_right ?_
  rintro ⟨_, _, _, _, tree, -⟩
  rw [tree] at ok
  cases ok

/-- No line changes the precision. -/
theorem prec_evaluate (env : Environment) (line : Line) : (env.evaluate line).2.prec = env.prec := by
  unfold evaluate
  split
  · rfl
  split
  · split <;> rfl
  · dsimp only
    split
    · unfold commit
      split <;> rfl
    · rfl
    · rfl

end Environment

/-- Whatever precisions there were before, the numbers of an environment that has one have it. -/
theorem Reachable.uniform_of_pos {policy : Policy} (reachable : Reachable policy env) (positive : 0 < env.prec) :
    env.Uniform (numberPrec env.prec) := by
  induction reachable with
  | create created _ => exact Environment.uniform_of_create created positive
  | @evaluate env source text line before read returns ih =>
    rw [Environment.prec_evaluate] at positive ⊢
    exact ((ih positive).evaluate positive line).uniform
  | set before bound ih =>
    rw [Environment.prec_set bound] at positive
    exact (ih positive).set positive bound
  | clone _ copied _ ih =>
    exact Environment.uniform_of_clone copied positive fun same => (ih (same ▸ positive)).vars

namespace Environment

variable {policy : Policy} {source : Lexer.Source} {text : List Char} {line : Line} {result : Result}

/-- The value of a line is kept as it is. -/
theorem keep_of_value (reachable : Reachable policy env) {x : Number}
    (value : (env.evaluate line).1 = .ok (.value x)) : keep env.prec x = x := by
  rcases Nat.eq_zero_or_pos env.prec with none | positive
  · rw [none]
    exact Number.atPrec_zero x
  · exact keep_of_prec (((reachable.uniform_of_pos positive).evaluate positive line).value x value)

/-- An assignment evaluates its value, and then notes what is on top of the stack. -/
theorem eval_assign_inv {call : Option (Func → List Number → Evaluation Unit)} {frame below : List Number}
    {name : String} {value : Tree} {m m' : Machine} {x : Number}
    (ran : Evaluation.eval env call frame (.assign name value) m = .ok () m')
    (live : m'.stack.live = x :: below) :
    ∃ m₁, Evaluation.eval env call frame value m = .ok () m₁ ∧
      m' = { m₁ with writes := m₁.writes.insert name (keep env.prec x) } := by
  rw [Evaluation.eval, Evaluation.evalWith] at ran
  obtain ⟨_, m₁, value_ran, ran⟩ := Evaluation.bind_eq_ok ran
  obtain ⟨y, m₂, topped, assigned⟩ := Evaluation.bind_eq_ok ran
  cases assigned
  change m₂.stack.live = x :: below at live
  rw [Evaluation.top, Evaluation.get_bind] at topped
  cases live₁ : m₁.stack.live with
  | nil =>
    rw [live₁] at topped
    cases topped
  | cons z rest =>
    rw [live₁] at topped
    cases topped
    obtain ⟨rfl, -⟩ := List.cons.inj (live₁.symm.trans live)
    exact ⟨_, value_ran, rfl⟩

/-- What a line that succeeds changes. A definition changes at most the function that it defines. An expression changes
variables only: all those that it assigns are bound afterwards, every one that has changed is assigned in it or in the
body of a function that it calls, and a variable that is assigned the whole line has the value of the line. -/
theorem evaluate_write_set (reachable : Reachable policy env) (read : Parser.parse source text = .ok line)
    (succeeds : (env.evaluate line).1 = .ok result) :
    (env.evaluate line).2.prec = env.prec ∧
    (∀ function params body, line.tree = .define function params body →
      (env.evaluate line).2.vars = env.vars ∧
        ∀ name, name ≠ function → (env.evaluate line).2.functions.find? name = env.functions.find? name) ∧
    (line.isDefinition = false →
      (env.evaluate line).2.functions = env.functions ∧
      (∀ name, line.tree.Targets name → ((env.evaluate line).2.vars.find? name).isSome = true) ∧
      (∀ name, (env.evaluate line).2.vars.find? name ≠ env.vars.find? name → env.MayAssign line.tree name) ∧
      ∀ name value, line.tree = .assign name value →
        ∃ x, result = .value x ∧ (env.evaluate line).2.vars.find? name = some x) := by
  have safe := reachable.safe
  refine ⟨prec_evaluate env line, fun function params body tree => ?_, fun expression => ?_⟩
  · rw [evaluate_definition safe.idle tree] at succeeds ⊢
    cases defined : env.define function params body with
    | error stop =>
      rw [defined] at succeeds
      cases succeeds
    | ok f => exact ⟨rfl, fun name differs => Bindings.find?_insert_of_ne env.functions f differs⟩
  · have ok := Parser.expression_of_parse read expression
    obtain ⟨m, x, ran, live, evaluated⟩ := evaluate_expression_ok safe.idle ok succeeds
    have wrote := effect_evalLine safe.closed.flat ok _ _ _ ran
    have vars : ∀ name, (env.committed m).vars.find? name = (m.writes.find? name).or (env.vars.find? name) :=
      Bindings.find?_overriddenBy env.vars _
    have same : result = .value x := by
      rw [evaluated] at succeeds
      exact (Except.ok.inj succeeds).symm
    have kept := keep_of_value reachable (succeeds.trans (congrArg Except.ok same))
    rw [evaluated]
    refine ⟨rfl, fun name targets => ?_, fun name changed => ?_, fun name value tree => ⟨x, same, ?_⟩⟩
    · rw [vars, Option.isSome_or, wrote.bound name (.inl targets), Bool.true_or]
    · refine (wrote.only name).resolve_left fun unassigned => changed ?_
      have none : m.writes.find? name = none := unassigned
      rw [vars, none, Option.none_or]
    · rw [tree] at ran
      obtain ⟨m₁, -, rfl⟩ := eval_assign_inv ran live
      rw [vars, Bindings.find?_insert_self, kept, Option.some_or]

/-- A variable is assigned twice, another one in an argument, and a third one in the body of a function. -/
theorem evaluate_write_set_nested :
    ∃ env line x, Reachable .rising env ∧ Parser.parse {} "x=f(y=2)+(x=3)".toList = .ok line ∧
      (env.evaluate line).1 = .ok (.value x) ∧ x.truncate = 5 ∧
      (env.evaluate line).2.vars.find? "x" = some x ∧
      ((env.evaluate line).2.vars.find? "y").isSome = true ∧ env.MayAssign line.tree "z" := by
  have defined := (reachable_blank (Nat.succ_pos 7)).exec_ok
    (show (exec _ (Text.ofString "f a=>z=a")).1 = .ok .defined by cbv)
  generalize same : ((blank 8).exec (Text.ofString "f a=>z=a")).2 = env at defined
  let value : Tree := .binary .add (.call "f" [.assign "y" (.number "2")]) (.assign "x" (.number "3"))
  let five : Number := { prec := 8, neg := false, mag := .finite 5 0, words := 1 }
  have read : Parser.parse {} "x=f(y=2)+(x=3)".toList = .ok { tree := .assign "x" value, vars := ["x", "y"] } := by
    cbv
  have succeeds : (env.evaluate { tree := .assign "x" value, vars := ["x", "y"] }).1 = .ok (.value five) := by
    subst same
    cbv
  obtain ⟨-, -, changes⟩ := evaluate_write_set defined read succeeds
  obtain ⟨-, bound, only, whole⟩ := changes rfl
  obtain ⟨x, value_same, final⟩ := whole "x" value rfl
  cases value_same
  refine ⟨env, _, five, defined, read, succeeds, by decide, final, bound "y" ⟨.number "2", ?_⟩, only "z" ?_⟩
  · simp [value, Tree.nodes, Tree.nodesOfAll]
  · subst same
    have assigned : ((exec (blank 8) (Text.ofString "f a=>z=a")).2.evaluate
        { tree := .assign "x" value, vars := ["x", "y"] }).2.vars.find? "z" =
          some { prec := 8, neg := false, mag := .finite 1 1, words := 1 } := by
      cbv
    have unbound : (exec (blank 8) (Text.ofString "f a=>z=a")).2.vars.find? "z" = none := by cbv
    rw [assigned, unbound]
    exact Option.some_ne_none _

end Environment

end Abacus
