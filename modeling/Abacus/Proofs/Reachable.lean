import Abacus.Command.Given
import Abacus.Proofs.Parser.Line
import Abacus.Proofs.Simulation
import Mathlib

/-!
The environments that a program can come to, and what holds of all of them.

As long as values have a precision and it never falls, every variable has the precision of the environment, no
function calls another, and the stack and the remembered literals are in order. Evaluating a line then gives
what its tree means.
-/

namespace Abacus

open Environment (numberPrec keep)

/-- Which precisions environments begin with, and which of them copies may change to which. -/
structure Policy where
  begins : Nat → Prop
  changes : Nat → Nat → Prop

/-- Values have a precision, and it never falls. -/
def Policy.rising : Policy :=
  { begins := fun prec => 0 < prec, changes := fun prec prec' => prec ≤ prec' }

/-- The environments that come about when environments are created, lines are evaluated, variables are set
and copies are made. An evaluation that ends in a fault does not return. -/
inductive Reachable (policy : Policy) : Environment → Prop
  | create {settings : List Setting} {constants : Constants} {env : Environment}
      (created : Environment.create settings constants = .ok env) (begins : policy.begins env.prec) :
      Reachable policy env
  | evaluate {env : Environment} {source : Lexer.Source} {text : List Char} {line : Line}
      (before : Reachable policy env) (read : Parser.parse source text = .ok line)
      (returns : ∀ f, (env.evaluate line).1 ≠ .error (.fault f)) :
      Reachable policy (env.evaluate line).2
  | set {env env' : Environment} {name : String} {x : Number} (before : Reachable policy env)
      (bound : env.set name x = .ok env') : Reachable policy env'
  | clone {env env' : Environment} {settings : List Setting} (before : Reachable policy env)
      (copied : env.clone settings = .ok env') (changes : policy.changes env.prec env'.prec) :
      Reachable policy env'

theorem Environment.exec_of_error {env : Environment} {text : Text} {e : InputError}
    (refused : Parser.parseText text = .error e) : env.exec text = (.error (.input e), env) := by
  rw [exec, refused]

theorem Environment.exec_of_read {env : Environment} {text : Text} {line : Line}
    (read : Parser.parseText text = .ok line) :
    env.exec text = ((env.evaluate line).1.mapError .ofStop, (env.evaluate line).2) := by
  rw [exec, read]

theorem Environment.exec_snd {env : Environment} {text : Text} {line : Line}
    (read : Parser.parseText text = .ok line) : (env.exec text).2 = (env.evaluate line).2 := by
  rw [exec_of_read read]

theorem Environment.exec_eq_ok_iff {env : Environment} {text : Text} {line : Line} {result : Result}
    (read : Parser.parseText text = .ok line) :
    (env.exec text).1 = .ok result ↔ (env.evaluate line).1 = .ok result := by
  rw [exec_of_read read]
  cases (env.evaluate line).1 <;> simp [Except.mapError]

/-- Carrying out a text is reading it and evaluating the line. -/
theorem Reachable.exec {policy : Policy} {env : Environment} (before : Reachable policy env)
    (text : Text) (returns : ∀ f, (env.exec text).1 ≠ .error (.fault f)) :
    Reachable policy (env.exec text).2 := by
  cases read : Parser.parseText text with
  | error e =>
    rw [Environment.exec_of_error read]
    exact before
  | ok line =>
    rw [Environment.exec_of_read read] at returns ⊢
    refine .evaluate before (Parser.parse_of_parseText read) fun f fails => returns f ?_
    rw [fails]
    rfl

theorem Reachable.exec_ok {policy : Policy} {env : Environment} (before : Reachable policy env)
    {text : Text} {result : Result} (succeeds : (env.exec text).1 = .ok result) :
    Reachable policy (env.exec text).2 := by
  refine before.exec text fun f fails => ?_
  rw [succeeds] at fails
  cases fails

/-- Giving a variable is evaluating its value and setting it. -/
theorem Reachable.giveValue {policy : Policy} {env : Environment} (before : Reachable policy env)
    {source : Lexer.Source} {text : List Char} {line : Line} (read : Parser.parse source text = .ok line)
    (name : String) (returns : ∀ f, (env.giveValue name line).1 ≠ .error (.fault f)) :
    Reachable policy (env.giveValue name line).2 := by
  have evaluated : (∀ f, (env.evaluate line).1 ≠ .error (.fault f)) →
      Reachable policy (env.evaluate line).2 := .evaluate before read
  unfold Environment.giveValue at returns ⊢
  generalize env.evaluate line = outcome at evaluated returns ⊢
  rcases outcome with ⟨(e | f) | (_ | x), next⟩
  · exact evaluated nofun
  · exact absurd rfl (returns f)
  · exact evaluated nofun
  · dsimp only at returns ⊢
    cases bound : next.set name x with
    | error f =>
      rw [bound] at returns
      exact absurd rfl (returns f)
    | ok last => exact .set (evaluated nofun) bound

theorem Reachable.give {policy : Policy} {env : Environment} (before : Reachable policy env)
    (definition : Text) (returns : ∀ f, (env.give definition).1 ≠ .error (.fault f)) :
    Reachable policy (env.give definition).2 := by
  unfold Environment.give at returns ⊢
  cases parts : definition.cut? '=' with
  | none => exact before
  | some cut =>
    rw [parts] at returns
    dsimp only at returns ⊢
    split
    · rename_i named
      rw [if_pos named] at returns
      cases read : Parser.parseText cut.2 with
      | error e => exact before
      | ok line =>
        rw [read] at returns
        dsimp only at returns ⊢
        split
        · exact before
        · rename_i expression
          rw [if_neg expression] at returns
          exact before.giveValue (Parser.parse_of_parseText read) _ returns
    · exact before

namespace Environment

/-- An environment with nothing bound. -/
def blank (prec : Nat) : Environment :=
  { prec, vars := .empty, functions := .empty, literals := some .empty, stack := .empty }

theorem create_blank (prec : Nat) : create [.prec prec, .noConstants] = .ok (blank prec) := by
  have vars : (blank prec).varsAt prec = .empty := if_pos rfl
  have literals : (blank prec).literalsAt prec = .empty := if_pos (Nat.le_refl prec)
  change Except.ok (Environment.mk prec ((blank prec).varsAt prec) .empty (some ((blank prec).literalsAt prec))
    .empty) = _
  rw [vars, literals]
  rfl

/-- The copy that differs in nothing but its precision. -/
def copyAt (env : Environment) (prec : Nat) : Environment :=
  { env with
    prec
    vars := env.varsAt prec
    literals := some (env.literalsAt prec)
    stack := .empty }

theorem clone_prec (env : Environment) (prec : Nat) : env.clone [.prec prec] = .ok (env.copyAt prec) :=
  rfl

theorem reachable_blank {prec : Nat} (positive : 0 < prec) : Reachable .rising (blank prec) :=
  .create (create_blank prec) positive

/-- What an evaluation starts with. -/
def machine (env : Environment) : Machine :=
  { stack := env.stack, literals := env.literals, writes := .empty }

/-- The environment is in order, though its stack may be in use. -/
structure Sound (env : Environment) : Prop extends Settled env where
  tidy : env.machine.Tidy env.prec

/-- The environment is in order and nothing is being evaluated. -/
structure Ready (env : Environment) : Prop extends Sound env where
  idle : env.stack.live = []

variable {env env' other : Environment} {line : Line} {settings : List Setting}

theorem machine_tidy {prec : Nat} {stack : Stack} {table : Bindings Number}
    (uniform : stack.Uniform (numberPrec prec))
    (faithful : table.All fun text x => Number.parse prec text = .ok x) :
    Machine.Tidy prec { stack, literals := some table, writes := .empty } :=
  ⟨uniform, ⟨table, rfl, faithful⟩, Bindings.all_empty⟩

theorem settings_prec {prec : Nat} (positive : 0 < prec) {vars vars' : Bindings Number}
    (all : vars.All fun _ x => x.prec = numberPrec prec)
    (applied : settings.foldlM (applySetting prec) vars = .ok vars') :
    vars'.All fun _ x => x.prec = numberPrec prec := by
  induction settings generalizing vars with
  | nil =>
    cases applied
    exact all
  | cons setting rest ih =>
    rw [List.foldlM_cons] at applied
    obtain ⟨vars₁, first, applied⟩ := Except.bind_eq_ok_iff.mp applied
    refine ih ?_ applied
    cases setting with
    | var name value =>
      cases first
      exact all.insert (prec_keep positive value)
    | vars bindings =>
      cases first
      refine all.insertAll fun entry inside => ?_
      obtain ⟨given, -, rfl⟩ := List.mem_map.mp inside
      exact prec_keep positive given.2
    | unknown => cases first
    | prec | noConstants | nothing =>
      cases first
      exact all

theorem all_map_keep {prec : Nat} (positive : 0 < prec) (b : Bindings Number) :
    (b.map (keep prec)).All fun _ x => x.prec = numberPrec prec := by
  intro name x found
  rw [Bindings.find?_map] at found
  obtain ⟨y, -, rfl⟩ := Option.map_eq_some_iff.mp found
  exact prec_keep positive y

/-- The variables of a copy have its precision, if those that it takes over unchanged have it. -/
theorem varsAt_prec {prec : Nat} (positive : 0 < prec)
    (unchanged : prec = env.prec → env.vars.All fun _ x => x.prec = numberPrec env.prec) :
    (env.varsAt prec).All fun _ x => x.prec = numberPrec prec := by
  unfold varsAt
  split
  · rename_i same
    exact same ▸ unchanged same
  · exact all_map_keep positive env.vars

theorem predefined_prec {prec : Nat} (positive : 0 < prec) (constants : Constants) :
    (predefined constants prec).All fun _ x => x.prec = numberPrec prec := by
  have some_bits := numberPrec_pos positive
  exact (Bindings.all_empty.insert (constants.prec_euler _ some_bits)).insert (constants.prec_pi _ some_bits)

theorem initial_prec {constants : Constants} (positive : 0 < (initial settings constants).prec) :
    (initial settings constants).vars.All fun _ x => x.prec = numberPrec (initial settings constants).prec := by
  unfold initial
  dsimp only
  split
  · exact Bindings.all_empty
  · exact predefined_prec positive constants

/-- A copy is in order if the variables that it takes over unchanged are, and the literals that it keeps are right for
its own precision. -/
theorem ready_of_clone (copied : env.clone settings = .ok env') (positive : 0 < env'.prec)
    (unchanged : env'.prec = env.prec → env.vars.All fun _ x => x.prec = numberPrec env.prec)
    (flat : env.Flat)
    (faithful : env'.prec ≤ env.prec →
      (env.literals.getD .empty).All fun text x => Number.parse env'.prec text = .ok x) :
    env'.Ready := by
  obtain ⟨vars, applied, same⟩ := Except.bind_eq_ok_iff.mp copied
  cases same
  dsimp only at positive unchanged faithful
  generalize (Setting.lastPrec? settings).getD env.prec = prec at *
  have kept := varsAt_prec positive unchanged
  refine ⟨⟨⟨positive, settings_prec positive kept applied, flat⟩, ?_⟩, rfl⟩
  refine machine_tidy ⟨nofun, nofun⟩ ?_
  unfold literalsAt
  split
  · rename_i falls
    refine (faithful falls).map fun text x read => ?_
    rwa [keep_of_prec (Number.prec_parse positive read)]
  · exact Bindings.all_empty

theorem ready_of_create {constants : Constants} (created : create settings constants = .ok env)
    (positive : 0 < env.prec) : env.Ready :=
  ready_of_clone created positive (fun same => initial_prec (same ▸ positive)) Bindings.all_empty
    fun _ => Bindings.all_empty

theorem Ready.clone (ready : env.Ready) (copied : env.clone settings = .ok env')
    (rises : env.prec ≤ env'.prec) : env'.Ready := by
  have positive := Nat.lt_of_lt_of_le ready.positive rises
  refine ready_of_clone copied positive (fun _ => ready.vars) ready.flat fun falls => ?_
  obtain ⟨table, has_table, all⟩ := ready.tidy.literals
  change env.literals = some table at has_table
  rw [has_table, Option.getD_some, Nat.le_antisymm falls rises]
  exact all

theorem Ready.set (ready : env.Ready) {name : String} {x : Number}
    (bound : env.set name x = .ok env') : env'.Ready := by
  rw [Environment.set, ready.idle] at bound
  cases bound
  exact ⟨⟨⟨ready.positive, ready.vars.insert (prec_keep ready.positive x), ready.flat⟩, ready.tidy⟩,
    ready.idle⟩

theorem evaluate_in_use (busy : env.stack.live ≠ []) (line : Line) :
    env.evaluate line = (.error (.fault .evaluationInUse), env) := by
  have test : (!env.stack.live.isEmpty) = true := by simpa using busy
  rw [evaluate, if_pos test]

/-- The environment with one more function. -/
def withFunction (env : Environment) (function : String) (f : Func) : Environment :=
  { env with functions := env.functions.insert function f }

theorem evaluate_definition (idle : env.stack.live = []) {function : String} {params : List String}
    {body : Tree} (tree : line.tree = .define function params body) :
    env.evaluate line =
      match env.define function params body with
      | .ok f => (.ok .defined, env.withFunction function f)
      | .error stop => (.error stop, env) := by
  simp only [evaluate, idle, tree, Tree.core]
  rfl

theorem evaluate_expression (idle : env.stack.live = []) {params : List String}
    (ok : line.tree.Expression true params) :
    env.evaluate line =
      match Evaluation.evalLine env line.tree env.machine with
      | .ok _ m => commit env m
      | .error (.error e) m => (.error (.error e), settle env { m with stack := m.stack.clear })
      | .error (.fault f) m => (.error (.fault f), settle env m) := by
  simp only [evaluate, idle]
  generalize line.tree = t at ok
  cases ok <;> rfl

/-- An evaluation gives what the line means and leaves the environment in order. -/
inductive Yields (env : Environment) :
    Except Stop (Number × Writes) → Except Stop Result × Environment → Prop
  | value {x : Number} {w : Writes} {env' : Environment} (ready : env'.Ready)
      (x_prec : x.prec = numberPrec env.prec)
      (scope : env'.scope = { env.scope with vars := w.over env.vars.find? }) :
      Yields env (.ok (x, w)) (.ok (.value x), env')
  | error {e : EvalError} {env' : Environment} (ready : env'.Ready) (scope : env'.scope = env.scope) :
      Yields env (.error (.error e)) (.error (.error e), env')
  | fault {f : Fault} {env' : Environment} (sound : env'.Sound) (scope : env'.scope = env.scope) :
      Yields env (.error (.fault f)) (.error (.fault f), env')

theorem Settled.settle (settled : env.Settled) {m : Machine} (tidy : m.Tidy env.prec) :
    (settle env m).Sound :=
  ⟨⟨settled.positive, settled.vars, settled.flat⟩,
    ⟨tidy.stack, tidy.literals, Bindings.all_empty⟩⟩

/-- One value is on the stack, and the assignments become variables. -/
theorem commit_yields (settled : env.Settled) {m : Machine} {x : Number} (tidy : m.Tidy env.prec)
    (live : m.stack.live = [x]) : env.Yields (.ok (x, m.writes.find?)) (commit env m) := by
  unfold commit
  rw [live]
  have vars := settled.vars.overriddenBy tidy.writes
  have left : (m.stack.drop 1).live = [] := by simp [Stack.drop, live]
  refine .value ⟨⟨⟨settled.positive, vars, settled.flat⟩, ?_⟩, left⟩
    (tidy.stack.live x (by simp [live])) ?_
  · exact ⟨tidy.stack.drop 1, tidy.literals, Bindings.all_empty⟩
  · rw [scope, scope, funext (Bindings.find?_overriddenBy env.vars m.writes)]
    rfl

/-- A run that answers a meaning makes the evaluation give it. -/
theorem Ready.yields_of_answers (ready : env.Ready) (ok : line.tree.Expression true [])
    {meant : Option (Except Stop (Number × Writes))}
    (answers : Answers env.prec [] one (Evaluation.evalLine env line.tree env.machine) meant) :
    ∃ outcome, meant = some outcome ∧ env.Yields outcome (env.evaluate line) := by
  rw [evaluate_expression ready.idle ok]
  generalize Evaluation.evalLine env line.tree env.machine = result at answers
  cases answers with
  | @ok m x w tidy live writes =>
    refine ⟨_, rfl, ?_⟩
    rw [← writes]
    exact commit_yields ready.toSettled tidy live
  | @error m stop tidy =>
    refine ⟨_, rfl, ?_⟩
    cases stop with
    | error e =>
      have cleared : Machine.Tidy env.prec { m with stack := m.stack.clear } :=
        ⟨tidy.stack.drop _, tidy.literals, tidy.writes⟩
      exact .error ⟨ready.toSettled.settle cleared, Stack.live_clear m.stack⟩ rfl
    | fault f => exact .fault (ready.toSettled.settle tidy) rfl

/-- The run of an expression answers what the expression means. Bodies call nothing, so one level of calls is
enough. -/
theorem Ready.answers (ready : env.Ready) (ok : line.tree.Expression true []) (nesting : Nat) :
    Answers env.prec [] one (Evaluation.evalLine env line.tree env.machine)
      (Meaning.value env.scope (nesting + 1) 0 [] line.tree .none) := by
  have calls := callBody_answers ready.toSettled nesting
  have answered := eval_answers ready.toSettled calls ok [] env.machine ready.tidy
  rw [show env.machine.stack.live = [] from ready.idle] at answered
  exact answered

/-- An expression gives what it means, and it does mean something. -/
theorem Ready.yields (ready : env.Ready) (ok : line.tree.Expression true []) :
    ∃ outcome, (∀ nesting, Meaning.value env.scope (nesting + 1) 0 [] line.tree .none = some outcome) ∧
      env.Yields outcome (env.evaluate line) := by
  have answers := ready.answers ok
  obtain ⟨outcome, meant, yields⟩ := ready.yields_of_answers ok (answers 0)
  exact ⟨outcome, fun nesting => ((answers nesting).unique (answers 0)).trans meant, yields⟩

theorem Ready.withFunction (ready : env.Ready) {params : List String} {body : Tree}
    (body_ok : body.Expression true params) {function : String} {f : Func}
    (defined : env.define function params body = .ok f) :
    (env.withFunction function f).Ready :=
  ⟨⟨⟨ready.positive, ready.vars, ready.flat.insert (ready.flat.define body_ok defined)⟩, ready.tidy⟩,
    ready.idle⟩

theorem scope_withFunction (env : Environment) (function : String) (f : Func) :
    (env.withFunction function f).scope =
      { env.scope with
        functions := fun name => if name = function then some f else env.scope.functions name } := by
  simp only [scope, withFunction, Scope.mk.injEq, true_and]
  exact funext fun name => Bindings.find?_insert env.functions function name f

/-- What evaluating a line can do. -/
theorem Ready.evaluate (ready : env.Ready) (ok : line.tree.OfLine) :
    (env.evaluate line).2.Sound ∧
      ((∀ f, (env.evaluate line).1 ≠ .error (.fault f)) → (env.evaluate line).2.Ready) ∧
      (∀ stop, (env.evaluate line).1 = .error stop → (env.evaluate line).2.scope = env.scope) := by
  generalize tree : line.tree = t at ok
  cases ok with
  | expression ok =>
    subst tree
    obtain ⟨outcome, -, yields⟩ := ready.yields ok
    generalize env.evaluate line = result at yields
    cases yields with
    | value ready' _ scope => exact ⟨ready'.toSound, fun _ => ready', nofun⟩
    | error ready' scope => exact ⟨ready'.toSound, fun _ => ready', fun _ _ => scope⟩
    | fault sound scope => exact ⟨sound, fun returns => absurd rfl (returns _), fun _ _ => scope⟩
  | definition function distinct body_ok =>
    rw [evaluate_definition ready.idle tree]
    cases defined : env.define function _ _ with
    | error stop => exact ⟨ready.toSound, fun _ => ready, fun _ _ => rfl⟩
    | ok f =>
      have ready' := ready.withFunction body_ok defined
      exact ⟨ready'.toSound, fun _ => ready', nofun⟩

/-- Two evaluations with the same result, after which every line means the same. -/
def Alike (a b : Except Stop Result × Environment) : Prop :=
  a.1 = b.1 ∧ a.2.scope = b.2.scope

/-- A definition is carried out in the same way where the precision, the variables and the functions are the same. -/
theorem evaluate_definition_congr (idle : env.stack.live = []) (other_idle : other.stack.live = [])
    (same : env.scope = other.scope) {function : String} {params : List String} {body : Tree}
    (tree : line.tree = .define function params body) (ok : body.Expression true params) :
    Alike (env.evaluate line) (other.evaluate line) := by
  rw [evaluate_definition idle tree, evaluate_definition other_idle tree, define_congr same ok function]
  cases other.define function params body with
  | error stop => exact ⟨rfl, same⟩
  | ok f =>
    refine ⟨rfl, ?_⟩
    dsimp only
    rw [scope_withFunction, scope_withFunction, same]

/-- Every line means the same in environments that agree on the precision, the variables and the functions,
whatever their stacks and tables of literals hold. -/
theorem Ready.evaluate_congr (ready : env.Ready) (other_ready : other.Ready)
    (same : env.scope = other.scope) (ok : line.tree.OfLine) :
    Alike (env.evaluate line) (other.evaluate line) := by
  generalize tree : line.tree = t at ok
  cases ok with
  | expression ok =>
    subst tree
    obtain ⟨outcome, meant, yields⟩ := ready.yields ok
    obtain ⟨outcome', meant', yields'⟩ := other_ready.yields ok
    rw [← same] at meant'
    cases (meant 0).symm.trans (meant' 0)
    generalize env.evaluate line = result, other.evaluate line = result' at yields yields'
    have vars_same : env.vars.find? = other.vars.find? := congrArg Scope.vars same
    cases yields with
    | value _ _ scope =>
      cases yields' with
      | value _ _ scope' => exact ⟨rfl, by rw [scope, scope', same, vars_same]⟩
    | error _ scope =>
      cases yields' with
      | error _ scope' => exact ⟨rfl, by rw [scope, scope', same]⟩
    | fault _ scope =>
      cases yields' with
      | fault _ scope' => exact ⟨rfl, by rw [scope, scope', same]⟩
  | definition function distinct body_ok =>
    exact evaluate_definition_congr ready.idle other_ready.idle same tree body_ok

end Environment

theorem Reachable.ready {env : Environment} (reachable : Reachable .rising env) : env.Ready := by
  induction reachable with
  | create created positive => exact Environment.ready_of_create created positive
  | evaluate _ read returns ih => exact (ih.evaluate (Parser.ofLine_of_parse read)).2.1 returns
  | set _ bound ih => exact ih.set bound
  | clone _ copied rises ih => exact ih.clone copied rises

end Abacus
