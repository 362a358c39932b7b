import Abacus.Proofs.Literals
import Mathlib

/-!
Every number that an environment holds or computes has the precision that its numbers get.

This holds whatever is asked of the environment, in any order, for trees of any shape, and whether or not a request
succeeds. All numbers come from a few places, and each of them takes care of the precision: a new place of the stack
has it, a value that is stored takes that of its place, and an operation keeps that of its left operand.
-/

namespace Abacus

open Environment (numberPrec keep)

/-- What holds of every tree, with one case for each constructor. -/
@[elab_as_elim]
theorem Tree.induction {P : Tree → Prop} (absent : P .absent) (number : ∀ text, P (.number text))
    (ident : ∀ name, P (.ident name)) (param : ∀ index name, P (.param index name))
    (assign : ∀ name value, P value → P (.assign name value))
    (call : ∀ function args, (∀ a ∈ args, P a) → P (.call function args))
    (define : ∀ function params body, P body → P (.define function params body))
    (unary : ∀ op operand, P operand → P (.unary op operand))
    (binary : ∀ op left right, P left → P right → P (.binary op left right))
    (malformed : ∀ code left right, P left → P right → P (.malformed code left right))
    (extended : ∀ node name args left right, P node → (∀ a ∈ args, P a) → P left → P right →
      P (.extended node name args left right)) (t : Tree) : P t := by
  refine @Tree.rec P (fun ts => ∀ a ∈ ts, P a) absent number ident param assign call define unary binary malformed
    extended ?_ ?_ t
  · simp
  · exact fun first rest ok others => List.forall_mem_cons.mpr ⟨ok, others⟩

variable {env : Environment} {p : Nat} {m : Machine}

/-- All numbers of a machine have one precision. -/
structure Machine.Uniform (p : Nat) (m : Machine) : Prop where
  stack : m.stack.Uniform p
  literals : ∀ table, m.literals = some table → table.All fun _ x => x.prec = p
  writes : m.writes.All fun _ x => x.prec = p

/-- How a step ends that keeps the precision of all numbers, and of what it gives. -/
inductive Kept (p : Nat) {α : Type} (gives : α → Prop) : EStateM.Result Stop Machine α → Prop
  | ok {a : α} {m : Machine} (uniform : m.Uniform p) (given : gives a) : Kept p gives (.ok a m)
  | error {stop : Stop} {m : Machine} (uniform : m.Uniform p) : Kept p gives (.error stop m)

/-- A step that keeps the precision of all numbers. -/
def Evaluation.Keeps (p : Nat) {α : Type} (gives : α → Prop) (x : Evaluation α) : Prop :=
  ∀ m : Machine, m.Uniform p → Kept p gives (x m)

/-- Nothing is said about what a step gives. -/
abbrev anything {α : Type} : α → Prop :=
  fun _ => True

namespace Evaluation

variable {α β : Type} {gives : α → Prop} {gives' : β → Prop}
  {call : Option (Func → List Number → Evaluation Unit)} {frame : List Number}

theorem Keeps.bind {x : Evaluation α} {k : α → Evaluation β} (first : Keeps p gives x)
    (next : ∀ a, gives a → Keeps p gives' (k a)) : Keeps p gives' (x >>= k) := by
  intro m uniform
  have ran := first m uniform
  generalize same : x m = result at ran
  cases ran with
  | ok after given =>
    rw [bind_ok same]
    exact next _ given _ after
  | error after =>
    rw [bind_error same]
    exact .error after

theorem keeps_pure {a : α} (given : gives a) : Keeps p gives (pure a : Evaluation α) :=
  fun _ uniform => .ok uniform given

theorem keeps_throw (stop : Stop) : Keeps p gives (throw stop : Evaluation α) :=
  fun _ uniform => .error uniform

theorem keeps_push (same : numberPrec env.prec = p) : Keeps p anything (push env) := by
  intro m uniform
  obtain ⟨place, -, -, stack⟩ := uniform.stack.push (.zero (numberPrec env.prec)) same
  exact .ok ⟨stack, uniform.literals, uniform.writes⟩ trivial

/-- Whatever is stored takes the precision of its place. -/
theorem keeps_store (positive : 0 < p) (x : Number) : Keeps p anything (store x) := by
  intro m uniform
  refine .ok ⟨?_, uniform.literals, uniform.writes⟩ trivial
  change (m.stack.store x).Uniform p
  cases live : m.stack.live with
  | nil =>
    rw [Stack.store, live]
    exact uniform.stack
  | cons place below =>
    have place_prec : place.prec = p := uniform.stack.live place (live ▸ List.mem_cons_self ..)
    rw [Stack.store_of_live x place live, place_prec]
    exact uniform.stack.replace (Number.prec_atPrec (by omega) x)

theorem keeps_replace {x : Number} (x_prec : x.prec = p) : Keeps p anything (replace x) :=
  fun _ uniform =>
    .ok ⟨uniform.stack.replace x_prec, uniform.literals, uniform.writes⟩ trivial

theorem keeps_drop (n : Nat) : Keeps p anything (drop n) :=
  fun _ uniform => .ok ⟨uniform.stack.drop n, uniform.literals, uniform.writes⟩ trivial

theorem keeps_top : Keeps p (fun x => x.prec = p) top := by
  intro m uniform
  rw [top, get_bind]
  cases live : m.stack.live with
  | nil => exact .error uniform
  | cons x below => exact .ok uniform (uniform.stack.live x (live ▸ List.mem_cons_self ..))

/-- A literal has the precision whether it is remembered or read. -/
theorem keeps_literal (positive : 0 < env.prec) (text : String) :
    Keeps (numberPrec env.prec) (fun x => x.prec = numberPrec env.prec) (literal env text) := by
  intro m uniform
  obtain ⟨x, table, has_table, found, given⟩ | ⟨x, table, has_table, read, given⟩ | ⟨f, refused⟩ :=
    literal_cases env text m
  · rw [given]
    exact .ok uniform (uniform.literals table has_table text x found)
  · have x_prec : x.prec = numberPrec env.prec := Number.prec_parse positive read
    rw [given]
    refine .ok ⟨uniform.stack, ?_, uniform.writes⟩ x_prec
    rintro _ ⟨⟩
    exact (uniform.literals table has_table).insert x_prec
  · rw [refused]
    exact .error uniform

theorem keeps_lookup (name : String) : Keeps p anything (lookup env name) := by
  intro m uniform
  rw [lookup_eq]
  exact .ok uniform trivial

theorem keeps_assign (positive : 0 < env.prec) (name : String) (x : Number) :
    Keeps (numberPrec env.prec) anything (assign env name x) :=
  fun _ uniform => .ok ⟨uniform.stack, uniform.literals,
    uniform.writes.insert (Environment.prec_keep positive x)⟩ trivial

theorem keeps_checkArity (f : Func) (given : Nat) : Keeps p anything (checkArity f given) := by
  unfold checkArity
  split
  · exact keeps_pure trivial
  · exact keeps_throw _

theorem keeps_enterBody (positive : 0 < p) (count : Nat) {body : List Number → Evaluation Unit}
    (body_keeps : ∀ args, Keeps p anything (body args)) : Keeps p anything (enterBody count body) := by
  intro m uniform
  rw [enterBody, get_bind]
  refine (body_keeps _).bind (fun _ _ => ?_) m uniform
  refine keeps_top.bind fun x _ => ?_
  exact (keeps_drop _).bind fun _ _ => keeps_store positive x

theorem keeps_operate (positive : 0 < p) (op : BinaryOp) : Keeps p anything (operate op) := by
  rw [operate_eq]
  refine keeps_top.bind fun y _ => ?_
  refine (keeps_drop 1).bind fun _ _ => ?_
  refine keeps_top.bind fun x x_prec => ?_
  have x_positive : 0 < x.prec := by omega
  cases applied : op.apply x y with
  | ok z => exact keeps_replace ((op.prec_apply x_positive applied).trans x_prec)
  | error e =>
    refine (keeps_replace ((op.prec_leftAfterFailure y x_positive).trans x_prec)).bind fun _ _ => ?_
    exact keeps_throw _

/-- Evaluating the bodies of functions keeps the precision. -/
def CallsKeep (p : Nat) (call : Option (Func → List Number → Evaluation Unit)) : Prop :=
  ∀ enter, call = some enter → ∀ f args, Keeps p anything (enter f args)

theorem keeps_evalAll {ts : List Tree} (trees_keep : ∀ t ∈ ts, Keeps p anything (eval env call frame t)) :
    Keeps p anything (evalAll env call frame ts) := by
  induction ts with
  | nil => exact keeps_pure trivial
  | cons t rest ih =>
    obtain ⟨first, others⟩ := List.forall_mem_cons.mp trees_keep
    rw [evalAll, evalAllWith]
    exact first.bind fun _ _ => ih others

theorem keeps_ident (positive : 0 < env.prec) (calls : CallsKeep (numberPrec env.prec) call) (name : String) :
    Keeps (numberPrec env.prec) anything (eval env call frame (.ident name)) := by
  have place_positive := Environment.numberPrec_pos positive
  rw [eval, evalWith]
  refine (keeps_lookup name).bind fun found _ => ?_
  cases found with
  | some x => exact (keeps_push rfl).bind fun _ _ => keeps_store place_positive x
  | none =>
    cases call with
    | none => exact keeps_throw _
    | some enter =>
      cases env.functions.find? name with
      | none => exact keeps_throw _
      | some f =>
        refine (keeps_checkArity f 0).bind fun _ _ => ?_
        exact (keeps_push rfl).bind fun _ _ => keeps_enterBody place_positive 0 (calls enter rfl f)

theorem keeps_call (positive : 0 < env.prec) (calls : CallsKeep (numberPrec env.prec) call) (function : String)
    {args : List Tree}
    (args_keep : ∀ a ∈ args, Keeps (numberPrec env.prec) anything (eval env call frame a)) :
    Keeps (numberPrec env.prec) anything (eval env call frame (.call function args)) := by
  cases found : env.functions.find? function with
  | none =>
    simp only [eval, evalWith, found]
    exact keeps_throw _
  | some f =>
    cases call with
    | none =>
      simp only [eval, evalWith, found]
      exact keeps_throw _
    | some enter =>
      simp only [eval, evalWith, found]
      refine (keeps_checkArity f args.length).bind fun _ _ => ?_
      refine (keeps_push rfl).bind fun _ _ => ?_
      refine (keeps_evalAll args_keep).bind fun _ _ => ?_
      exact keeps_enterBody (Environment.numberPrec_pos positive) args.length (calls enter rfl f)

/-- Evaluating a tree keeps the precision, whatever its shape and wherever it stops. -/
theorem keeps_eval (positive : 0 < env.prec) (calls : CallsKeep (numberPrec env.prec) call) (t : Tree) :
    Keeps (numberPrec env.prec) anything (eval env call frame t) := by
  have place_positive := Environment.numberPrec_pos positive
  induction t using Tree.induction with
  | absent => exact keeps_throw _
  | number text =>
    refine (keeps_push rfl).bind fun _ _ => ?_
    exact (keeps_literal positive text).bind fun x _ => keeps_store place_positive x
  | ident name => exact keeps_ident positive calls name
  | param index name =>
    refine (keeps_push rfl).bind fun _ _ => ?_
    cases Tree.argument frame index with
    | ok x => exact keeps_store place_positive x
    | error fault => exact keeps_throw _
  | assign name value ih =>
    refine ih.bind fun _ _ => ?_
    exact keeps_top.bind fun x _ => keeps_assign positive name x
  | call function args ih => exact keeps_call positive calls function ih
  | define => exact keeps_throw _
  | unary op operand ih =>
    refine ih.bind fun _ _ => ?_
    exact keeps_top.bind fun x x_prec => keeps_replace ((op.prec_apply x).trans x_prec)
  | binary op left right left_ih right_ih =>
    refine left_ih.bind fun _ _ => ?_
    exact right_ih.bind fun _ _ => keeps_operate place_positive op
  | malformed => exact keeps_throw _
  | extended node name args left right ih => exact ih

theorem callsKeep_none : CallsKeep p none := by
  rintro _ ⟨⟩

theorem callsKeep_callBody (positive : 0 < env.prec) :
    CallsKeep (numberPrec env.prec) (some (callBody env)) := by
  rintro _ ⟨⟩ f args
  exact keeps_eval positive callsKeep_none f.body

theorem keeps_evalLine (positive : 0 < env.prec) (t : Tree) :
    Keeps (numberPrec env.prec) anything (evalLine env t) :=
  keeps_eval positive (callsKeep_callBody positive) t

/-! ### Operations that are checked while they are carried out -/

/-- An operation that stops unless both operands have the precision and what it leaves in the place of the left one has
it too. -/
def checked (p : Nat) (stop : Stop) (op : BinaryOp) : Evaluation Unit := do
  match (← get).stack.live with
  | y :: x :: _ =>
    if x.prec = p ∧ y.prec = p ∧ (op.arith x y).1.prec = p then operate op else throw stop
  | _ => operate op

/-- Evaluates the tree of a line, where `combine` applies the operators in it and in the bodies of functions. -/
def evalLineWith (combine : BinaryOp → Evaluation Unit) (env : Environment) (t : Tree) : Evaluation Unit :=
  evalWith combine env (some fun f args => evalWith combine env none args f.body) [] t

theorem evalLineWith_operate (env : Environment) (t : Tree) : evalLineWith operate env t = evalLine env t :=
  rfl

/-- Steps that do the same wherever all numbers have the precision. -/
def Same (p : Nat) {α : Type} (x x' : Evaluation α) : Prop :=
  ∀ m : Machine, m.Uniform p → x m = x' m

theorem Same.rfl {x : Evaluation α} : Same p x x :=
  fun _ _ => Eq.refl _

theorem Same.bind {x x' : Evaluation α} {k k' : α → Evaluation β} (same : Same p x x') (keeps : Keeps p gives x)
    (next : ∀ a, gives a → Same p (k a) (k' a)) : Same p (x >>= k) (x' >>= k') := by
  intro m uniform
  have ran := keeps m uniform
  have ran' := same m uniform
  generalize result_eq : x m = result at ran ran'
  cases ran with
  | ok after given =>
    rw [bind_ok result_eq, bind_ok ran'.symm]
    exact next _ given _ after
  | error =>
    rw [bind_error result_eq, bind_error ran'.symm]

/-- An operation on numbers of the precision passes its check. -/
theorem same_checked (positive : 0 < p) (stop : Stop) (op : BinaryOp) : Same p (operate op) (checked p stop op) := by
  intro m uniform
  rw [checked, get_bind]
  rcases live : m.stack.live with _ | ⟨y, _ | ⟨x, below⟩⟩
  · rfl
  · rfl
  · have x_prec : x.prec = p := uniform.stack.live x (by simp [live])
    have y_prec : y.prec = p := uniform.stack.live y (by simp [live])
    dsimp only
    rw [if_pos ⟨x_prec, y_prec, (op.prec_arith y (by omega)).trans x_prec⟩]

variable {call' : Option (Func → List Number → Evaluation Unit)} {stop : Stop}

theorem same_enterBody {body body' : List Number → Evaluation Unit} (count : Nat)
    (same : ∀ args, Same p (body args) (body' args)) (keeps : ∀ args, Keeps p anything (body args)) :
    Same p (enterBody count body) (enterBody count body') := by
  intro m uniform
  rw [enterBody, get_bind, enterBody, get_bind]
  exact (same _).bind (keeps _) (fun _ _ => .rfl) m uniform

/-- The bodies of functions are evaluated in the same way. -/
def SameCalls (p : Nat) : (call call' : Option (Func → List Number → Evaluation Unit)) → Prop :=
  Option.Rel fun enter enter' => ∀ f args, Same p (enter f args) (enter' f args)

theorem same_evalAll {ts : List Tree} (keeps : ∀ t ∈ ts, Keeps p anything (eval env call frame t))
    (same : ∀ t ∈ ts, Same p (eval env call frame t) (evalWith (checked p stop) env call' frame t)) :
    Same p (evalAll env call frame ts) (evalAllWith (checked p stop) env call' frame ts) := by
  induction ts with
  | nil =>
    rw [evalAll, evalAllWith, evalAllWith]
    exact .rfl
  | cons t rest ih =>
    obtain ⟨first, others⟩ := List.forall_mem_cons.mp same
    obtain ⟨first_keeps, others_keep⟩ := List.forall_mem_cons.mp keeps
    rw [evalAll, evalAllWith, evalAllWith]
    exact first.bind first_keeps fun _ _ => ih others_keep others

theorem same_ident (calls : SameCalls p call call') (calls_keep : CallsKeep p call) (prec : numberPrec env.prec = p)
    (name : String) :
    Same p (eval env call frame (.ident name)) (evalWith (checked p stop) env call' frame (.ident name)) := by
  rw [eval, evalWith, evalWith]
  refine Same.rfl.bind (keeps_lookup name) fun found _ => ?_
  cases calls with
  | none => exact .rfl
  | @some enter enter' same =>
    cases found with
    | some x => exact .rfl
    | none =>
      cases env.functions.find? name with
      | none => exact .rfl
      | some f =>
        refine Same.rfl.bind (keeps_checkArity f 0) fun _ _ => ?_
        refine Same.rfl.bind (keeps_push prec) fun _ _ => ?_
        exact same_enterBody 0 (same f) (calls_keep enter rfl f)

theorem same_call (calls : SameCalls p call call') (calls_keep : CallsKeep p call) (prec : numberPrec env.prec = p)
    (function : String) {args : List Tree} (args_keep : ∀ a ∈ args, Keeps p anything (eval env call frame a))
    (args_same : ∀ a ∈ args, Same p (eval env call frame a) (evalWith (checked p stop) env call' frame a)) :
    Same p (eval env call frame (.call function args))
      (evalWith (checked p stop) env call' frame (.call function args)) := by
  cases found : env.functions.find? function with
  | none =>
    simp only [eval, evalWith, found]
    exact .rfl
  | some f =>
    cases calls with
    | none =>
      simp only [eval, evalWith, found]
      exact .rfl
    | @some enter enter' same =>
      simp only [eval, evalWith, found]
      refine Same.rfl.bind (keeps_checkArity f args.length) fun _ _ => ?_
      refine Same.rfl.bind (keeps_push prec) fun _ _ => ?_
      refine (same_evalAll args_keep args_same).bind (keeps_evalAll args_keep) fun _ _ => ?_
      exact same_enterBody args.length (same f) (calls_keep enter rfl f)

/-- Checking all operations of a tree changes nothing, if it changes nothing in the bodies that it calls. -/
theorem same_eval (positive : 0 < env.prec) (calls : SameCalls (numberPrec env.prec) call call')
    (calls_keep : CallsKeep (numberPrec env.prec) call) (stop : Stop) (t : Tree) :
    Same (numberPrec env.prec) (eval env call frame t)
      (evalWith (checked (numberPrec env.prec) stop) env call' frame t) := by
  have keeps (t : Tree) : Keeps (numberPrec env.prec) anything (eval env call frame t) :=
    keeps_eval positive calls_keep t
  induction t using Tree.induction with
  | ident name => exact same_ident calls calls_keep rfl name
  | assign name value ih =>
    rw [eval, evalWith, evalWith]
    exact ih.bind (keeps value) fun _ _ => .rfl
  | call function args ih => exact same_call calls calls_keep rfl function (fun a _ => keeps a) ih
  | unary op operand ih =>
    rw [eval, evalWith, evalWith]
    exact ih.bind (keeps operand) fun _ _ => .rfl
  | binary op left right left_ih right_ih =>
    rw [eval, evalWith, evalWith]
    refine left_ih.bind (keeps left) fun _ _ => ?_
    refine right_ih.bind (keeps right) fun _ _ => ?_
    exact same_checked (Environment.numberPrec_pos positive) stop op
  | extended node name args left right ih =>
    rw [eval, evalWith, evalWith]
    exact ih
  | absent | number | param | define | malformed =>
    rw [eval, evalWith, evalWith]
    exact .rfl

theorem same_evalLine (positive : 0 < env.prec) (stop : Stop) (t : Tree) :
    Same (numberPrec env.prec) (evalLine env t) (evalLineWith (checked (numberPrec env.prec) stop) env t) := by
  have bodies (f : Func) (args : List Number) : Same (numberPrec env.prec) (callBody env f args)
      (evalWith (checked (numberPrec env.prec) stop) env none args f.body) :=
    same_eval positive .none callsKeep_none stop f.body
  exact same_eval positive (.some bodies) (callsKeep_callBody positive) stop t

end Evaluation

namespace Environment

variable {env' : Environment} {settings : List Setting} {line : Line}

/-- All numbers of an environment have one precision: its variables, the literals that it remembers, and the places of
its stack, whether in use or not. -/
structure Uniform (p : Nat) (env : Environment) : Prop where
  vars : env.vars.All fun _ x => x.prec = p
  literals : ∀ table, env.literals = some table → table.All fun _ x => x.prec = p
  stack : env.stack.Uniform p

theorem Uniform.machine (uniform : env.Uniform p) : env.machine.Uniform p :=
  ⟨uniform.stack, uniform.literals, Bindings.all_empty⟩

theorem Uniform.settle (uniform : env.Uniform p) (after : m.Uniform p) : (settle env m).Uniform p :=
  ⟨uniform.vars, after.literals, after.stack⟩

/-- A copy rounds the numbers that it takes over, but for variables of the same precision. -/
theorem uniform_of_clone (copied : env.clone settings = .ok env') (positive : 0 < env'.prec)
    (unchanged : env'.prec = env.prec → env.vars.All fun _ x => x.prec = numberPrec env.prec) :
    env'.Uniform (numberPrec env'.prec) := by
  obtain ⟨vars, applied, same⟩ := Except.bind_eq_ok_iff.mp copied
  cases same
  dsimp only at positive unchanged
  generalize (Setting.lastPrec? settings).getD env.prec = prec at *
  refine ⟨settings_prec positive (varsAt_prec positive unchanged) applied, ?_, ⟨nofun, nofun⟩⟩
  rintro table ⟨⟩
  dsimp only [literalsAt]
  split
  · exact all_map_keep positive _
  · exact Bindings.all_empty

theorem uniform_of_create {constants : Constants} (created : create settings constants = .ok env)
    (positive : 0 < env.prec) : env.Uniform (numberPrec env.prec) :=
  uniform_of_clone created positive fun same => initial_prec (same ▸ positive)

theorem Uniform.set (uniform : env.Uniform (numberPrec env.prec)) (positive : 0 < env.prec) {name : String}
    {x : Number} (bound : env.set name x = .ok env') : env'.Uniform (numberPrec env'.prec) := by
  unfold Environment.set at bound
  split at bound
  · cases bound
    exact ⟨uniform.vars.insert (prec_keep positive x), uniform.literals, uniform.stack⟩
  · cases bound

theorem prec_set {name : String} {x : Number} (bound : env.set name x = .ok env') : env'.prec = env.prec := by
  unfold Environment.set at bound
  split at bound <;> cases bound
  rfl

/-- An outcome whose value, if there is one, has the precision of the environment, as has everything that is left
behind. -/
structure Precise (env : Environment) (outcome : Except Stop Result × Environment) : Prop where
  prec : outcome.2.prec = env.prec
  value : ∀ x, outcome.1 = .ok (.value x) → x.prec = numberPrec env.prec
  uniform : outcome.2.Uniform (numberPrec env.prec)

theorem precise_of_error {stop : Stop} (prec : env'.prec = env.prec)
    (uniform : env'.Uniform (numberPrec env.prec)) : Precise env (.error stop, env') := by
  refine ⟨prec, ?_, uniform⟩
  rintro _ ⟨⟩

theorem Uniform.commit (uniform : env.Uniform (numberPrec env.prec)) (after : m.Uniform (numberPrec env.prec)) :
    Precise env (commit env m) := by
  unfold Environment.commit
  split
  · rename_i x live
    refine ⟨rfl, ?_, uniform.vars.overriddenBy after.writes, after.literals, after.stack.drop 1⟩
    rintro _ ⟨⟩
    exact after.stack.live x (live ▸ List.mem_singleton_self x)
  · exact precise_of_error rfl (uniform.settle after)

/-- Evaluating a line keeps the precision, whatever tree it has and however it ends. -/
theorem Uniform.evaluate (uniform : env.Uniform (numberPrec env.prec)) (positive : 0 < env.prec) (line : Line) :
    Precise env (env.evaluate line) := by
  unfold Environment.evaluate
  split
  · exact precise_of_error rfl uniform
  split
  · split
    · refine ⟨rfl, ?_, uniform.vars, uniform.literals, uniform.stack⟩
      rintro _ ⟨⟩
    · exact precise_of_error rfl uniform
  · have kept := Evaluation.keeps_evalLine positive line.tree.core env.machine uniform.machine
    unfold Environment.machine at kept
    dsimp only
    generalize Evaluation.evalLine env line.tree.core _ = result at kept ⊢
    cases kept with
    | ok after => exact uniform.commit after
    | @error stop m after =>
      cases stop with
      | error e =>
        have cleared : Machine.Uniform (numberPrec env.prec) { m with stack := m.stack.clear } :=
          ⟨after.stack.drop _, after.literals, after.writes⟩
        exact precise_of_error rfl (uniform.settle cleared)
      | fault f => exact precise_of_error rfl (uniform.settle after)

end Environment

theorem Reachable.uniform (reachable : Reachable .positive env) :
    0 < env.prec ∧ env.Uniform (numberPrec env.prec) := by
  induction reachable with
  | create created positive => exact ⟨positive, Environment.uniform_of_create created positive⟩
  | @evaluate env source text line _ read returns ih =>
    have precise := ih.2.evaluate ih.1 line
    rw [precise.prec]
    exact ⟨ih.1, precise.uniform⟩
  | set _ bound ih => exact ⟨Environment.prec_set bound ▸ ih.1, ih.2.set ih.1 bound⟩
  | clone _ copied positive ih => exact ⟨positive, Environment.uniform_of_clone copied positive fun _ => ih.2.vars⟩

/-- Why a run stopped, if it did, and the values on the stack then. -/
def Evaluation.ending : EStateM.Result Stop Machine Unit → Option Stop × List Number
  | .ok _ m => (none, m.stack.live)
  | .error stop m => (some stop, m.stack.live)

namespace Environment

open Evaluation (checked evalLineWith ending)

/-- Every number that an environment holds, gives or computes with has its precision, or the largest one that numbers
can have if that is less. As to what it computes with: nothing changes if every operation that a line carries out stops
unless its operands and its result have that precision. -/
theorem numbers_have_prec (reachable : Reachable .positive env) :
    env.Uniform (min env.prec Number.maxPrec) ∧
      (∀ line, Precise env (env.evaluate line)) ∧
      ∀ t stop, evalLineWith (checked (min env.prec Number.maxPrec) stop) env t env.machine =
        Evaluation.evalLine env t env.machine := by
  obtain ⟨positive, uniform⟩ := reachable.uniform
  refine ⟨uniform, uniform.evaluate positive, fun t stop => ?_⟩
  exact (Evaluation.same_evalLine positive stop t env.machine uniform.machine).symm

/-- The product in the body of a function, which is called in the right operand of a sum, is checked before the sum is:
at another precision it stops with both of its operands on top of the stack. -/
theorem numbers_have_prec_call :
    ∃ env, Reachable .positive env ∧ env.prec = 8 ∧
      ending (evalLineWith (checked 8 (.fault .missing)) env
          (.binary .add (.number "1") (.call "f" [.number "3"])) env.machine) =
        (none, [{ prec := 8, neg := false, mag := .finite 7 0, words := 1 }]) ∧
      ending (evalLineWith (checked 9 (.fault .missing)) env
          (.binary .add (.number "1") (.call "f" [.number "3"])) env.machine) =
        (some (.fault .missing),
          [{ prec := 8, neg := false, mag := .finite 1 1, words := 1 },
            { prec := 8, neg := false, mag := .finite 3 0, words := 1 },
            { prec := 8, neg := false, mag := .finite 3 0, words := 1 }, .zero 8,
            { prec := 8, neg := false, mag := .finite 1 0, words := 1 }]) ∧
      env.Uniform (min env.prec Number.maxPrec) := by
  have start : Reachable .positive (blank 8) := .create (create_blank 8) (Nat.succ_pos 7)
  have defined := start.exec_ok (show (exec _ (Text.ofString "f a => a * 2")).1 = .ok .defined by cbv)
  exact ⟨_, defined, by cbv, by cbv, by cbv, (numbers_have_prec defined).1⟩

/-- A copy can ask for more than the largest precision of numbers, and its numbers do not have it. -/
theorem prec_above_maxPrec :
    ∃ env, Reachable .positive env ∧ env.prec = 4294967296 ∧
      env.vars.find? "x" = some (.zero 4294967295) ∧
      (env.exec (Text.ofString "x")).1 = .ok (.value (.zero 4294967295)) := by
  have start : Reachable .positive (blank 64) := .create (create_blank 64) (Nat.succ_pos 63)
  have assigned := start.exec_ok (show (exec _ (Text.ofString "x = 0")).1 = .ok (.value (.zero 64)) by cbv)
  exact ⟨_, .clone assigned (clone_prec _ 4294967296) (Nat.succ_pos _), rfl, by cbv, by cbv⟩

end Environment

end Abacus
