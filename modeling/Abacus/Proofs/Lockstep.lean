import Abacus.Proofs.Effects
import Mathlib

/-!
Two evaluations of one tree, side by side.

The environments have the same precision and the same functions, every name has the same value in both, and every
literal is worth the same. What else the machines hold may differ as long as it does not show: what was in a place of
the stack before, and whether a value was just assigned or has long been a variable. Then they end in the same way,
with the same value or with the same error, and every name has the same value again.

Which differences between two places do not show depends on the numbers that are stored in them, so this is left open
here: a `Lockstep` says which numbers occur and which places may face each other.
-/

namespace Abacus

open Environment (numberPrec keep)

variable {env env' : Environment} {m m' : Machine}

/-- A place of the stack that was never in use. -/
abbrev Environment.unused (env : Environment) : Number :=
  .zero (numberPrec env.prec)

/-- What a literal is worth to a machine. -/
def Machine.worth (env : Environment) (m : Machine) (text : String) : Except Stop Number :=
  match m.literals, m.literals.bind (·.find? text), Number.parse env.prec text with
  | _, some x, _ => .ok x
  | _, none, .error e => .error (.fault (.invalidNumber text e))
  | none, none, .ok _ => .error (.fault .noLiteralTable)
  | some _, none, .ok x => .ok x

/-- The value of a name, which may just have been assigned. -/
def Machine.bound (env : Environment) (m : Machine) (name : String) : Option Number :=
  (m.writes.find? name).or (env.vars.find? name)

theorem Machine.worth_of_table {table : Bindings Number} (has_table : m.literals = some table) (text : String) :
    m.worth env text =
      match table.find? text with
      | some x => .ok x
      | none => (Number.parse env.prec text).mapError fun e => .fault (.invalidNumber text e) := by
  rw [worth, has_table, Option.bind_some]
  cases table.find? text with
  | some x => rfl
  | none => cases Number.parse env.prec text <;> rfl

/-- A literal that is met is remembered, which leaves all literals worth what they were. -/
theorem Evaluation.literal_remembers (env : Environment) (m : Machine) (text : String) :
    (∃ x literals, Evaluation.literal env text m = .ok x { m with literals } ∧ m.worth env text = .ok x ∧
      ∀ other, Machine.worth env { m with literals } other = m.worth env other) ∨
    ∃ stop, Evaluation.literal env text m = .error stop m ∧ m.worth env text = .error stop := by
  cases has_table : m.literals with
  | none =>
    rw [Machine.worth, Evaluation.literal, Evaluation.get_bind, has_table]
    cases Number.parse env.prec text <;> exact .inr ⟨_, rfl, rfl⟩
  | some table =>
    rw [Evaluation.literal_eq env has_table, Machine.worth_of_table has_table]
    cases found : table.find? text with
    | some x => exact .inl ⟨x, m.literals, rfl, rfl, fun _ => rfl⟩
    | none =>
      cases read : Number.parse env.prec text with
      | error e => exact .inr ⟨_, rfl, rfl⟩
      | ok x =>
        refine .inl ⟨x, some (table.insert text x), rfl, rfl, fun other => ?_⟩
        rw [Machine.worth_of_table rfl, Machine.worth_of_table has_table, Bindings.find?_insert]
        by_cases same : other = text
        · subst same
          rw [if_pos rfl, found, read]
          rfl
        · rw [if_neg same]

/-- The place that comes into use is a new one where none is left. -/
theorem Evaluation.push_eq (env : Environment) (m : Machine) :
    Evaluation.push env m = .ok () { m with
      stack := { live := m.stack.spare.getD 0 env.unused :: m.stack.live
                 spare := m.stack.spare.tail } } := by
  change EStateM.Result.ok () { m with stack := m.stack.push _ } = _
  rw [Stack.push]
  cases m.stack.spare <;> rfl

theorem getD_append_related {R : Number → Number → Prop} {fresh : Number} {front front' rest rest' : List Number}
    (fronts : List.Forall₂ R front front') (rests : ∀ i, R (rest.getD i fresh) (rest'.getD i fresh)) :
    ∀ i, R ((front ++ rest).getD i fresh) ((front' ++ rest').getD i fresh) := by
  induction fronts with
  | nil => exact rests
  | cons first _ ih =>
    intro i
    cases i with
    | zero => exact first
    | succ i => exact ih i

theorem Tree.mem_of_argument {args : List Number} {index : Int} {x : Number} (given : argument args index = .ok x) :
    x ∈ args := by
  unfold argument at given
  by_cases negative : index < 0
  · rw [if_pos negative] at given
    cases given
  · rw [if_neg negative] at given
    cases found : args[index.toNat]? with
    | none =>
      rw [found] at given
      cases given
    | some y =>
      rw [found] at given
      cases given
      exact List.mem_of_getElem? found

/-- How far two runs in these environments may differ. -/
structure Lockstep (env env' : Environment) where
  prec : env'.prec = env.prec
  functions : env'.functions = env.functions
  /-- What literals are worth. -/
  literal : String → Except Stop Number
  /-- The nodes that are evaluated. -/
  Meets : Tree → Prop
  /-- The numbers that are stored. -/
  Value : Number → Prop
  /-- The places that may face each other. -/
  Place : Number → Number → Prop
  unused : Place env.unused env.unused
  place_of_value : ∀ {x}, Value x → Place x x
  store : ∀ {a b x}, Place a b → Value x → x.atPrec a.prec = x.atPrec b.prec ∧ Value (x.atPrec a.prec)
  value_literal : ∀ {text x}, Meets (.number text) → literal text = .ok x → Value x
  value_keep : ∀ {x}, Value x → Value (keep env.prec x)
  value_unary : ∀ (op : UnaryOp) {x}, Value x → Value (op.apply x)
  value_binary : ∀ (op : BinaryOp) {x y z}, Value x → op.apply x y = .ok z → Value z
  value_failed : ∀ (op : BinaryOp) {x} (y), Value x → Value (op.leftAfterFailure x y)

namespace Lockstep

variable (L : Lockstep env env')

/-- The machines cannot be told apart. -/
structure Agree (m m' : Machine) : Prop where
  places : List.Forall₂ L.Place m.stack.live m'.stack.live
  spares : ∀ i, L.Place (m.stack.spare.getD i env.unused) (m'.stack.spare.getD i env.unused)
  literals : ∀ text, m.worth env text = L.literal text
  literals' : ∀ text, m'.worth env' text = L.literal text
  bound : ∀ name, m'.bound env' name = m.bound env name
  values : ∀ name x, L.Meets (.ident name) → m.bound env name = some x → L.Value x

/-- The machines cannot be told apart, and have these places in use. -/
structure At (live live' : List Number) (m m' : Machine) : Prop extends L.Agree m m' where
  live : m.stack.live = live
  live' : m'.stack.live = live'

/-- One value has been pushed on both stacks. -/
def Gives (live live' : List Number) (_ : Unit) (m m' : Machine) : Prop :=
  ∃ x, L.Value x ∧ L.At (x :: live) (x :: live') m m'

/-- The runs end with the same error, or both without one. -/
inductive Ends {α : Type} (after : α → Machine → Machine → Prop) :
    EStateM.Result Stop Machine α → EStateM.Result Stop Machine α → Prop
  | ok {a : α} {m m' : Machine} (holds : after a m m') : Ends after (.ok a m) (.ok a m')
  | error {stop : Stop} {m m' : Machine} (agree : L.Agree m m') : Ends after (.error stop m) (.error stop m')

/-- From whatever stacks, the runs end in the same way, and push one value if they end without an error. -/
def Runs (x x' : Evaluation Unit) : Prop :=
  ∀ ⦃live live' m m'⦄, L.At live live' m m' → L.Ends (L.Gives live live') (x m) (x' m')

variable {L} {α β : Type} {after : α → Machine → Machine → Prop} {after' : β → Machine → Machine → Prop}
  {live live' : List Number} {p p' x y : Number} {t part : Tree} {frame : List Number}
  {call call' : Option (Func → List Number → Evaluation Unit)}

theorem Ends.bind {x x' : Evaluation α} {k k' : α → Evaluation β} (first : L.Ends after (x m) (x' m'))
    (next : ∀ a m₁ m₁', after a m₁ m₁' → L.Ends after' (k a m₁) (k' a m₁')) :
    L.Ends after' ((x >>= k) m) ((x' >>= k') m') := by
  generalize ran : x m = result, ran' : x' m' = result' at first
  cases first with
  | ok holds =>
    rw [Evaluation.bind_ok ran, Evaluation.bind_ok ran']
    exact next _ _ _ holds
  | error agree =>
    rw [Evaluation.bind_error ran, Evaluation.bind_error ran']
    exact .error agree

theorem At.throw (start : L.At live live' m m') (stop : Stop) :
    L.Ends after ((throw stop : Evaluation α) m) ((throw stop : Evaluation α) m') :=
  .error start.toAgree

theorem At.place (start : L.At (p :: live) (p' :: live') m m') : L.Place p p' := by
  have places := start.places
  rw [start.live, start.live'] at places
  exact (List.forall₂_cons.mp places).1

theorem At.push (start : L.At live live' m m') :
    L.Ends (fun _ m m' => ∃ p p', L.At (p :: live) (p' :: live') m m') (Evaluation.push env m)
      (Evaluation.push env' m') := by
  have unused : env'.unused = env.unused := by rw [Environment.unused, L.prec]
  rw [Evaluation.push_eq, Evaluation.push_eq, unused]
  refine .ok ⟨m.stack.spare.getD 0 env.unused, m'.stack.spare.getD 0 env.unused, ?_⟩
  refine { start.toAgree with places := ?_, spares := fun i => ?_, live := ?_, live' := ?_ }
  · exact .cons (start.spares 0) start.places
  · simpa using start.spares (i + 1)
  · exact congrArg _ start.live
  · exact congrArg _ start.live'

theorem At.replace (start : L.At (p :: live) (p' :: live') m m') (value : L.Value x) :
    L.Ends (L.Gives live live') (Evaluation.replace x m) (Evaluation.replace x m') := by
  have below := start.places
  rw [start.live, start.live'] at below
  refine .ok ⟨x, value, { start.toAgree with places := ?_, live := ?_, live' := ?_ }⟩
  · change List.Forall₂ L.Place (x :: m.stack.live.tail) (x :: m'.stack.live.tail)
    rw [start.live, start.live']
    exact .cons (L.place_of_value value) (List.forall₂_cons.mp below).2
  · change x :: m.stack.live.tail = _
    rw [start.live]
    rfl
  · change x :: m'.stack.live.tail = _
    rw [start.live']
    rfl

/-- The value that is stored is the same although the places may differ. -/
theorem At.store (start : L.At (p :: live) (p' :: live') m m') (value : L.Value x) :
    L.Ends (L.Gives live live') (Evaluation.store x m) (Evaluation.store x m') := by
  obtain ⟨same, stored⟩ := L.store start.place value
  have left : Evaluation.store x m = Evaluation.replace (x.atPrec p.prec) m := by
    change EStateM.Result.ok () { m with stack := m.stack.store x } = _
    rw [Stack.store_of_live x p start.live]
    rfl
  have right : Evaluation.store x m' = Evaluation.replace (x.atPrec p.prec) m' := by
    change EStateM.Result.ok () { m' with stack := m'.stack.store x } = _
    rw [Stack.store_of_live x p' start.live', ← same]
    rfl
  rw [left, right]
  exact start.replace stored

theorem At.drop (start : L.At live live' m m') (n : Nat) :
    L.Ends (fun _ => L.At (live.drop n) (live'.drop n)) (Evaluation.drop n m) (Evaluation.drop n m') := by
  refine .ok { start.toAgree with places := ?_, spares := ?_, live := ?_, live' := ?_ }
  · exact List.forall₂_drop n start.places
  · exact getD_append_related (List.rel_reverse (List.forall₂_take n start.places)) start.spares
  · exact congrArg (List.drop n) start.live
  · exact congrArg (List.drop n) start.live'

theorem At.top_bind {k k' : Number → Evaluation β} (start : L.At (x :: live) (x :: live') m m')
    (next : L.Ends after' (k x m) (k' x m')) :
    L.Ends after' ((Evaluation.top >>= k) m) ((Evaluation.top >>= k') m') := by
  rw [Evaluation.bind_ok (Evaluation.top_of_live start.live),
    Evaluation.bind_ok (Evaluation.top_of_live start.live')]
  exact next

theorem At.literal (start : L.At live live' m m') {text : String} (meets : L.Meets (.number text)) :
    L.Ends (fun x m m' => L.Value x ∧ L.At live live' m m') (Evaluation.literal env text m)
      (Evaluation.literal env' text m') := by
  have worth := start.literals text
  have worth' := start.literals' text
  rcases Evaluation.literal_remembers env m text with ⟨x, table, ran, value, same⟩ | ⟨stop, failed, no_value⟩
  · rcases Evaluation.literal_remembers env' m' text with ⟨y, table', ran', value', same'⟩ | ⟨_, _, no_value'⟩
    · have x_worth := worth.symm.trans value
      cases x_worth.symm.trans (worth'.symm.trans value')
      rw [ran, ran']
      refine .ok ⟨L.value_literal meets x_worth, { start with literals := ?_, literals' := ?_ }⟩
      · exact fun other => (same other).trans (start.literals other)
      · exact fun other => (same' other).trans (start.literals' other)
    · cases (value.symm.trans worth).trans (worth'.symm.trans no_value')
  · rcases Evaluation.literal_remembers env' m' text with ⟨_, _, _, value', _⟩ | ⟨stop', failed', no_value'⟩
    · cases (no_value.symm.trans worth).trans (worth'.symm.trans value')
    · cases (no_value.symm.trans worth).trans (worth'.symm.trans no_value')
      rw [failed, failed']
      exact .error start.toAgree

theorem At.assign (start : L.At live live' m m') (name : String) (value : L.Value x) :
    L.Ends (fun _ => L.At live live') (Evaluation.assign env name x m) (Evaluation.assign env' name x m') := by
  have kept : keep env'.prec x = keep env.prec x := by rw [L.prec]
  have bound : ∀ (e : Environment) (n : Machine) (y : Number) (other : String),
      Machine.bound e { n with writes := n.writes.insert name y } other =
        if other = name then some y else n.bound e other := by
    intro e n y other
    rw [Machine.bound, Bindings.find?_insert]
    split <;> rfl
  refine .ok { start with
    bound := fun other => ?_, values := fun other y meets found => ?_ }
  · rw [bound, bound, kept, start.bound]
  · rw [bound] at found
    split at found
    · cases found
      exact L.value_keep value
    · exact start.values other y meets found

theorem At.checkArity_bind {k k' : Unit → Evaluation β} (start : L.At live live' m m') (f : Func) (given : Nat)
    (next : given = f.params.length → L.Ends after' (k () m) (k' () m')) :
    L.Ends after' ((Evaluation.checkArity f given >>= k) m) ((Evaluation.checkArity f given >>= k') m') := by
  unfold Evaluation.checkArity
  split
  · exact next ‹_›
  · exact start.throw _

/-- A value goes to a new place. -/
theorem At.push_store (start : L.At live live' m m') (value : L.Value x) :
    L.Ends (L.Gives live live') ((Evaluation.push env >>= fun _ => Evaluation.store x) m)
      ((Evaluation.push env' >>= fun _ => Evaluation.store x) m') := by
  refine start.push.bind fun _ m₁ m₁' pushed => ?_
  obtain ⟨p, p', pushed⟩ := pushed
  exact pushed.store value

theorem At.operate (start : L.At (y :: x :: live) (y :: x :: live') m m') (value : L.Value x) (op : BinaryOp) :
    L.Ends (L.Gives live live') (Evaluation.operate op m) (Evaluation.operate op m') := by
  rw [Evaluation.operate_eq]
  refine start.top_bind ?_
  refine (start.drop 1).bind fun _ m₁ m₁' dropped => ?_
  refine dropped.top_bind ?_
  cases applied : op.apply x y with
  | ok z => exact dropped.replace (L.value_binary op value applied)
  | error e =>
    refine (dropped.replace (L.value_failed op y value)).bind fun _ m₂ m₂' replaced => ?_
    obtain ⟨z, -, replaced⟩ := replaced
    exact replaced.throw _

/-- The value of a body goes to the place below its arguments. -/
theorem At.enterBody {args : List Number} {count : Nat} {body body' : List Number → Evaluation Unit}
    (start : L.At (args ++ p :: live) (args ++ p' :: live') m m') (size : args.length = count)
    (runs : L.Ends (L.Gives (args ++ p :: live) (args ++ p' :: live')) (body args.reverse m)
      (body' args.reverse m')) :
    L.Ends (L.Gives live live') (Evaluation.enterBody count body m) (Evaluation.enterBody count body' m') := by
  have taken : m.stack.live.take count = args := by rw [start.live, ← size, List.take_left]
  have taken' : m'.stack.live.take count = args := by rw [start.live', ← size, List.take_left]
  rw [Evaluation.enterBody, Evaluation.enterBody, Evaluation.get_bind, Evaluation.get_bind, taken, taken']
  refine runs.bind fun _ m₁ m₁' ended => ?_
  obtain ⟨z, value, ended⟩ := ended
  refine ended.top_bind ?_
  refine (ended.drop (count + 1)).bind fun _ m₂ m₂' dropped => ?_
  rw [List.drop_succ_cons, List.drop_succ_cons, ← size, List.drop_left, List.drop_left] at dropped
  exact dropped.store value

theorem ends_evalAll {ts : List Tree} (start : L.At live live' m m')
    (runs : ∀ t ∈ ts, L.Runs (Evaluation.eval env call frame t) (Evaluation.eval env' call' frame t)) :
    L.Ends (fun _ m m' => ∃ xs, xs.length = ts.length ∧ (∀ x ∈ xs, L.Value x) ∧ L.At (xs ++ live) (xs ++ live') m m')
      (Evaluation.evalAll env call frame ts m) (Evaluation.evalAll env' call' frame ts m') := by
  induction ts generalizing live live' m m' with
  | nil =>
    rw [Evaluation.evalAll, Evaluation.evalAll, Evaluation.evalAllWith, Evaluation.evalAllWith]
    exact .ok ⟨[], rfl, by simp, start⟩
  | cons t rest ih =>
    obtain ⟨first, others⟩ := List.forall_mem_cons.mp runs
    rw [Evaluation.evalAll, Evaluation.evalAll, Evaluation.evalAllWith, Evaluation.evalAllWith]
    refine (first start).bind fun _ m₁ m₁' pushed => ?_
    obtain ⟨x, value, pushed⟩ := pushed
    have after_rest := ih pushed others
    rw [Evaluation.evalAll, Evaluation.evalAll] at after_rest
    generalize Evaluation.evalAllWith _ env call frame rest m₁ = result,
      Evaluation.evalAllWith _ env' call' frame rest m₁' = result' at after_rest ⊢
    cases after_rest with
    | error agree => exact .error agree
    | ok holds =>
      obtain ⟨xs, size, values, ended⟩ := holds
      refine .ok ⟨xs ++ [x], ?_, fun y inside => ?_, ?_⟩
      · simp [size]
      · rcases List.mem_append.mp inside with later | last
        · exact values y later
        · rw [List.mem_singleton.mp last]
          exact value
      · simpa using ended

/-- How the bodies of functions are evaluated on both sides, if they are. -/
inductive Callees (L : Lockstep env env') (t : Tree) :
    (call call' : Option (Func → List Number → Evaluation Unit)) → Prop
  | inside : Callees L t none none
  | enters {enter enter' : Func → List Number → Evaluation Unit}
      (runs : ∀ f, env.Calls t f → ∀ args, (∀ x ∈ args, L.Value x) → L.Runs (enter f args) (enter' f args)) :
      Callees L t (some enter) (some enter')

theorem Callees.mono (callees : L.Callees t call call') (sub : part.nodes ⊆ t.nodes) :
    L.Callees part call call' := by
  cases callees with
  | inside => exact .inside
  | enters runs => exact .enters fun f calls => runs f (calls.mono sub)

theorem ends_ident {name : String} (start : L.At live live' m m') (meets : L.Meets (.ident name))
    (callees : L.Callees (.ident name) call call') :
    L.Ends (L.Gives live live') (Evaluation.eval env call frame (.ident name) m)
      (Evaluation.eval env' call' frame (.ident name) m') := by
  have same : (m'.writes.find? name).or (env'.vars.find? name) = (m.writes.find? name).or (env.vars.find? name) :=
    start.bound name
  rw [Evaluation.eval, Evaluation.eval, Evaluation.evalWith, Evaluation.evalWith,
    Evaluation.bind_ok (Evaluation.lookup_eq env name m), Evaluation.bind_ok (Evaluation.lookup_eq env' name m'), same,
    L.functions]
  cases bound : (m.writes.find? name).or (env.vars.find? name) with
  | some x => exact start.push_store (start.values name x meets bound)
  | none =>
    have unbound : env.vars.find? name = none := (Option.or_eq_none_iff.mp bound).2
    cases callees with
    | inside => exact start.throw _
    | enters runs =>
      cases found : env.functions.find? name with
      | none => exact start.throw _
      | some f =>
        refine start.checkArity_bind f 0 fun arity => ?_
        have calls := Environment.calls_of_ident unbound found (List.length_eq_zero_iff.mp arity.symm)
        refine start.push.bind fun _ m₁ m₁' pushed => ?_
        obtain ⟨p, p', pushed⟩ := pushed
        have above_none : L.At ([] ++ p :: live) ([] ++ p' :: live') m₁ m₁' := pushed
        exact above_none.enterBody rfl (runs f calls [] (by simp) pushed)

theorem ends_call {function : String} {args : List Tree} (start : L.At live live' m m')
    (callees : L.Callees (.call function args) call call')
    (runs : ∀ a ∈ args, L.Runs (Evaluation.eval env call frame a) (Evaluation.eval env' call' frame a)) :
    L.Ends (L.Gives live live') (Evaluation.eval env call frame (.call function args) m)
      (Evaluation.eval env' call' frame (.call function args) m') := by
  simp only [Evaluation.eval, Evaluation.evalWith, L.functions]
  cases found : env.functions.find? function with
  | none => exact start.throw _
  | some f =>
    cases callees with
    | inside => exact start.throw _
    | enters enters =>
      refine start.checkArity_bind f args.length fun _ => ?_
      refine start.push.bind fun _ m₁ m₁' pushed => ?_
      obtain ⟨p, p', pushed⟩ := pushed
      refine (ends_evalAll pushed runs).bind fun _ m₂ m₂' evaluated => ?_
      obtain ⟨xs, size, values, evaluated⟩ := evaluated
      have reversed : ∀ x ∈ xs.reverse, L.Value x := fun x inside => values x (List.mem_reverse.mp inside)
      exact evaluated.enterBody size (enters f (Environment.calls_of_call found) xs.reverse reversed evaluated)

/-- Evaluating a tree on both sides ends in the same way. -/
theorem runs_eval (callees : L.Callees t call call') (meets : ∀ node ∈ t.nodes, L.Meets node)
    (args : ∀ x ∈ frame, L.Value x) :
    L.Runs (Evaluation.eval env call frame t) (Evaluation.eval env' call' frame t) := by
  induction t using Tree.induction with
  | absent | define | malformed => exact fun _ _ _ _ start => start.throw _
  | number text =>
    intro live live' m m' start
    refine start.push.bind fun _ m₁ m₁' pushed => ?_
    obtain ⟨p, p', pushed⟩ := pushed
    refine (pushed.literal (meets _ (List.mem_singleton_self _))).bind fun x m₂ m₂' read => ?_
    exact read.2.store read.1
  | ident name =>
    intro live live' m m' start
    exact ends_ident start (meets _ (List.mem_singleton_self _)) callees
  | param index name =>
    intro live live' m m' start
    refine start.push.bind fun _ m₁ m₁' pushed => ?_
    obtain ⟨p, p', pushed⟩ := pushed
    cases given : Tree.argument frame index with
    | ok x => exact pushed.store (args x (Tree.mem_of_argument given))
    | error fault => exact pushed.throw _
  | assign name value ih =>
    have sub := Tree.nodes_value name value
    have value_runs := ih (callees.mono sub) fun node inside => meets node (sub inside)
    intro live live' m m' start
    refine (value_runs start).bind fun _ m₁ m₁' pushed => ?_
    obtain ⟨x, known, pushed⟩ := pushed
    refine pushed.top_bind ?_
    have assigned := pushed.assign name known
    generalize Evaluation.assign env name x m₁ = result, Evaluation.assign env' name x m₁' = result' at assigned ⊢
    cases assigned with
    | ok holds => exact .ok ⟨x, known, holds⟩
    | error agree => exact .error agree
  | call function args ih =>
    intro live live' m m' start
    refine ends_call start callees fun a inside => ?_
    have sub := Tree.nodes_arg function inside
    exact ih a inside (callees.mono sub) fun node below => meets node (sub below)
  | unary op operand ih =>
    have sub := Tree.nodes_operand op operand
    have operand_runs := ih (callees.mono sub) fun node inside => meets node (sub inside)
    intro live live' m m' start
    refine (operand_runs start).bind fun _ m₁ m₁' pushed => ?_
    obtain ⟨x, known, pushed⟩ := pushed
    exact pushed.top_bind (pushed.replace (L.value_unary op known))
  | binary op left right left_ih right_ih =>
    have sub := Tree.nodes_left op left right
    have sub' := Tree.nodes_right op left right
    have left_runs := left_ih (callees.mono sub) fun node inside => meets node (sub inside)
    have right_runs := right_ih (callees.mono sub') fun node inside => meets node (sub' inside)
    intro live live' m m' start
    refine (left_runs start).bind fun _ m₁ m₁' pushed => ?_
    obtain ⟨x, known, pushed⟩ := pushed
    refine (right_runs pushed).bind fun _ m₂ m₂' both => ?_
    obtain ⟨y, -, both⟩ := both
    exact both.operate known op
  | extended node name args left right ih =>
    have sub : node.nodes ⊆ (Tree.extended node name args left right).nodes := by
      simp [Tree.nodes]
    exact ih (callees.mono sub) fun part inside => meets part (sub inside)

/-- The nodes of a tree and of the functions that it calls are among those that are evaluated. -/
structure MeetsAll (L : Lockstep env env') (t : Tree) : Prop where
  own : ∀ node ∈ t.nodes, L.Meets node
  called : ∀ f, env.Calls t f → ∀ node ∈ f.body.nodes, L.Meets node

theorem MeetsAll.runs (meets : L.MeetsAll t) :
    L.Runs (Evaluation.evalLine env t) (Evaluation.evalLine env' t) := by
  refine runs_eval (.enters fun f calls args values => ?_) meets.own (by simp)
  exact runs_eval .inside (meets.called f calls) values

/-- Lines whose trees end in the same way give the same, and leave the same variables if they succeed. -/
theorem Ends.evaluate {line line' : Line} (ok : line.tree.Expression true []) (ok' : line'.tree.Expression true [])
    (idle : env.stack.live = []) (idle' : env'.stack.live = [])
    (ends : L.Ends (L.Gives [] []) (Evaluation.evalLine env line.tree env.machine)
      (Evaluation.evalLine env' line'.tree env'.machine)) :
    (env'.evaluate line').1 = (env.evaluate line).1 ∧
      ∀ result, (env.evaluate line).1 = .ok result →
        (env'.evaluate line').2.vars.find? = (env.evaluate line).2.vars.find? := by
  rw [Environment.evaluate_expression idle ok, Environment.evaluate_expression idle' ok']
  generalize Evaluation.evalLine env line.tree env.machine = outcome,
    Evaluation.evalLine env' line'.tree env'.machine = outcome' at ends
  cases ends with
  | @error stop m m' =>
    cases stop with
    | error e => exact ⟨rfl, by rintro _ ⟨⟩⟩
    | fault f => exact ⟨rfl, by rintro _ ⟨⟩⟩
  | @ok _ m m' holds =>
    obtain ⟨x, -, ended⟩ := holds
    dsimp only
    rw [Environment.commit, Environment.commit, ended.live, ended.live']
    refine ⟨rfl, fun _ _ => funext fun name => ?_⟩
    change (env'.vars.overriddenBy m'.writes).find? name = (env.vars.overriddenBy m.writes).find? name
    rw [Bindings.find?_overriddenBy, Bindings.find?_overriddenBy]
    exact ended.bound name

/-- A line gives the same in both environments, and leaves the same variables. -/
theorem MeetsAll.evaluate {line : Line} (meets : L.MeetsAll line.tree) (ok : line.tree.Expression true [])
    (idle : env.stack.live = []) (idle' : env'.stack.live = []) (agree : L.Agree env.machine env'.machine) :
    (env'.evaluate line).1 = (env.evaluate line).1 ∧
      (env'.evaluate line).2.vars.find? = (env.evaluate line).2.vars.find? := by
  have ends := meets.runs { agree with live := idle, live' := idle' }
  obtain ⟨same, vars⟩ := ends.evaluate ok ok idle idle'
  refine ⟨same, ?_⟩
  cases result : (env.evaluate line).1 with
  | ok value => exact vars value result
  | error stop =>
    rw [Environment.vars_of_error ok result, Environment.vars_of_error ok (same.trans result)]
    exact funext agree.bound

end Lockstep

end Abacus
