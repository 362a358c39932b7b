import Abacus.Proofs.Functions
import Abacus.Proofs.Spelling
import Mathlib

/-!
Lines break no rule of the library but one, at any precision and after any change of it.

What a tree means is not asked here, only how high the stack is. An evaluation leaves it one value higher, or ends
with an error. There is one way to a fault left: a numeral so long that its exponent is out of range.
-/

namespace Abacus

namespace Stack

theorem length_push (fresh : Number) (s : Stack) : (s.push fresh).live.length = s.live.length + 1 := by
  unfold push
  split <;> rfl

theorem length_replace (x : Number) {s : Stack} {n : Nat} (height : s.live.length = n + 1) :
    (s.replace x).live.length = n + 1 := by
  simp [replace, height]

theorem length_store (x : Number) (s : Stack) : (s.store x).live.length = s.live.length := by
  unfold store
  split
  · rfl
  · rename_i live
    simp [replace, live]

end Stack

/-- The values that a literal can have at a precision: the one that its text is read as, or one that it had at a
higher precision, rounded. -/
inductive Number.ReadAt (text : String) : Nat → Number → Prop
  | parse {prec : Nat} {x : Number} (read : Number.parse prec text = .ok x) : ReadAt text prec x
  | rounded {prec prec' : Nat} {x : Number} (lower : prec' ≤ prec) (before : ReadAt text prec x) :
      ReadAt text prec' (Environment.keep prec' x)

theorem Number.ReadAt.exists_parse {text : String} {prec : Nat} {x : Number} (readAt : ReadAt text prec x) :
    ∃ prec' y, Number.parse prec' text = .ok y := by
  induction readAt with
  | parse read => exact ⟨_, _, read⟩
  | rounded _ _ ih => exact ih

/-- There is a table of literals, and what it holds was read from them. -/
def Machine.Remembers (prec : Nat) (m : Machine) : Prop :=
  ∃ table, m.literals = some table ∧ table.All fun text x => Number.ReadAt text prec x

/-- A run from one height of the stack to another, an error, or a numeral among `texts` that is no number. -/
inductive Lands (prec : Nat) (texts : String → Prop) (height : Nat) :
    EStateM.Result Stop Machine Unit → Prop
  | ok {m : Machine} (table : m.Remembers prec) (live : m.stack.live.length = height) :
      Lands prec texts height (.ok () m)
  | error {e : EvalError} {m : Machine} (table : m.Remembers prec) :
      Lands prec texts height (.error (.error e) m)
  | unreadable {text : String} {e : LiteralError} {m : Machine} (inside : texts text)
      (refused : Number.parse prec text = .error e) :
      Lands prec texts height (.error (.fault (.invalidNumber text e)) m)

variable {env : Environment} {prec height height' : Nat} {texts : String → Prop} {m : Machine}
  {call : Option (Func → List Number → Evaluation Unit)} {params : List String}

theorem Lands.bind {x k : Evaluation Unit} (first : Lands prec texts height (x m))
    (next : ∀ m' : Machine, m'.Remembers prec → m'.stack.live.length = height →
      Lands prec texts height' (k m')) :
    Lands prec texts height' ((x >>= fun _ => k) m) := by
  generalize ran : x m = result at first
  cases first with
  | ok table live =>
    rw [Evaluation.bind_ok ran]
    exact next _ table live
  | error table =>
    rw [Evaluation.bind_error ran]
    exact .error table
  | unreadable inside refused =>
    rw [Evaluation.bind_error ran]
    exact .unreadable inside refused

/-- The value on top, where there is one. -/
theorem Lands.top_bind {k : Number → Evaluation Unit} (some_live : m.stack.live.length = height + 1)
    (next : ∀ x, Lands prec texts height' (k x m)) :
    Lands prec texts height' ((Evaluation.top >>= k) m) := by
  obtain ⟨x, below, live⟩ := List.exists_cons_of_length_eq_add_one some_live
  rw [Evaluation.bind_ok (Evaluation.top_of_live live)]
  exact next x

theorem push_lands (env : Environment) (table : m.Remembers prec) :
    Lands prec texts (m.stack.live.length + 1) (Evaluation.push env m) :=
  .ok table (Stack.length_push _ _)

theorem store_lands (x : Number) (table : m.Remembers prec) :
    Lands prec texts m.stack.live.length (Evaluation.store x m) :=
  .ok table (Stack.length_store x _)

theorem drop_lands (n : Nat) (table : m.Remembers prec) :
    Lands prec texts (m.stack.live.length - n) (Evaluation.drop n m) :=
  .ok table (List.length_drop ..)

theorem replace_lands (x : Number) (table : m.Remembers prec)
    (some_live : m.stack.live.length = height + 1) :
    Lands prec texts (height + 1) (Evaluation.replace x m) :=
  .ok table (Stack.length_replace x some_live)

/-- Evaluating a tree lands one value higher, if there are arguments for its parameters. -/
def TreeLands (env : Environment) (call : Option (Func → List Number → Evaluation Unit))
    (texts : String → Prop) (params : List String) (t : Tree) : Prop :=
  ∀ frame m, params.length ≤ frame.length → m.Remembers env.prec →
    Lands env.prec texts (m.stack.live.length + 1) (Evaluation.eval env call frame t m)

theorem number_lands {text : String} (inside : texts text) :
    TreeLands env call texts params (.number text) := by
  intro frame m fits table
  rw [Evaluation.eval, Evaluation.evalWith]
  refine (push_lands env table).bind fun m₁ table₁ live₁ => ?_
  obtain ⟨remembered, has_table, all⟩ := id table₁
  have literal := Evaluation.literal_eq env has_table text
  rw [← live₁]
  cases found : remembered.find? text with
  | some x =>
    rw [found] at literal
    rw [Evaluation.bind_ok literal]
    exact store_lands x table₁
  | none =>
    cases read : Number.parse env.prec text with
    | ok x =>
      rw [found, read] at literal
      rw [Evaluation.bind_ok literal]
      exact .ok ⟨_, rfl, all.insert (.parse read)⟩ (Stack.length_store x _)
    | error e =>
      rw [found, read] at literal
      rw [Evaluation.bind_error literal]
      exact .unreadable inside read

theorem param_lands {index : Nat} {name : String} (named : params[index]? = some name) :
    TreeLands env call texts params (.param index name) := by
  intro frame m fits table
  have below : index < frame.length :=
    Nat.lt_of_lt_of_le (List.getElem?_eq_some_iff.mp named).1 fits
  have found : Tree.argument frame (index : Int) = .ok frame[index] :=
    Tree.argument_eq_ok_iff.mpr (List.getElem?_eq_getElem below)
  rw [Evaluation.eval, Evaluation.evalWith, found]
  refine (push_lands env table).bind fun m₁ table₁ live₁ => ?_
  rw [← live₁]
  exact store_lands _ table₁

theorem assign_lands (name : String) {value : Tree} (ih : TreeLands env call texts params value) :
    TreeLands env call texts params (.assign name value) := by
  intro frame m fits table
  rw [Evaluation.eval, Evaluation.evalWith]
  refine (ih frame m fits table).bind fun m₁ table₁ live₁ => ?_
  refine Lands.top_bind live₁ fun x => ?_
  exact .ok table₁ live₁

theorem unary_lands (op : UnaryOp) {operand : Tree} (ih : TreeLands env call texts params operand) :
    TreeLands env call texts params (.unary op operand) := by
  intro frame m fits table
  rw [Evaluation.eval, Evaluation.evalWith]
  refine (ih frame m fits table).bind fun m₁ table₁ live₁ => ?_
  exact Lands.top_bind live₁ fun x => replace_lands _ table₁ live₁

theorem operate_lands (op : BinaryOp) (table : m.Remembers prec)
    (some_live : m.stack.live.length = height + 2) :
    Lands prec texts (height + 1) (Evaluation.operate op m) := by
  rw [Evaluation.operate_eq]
  refine Lands.top_bind some_live fun y => ?_
  refine (drop_lands 1 table).bind fun m₁ table₁ live₁ => ?_
  have one_left : m₁.stack.live.length = height + 1 := by omega
  refine Lands.top_bind one_left fun x => ?_
  cases op.apply x y with
  | ok z => exact replace_lands z table₁ one_left
  | error e => exact (replace_lands _ table₁ one_left).bind fun m₂ table₂ _ => .error table₂

theorem binary_lands (op : BinaryOp) {left right : Tree} (left_ih : TreeLands env call texts params left)
    (right_ih : TreeLands env call texts params right) :
    TreeLands env call texts params (.binary op left right) := by
  intro frame m fits table
  rw [Evaluation.eval, Evaluation.evalWith]
  refine (left_ih frame m fits table).bind fun m₁ table₁ live₁ => ?_
  refine (right_ih frame m₁ fits table₁).bind fun m₂ table₂ live₂ => ?_
  exact operate_lands op table₂ (by omega)

theorem evalAll_lands {args : List Tree} (args_land : ∀ a ∈ args, TreeLands env call texts params a)
    {frame : List Number} (fits : params.length ≤ frame.length) (table : m.Remembers env.prec) :
    Lands env.prec texts (m.stack.live.length + args.length) (Evaluation.evalAll env call frame args m) := by
  induction args generalizing m with
  | nil => exact .ok table rfl
  | cons t rest ih =>
    rw [Evaluation.evalAll, Evaluation.evalAllWith]
    refine (args_land t (List.mem_cons_self ..) frame m fits table).bind fun m₁ table₁ live₁ => ?_
    have others := ih (fun a inside => args_land a (List.mem_cons_of_mem _ inside)) table₁
    rw [live₁, Nat.add_assoc, Nat.add_comm 1] at others
    exact others

/-- Outside of all bodies, a body that is called lands one value higher. -/
def CallsLand (env : Environment) (texts : String → Prop)
    (call : Option (Func → List Number → Evaluation Unit)) : Prop :=
  ∀ enter, call = some enter → ∀ name f, env.functions.find? name = some f →
    ∀ args (m : Machine), f.params.length ≤ args.length → m.Remembers env.prec →
      Lands env.prec texts (m.stack.live.length + 1) (enter f args m)

/-- The arguments of a call and the place for its value are on the stack. -/
theorem enterBody_lands {count : Nat} {body : List Number → Evaluation Unit}
    (some_live : m.stack.live.length = height + 1 + count)
    (lands : ∀ args, args.length = count →
      Lands prec texts (m.stack.live.length + 1) (body args m)) :
    Lands prec texts (height + 1) (Evaluation.enterBody count body m) := by
  have taken : (m.stack.live.take count).reverse.length = count := by
    rw [List.length_reverse, List.length_take]
    omega
  rw [Evaluation.enterBody, Evaluation.get_bind]
  refine (lands _ taken).bind fun m₁ table₁ live₁ => ?_
  refine Lands.top_bind live₁ fun x => ?_
  refine (drop_lands (count + 1) table₁).bind fun m₂ table₂ live₂ => ?_
  have back : m₂.stack.live.length = height + 1 := by omega
  rw [← back]
  exact store_lands x table₂

theorem call_lands {enter : Func → List Number → Evaluation Unit}
    (calls : CallsLand env texts (some enter)) {name : String} {f : Func}
    (found : env.functions.find? name = some f) {args : List Tree}
    (args_land : ∀ a ∈ args, TreeLands env (some enter) texts params a) {frame : List Number}
    (fits : params.length ≤ frame.length) (table : m.Remembers env.prec) :
    Lands env.prec texts (m.stack.live.length + 1)
      ((do
        Evaluation.checkArity f args.length
        Evaluation.push env
        Evaluation.evalAll env (some enter) frame args
        Evaluation.enterBody args.length (enter f)) m) := by
  rw [Evaluation.checkArity]
  by_cases arity : args.length = f.params.length
  · rw [if_pos arity, pure_bind]
    refine (push_lands env table).bind fun m₁ table₁ live₁ => ?_
    refine (evalAll_lands args_land fits table₁).bind fun m₂ table₂ live₂ => ?_
    refine enterBody_lands (by omega) fun xs count => ?_
    exact calls enter rfl name f found xs m₂ (by omega) table₂
  · rw [if_neg arity]
    exact .error table

theorem ident_lands (calls : CallsLand env texts call) (name : String) :
    TreeLands env call texts params (.ident name) := by
  intro frame m fits table
  rw [Evaluation.eval, Evaluation.evalWith, Evaluation.bind_ok (Evaluation.lookup_eq env name m)]
  cases (m.writes.find? name).or (env.vars.find? name) with
  | some x =>
    refine (push_lands env table).bind fun m₁ table₁ live₁ => ?_
    rw [← live₁]
    exact store_lands x table₁
  | none =>
    cases call with
    | none => exact .error table
    | some enter =>
      cases found : env.functions.find? name with
      | none => exact .error table
      | some f =>
        have no_args : ∀ a ∈ ([] : List Tree), TreeLands env (some enter) texts params a := by simp
        have called := call_lands calls found no_args fits table
        rw [Evaluation.evalAll, Evaluation.evalAllWith] at called
        simp only [pure_bind] at called
        exact called

/-- Whatever the precisions are, evaluating a tree lands one value higher, or with an error. -/
theorem eval_lands (calls : CallsLand env texts call) {t : Tree} (ok : t.Expression call.isSome params)
    (numbers : ∀ text, .number text ∈ t.nodes → texts text) : TreeLands env call texts params t := by
  induction ok with
  | number text => exact number_lands (numbers text (List.mem_cons_self ..))
  | ident name => exact ident_lands calls name
  | param index name named => exact param_lands named
  | assign name _ ih => exact assign_lands name (ih fun text inside => numbers text (Tree.nodes_value _ _ inside))
  | call function allowed args_ok ih =>
    intro frame m fits table
    cases call with
    | none => cases allowed
    | some enter =>
      cases found : env.functions.find? function with
      | none =>
        simp only [Evaluation.eval, Evaluation.evalWith, found]
        exact .error table
      | some f =>
        simp only [Evaluation.eval, Evaluation.evalWith, found]
        have args_land := fun a inside =>
          ih a inside fun text node => numbers text (Tree.nodes_arg function inside node)
        exact call_lands calls found args_land fits table
  | unary op _ ih => exact unary_lands op (ih fun text inside => numbers text (Tree.nodes_operand _ _ inside))
  | binary op _ _ left_ih right_ih =>
    exact binary_lands op (left_ih fun text inside => numbers text (Tree.nodes_left _ _ _ inside))
      (right_ih fun text inside => numbers text (Tree.nodes_right _ _ _ inside))

namespace Environment

/-- The literals that evaluating a tree can meet: its own, and those of the functions. -/
def Mentions (env : Environment) (t : Tree) (text : String) : Prop :=
  .number text ∈ t.nodes ∨
    ∃ name f, env.functions.find? name = some f ∧ .number text ∈ f.body.nodes

variable {line : Line} {settings : List Setting} {t t' : Tree} {function : String}

theorem Closed.mentions_numeral (closed : env.Closed) (numeric : t.Numeric) {text : String}
    (mentions : env.Mentions t text) : Number.isNumeral text.toList = true := by
  rcases mentions with own | ⟨name, f, found, inside⟩
  · exact numeric text own
  · exact (closed name f found).2.numeric text inside

/-- The body of a function lands, and calls nothing on its way. -/
theorem Closed.callBody_lands (closed : env.Closed) (t : Tree) :
    CallsLand env (env.Mentions t) (some (Evaluation.callBody env)) := by
  rintro _ ⟨⟩ name f found args m fits table
  have numbers : ∀ text, .number text ∈ f.body.nodes → env.Mentions t text :=
    fun text inside => .inr ⟨name, f, found, inside⟩
  have no_calls : CallsLand env (env.Mentions t) none := nofun
  exact eval_lands no_calls (closed name f found).2.body numbers args m fits table

theorem Closed.evalLine_lands (closed : env.Closed) (ok : t.Expression true [])
    (table : m.Remembers env.prec) :
    Lands env.prec (env.Mentions t) (m.stack.live.length + 1) (Evaluation.evalLine env t m) :=
  eval_lands (closed.callBody_lands t) ok (fun _ inside => .inl inside) [] m (Nat.zero_le _) table

theorem inlineAll_eq_error {ts : List Tree} {stop : Stop} (failed : env.inlineAll ts = .error stop) :
    ∃ t ∈ ts, env.inline t = .error stop := by
  induction ts with
  | nil => cases failed
  | cons t rest ih =>
    rw [inlineAll] at failed
    rcases Except.bind_eq_error_iff.mp failed with first | ⟨t', -, failed⟩
    · exact ⟨t, List.mem_cons_self .., first⟩
    · rcases Except.bind_eq_error_iff.mp failed with others | ⟨rest', -, impossible⟩
      · obtain ⟨u, inside, u_failed⟩ := ih others
        exact ⟨u, List.mem_cons_of_mem _ inside, u_failed⟩
      · cases impossible

/-- Where functions call nothing, a definition is refused for an error only. -/
theorem inline_eq_error (flat : env.Flat) (ok : t.Expression true params) {stop : Stop}
    (failed : env.inline t = .error stop) : ∃ e, stop = .error e := by
  induction ok generalizing stop with
  | number | param => cases failed
  | ident name =>
    rw [inline] at failed
    rcases Except.bind_eq_error_iff.mp failed with refused | ⟨body, -, impossible⟩
    · unfold inlineName at refused
      split at refused
      · split at refused
        · cases refused
        · cases refused
          exact ⟨_, rfl⟩
      · cases refused
    · cases impossible
  | assign name _ ih | unary op _ ih =>
    rw [inline] at failed
    rcases Except.bind_eq_error_iff.mp failed with below | ⟨part, -, impossible⟩
    · exact ih below
    · cases impossible
  | @call function args _ args_ok ih =>
    rw [inline] at failed
    cases found : env.functions.find? function with
    | none =>
      rw [found] at failed
      cases failed
      exact ⟨_, rfl⟩
    | some f =>
      rw [found] at failed
      dsimp only at failed
      by_cases arity : args.length = f.params.length
      · rw [if_pos arity] at failed
        rcases Except.bind_eq_error_iff.mp failed with below | ⟨args', inlined, failed⟩
        · obtain ⟨a, inside, a_failed⟩ := inlineAll_eq_error below
          exact ih a inside a_failed
        · -- there is an argument for every parameter, so the body can be filled in
          have inlined := inlineAll_eq_ok_iff.mp inlined
          have args_ok' : ∀ a' ∈ args', a'.Expression false params := by
            intro a' inside
            obtain ⟨a, a_inside, a_inlined⟩ := exists_mem_of_forall₂ inlined inside
            exact inline_expression flat (args_ok a a_inside) a_inlined
          have fits : args'.length = f.params.length := inlined.length_eq ▸ arity
          obtain ⟨t', replaced, -⟩ := (flat function f found).substitute fits args_ok'
          rw [replaced] at failed
          cases failed
      · rw [if_neg arity] at failed
        cases failed
        exact ⟨_, rfl⟩
  | binary op _ _ left_ih right_ih =>
    rw [inline] at failed
    rcases Except.bind_eq_error_iff.mp failed with left | ⟨left', -, failed⟩
    · exact left_ih left
    · rcases Except.bind_eq_error_iff.mp failed with right | ⟨right', -, impossible⟩
      · exact right_ih right
      · cases impossible

theorem define_eq_error (flat : env.Flat) (ok : t.Expression true params) {stop : Stop}
    (failed : env.define function params t = .error stop) : ∃ e, stop = .error e := by
  rw [define] at failed
  rcases Except.bind_eq_error_iff.mp failed with refused | ⟨body, -, impossible⟩
  · exact inline_eq_error flat ok refused
  · cases impossible

/-- Nothing is being evaluated, and what evaluation relies on at any precision is there. -/
structure Safe (env : Environment) : Prop where
  closed : env.Closed
  table : env.machine.Remembers env.prec
  idle : env.stack.live = []

/-- A literal that the tree or a function has is so long that its exponent is out of range. -/
def Overlong (env : Environment) (t : Tree) (text : String) : Prop :=
  env.Mentions t text ∧ 2 ^ 29 ≤ text.length ∧
    Number.parse env.prec text = .error .exponentOutOfRange

/-- How evaluating a line can end: in order again, or with the fault of a literal that is too long. -/
inductive Settles (env : Environment) (t : Tree) : Except Stop Result × Environment → Prop
  | value (x : Number) {env' : Environment} (safe : env'.Safe) : Settles env t (.ok (.value x), env')
  | defined {env' : Environment} (safe : env'.Safe) : Settles env t (.ok .defined, env')
  | error (e : EvalError) {env' : Environment} (safe : env'.Safe) : Settles env t (.error (.error e), env')
  | overlong {text : String} {env' : Environment} (overlong : env.Overlong t text) :
      Settles env t (.error (.fault (.invalidNumber text .exponentOutOfRange)), env')

theorem Safe.overlong (safe : env.Safe) (numeric : t.Numeric) {text : String} {e : LiteralError}
    (mentions : env.Mentions t text) (refused : Number.parse env.prec text = .error e) :
    e = .exponentOutOfRange ∧ env.Overlong t text := by
  have numeral := safe.closed.mentions_numeral numeric mentions
  have cause := Number.parse_numeral_error numeral refused
  subst cause
  refine ⟨rfl, mentions, ?_, refused⟩
  by_contra short
  obtain ⟨x, read⟩ := Number.parse_short_numeral numeral (Nat.lt_of_not_le short) env.prec
  rw [read] at refused
  cases refused

theorem Safe.evaluate_expression (safe : env.Safe) (ok : line.tree.Expression true [])
    (numeric : line.tree.Numeric) : env.Settles line.tree (env.evaluate line) := by
  have lands := safe.closed.evalLine_lands ok (m := env.machine) safe.table
  rw [show env.machine.stack.live = [] from safe.idle] at lands
  rw [Environment.evaluate_expression safe.idle ok]
  generalize Evaluation.evalLine env line.tree env.machine = result at lands
  cases lands with
  | @ok m table live =>
    obtain ⟨x, live⟩ := List.length_eq_one_iff.mp live
    dsimp only
    rw [commit, live]
    exact .value x ⟨safe.closed, table, by simp [settle, Stack.drop, live]⟩
  | @error e m table => exact .error e ⟨safe.closed, table, Stack.live_clear m.stack⟩
  | unreadable mentions refused =>
    obtain ⟨rfl, overlong⟩ := safe.overlong numeric mentions refused
    exact .overlong overlong

theorem Safe.evaluate_definition (safe : env.Safe) {body : Tree} (distinct : params.Nodup)
    (body_ok : body.Expression true params) (numeric : body.Numeric)
    (tree : line.tree = .define function params body) : env.Settles line.tree (env.evaluate line) := by
  rw [Environment.evaluate_definition safe.idle tree]
  cases defined : env.define function params body with
  | error stop =>
    obtain ⟨e, rfl⟩ := define_eq_error safe.closed.flat body_ok defined
    exact .error e safe
  | ok f =>
    have closed := safe.closed.define distinct body_ok numeric defined
    exact .defined ⟨Bindings.All.insert safe.closed closed, safe.table, safe.idle⟩

/-- What evaluating a line that was read can do. -/
theorem Safe.evaluate (safe : env.Safe) {source : Lexer.Source} {text : List Char}
    (read : Parser.parse source text = .ok line) : env.Settles line.tree (env.evaluate line) := by
  have of_line := Parser.ofLine_of_parse read
  have numeric := Parser.numeric_of_parse read
  generalize tree : line.tree = t at of_line
  cases of_line with
  | expression ok =>
    subst tree
    exact safe.evaluate_expression ok numeric
  | definition function _ _ =>
    obtain ⟨distinct, body_ok, body_numeric⟩ := Parser.definition_of_parse read tree
    rw [← tree]
    exact safe.evaluate_definition distinct body_ok body_numeric tree

/-- A copy keeps the literals that it has digits enough for, rounded. -/
theorem safe_of_clone {env' : Environment} (copied : env.clone settings = .ok env') (closed : env.Closed)
    (all : (env.literals.getD .empty).All fun text x => Number.ReadAt text env.prec x) : env'.Safe := by
  obtain ⟨vars, -, made⟩ := Except.bind_eq_ok_iff.mp copied
  cases made
  refine ⟨closed, ⟨_, rfl, ?_⟩, rfl⟩
  dsimp only [literalsAt]
  split
  · rename_i lower
    exact all.map fun text x before => .rounded lower before
  · exact Bindings.all_empty

theorem Safe.clone (safe : env.Safe) {env' : Environment} (copied : env.clone settings = .ok env') :
    env'.Safe := by
  obtain ⟨table, has_table, all⟩ := safe.table
  refine safe_of_clone copied safe.closed ?_
  rw [show env.literals = some table from has_table]
  exact all

end Environment

/-- Whatever has been done with an environment, nothing is being evaluated in it afterwards. -/
theorem Reachable.safe {policy : Policy} (reachable : Reachable policy env) : env.Safe := by
  induction reachable with
  | create created _ => exact Environment.safe_of_clone created Bindings.all_empty Bindings.all_empty
  | evaluate _ read returns ih =>
    have settles := ih.evaluate read
    generalize Environment.evaluate _ _ = outcome at settles returns
    cases settles with
    | value x safe | error e safe => exact safe
    | defined safe => exact safe
    | overlong => exact absurd rfl (returns _)
  | set _ bound ih =>
    rw [Environment.set, ih.idle] at bound
    cases bound
    exact ⟨ih.closed, ih.table, ih.idle⟩
  | clone _ copied _ ih => exact ih.clone copied

namespace Environment

/-- Carrying out a text returns a result, or an error of the text or of its evaluation, and leaves nothing on the
stack; so the next one can be carried out, and variables can be set. The text itself is read or refused for an error
of its own. The literals that are met are numerals, a successful evaluation leaves exactly one value, and the one
literal that breaks a rule has `2 ^ 29` characters or more and an exponent that is out of range. -/
theorem exec_returns {policy : Policy} (reachable : Reachable policy env) (text : Text) :
    (∀ failure, Parser.parse {} text.toChars = .error failure → ∃ e, failure = .input e) ∧
    (∀ name x, ∃ env', env.set name x = .ok env') ∧
    (∀ line, Parser.parseText text = .ok line →
      (∀ s, env.Mentions line.tree s → Number.isNumeral s.toList = true ∧
        (s.length < 2 ^ 29 → ∃ x, Number.parse env.prec s = .ok x)) ∧
      ∀ m, line.isDefinition = false → Evaluation.evalLine env line.tree env.machine = .ok () m →
        ∃ x, m.stack.live = [x]) ∧
    (((∃ result, (env.exec text).1 = .ok result) ∨ (∃ e, (env.exec text).1 = .error (.input e)) ∨
        ∃ e, (env.exec text).1 = .error (.evaluation e)) ∧
        (env.exec text).2.stack.live = [] ∧ Reachable policy (env.exec text).2 ∨
      ∃ line s, Parser.parseText text = .ok line ∧ env.Overlong line.tree s ∧
        (env.exec text).1 = .error (.fault (.invalidNumber s .exponentOutOfRange))) := by
  have safe := reachable.safe
  refine ⟨fun _ => Parser.parse_eq_error, fun name x => ?_, fun line read => ⟨fun s mentions => ?_, ?_⟩, ?_⟩
  · rw [Environment.set, safe.idle]
    exact ⟨_, rfl⟩
  · have numeric := Parser.numeric_of_parse (Parser.parse_of_parseText read)
    have numeral := safe.closed.mentions_numeral numeric mentions
    exact ⟨numeral, fun short => Number.parse_short_numeral numeral short env.prec⟩
  · intro m expression evaluated
    have ok := Parser.expression_of_parse (Parser.parse_of_parseText read) expression
    have lands := safe.closed.evalLine_lands ok (m := env.machine) safe.table
    rw [show env.machine.stack.live = [] from safe.idle, evaluated] at lands
    cases lands with
    | ok _ live => exact List.length_eq_one_iff.mp live
  · cases read : Parser.parseText text with
    | error e =>
      rw [exec_of_error read]
      exact .inl ⟨.inr (.inl ⟨e, rfl⟩), safe.idle, reachable⟩
    | ok line =>
      have settles := safe.evaluate (Parser.parse_of_parseText read)
      have next := reachable.evaluate (Parser.parse_of_parseText read)
      rw [exec_of_read read]
      generalize env.evaluate line = outcome at settles next
      cases settles with
      | value x safe' => exact .inl ⟨.inl ⟨_, rfl⟩, safe'.idle, next (by rintro f ⟨⟩)⟩
      | defined safe' => exact .inl ⟨.inl ⟨_, rfl⟩, safe'.idle, next (by rintro f ⟨⟩)⟩
      | error e safe' => exact .inl ⟨.inr (.inr ⟨e, rfl⟩), safe'.idle, next (by rintro f ⟨⟩)⟩
      | overlong overlong => exact .inr ⟨line, _, rfl, overlong, rfl⟩

/-- The exception occurs, in whatever environment: an integer of more than `2 ^ 30` digits. -/
theorem exec_overlong {policy : Policy} (reachable : Reachable policy env) {number : String} {first : Char}
    {rest : List Char} (digits : number.toList = first :: rest)
    (digits_only : ∀ c ∈ first :: rest, c.isDigit = true) (nonzero : '0'.toNat < first.toNat)
    (long : 2 ^ 30 ≤ rest.length) :
    (env.exec (Text.ofString number)).1 =
      .error (.fault (.invalidNumber number .exponentOutOfRange)) := by
  have safe := reachable.safe
  have refused := Number.parse_long_numeral digits digits_only nonzero long
  have numeral : Number.isNumeral number.toList = true := digits ▸ Number.isNumeral_digits digits_only
  have read : Parser.parseText (Text.ofString number) =
      .ok { tree := .number number, vars := (Tree.number number).vars } := by
    refine Parser.parseText_of_parse ?_
    rw [Text.toChars_ofString, Parser.parse_numeral numeral]
  obtain ⟨table, has_table, all⟩ := safe.table
  -- what is remembered was read at some precision, and this is read at none
  have forgotten : table.find? number = none := by
    by_contra found
    obtain ⟨x, found⟩ := Option.ne_none_iff_exists'.mp found
    obtain ⟨prec, y, parsed⟩ := (all number x found).exists_parse
    cases (refused prec).symm.trans parsed
  have failed : ∃ m, Evaluation.evalLine env (.number number) env.machine =
      .error (.fault (.invalidNumber number .exponentOutOfRange)) m := by
    obtain ⟨m, pushed, same⟩ : ∃ m, Evaluation.push env env.machine = .ok () m ∧
        m.literals = env.machine.literals := ⟨_, rfl, rfl⟩
    have literal := Evaluation.literal_eq env (same.trans has_table) number
    rw [forgotten, refused] at literal
    refine ⟨m, ?_⟩
    rw [Evaluation.evalLine, Evaluation.eval, Evaluation.evalWith, Evaluation.bind_ok pushed,
      Evaluation.bind_error literal]
  obtain ⟨m, failed⟩ := failed
  have ok : (Tree.number number).Expression true [] := .number number
  rw [exec_of_read read, evaluate_expression safe.idle ok, failed]
  rfl

end Environment

end Abacus
