import Abacus.Proofs.Definition
import Abacus.Proofs.Machine
import Mathlib

/-!
Evaluating a tree on the stack answers what the tree means.

The induction is on the tree. Bodies of functions come first: they call nothing, so the machine needs no way to
call. A line is then evaluated with calls that answer the bodies.
-/

namespace Abacus

open Environment (numberPrec keep)

/-- What evaluation relies on and leaves as it is. -/
structure Environment.Settled (env : Environment) : Prop where
  positive : 0 < env.prec
  vars : env.vars.All fun _ x => x.prec = numberPrec env.prec
  flat : env.Flat

theorem Tree.argument_map {α β : Type} (f : α → β) (args : List α) (index : Int) :
    Tree.argument (args.map f) index = (Tree.argument args index).map f := by
  unfold Tree.argument
  by_cases negative : index < 0
  · simp [negative, Except.map]
  · cases found : args[index.toNat]? with
    | none => simp [negative, found, Except.map]
    | some a => simp [negative, found, Except.map]

theorem scope_prec (env : Environment) : env.scope.prec = env.prec :=
  rfl

theorem scope_vars (env : Environment) : env.scope.vars = env.vars.find? :=
  rfl

theorem scope_functions (env : Environment) : env.scope.functions = env.functions.find? :=
  rfl

variable {env : Environment} {m : Machine} {nesting depth : Nat}
  {call : Option (Func → List Number → Evaluation Unit)}

/-- The machine answers a tree, wherever it starts. -/
def TreeAnswers (env : Environment) (call : Option (Func → List Number → Evaluation Unit))
    (nesting depth : Nat) (t : Tree) : Prop :=
  ∀ frame m, m.Tidy env.prec →
    Answers env.prec m.stack.live one (Evaluation.eval env call frame t m)
      (Meaning.value env.scope nesting depth (frame.map (keep env.prec)) t m.writes.find?)

/-- Storing a value in a new place pushes it, at the precision of the environment. -/
theorem answers_push (positive : 0 < env.prec) (tidy : m.Tidy env.prec) (x : Number) :
    Answers env.prec m.stack.live one ((do Evaluation.push env; Evaluation.store x) m)
      (some (.ok (keep env.prec x, m.writes.find?))) := by
  obtain ⟨m₁, place, pushed, tidy₁, place_prec, live₁, writes₁⟩ := tidy.push
  obtain ⟨m₂, stored, tidy₂, live₂, writes₂⟩ := tidy₁.store positive place_prec live₁ x
  rw [Evaluation.bind_ok pushed, stored]
  exact .ok tidy₂ live₂ (by rw [writes₂, writes₁])

theorem number_answers (positive : 0 < env.prec) (text : String) :
    TreeAnswers env call nesting depth (.number text) := by
  intro frame m tidy
  obtain ⟨m₁, place, pushed, tidy₁, place_prec, live₁, writes₁⟩ := tidy.push
  rw [Evaluation.eval, Evaluation.evalWith, Evaluation.bind_ok pushed, Meaning.value_number, scope_prec]
  cases read : Number.parse env.prec text with
  | ok x =>
    obtain ⟨m₂, found, tidy₂, stack₂, writes₂⟩ := tidy₁.literal read
    obtain ⟨m₃, stored, tidy₃, live₃, writes₃⟩ :=
      tidy₂.store positive place_prec (stack₂ ▸ live₁) x
    rw [Evaluation.bind_ok found, stored]
    rw [Environment.keep_of_prec (Number.prec_parse positive read)] at live₃
    exact .ok tidy₃ live₃ (by rw [writes₃, writes₂, writes₁])
  | error e =>
    rw [Evaluation.bind_error (tidy₁.literal_error read)]
    exact .error tidy₁

theorem param_answers (positive : 0 < env.prec) (index : Int) (name : String) :
    TreeAnswers env call nesting depth (.param index name) := by
  intro frame m tidy
  rw [Evaluation.eval, Evaluation.evalWith, Meaning.value_param, Tree.argument_map]
  cases Tree.argument frame index with
  | ok x => exact answers_push positive tidy x
  | error fault =>
    obtain ⟨m₁, place, pushed, tidy₁, -⟩ := tidy.push
    rw [Evaluation.bind_ok pushed]
    exact .error tidy₁

theorem assign_answers (positive : 0 < env.prec) (name : String) {value : Tree}
    (ih : TreeAnswers env call nesting depth value) :
    TreeAnswers env call nesting depth (.assign name value) := by
  intro frame m tidy
  rw [Evaluation.eval, Evaluation.evalWith, Meaning.value]
  refine (ih frame m tidy).bind fun m₁ x _ tidy₁ live₁ => ?_
  have x_prec : x.prec = numberPrec env.prec := tidy₁.stack.live x (by simp [live₁])
  rw [Evaluation.bind_ok (Evaluation.top_of_live live₁)]
  refine .ok ⟨tidy₁.stack, tidy₁.literals, tidy₁.writes.insert (Environment.prec_keep positive x)⟩ live₁ ?_
  funext other
  change (m₁.writes.insert name (keep env.prec x)).find? other = _
  rw [Bindings.find?_insert, Environment.keep_of_prec x_prec]
  rfl

theorem unary_answers (op : UnaryOp) {operand : Tree} (ih : TreeAnswers env call nesting depth operand) :
    TreeAnswers env call nesting depth (.unary op operand) := by
  intro frame m tidy
  rw [Evaluation.eval, Evaluation.evalWith, Meaning.value]
  refine (ih frame m tidy).bind fun m₁ x _ tidy₁ live₁ => ?_
  have x_prec : x.prec = numberPrec env.prec := tidy₁.stack.live x (by simp [live₁])
  obtain ⟨m₂, replaced, tidy₂, live₂, writes₂⟩ :=
    tidy₁.replace ((op.prec_apply x).trans x_prec)
  rw [Evaluation.bind_ok (Evaluation.top_of_live live₁), replaced]
  exact .ok tidy₂ (by rw [live₂, live₁]; rfl) (by rw [writes₂])

/-- Both operands are on the stack, the right one on top; the result takes the place of the left one. -/
theorem operate_answers (positive : 0 < env.prec) (op : BinaryOp) {x y : Number}
    {below : List Number} (tidy : m.Tidy env.prec) (live : m.stack.live = y :: x :: below) :
    Answers env.prec below one (Evaluation.operate op m)
      ((match op.apply x y with
        | .ok z => pure z
        | .error e => throw (.error e) : Meaning Number) m.writes.find?) := by
  have x_prec : x.prec = numberPrec env.prec := tidy.stack.live x (by simp [live])
  have x_pos : 0 < x.prec := x_prec ▸ Environment.numberPrec_pos positive
  obtain ⟨m₁, dropped, tidy₁, live₁, writes₁⟩ := tidy.drop 1
  rw [live] at live₁
  rw [Evaluation.operate_eq, Evaluation.bind_ok (Evaluation.top_of_live live),
    Evaluation.bind_ok dropped, Evaluation.bind_ok (Evaluation.top_of_live live₁)]
  cases applied : op.apply x y with
  | ok z =>
    obtain ⟨m₂, replaced, tidy₂, live₂, writes₂⟩ :=
      tidy₁.replace ((BinaryOp.prec_apply x_pos applied).trans x_prec)
    dsimp only
    rw [replaced]
    exact .ok tidy₂ (by rw [live₂, live₁]; rfl) (by rw [writes₂, writes₁])
  | error e =>
    obtain ⟨m₂, replaced, tidy₂, -⟩ :=
      tidy₁.replace ((op.prec_leftAfterFailure y x_pos).trans x_prec)
    dsimp only
    rw [Evaluation.bind_ok replaced]
    exact .error tidy₂

theorem binary_answers (positive : 0 < env.prec) (op : BinaryOp) {left right : Tree}
    (left_ih : TreeAnswers env call nesting depth left)
    (right_ih : TreeAnswers env call nesting depth right) :
    TreeAnswers env call nesting depth (.binary op left right) := by
  intro frame m tidy
  rw [Evaluation.eval, Evaluation.evalWith, Meaning.value]
  refine (left_ih frame m tidy).bind fun m₁ x _ tidy₁ live₁ => ?_
  refine (right_ih frame m₁ tidy₁).bind fun m₂ y _ tidy₂ live₂ => ?_
  rw [live₁] at live₂
  exact operate_answers positive op tidy₂ live₂

theorem evalAll_answers {args : List Tree} (args_ok : ∀ a ∈ args, TreeAnswers env call nesting depth a)
    (frame : List Number) (tidy : m.Tidy env.prec) :
    Answers env.prec m.stack.live List.reverse (Evaluation.evalAll env call frame args m)
      (Meaning.values env.scope nesting depth (frame.map (keep env.prec)) args m.writes.find?) := by
  induction args generalizing m with
  | nil =>
    rw [Evaluation.evalAll, Evaluation.evalAllWith, Meaning.values]
    exact .ok tidy rfl rfl
  | cons t rest ih =>
    rw [Evaluation.evalAll, Evaluation.evalAllWith, Meaning.values]
    refine (args_ok t (List.mem_cons_self ..) frame m tidy).bind
      fun m₁ x _ tidy₁ live₁ => ?_
    refine (ih (fun a inside => args_ok a (List.mem_cons_of_mem _ inside)) tidy₁).map fun xs => ?_
    rw [live₁, List.reverse_cons, List.append_assoc]

/-- A body is evaluated above its arguments; what it leaves goes to the place below them. -/
theorem enterBody_answers (positive : 0 < env.prec) {args below : List Number} {place : Number}
    (live : m.stack.live = args.reverse ++ place :: below)
    {body : List Number → Evaluation Unit} {outcome : Option (Except Stop (Number × Writes))}
    (answers : Answers env.prec m.stack.live one (body args m) outcome) :
    Answers env.prec below one (Evaluation.enterBody args.length body m) outcome := by
  have args_taken : (m.stack.live.take args.length).reverse = args := by
    rw [live, List.take_left' (by simp), List.reverse_reverse]
  rw [Evaluation.enterBody, Evaluation.get_bind, args_taken]
  generalize ran : body args m = result at answers
  cases answers with
  | @ok m₁ x w tidy₁ live₁ writes₁ =>
    have x_prec : x.prec = numberPrec env.prec := tidy₁.stack.live x (by simp [live₁])
    obtain ⟨m₂, dropped, tidy₂, live₂, writes₂⟩ := tidy₁.drop (args.length + 1)
    have live₂' : m₂.stack.live = place :: below := by
      rw [live₂, live₁, live]
      simp
    have place_prec : place.prec = numberPrec env.prec := tidy₂.stack.live place (by simp [live₂'])
    obtain ⟨m₃, stored, tidy₃, live₃, writes₃⟩ := tidy₂.store positive place_prec live₂' x
    rw [Environment.keep_of_prec x_prec] at live₃
    rw [Evaluation.bind_ok ran, Evaluation.bind_ok (Evaluation.top_of_live live₁),
      Evaluation.bind_ok dropped, stored]
    exact .ok tidy₃ live₃ (by rw [writes₃, writes₂, writes₁])
  | error tidy₁ =>
    rw [Evaluation.bind_error ran]
    exact .error tidy₁

/-- How calls are evaluated where a tree stands: there are none inside of a body, and outside of all bodies
they answer the bodies that are called. -/
inductive CallsAnswer (env : Environment) :
    Option (Func → List Number → Evaluation Unit) → (nesting depth : Nat) → Prop
  | inside {nesting depth : Nat} (deep : depth ≠ 0) : CallsAnswer env none nesting depth
  | outside {enter : Func → List Number → Evaluation Unit} {nesting : Nat}
      (bodies : ∀ name f, env.functions.find? name = some f →
        ∀ args m, m.Tidy env.prec → (∀ x ∈ args, x.prec = numberPrec env.prec) →
          Answers env.prec m.stack.live one (enter f args m)
            (Meaning.value env.scope nesting 1 args f.body m.writes.find?)) :
      CallsAnswer env (some enter) (nesting + 1) 0

theorem call_answers (positive : 0 < env.prec) {enter : Func → List Number → Evaluation Unit}
    (calls : CallsAnswer env (some enter) nesting depth) {name : String} {f : Func}
    (found : env.functions.find? name = some f) {args : List Tree}
    (args_ok : ∀ a ∈ args, TreeAnswers env (some enter) nesting depth a) (frame : List Number)
    (tidy : m.Tidy env.prec) :
    Answers env.prec m.stack.live one
      ((do
        Evaluation.checkArity f args.length
        Evaluation.push env
        Evaluation.evalAll env (some enter) frame args
        Evaluation.enterBody args.length (enter f)) m)
      (Meaning.call env.scope nesting depth (frame.map (keep env.prec)) f args m.writes.find?) := by
  obtain ⟨⟩ | ⟨bodies⟩ := calls
  rw [Meaning.call, Evaluation.checkArity]
  by_cases arity : args.length = f.params.length
  · rw [if_pos arity, if_pos arity]
    obtain ⟨m₁, place, pushed, tidy₁, place_prec, live₁, writes₁⟩ := tidy.push
    rw [pure_bind, Evaluation.bind_ok pushed, ← writes₁]
    refine (evalAll_answers args_ok frame tidy₁).bind fun m₂ xs meant tidy₂ live₂ => ?_
    have xs_prec : ∀ x ∈ xs, x.prec = numberPrec env.prec := by
      intro x inside
      exact tidy₂.stack.live x (by simp [live₂, inside])
    rw [live₁] at live₂
    rw [← Meaning.values_length meant]
    exact enterBody_answers positive live₂ (bodies name f found xs m₂ tidy₂ xs_prec)
  · rw [if_neg arity, if_neg arity]
    exact .error tidy

theorem ident_answers (settled : env.Settled) (calls : CallsAnswer env call nesting depth)
    (name : String) : TreeAnswers env call nesting depth (.ident name) := by
  intro frame m tidy
  rw [Evaluation.eval, Evaluation.evalWith, Evaluation.bind_ok (Evaluation.lookup_eq env name m), Meaning.value_ident,
    scope_vars, scope_functions]
  cases bound : (m.writes.find? name).or (env.vars.find? name) with
  | some x =>
    have x_prec : x.prec = numberPrec env.prec := by
      rcases Option.or_eq_some_iff.mp bound with newly | ⟨-, before⟩
      · exact tidy.writes name x newly
      · exact settled.vars name x before
    have pushed := answers_push settled.positive tidy x
    rw [Environment.keep_of_prec x_prec] at pushed
    exact pushed
  | none =>
    cases calls with
    | inside deep =>
      dsimp only
      rw [if_neg deep]
      exact .error tidy
    | @outside enter nesting bodies =>
      dsimp only
      rw [if_pos rfl]
      cases found : env.functions.find? name with
      | none => exact .error tidy
      | some f =>
        have no_args : ∀ a ∈ ([] : List Tree), TreeAnswers env (some enter) (nesting + 1) 0 a := by
          simp
        have called := call_answers settled.positive (.outside bodies) found no_args frame tidy
        rw [Evaluation.evalAll, Evaluation.evalAllWith] at called
        simp only [pure_bind] at called
        exact called

/-- Whatever the stack held and whichever literals are remembered, evaluating a tree gives what it means. -/
theorem eval_answers (settled : env.Settled) (calls : CallsAnswer env call nesting depth)
    {params : List String} {t : Tree} (ok : t.Expression call.isSome params) :
    TreeAnswers env call nesting depth t := by
  induction ok with
  | number text => exact number_answers settled.positive text
  | ident name => exact ident_answers settled calls name
  | param index name named => exact param_answers settled.positive index name
  | assign name value_ok ih => exact assign_answers settled.positive name ih
  | call function allowed args_ok ih =>
    intro frame m tidy
    cases call with
    | none => cases allowed
    | some enter =>
      cases found : env.functions.find? function with
      | none =>
        simp only [Evaluation.eval, Evaluation.evalWith, Meaning.value, Environment.scope, found]
        exact .error tidy
      | some f =>
        simp only [Evaluation.eval, Evaluation.evalWith, Meaning.value, Environment.scope, found]
        exact call_answers settled.positive calls found ih frame tidy
  | unary op operand_ok ih => exact unary_answers op ih
  | binary op left_ok right_ok left_ih right_ih =>
    exact binary_answers settled.positive op left_ih right_ih

/-- The body of a function answers its arguments, which have the precision of the environment. -/
theorem callBody_answers (settled : env.Settled) (nesting : Nat) :
    CallsAnswer env (some (Evaluation.callBody env)) (nesting + 1) 0 := by
  refine .outside fun name f found args m tidy args_prec => ?_
  have kept : args.map (keep env.prec) = args := by
    rw [List.map_congr_left fun x inside => Environment.keep_of_prec (args_prec x inside)]
    exact List.map_id args
  have no_calls : CallsAnswer env none nesting 1 := .inside Nat.one_ne_zero
  have answers := eval_answers settled no_calls (settled.flat name f found) args m tidy
  rw [kept] at answers
  exact answers

end Abacus
