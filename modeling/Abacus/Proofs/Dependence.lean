import Abacus.Proofs.Spelling
import Abacus.Proofs.Stability
import Abacus.Proofs.Storage
import Mathlib

/-!
What the evaluation of a line depends on.

A line names variables, and calls functions by these names or with arguments. Those functions name variables in turn,
and call nothing. Two environments of one precision that agree on all of these, up to how numbers are stored, cannot
be told apart by the line: it gives the same, and assigns or defines the same.
-/

namespace Abacus

namespace Tree

/-- The function of that name can be called: the name stands alone in the tree, or before arguments. -/
def MayCall (t : Tree) (name : String) : Prop :=
  name ∈ t.vars ∨ ∃ args, .call name args ∈ t.nodes

theorem names_arg {args : List Tree} {a : Tree} (inside : a ∈ args) : a.names ⊆ namesOfAll args := by
  induction args with
  | nil => cases inside
  | cons first rest ih =>
    rw [namesOfAll]
    rcases List.mem_cons.mp inside with rfl | later
    · exact List.subset_append_left _ _
    · exact List.subset_append_of_subset_right _ (ih later)

theorem argument_rel {α β : Type} {R : α → β → Prop} {xs : List α} {ys : List β}
    (related : List.Forall₂ R xs ys) (index : Int) : ExceptRel Eq R (argument xs index) (argument ys index) := by
  unfold argument
  rw [related.length_eq]
  by_cases negative : index < 0
  · rw [if_pos negative, if_pos negative]
    exact .error rfl
  · rw [if_neg negative, if_neg negative]
    have places := List.forall₂_iff_get.mp related
    by_cases inside : index.toNat < ys.length
    · have inside' : index.toNat < xs.length := related.length_eq ▸ inside
      rw [List.getElem?_eq_getElem inside, List.getElem?_eq_getElem inside']
      exact .ok (places.2 index.toNat inside' inside)
    · have outside : xs.length ≤ index.toNat := by
        rw [related.length_eq]
        omega
      rw [List.getElem?_eq_none outside, List.getElem?_eq_none (by omega)]
      exact .error rfl

end Tree

/-- The same names are assigned, to the same values. -/
def Writes.Same (w w' : Writes) : Prop :=
  ∀ name, Option.Rel Number.Same (w name) (w' name)

theorem Writes.same_none : Writes.none.Same Writes.none :=
  fun _ => .none

theorem Writes.Same.assign {w w' : Writes} (same : w.Same w') (name : String) {x x' : Number} (value : x.Same x') :
    (w.assign name x).Same (w'.assign name x') := by
  intro other
  unfold Writes.assign
  split
  · exact .some value
  · exact same other

theorem optionRel_or {α : Type} {R : α → α → Prop} {a a' b b' : Option α} (first : Option.Rel R a a')
    (second : Option.Rel R b b') : Option.Rel R (a.or b) (a'.or b') := by
  cases first with
  | some same => exact .some same
  | none => exact second

namespace Meaning

variable {α β : Type} {R : α → α → Prop} {Q : β → β → Prop} {s s' : Scope} {nesting depth : Nat}
  {frame frame' : List Number} {w w' : Writes} {t : Tree} {params : List String} {f : Func}

/-- Two meanings that differ at most in how numbers are stored. -/
inductive Agree (R : α → α → Prop) :
    Option (Except Stop (α × Writes)) → Option (Except Stop (α × Writes)) → Prop
  | tooDeep : Agree R none none
  | error {stop stop' : Stop} (same : stop.Same stop') : Agree R (some (.error stop)) (some (.error stop'))
  | ok {a a' : α} {w w' : Writes} (values : R a a') (writes : w.Same w') :
      Agree R (some (.ok (a, w))) (some (.ok (a', w')))

theorem Agree.bind {x y : Meaning α} {g h : α → Meaning β} (first : Agree R (x w) (y w'))
    (next : ∀ {a a' w w'}, R a a' → w.Same w' → Agree Q (g a w) (h a' w')) :
    Agree Q ((x >>= g) w) ((y >>= h) w') := by
  generalize left : x w = outcome, right : y w' = outcome' at first
  cases first with
  | tooDeep =>
    change Agree Q (Option.bind (x w) _) (Option.bind (y w') _)
    rw [left, right]
    exact .tooDeep
  | error same =>
    rw [bind_error left, bind_error right]
    exact .error same
  | ok values writes =>
    rw [bind_ok left, bind_ok right]
    exact next values writes

/-- The tree means the same in both scopes, with the same arguments and after the same assignments. -/
def TreeAgrees (s s' : Scope) (nesting depth : Nat) (t : Tree) : Prop :=
  ∀ {frame frame' w w'}, List.Forall₂ Number.Same frame frame' → w.Same w' →
    Agree Number.Same (value s nesting depth frame t w) (value s' nesting depth frame' t w')

theorem number_agrees (prec_same : s.prec = s'.prec) (text : String) :
    TreeAgrees s s' nesting depth (.number text) := by
  intro frame frame' w w' frames writes
  rw [value_number, value_number, prec_same]
  cases Number.parse s'.prec text with
  | ok x => exact .ok (.refl x) writes
  | error e => exact .error (.refl _)

theorem param_agrees (index : Int) (name : String) : TreeAgrees s s' nesting depth (.param index name) := by
  intro frame frame' w w' frames writes
  rw [value_param, value_param]
  have given := Tree.argument_rel frames index
  generalize Tree.argument frame index = outcome, Tree.argument frame' index = outcome' at given
  cases given with
  | ok same => exact .ok same writes
  | error same => exact same ▸ .error (.refl _)

theorem assign_agrees (name : String) {value : Tree} (ih : TreeAgrees s s' nesting depth value) :
    TreeAgrees s s' nesting depth (.assign name value) := by
  intro frame frame' w w' frames writes
  rw [Meaning.value, Meaning.value]
  refine (ih frames writes).bind fun same writes₁ => ?_
  exact .ok same (writes₁.assign name same)

theorem unary_agrees (op : UnaryOp) {operand : Tree} (ih : TreeAgrees s s' nesting depth operand) :
    TreeAgrees s s' nesting depth (.unary op operand) := by
  intro frame frame' w w' frames writes
  rw [value, value]
  exact (ih frames writes).bind fun same writes₁ => .ok (op.same_apply same) writes₁

theorem binary_agrees (op : BinaryOp) {left right : Tree} (left_ih : TreeAgrees s s' nesting depth left)
    (right_ih : TreeAgrees s s' nesting depth right) :
    TreeAgrees s s' nesting depth (.binary op left right) := by
  intro frame frame' w w' frames writes
  rw [value, value]
  refine (left_ih frames writes).bind fun {x x' _ _} left_same writes₁ => ?_
  refine (right_ih frames writes₁).bind fun {y y' _ _} right_same writes₂ => ?_
  have applied := op.same_apply left_same right_same
  generalize op.apply x y = outcome, op.apply x' y' = outcome' at applied
  cases applied with
  | ok same => exact .ok same writes₂
  | error same => exact .error (.error same)

theorem values_agree {ts : List Tree} (trees_agree : ∀ t ∈ ts, TreeAgrees s s' nesting depth t)
    (frames : List.Forall₂ Number.Same frame frame') (writes : w.Same w') :
    Agree (List.Forall₂ Number.Same) (values s nesting depth frame ts w)
      (values s' nesting depth frame' ts w') := by
  induction ts generalizing w w' with
  | nil =>
    rw [values, values]
    exact .ok .nil writes
  | cons t rest ih =>
    obtain ⟨first, others⟩ := List.forall_mem_cons.mp trees_agree
    rw [values, values]
    refine (first frames writes).bind fun same writes₁ => ?_
    exact (ih others writes₁).bind fun rest_same writes₂ => .ok (.cons same rest_same) writes₂

theorem ident_deep_agrees {name : String} (bound : Option.Rel Number.Same (s.vars name) (s'.vars name)) :
    TreeAgrees s s' nesting (depth + 1) (.ident name) := by
  intro frame frame' w w' frames writes
  rw [value_ident_deep, value_ident_deep]
  have found := optionRel_or (writes name) bound
  generalize (w name).or (s.vars name) = outcome, (w' name).or (s'.vars name) = outcome' at found
  cases found with
  | some same => exact .ok same writes
  | none => exact .error (.refl _)

/-- Inside of a body only the variables count that it names. -/
theorem body_agrees (prec_same : s.prec = s'.prec) (ok : t.Expression false params)
    (vars : ∀ name ∈ t.names, Option.Rel Number.Same (s.vars name) (s'.vars name)) :
    TreeAgrees s s' nesting (depth + 1) t := by
  induction ok with
  | number text => exact number_agrees prec_same text
  | ident name => exact ident_deep_agrees (vars name (List.mem_singleton_self name))
  | param index name => exact param_agrees index name
  | assign name _ ih => exact assign_agrees name (ih fun var inside => vars var (List.mem_cons_of_mem _ inside))
  | call function allowed => cases allowed
  | unary op _ ih => exact unary_agrees op (ih vars)
  | binary op _ _ left_ih right_ih =>
    exact binary_agrees op (left_ih fun var inside => vars var (List.mem_append_left _ inside))
      (right_ih fun var inside => vars var (List.mem_append_right _ inside))

/-- A call means the same if the arguments do and the body does. -/
theorem call_agrees {args : List Tree} (args_agree : ∀ a ∈ args, TreeAgrees s s' (nesting + 1) depth a)
    (body_agree : TreeAgrees s s' nesting (depth + 1) f.body)
    (frames : List.Forall₂ Number.Same frame frame') (writes : w.Same w') :
    Agree Number.Same (call s (nesting + 1) depth frame f args w)
      (call s' (nesting + 1) depth frame' f args w') := by
  rw [call, call]
  split
  · exact (values_agree args_agree frames writes).bind fun xs_same writes₁ => body_agree xs_same writes₁
  · exact .error (.refl _)

end Meaning

/-- The scopes agree on what a tree can look up: the variables that it names, the functions that it may call, and the
variables that these name. -/
structure Scope.AgreeAbout (t : Tree) (s s' : Scope) : Prop where
  prec : s.prec = s'.prec
  functions : ∀ name, t.MayCall name → s.functions name = s'.functions name
  vars : ∀ name ∈ t.vars, Option.Rel Number.Same (s.vars name) (s'.vars name)
  bodies : ∀ name f, t.MayCall name → s.functions name = some f →
    ∀ var ∈ f.vars, Option.Rel Number.Same (s.vars var) (s'.vars var)

theorem Scope.AgreeAbout.mono {s s' : Scope} {t part : Tree} (agree : AgreeAbout t s s') (names : part.names ⊆ t.names)
    (nodes : part.nodes ⊆ t.nodes) : AgreeAbout part s s' := by
  have vars : part.vars ⊆ t.vars := fun name inside =>
    Tree.mem_vars_iff.mpr (names (Tree.mem_vars_iff.mp inside))
  have calls : ∀ name, part.MayCall name → t.MayCall name := fun name may =>
    may.imp (vars ·) fun ⟨args, inside⟩ => ⟨args, nodes inside⟩
  exact ⟨agree.prec, fun name may => agree.functions name (calls name may),
    fun name inside => agree.vars name (vars inside), fun name f may => agree.bodies name f (calls name may)⟩

namespace Meaning

variable {s s' : Scope} {nesting : Nat} {t : Tree} {params : List String} {name : String} {f : Func}
  {frame frame' : List Number} {w w' : Writes}

/-- A function that the tree may call means the same in both scopes, and is the same. -/
theorem callee_agrees (agree : Scope.AgreeAbout t s s') (may : t.MayCall name)
    (flat : ∀ name f, s.functions name = some f → f.body.Expression false f.params)
    (found : s.functions name = some f) :
    s'.functions name = some f ∧ TreeAgrees s s' nesting 1 f.body := by
  refine ⟨(agree.functions name may).symm.trans found, ?_⟩
  -- the body calls nothing, so its variables are all that it looks up
  refine body_agrees agree.prec (flat name f found) fun var inside => ?_
  exact agree.bodies name f may found var (Tree.mem_vars_iff.mpr inside)

theorem ident_agrees (agree : Scope.AgreeAbout (.ident name) s s')
    (flat : ∀ name f, s.functions name = some f → f.body.Expression false f.params) :
    TreeAgrees s s' (nesting + 1) 0 (.ident name) := by
  intro frame frame' w w' frames writes
  have named : name ∈ (Tree.ident name).vars := Tree.mem_vars_iff.mpr (List.mem_singleton_self name)
  have bound := optionRel_or (writes name) (agree.vars name named)
  rw [value_ident, value_ident, if_pos rfl, if_pos rfl]
  generalize (w name).or (s.vars name) = outcome, (w' name).or (s'.vars name) = outcome' at bound
  cases bound with
  | some same => exact .ok same writes
  | none =>
    cases found : s.functions name with
    | none =>
      have found' : s'.functions name = none := (agree.functions name (.inl named)).symm.trans found
      rw [found']
      exact .error (.refl _)
    | some f =>
      obtain ⟨found', body_agree⟩ := callee_agrees agree (.inl named) flat found
      rw [found']
      exact call_agrees (by simp) body_agree frames writes

theorem application_agrees {args : List Tree} (agree : Scope.AgreeAbout (.call name args) s s')
    (flat : ∀ name f, s.functions name = some f → f.body.Expression false f.params)
    (args_agree : ∀ a ∈ args, TreeAgrees s s' (nesting + 1) 0 a) :
    TreeAgrees s s' (nesting + 1) 0 (.call name args) := by
  intro frame frame' w w' frames writes
  have called : (Tree.call name args).MayCall name := .inr ⟨args, List.mem_cons_self ..⟩
  rw [value, value]
  cases found : s.functions name with
  | none =>
    rw [(agree.functions name called).symm.trans found]
    exact .error (.refl _)
  | some f =>
    obtain ⟨found', body_agree⟩ := callee_agrees agree called flat found
    rw [found']
    exact call_agrees args_agree body_agree frames writes

/-- An expression means the same in scopes that agree about it. -/
theorem value_agrees (agree : Scope.AgreeAbout t s s')
    (flat : ∀ name f, s.functions name = some f → f.body.Expression false f.params)
    (ok : t.Expression true params) : TreeAgrees s s' (nesting + 1) 0 t := by
  induction ok with
  | number text => exact number_agrees agree.prec text
  | ident name => exact ident_agrees agree flat
  | param index name => exact param_agrees index name
  | assign name _ ih =>
    exact assign_agrees name (ih (agree.mono (List.subset_cons_self _ _) (Tree.nodes_value name _)))
  | call function _ _ ih =>
    refine application_agrees agree flat fun a inside => ?_
    exact ih a inside (agree.mono (Tree.names_arg inside) (Tree.nodes_arg function inside))
  | unary op _ ih => exact unary_agrees op (ih (agree.mono (List.Subset.refl _) (Tree.nodes_operand op _)))
  | binary op _ _ left_ih right_ih =>
    exact binary_agrees op
      (left_ih (agree.mono (List.subset_append_left _ _) (Tree.nodes_left op _ _)))
      (right_ih (agree.mono (List.subset_append_right _ _) (Tree.nodes_right op _ _)))

end Meaning

/-- The line has the name as that of a variable, or calls a function of that name. -/
def Line.MayCall (line : Line) (name : String) : Prop :=
  name ∈ line.vars ∨ ∃ args, .call name args ∈ line.tree.nodes

namespace Environment

variable {env other : Environment} {line : Line} {t : Tree} {params : List String}

/-- A definition asks which names are variables, and which functions there are. -/
theorem inlineName_congr {name : String} (agree : Scope.AgreeAbout (.ident name) env.scope other.scope) :
    env.inlineName name = other.inlineName name := by
  have named : name ∈ (Tree.ident name).vars := Tree.mem_vars_iff.mpr (List.mem_singleton_self name)
  have functions_same : env.functions.find? name = other.functions.find? name :=
    agree.functions name (.inl named)
  have bound : Option.Rel Number.Same (env.vars.find? name) (other.vars.find? name) := agree.vars name named
  rw [inlineName, inlineName, functions_same]
  -- of a variable only counts whether it is bound
  generalize env.vars.find? name = outcome, other.vars.find? name = outcome' at bound
  cases bound with
  | some same => rfl
  | none => rfl

theorem inline_agrees (agree : Scope.AgreeAbout t env.scope other.scope) (ok : t.Expression true params) :
    env.inline t = other.inline t := by
  induction ok with
  | number | param => rfl
  | ident name => rw [inline, inline, inlineName_congr agree]
  | assign name _ ih =>
    rw [inline, inline, ih (agree.mono (List.subset_cons_self _ _) (Tree.nodes_value name _))]
  | @call function args _ _ ih =>
    have functions_same : env.functions.find? function = other.functions.find? function :=
      agree.functions function (.inr ⟨args, List.mem_cons_self ..⟩)
    have args_same := inlineAll_congr fun a inside =>
      ih a inside (agree.mono (Tree.names_arg inside) (Tree.nodes_arg function inside))
    rw [inline, inline, functions_same, args_same]
  | unary op _ ih => rw [inline, inline, ih (agree.mono (List.Subset.refl _) (Tree.nodes_operand op _))]
  | binary op _ _ left_ih right_ih =>
    rw [inline, inline, left_ih (agree.mono (List.subset_append_left _ _) (Tree.nodes_left op _ _)),
      right_ih (agree.mono (List.subset_append_right _ _) (Tree.nodes_right op _ _))]

/-- The assignments that evaluating a line carries out. -/
def written (env : Environment) (line : Line) : Writes :=
  match Evaluation.evalLine env line.tree env.machine with
  | .ok _ m => m.writes.find?
  | .error _ _ => .none

theorem written_define {function : String} {body : Tree} (tree : line.tree = .define function params body) :
    env.written line = .none := by
  rw [written, tree]
  rfl

/-- What is written is what the line means to assign. -/
theorem Ready.written_eq (ready : env.Ready) (ok : line.tree.Expression true [])
    {outcome : Except Stop (Number × Writes)}
    (meant : Meaning.value env.scope 1 0 [] line.tree .none = some outcome) :
    env.written line = match outcome with
      | .ok (_, w) => w
      | .error _ => .none := by
  have answers := ready.answers ok 0
  rw [meant] at answers
  unfold written
  generalize Evaluation.evalLine env line.tree env.machine = result at answers
  cases answers with
  | ok tidy live writes => exact writes
  | error => rfl

/-- After a line the variables are those from before, but for what it has written. -/
theorem Ready.vars_evaluate (ready : env.Ready) (ok : line.tree.OfLine) :
    (env.evaluate line).2.vars.find? = (env.written line).over env.vars.find? := by
  generalize tree : line.tree = t at ok
  cases ok with
  | expression ok =>
    subst tree
    obtain ⟨outcome, meant, yields⟩ := ready.yields ok
    rw [ready.written_eq ok (meant 0)]
    generalize env.evaluate line = result at yields
    cases yields with
    | value _ _ scope => exact congrArg Scope.vars scope
    | error _ scope => exact congrArg Scope.vars scope
    | fault _ scope => exact congrArg Scope.vars scope
  | definition function distinct body_ok =>
    rw [written_define tree, evaluate_definition ready.idle tree]
    cases env.define function _ _ with
    | error stop => rfl
    | ok f => rfl

/-- Results that differ at most in how numbers are stored. -/
inductive SameResult : Result → Result → Prop
  | defined : SameResult .defined .defined
  | value {x x' : Number} (same : x.Same x') : SameResult (.value x) (.value x')

/-- The text of a result, or of an error. -/
def shown : Except Stop Result → Except Fault String
  | .ok result => result.print
  | .error stop => .ok (Failure.ofStop stop).message

/-- How numbers are stored does not show. -/
theorem shown_eq {outcome outcome' : Except Stop Result} (same : ExceptRel Stop.Same SameResult outcome outcome') :
    shown outcome = shown outcome' := by
  cases same with
  | ok same =>
    cases same with
    | defined => rfl
    | value same => exact congrArg (Except.map ("= " ++ ·)) same.print_eq
  | error same =>
    cases same with
    | error same => exact congrArg Except.ok same.message_eq
    | fault f => rfl

/-- What the evaluations give and what they write differs at most in how numbers are stored. -/
structure SameEvaluation (line : Line) (env other : Environment) : Prop where
  result : ExceptRel Stop.Same SameResult (env.evaluate line).1 (other.evaluate line).1
  writes : (env.written line).Same (other.written line)

theorem Ready.expression_agrees (ready : env.Ready) (other_ready : other.Ready)
    (agree : Scope.AgreeAbout line.tree env.scope other.scope) (ok : line.tree.Expression true []) :
    SameEvaluation line env other := by
  obtain ⟨outcome, meant, yields⟩ := ready.yields ok
  obtain ⟨outcome', meant', yields'⟩ := other_ready.yields ok
  have agrees : Meaning.Agree Number.Same (Meaning.value env.scope 1 0 [] line.tree .none)
      (Meaning.value other.scope 1 0 [] line.tree .none) :=
    Meaning.value_agrees agree ready.flat ok .nil Writes.same_none
  rw [meant 0, meant' 0] at agrees
  constructor
  · generalize env.evaluate line = result, other.evaluate line = result' at yields yields'
    cases agrees with
    | ok values writes =>
      cases yields with
      | value =>
        cases yields' with
        | value => exact .ok (.value values)
    | error same =>
      cases same with
      | error same =>
        cases yields with
        | error =>
          cases yields' with
          | error => exact .error (.error same)
      | fault f =>
        cases yields with
        | fault =>
          cases yields' with
          | fault => exact .error (.fault f)
  · rw [ready.written_eq ok (meant 0), other_ready.written_eq ok (meant' 0)]
    cases agrees with
    | ok values writes => exact writes
    | error same => exact Writes.same_none

/-- A definition stores the same function, or is refused for the same reason. -/
theorem Ready.definition_agrees (ready : env.Ready) (other_ready : other.Ready)
    (agree : Scope.AgreeAbout line.tree env.scope other.scope) {function : String} {body : Tree}
    (tree : line.tree = .define function params body) (ok : body.Expression true params) :
    SameEvaluation line env other ∧
      ((env.evaluate line).1 = .ok .defined → ∃ f, (env.evaluate line).2 = env.withFunction function f ∧
        (other.evaluate line).2 = other.withFunction function f) := by
  rw [tree] at agree
  have body_agree := agree.mono (List.Subset.refl body.names) (List.subset_cons_self _ body.nodes)
  have defines : env.define function params body = other.define function params body := by
    rw [define, define, inline_agrees body_agree ok]
  have evaluated := evaluate_definition ready.idle tree
  have other_evaluated := evaluate_definition other_ready.idle tree
  rw [← defines] at other_evaluated
  have writes : (env.written line).Same (other.written line) := by
    rw [written_define tree, written_define tree]
    exact Writes.same_none
  cases defined : env.define function params body with
  | error stop =>
    rw [defined] at evaluated other_evaluated
    refine ⟨⟨?_, writes⟩, fun succeeds => ?_⟩
    · rw [evaluated, other_evaluated]
      exact .error (.refl stop)
    · rw [evaluated] at succeeds
      cases succeeds
  | ok f =>
    rw [defined] at evaluated other_evaluated
    refine ⟨⟨?_, writes⟩, fun _ => ⟨f, ?_, ?_⟩⟩
    · rw [evaluated, other_evaluated]
      exact .ok .defined
    · rw [evaluated]
    · rw [other_evaluated]

/-- The environments agree on what the line mentions: on the variables that it names, on the functions that have one
of these names or are called with arguments, and on the variables that those functions name. -/
structure AgreeAbout (line : Line) (env other : Environment) : Prop where
  prec : env.prec = other.prec
  functions : ∀ name, line.MayCall name → env.functions.find? name = other.functions.find? name
  vars : ∀ name ∈ line.vars, Option.Rel Number.Same (env.vars.find? name) (other.vars.find? name)
  bodies : ∀ name f, line.MayCall name → env.functions.find? name = some f →
    ∀ var ∈ f.vars, Option.Rel Number.Same (env.vars.find? var) (other.vars.find? var)

/-- A line gives the same in environments that agree on what it mentions, and changes them in the same way. Nothing
else in them counts. -/
theorem evaluate_depends_on_vars {source : Lexer.Source} {text : List Char} (reachable : Reachable .rising env)
    (other_reachable : Reachable .rising other) (read : Parser.parse source text = .ok line)
    (agree : AgreeAbout line env other) :
    SameEvaluation line env other ∧
      shown (env.evaluate line).1 = shown (other.evaluate line).1 ∧
      (env.evaluate line).2.vars.find? = (env.written line).over env.vars.find? ∧
      (other.evaluate line).2.vars.find? = (other.written line).over other.vars.find? ∧
      ∀ function params body, line.tree = .define function params body →
        (env.evaluate line).1 = .ok .defined →
          ∃ f, (env.evaluate line).2 = env.withFunction function f ∧
            (other.evaluate line).2 = other.withFunction function f := by
  have ready := reachable.ready
  have other_ready := other_reachable.ready
  have of_line := Parser.ofLine_of_parse read
  have scopes : Scope.AgreeAbout line.tree env.scope other.scope := by
    obtain ⟨prec, functions, vars, bodies⟩ := agree
    simp only [Line.MayCall, Parser.vars_of_parse read] at functions vars bodies
    exact ⟨prec, functions, vars, bodies⟩
  have vars := ready.vars_evaluate of_line
  have other_vars := other_ready.vars_evaluate of_line
  generalize tree : line.tree = t at of_line
  cases of_line with
  | expression ok =>
    subst tree
    have same := ready.expression_agrees other_ready scopes ok
    refine ⟨same, shown_eq same.result, vars, other_vars, fun function params body tree => ?_⟩
    rw [tree] at ok
    cases ok
  | definition function distinct body_ok =>
    obtain ⟨same, stores⟩ := ready.definition_agrees other_ready scopes tree body_ok
    refine ⟨same, shown_eq same.result, vars, other_vars, ?_⟩
    rintro _ _ _ ⟨⟩
    exact stores

/-- A number that is stored in another way, a variable and a function more: the line gives the same. -/
theorem evaluate_depends_on_vars_call :
    ∃ env other line x y, Reachable .rising env ∧ Reachable .rising other ∧
      Parser.parse {} "z = f x".toList = .ok line ∧ AgreeAbout line env other ∧
      env.vars.find? "x" = some x ∧ other.vars.find? "x" = some y ∧ x ≠ y ∧
      env.vars.find? "y" = none ∧ (other.vars.find? "y").isSome = true ∧
      SameEvaluation line env other := by
  let f : Func := { name := "f", params := ["a"], body := .binary .add (.param 0 "a") (.ident "x") }
  let g : Func := { name := "g", params := [], body := .number "7" }
  let one : Number := { prec := 128, neg := false, mag := .finite 1 0, words := 1 }
  let base := (blank 128).withFunction "f" f
  let env : Environment := { base with vars := Bindings.empty.insert "x" one }
  let other : Environment := { base.withFunction "g" g with
    vars := (Bindings.empty.insert "y" one).insert "x" { one with words := 2 } }
  let line : Line := { tree := .assign "z" (.call "f" [.ident "x"]), vars := ["x", "z"] }
  have define_f : (blank 128).exec (Text.ofString "f a => a + x") = (.ok .defined, base) := by cbv
  have define_g : base.exec (Text.ofString "g => 7") = (.ok .defined, base.withFunction "g" g) := by cbv
  have first := (reachable_blank (Nat.succ_pos 127)).exec_ok (congrArg Prod.fst define_f)
  rw [define_f] at first
  have second := first.exec_ok (congrArg Prod.fst define_g)
  rw [define_g] at second
  have reachable : Reachable .rising env := first.set (show base.set "x" one = .ok env by cbv)
  have third := second.set (show (base.withFunction "g" g).set "y" one =
    .ok { base.withFunction "g" g with vars := Bindings.empty.insert "y" one } by cbv)
  have other_reachable : Reachable .rising other :=
    third.set (show Environment.set _ "x" { one with words := 2 } = .ok other by cbv)
  have read : Parser.parse {} "z = f x".toList = .ok line := by cbv
  have may_call : ∀ name, line.MayCall name → name = "x" ∨ name = "z" ∨ name = "f" := by
    rintro name (named | ⟨args, called⟩)
    · simp only [line, List.mem_cons, List.not_mem_nil, or_false] at named
      exact named.imp_right .inl
    · simp only [line, Tree.nodes, Tree.nodesOfAll, List.append_nil, List.mem_cons, List.not_mem_nil, or_false,
        reduceCtorEq, false_or, Tree.call.injEq] at called
      exact .inr (.inr called.1)
  have x_same : Option.Rel Number.Same (env.vars.find? "x") (other.vars.find? "x") := by
    rw [show env.vars.find? "x" = some one by cbv, show other.vars.find? "x" = some { one with words := 2 } by cbv]
    exact .some ⟨rfl, rfl, rfl⟩
  have agree : AgreeAbout line env other := by
    refine ⟨rfl, fun name may => ?_, fun name named => ?_, fun name h may found var inside => ?_⟩
    · rcases may_call name may with rfl | rfl | rfl <;> cbv
    · rcases List.mem_pair.mp named with rfl | rfl
      · exact x_same
      · exact .none
    · rcases may_call name may with rfl | rfl | rfl
      · cases found
      · cases found
      · cases found
        rw [show f.vars = ["x"] by cbv, List.mem_singleton] at inside
        subst inside
        exact x_same
  exact ⟨env, other, line, one, { one with words := 2 }, reachable, other_reachable, read, agree, by cbv, by cbv,
    by decide, by cbv, by cbv, (evaluate_depends_on_vars reachable other_reachable read agree).1⟩

end Environment

end Abacus
