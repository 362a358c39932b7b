import Abacus.Proofs.Nodes
import Abacus.Proofs.Reachable
import Mathlib

/-!
Inlining keeps what calls mean.

A call evaluates its arguments first and then the body with their values. Inlining puts the arguments themselves
in the place of the parameters, so each of them is evaluated as often as its parameter occurs. Without
assignments that makes no difference to the value. It makes one to failure: an argument that a body does not
use is never evaluated once it is inlined.
-/

namespace Abacus

namespace Tree

/-- No assignment occurs in the tree. -/
def AssignFree (t : Tree) : Prop :=
  ∀ name value, .assign name value ∉ t.nodes

theorem assignFree_operand {op : UnaryOp} {operand : Tree} :
    (unary op operand).AssignFree ↔ operand.AssignFree := by
  simp [AssignFree, nodes]

theorem assignFree_operands {op : BinaryOp} {left right : Tree} :
    (binary op left right).AssignFree ↔ left.AssignFree ∧ right.AssignFree := by
  simp [AssignFree, nodes, forall_and]

theorem not_assignFree_assign {name : String} {value : Tree} : ¬(assign name value).AssignFree :=
  fun free => free name value (List.mem_cons_self ..)

/-- Substitution adds no assignments but those of the arguments. -/
theorem AssignFree.substitute {body t : Tree} {params : List String} {args : List Tree}
    (ok : body.Expression false params) (free : body.AssignFree)
    (args_free : ∀ a ∈ args, a.AssignFree) (replaced : body.substitute (some args) = .ok t) :
    t.AssignFree := by
  intro name value node
  rcases hasHead_of_substitute ok replaced node with own | ⟨a, inside, below⟩
  · obtain ⟨value', node'⟩ := hasHead_assign_iff.mp own
    exact free name value' node'
  · exact args_free a inside name value below

end Tree

namespace Meaning

variable {s : Scope} {nesting : Nat} {frame xs : List Number} {w w' : Writes} {v : Number}
  {params : List String} {body t : Tree} {args : List Tree}

/-- Without assignments a body leaves the assignments from before. -/
theorem value_writes {depth : Nat} (ok : t.Expression false params) (free : t.AssignFree)
    (success : value s nesting (depth + 1) frame t w = some (.ok (v, w'))) : w' = w := by
  induction ok generalizing v w w' with
  | number => exact (value_number_eq_ok_iff.mp success).2
  | ident => exact (value_ident_deep_eq_ok_iff.mp success).2
  | param => exact (value_param_eq_ok_iff.mp success).2
  | assign => exact absurd free Tree.not_assignFree_assign
  | call function allowed => cases allowed
  | unary op _ ih =>
    obtain ⟨x, given, -⟩ := value_unary_eq_ok_iff.mp success
    exact ih (Tree.assignFree_operand.mp free) given
  | binary op _ _ left_ih right_ih =>
    obtain ⟨left_free, right_free⟩ := Tree.assignFree_operands.mp free
    obtain ⟨x, w₁, y, left, right, -⟩ := value_binary_eq_ok_iff.mp success
    rw [right_ih right_free right, left_ih left_free left]

/-- A body in which arguments stand for the parameters means what it means with their values. Since it assigns
nothing, it does not matter when and how often the arguments are evaluated. -/
theorem value_substitute (ok : body.Expression false params) (free : body.AssignFree)
    (args_mean : List.Forall₂ (fun a x => value s nesting 1 frame a w = some (.ok (x, w))) args xs)
    (replaced : body.substitute (some args) = .ok t) :
    value s nesting 1 frame t w = value s nesting 1 xs body w := by
  induction ok generalizing t with
  | number =>
    cases replaced
    rw [value, value]
  | ident =>
    cases replaced
    rw [value_ident_deep, value_ident_deep]
  | param index name named =>
    have found : args[index]? = some t := Tree.argument_eq_ok_iff.mp replaced
    obtain ⟨x, value_found, meant⟩ := Environment.exists_getElem?_of_forall₂ args_mean found
    rw [meant]
    exact (value_param_eq_ok_iff.mpr ⟨Tree.argument_eq_ok_iff.mpr value_found, rfl⟩).symm
  | assign => exact absurd free Tree.not_assignFree_assign
  | call function allowed => cases allowed
  | unary op _ ih =>
    obtain ⟨operand, operand_replaced, rfl⟩ := Tree.substitute_unary_eq_ok_iff.mp replaced
    rw [value, value]
    exact bind_congr (ih (Tree.assignFree_operand.mp free) operand_replaced) fun _ _ _ => rfl
  | binary op left_ok _ left_ih right_ih =>
    obtain ⟨left, right, left_replaced, right_replaced, rfl⟩ :=
      Tree.substitute_binary_eq_ok_iff.mp replaced
    obtain ⟨left_free, right_free⟩ := Tree.assignFree_operands.mp free
    have left_same := left_ih left_free left_replaced
    rw [value, value]
    refine bind_congr left_same fun x w₁ left_meant => ?_
    rw [left_same] at left_meant
    rw [value_writes left_ok left_free left_meant]
    exact bind_congr (right_ih right_free right_replaced) fun _ _ _ => rfl

theorem value_without_params (ok : body.Expression false []) (free : body.AssignFree) :
    value s nesting 1 frame body w = value s nesting 1 [] body w :=
  value_substitute ok free .nil (ok.substitute_self (some []))

/-- An argument that is used has a value where the body has one. -/
theorem value_of_used {index : Nat} {name : String} (ok : body.Expression false params)
    (free : body.AssignFree) (fits : args.length = params.length) {outer : List String}
    (args_ok : ∀ a ∈ args, a.Expression false outer ∧ a.AssignFree)
    (replaced : body.substitute (some args) = .ok t)
    (success : value s nesting 1 frame t w = some (.ok (v, w'))) (used : .param index name ∈ body.nodes) :
    ∃ a x, args[index]? = some a ∧ value s nesting 1 frame a w = some (.ok (x, w)) := by
  induction ok generalizing t v w' with
  | number | ident => simp [Tree.nodes] at used
  | param index' name' named =>
    simp only [Tree.nodes, List.mem_singleton, Tree.param.injEq, Int.ofNat_inj] at used
    obtain ⟨rfl, rfl⟩ := used
    have found : args[index]? = some t := Tree.argument_eq_ok_iff.mp replaced
    obtain ⟨t_ok, t_free⟩ := args_ok t (List.mem_of_getElem? found)
    refine ⟨t, v, found, ?_⟩
    rw [success, value_writes t_ok t_free success]
  | assign => exact absurd free Tree.not_assignFree_assign
  | call function allowed => cases allowed
  | unary op _ ih =>
    obtain ⟨operand, operand_replaced, rfl⟩ := Tree.substitute_unary_eq_ok_iff.mp replaced
    obtain ⟨x, given, -⟩ := value_unary_eq_ok_iff.mp success
    simp only [Tree.nodes, List.mem_cons, reduceCtorEq, false_or] at used
    exact ih (Tree.assignFree_operand.mp free) operand_replaced given used
  | binary op left_ok _ left_ih right_ih =>
    obtain ⟨left, right, left_replaced, right_replaced, rfl⟩ :=
      Tree.substitute_binary_eq_ok_iff.mp replaced
    obtain ⟨left_free, right_free⟩ := Tree.assignFree_operands.mp free
    obtain ⟨x, w₁, y, left_given, right_given, -⟩ := value_binary_eq_ok_iff.mp success
    simp only [Tree.nodes, List.mem_cons, reduceCtorEq, false_or, List.mem_append] at used
    rcases used with used | used
    · exact left_ih left_free left_replaced left_given used
    · obtain ⟨_, left_replaced', left_ok'⟩ := left_ok.substitute fits fun a inside => (args_ok a inside).1
      cases left_replaced.symm.trans left_replaced'
      have left_free' := Tree.AssignFree.substitute left_ok left_free
        (fun a inside => (args_ok a inside).2) left_replaced
      rw [value_writes left_ok' left_free' left_given] at right_given
      exact right_ih right_free right_replaced right_given used

/-- Inside of a body the functions do not matter, and of the variables only those that it names. -/
theorem value_deep_congr {s' : Scope} {depth : Nat} (prec_same : s.prec = s'.prec)
    (ok : t.Expression false params) (vars_same : ∀ name ∈ t.names, s.vars name = s'.vars name) :
    value s nesting (depth + 1) frame t w = value s' nesting (depth + 1) frame t w := by
  induction ok generalizing w with
  | number => rw [value, value, prec_same]
  | ident name => rw [value_ident_deep, value_ident_deep, vars_same name (List.mem_cons_self ..)]
  | param => rw [value, value]
  | call function allowed => cases allowed
  | assign _ _ ih =>
    rw [value, value]
    exact bind_congr (ih fun name inside => vars_same name (List.mem_cons_of_mem _ inside)) fun _ _ _ => rfl
  | unary _ _ ih =>
    rw [value, value]
    exact bind_congr (ih vars_same) fun _ _ _ => rfl
  | binary _ _ _ left_ih right_ih =>
    rw [value, value]
    refine bind_congr (left_ih fun name inside => vars_same name (List.mem_append_left _ inside)) fun _ _ _ => ?_
    exact bind_congr (right_ih fun name inside => vars_same name (List.mem_append_right _ inside)) fun _ _ _ => rfl

end Meaning

/-- Every parameter occurs in the body. -/
def Func.UsesAll (f : Func) : Prop :=
  ∀ index < f.params.length, ∃ name, .param index name ∈ f.body.nodes

namespace Environment

open Meaning

/-- Neither the tree nor a function that it calls assigns anything. -/
structure Unassigning (env : Environment) (t : Tree) : Prop where
  free : t.AssignFree
  callees : ∀ f, env.Calls t f → f.body.AssignFree

variable {env : Environment} {nesting : Nat} {t t' part : Tree} {params : List String} {f : Func}
  {frame : List Number} {v : Number} {w' : Writes}

theorem Unassigning.mono (unassigning : env.Unassigning t) (sub : part.nodes ⊆ t.nodes) :
    env.Unassigning part :=
  ⟨fun name value node => unassigning.free name value (sub node),
    fun f calls => unassigning.callees f (calls.mono sub)⟩

/-- The arguments of a call are inlined to expressions of the caller. -/
theorem forall_inlined {P : Tree → Prop} {args args' : List Tree}
    (inlined : List.Forall₂ (fun a a' => env.inline a = .ok a') args args')
    (each : ∀ a ∈ args, ∀ a', env.inline a = .ok a' → P a') : ∀ a' ∈ args', P a' := by
  intro a' inside
  obtain ⟨a, a_inside, a_inlined⟩ := exists_mem_of_forall₂ inlined inside
  exact each a a_inside a' a_inlined

theorem inline_assignFree (flat : env.Flat) (ok : t.Expression true params)
    (unassigning : env.Unassigning t) (inlined : env.inline t = .ok t') : t'.AssignFree := by
  intro name value node
  rcases draws_of_inline flat ok inlined node with own | ⟨f, calls, has⟩
  · obtain ⟨value', node'⟩ := Tree.hasHead_assign_iff.mp own
    exact unassigning.free name value' node'
  · obtain ⟨value', node'⟩ := Tree.hasHead_assign_iff.mp has
    exact unassigning.callees f calls name value' node'

/-- Where the arguments have values, so do the inlined arguments. -/
theorem inlineAll_of_values {args : List Tree} {xs : List Number}
    (each : ∀ a ∈ args, ∀ v w', value env.scope (nesting + 1) 0 frame a .none = some (.ok (v, w')) →
      w' = .none ∧ ∃ a', env.inline a = .ok a' ∧
        value env.scope nesting 1 frame a' .none = some (.ok (v, .none)))
    (success : values env.scope (nesting + 1) 0 frame args .none = some (.ok (xs, w'))) :
    w' = .none ∧ ∃ args', List.Forall₂ (fun a a' => env.inline a = .ok a') args args' ∧
      List.Forall₂ (fun a' x => value env.scope nesting 1 frame a' .none = some (.ok (x, .none))) args' xs := by
  induction args generalizing xs with
  | nil =>
    rw [values] at success
    cases success
    exact ⟨rfl, [], .nil, .nil⟩
  | cons a rest ih =>
    obtain ⟨x, w₁, ys, first, others, rfl⟩ := values_cons_eq_ok_iff.mp success
    obtain ⟨rfl, a', a_inlined, a_meant⟩ := each a (List.mem_cons_self ..) x w₁ first
    obtain ⟨same, rest', rest_inlined, rest_meant⟩ :=
      ih (fun b inside => each b (List.mem_cons_of_mem _ inside)) others
    exact ⟨same, a' :: rest', .cons a_inlined rest_inlined, .cons a_meant rest_meant⟩

/-- Where a tree has a value with its calls, it can be inlined and then has the same value. -/
theorem inline_of_value (flat : env.Flat) (ok : t.Expression true params)
    (unassigning : env.Unassigning t)
    (success : value env.scope (nesting + 1) 0 frame t .none = some (.ok (v, w'))) :
    w' = .none ∧ ∃ t', env.inline t = .ok t' ∧
      value env.scope nesting 1 frame t' .none = some (.ok (v, .none)) := by
  induction ok generalizing v w' with
  | number =>
    obtain ⟨read, rfl⟩ := value_number_eq_ok_iff.mp success
    exact ⟨rfl, _, rfl, value_number_eq_ok_iff.mpr ⟨read, rfl⟩⟩
  | ident name =>
    rcases value_ident_eq_ok_iff.mp success with ⟨bound, rfl⟩ | ⟨unbound, f, found, niladic, given⟩
    · have is_var : env.vars.find? name = some v := bound
      have stays : env.inline (.ident name) = .ok (.ident name) :=
        inline_ident_eq_ok_iff.mpr (.inr ⟨by simp [is_var], rfl⟩)
      exact ⟨rfl, _, stays, value_ident_deep_eq_ok_iff.mpr ⟨bound, rfl⟩⟩
    · have body_ok : f.body.Expression false f.params := flat name f found
      have body_free := unassigning.callees f (calls_of_ident unbound found niladic)
      have inlined : env.inline (.ident name) = .ok f.body :=
        inline_ident_eq_ok_iff.mpr (.inl ⟨f, unbound, found, niladic, rfl⟩)
      cases value_writes body_ok body_free given
      rw [niladic] at body_ok
      exact ⟨rfl, f.body, inlined, (value_without_params body_ok body_free).trans given⟩
  | param =>
    obtain ⟨read, rfl⟩ := value_param_eq_ok_iff.mp success
    exact ⟨rfl, _, rfl, value_param_eq_ok_iff.mpr ⟨read, rfl⟩⟩
  | assign => exact absurd unassigning.free Tree.not_assignFree_assign
  | call function _ args_ok ih =>
    obtain ⟨f, xs, w₁, found, arity, args_given, body_given⟩ := value_call_eq_ok_iff.mp success
    have body_ok : f.body.Expression false f.params := flat function f found
    have body_free := unassigning.callees f (calls_of_call found)
    obtain ⟨rfl, args', args_inlined, args_meant⟩ := inlineAll_of_values (fun a inside _ _ =>
      ih a inside (unassigning.mono (Tree.nodes_arg function inside))) args_given
    have args_ok' := forall_inlined args_inlined fun a inside _ => inline_expression flat (args_ok a inside)
    obtain ⟨t', replaced, -⟩ := body_ok.substitute (args_inlined.length_eq ▸ arity) args_ok'
    have inlined : env.inline (.call function _) = .ok t' :=
      inline_call_eq_ok_iff.mpr ⟨f, args', found, arity, args_inlined, replaced⟩
    cases value_writes body_ok body_free body_given
    exact ⟨rfl, t', inlined, (value_substitute body_ok body_free args_meant replaced).trans body_given⟩
  | unary op _ ih =>
    obtain ⟨x, given, rfl⟩ := value_unary_eq_ok_iff.mp success
    obtain ⟨rfl, operand, inlined, meant⟩ := ih (unassigning.mono (Tree.nodes_operand ..)) given
    exact ⟨rfl, _, inline_unary_eq_ok_iff.mpr ⟨operand, inlined, rfl⟩,
      value_unary_eq_ok_iff.mpr ⟨x, meant, rfl⟩⟩
  | binary op _ _ left_ih right_ih =>
    obtain ⟨x, w₁, y, left_given, right_given, applied⟩ := value_binary_eq_ok_iff.mp success
    obtain ⟨rfl, left, left_inlined, left_meant⟩ :=
      left_ih (unassigning.mono (Tree.nodes_left ..)) left_given
    obtain ⟨rfl, right, right_inlined, right_meant⟩ :=
      right_ih (unassigning.mono (Tree.nodes_right ..)) right_given
    exact ⟨rfl, _, inline_binary_eq_ok_iff.mpr ⟨left, right, left_inlined, right_inlined, rfl⟩,
      value_binary_eq_ok_iff.mpr ⟨x, .none, y, left_meant, right_meant, applied⟩⟩

/-- Where the inlined arguments all have values, so do the arguments. -/
theorem values_of_inlineAll {args args' : List Tree}
    (inlined : List.Forall₂ (fun a a' => env.inline a = .ok a') args args')
    (each : ∀ a ∈ args, ∀ a' ∈ args', env.inline a = .ok a' →
      ∃ x, value env.scope nesting 1 frame a' .none = some (.ok (x, .none)) ∧
        value env.scope (nesting + 1) 0 frame a .none = some (.ok (x, .none))) :
    ∃ xs, values env.scope (nesting + 1) 0 frame args .none = some (.ok (xs, .none)) ∧
      List.Forall₂ (fun a' x => value env.scope nesting 1 frame a' .none = some (.ok (x, .none))) args' xs := by
  induction inlined with
  | nil => exact ⟨[], by rw [values]; rfl, .nil⟩
  | @cons a a' rest rest' a_inlined _ ih =>
    obtain ⟨x, a_meant, a_given⟩ := each a (List.mem_cons_self ..) a' (List.mem_cons_self ..) a_inlined
    obtain ⟨xs, rest_given, rest_meant⟩ := ih fun b b_inside b' b'_inside =>
      each b (List.mem_cons_of_mem _ b_inside) b' (List.mem_cons_of_mem _ b'_inside)
    exact ⟨x :: xs, values_cons_eq_ok_iff.mpr ⟨x, .none, xs, a_given, rest_given, rfl⟩,
      .cons a_meant rest_meant⟩

/-- Where an inlined tree has a value, the tree with its calls has the same one, if the functions that it calls
use all their parameters. -/
theorem value_of_inline (flat : env.Flat) (ok : t.Expression true params)
    (unassigning : env.Unassigning t) (uses : ∀ f, env.Calls t f → f.UsesAll)
    (inlined : env.inline t = .ok t')
    (success : value env.scope nesting 1 frame t' .none = some (.ok (v, .none))) :
    value env.scope (nesting + 1) 0 frame t .none = some (.ok (v, .none)) := by
  induction ok generalizing t' v with
  | number =>
    cases inlined
    exact value_number_eq_ok_iff.mpr (value_number_eq_ok_iff.mp success)
  | ident name =>
    refine value_ident_eq_ok_iff.mpr ?_
    rcases inline_ident_eq_ok_iff.mp inlined with ⟨f, unbound, found, niladic, rfl⟩ | ⟨-, rfl⟩
    · have body_ok : f.body.Expression false f.params := flat name f found
      have body_free := unassigning.callees f (calls_of_ident unbound found niladic)
      rw [niladic] at body_ok
      rw [value_without_params body_ok body_free] at success
      exact .inr ⟨unbound, f, found, niladic, success⟩
    · exact .inl (value_ident_deep_eq_ok_iff.mp success)
  | param =>
    cases inlined
    exact value_param_eq_ok_iff.mpr (value_param_eq_ok_iff.mp success)
  | assign => exact absurd unassigning.free Tree.not_assignFree_assign
  | call function _ args_ok ih =>
    obtain ⟨f, args', found, arity, args_inlined, replaced⟩ := inline_call_eq_ok_iff.mp inlined
    have body_ok : f.body.Expression false f.params := flat function f found
    have body_free := unassigning.callees f (calls_of_call found)
    have fits : args'.length = f.params.length := args_inlined.length_eq ▸ arity
    have arg_unassigning := fun a inside => unassigning.mono (Tree.nodes_arg function (a := a) inside)
    have args_ok' := forall_inlined args_inlined fun a inside a' a_inlined =>
      And.intro (inline_expression flat (args_ok a inside) a_inlined)
        (inline_assignFree flat (args_ok a inside) (arg_unassigning a inside) a_inlined)
    have each : ∀ a' ∈ args', ∃ x, value env.scope nesting 1 frame a' .none = some (.ok (x, .none)) := by
      intro a' inside
      obtain ⟨index, below, rfl⟩ := List.getElem_of_mem inside
      obtain ⟨name, used⟩ := uses f (calls_of_call found) index (fits ▸ below)
      obtain ⟨a, x, at_index, meant⟩ :=
        value_of_used body_ok body_free fits args_ok' replaced success used
      rw [List.getElem?_eq_getElem below] at at_index
      cases at_index
      exact ⟨x, meant⟩
    obtain ⟨xs, args_given, args_meant⟩ := values_of_inlineAll args_inlined
      fun a a_inside a' a'_inside a_inlined => by
        obtain ⟨x, meant⟩ := each a' a'_inside
        have arg_uses := fun g calls => uses g (Calls.mono calls (Tree.nodes_arg function a_inside))
        exact ⟨x, meant, ih a a_inside (arg_unassigning a a_inside) arg_uses a_inlined meant⟩
    rw [value_substitute body_ok body_free args_meant replaced] at success
    exact value_call_eq_ok_iff.mpr ⟨f, xs, .none, found, arity, args_given, success⟩
  | @unary op part _ ih =>
    obtain ⟨operand, operand_inlined, rfl⟩ := inline_unary_eq_ok_iff.mp inlined
    obtain ⟨x, meant, rfl⟩ := value_unary_eq_ok_iff.mp success
    have sub := Tree.nodes_operand op part
    have given := ih (unassigning.mono sub) (fun f calls => uses f (calls.mono sub)) operand_inlined meant
    exact value_unary_eq_ok_iff.mpr ⟨x, given, rfl⟩
  | @binary op l r left_ok right_ok left_ih right_ih =>
    obtain ⟨left, right, left_inlined, right_inlined, rfl⟩ := inline_binary_eq_ok_iff.mp inlined
    obtain ⟨x, w₁, y, left_meant, right_meant, applied⟩ := value_binary_eq_ok_iff.mp success
    have left_sub := Tree.nodes_left op l r
    have right_sub := Tree.nodes_right op l r
    have left_free := inline_assignFree flat left_ok (unassigning.mono left_sub) left_inlined
    cases value_writes (inline_expression flat left_ok left_inlined) left_free left_meant
    have left_given := left_ih (unassigning.mono left_sub)
      (fun f calls => uses f (calls.mono left_sub)) left_inlined left_meant
    have right_given := right_ih (unassigning.mono right_sub)
      (fun f calls => uses f (calls.mono right_sub)) right_inlined right_meant
    exact value_binary_eq_ok_iff.mpr ⟨x, .none, y, left_given, right_given, applied⟩

end Environment

/-- A run ends with one more value on the stack. -/
def Evaluation.Pushes (run : Evaluation Unit) (m : Machine) (v : Number) : Prop :=
  match run m with
  | .ok _ m' => m'.stack.live = v :: m.stack.live
  | .error _ _ => False

namespace Environment

open Meaning

variable {env : Environment} {body : Tree} {params : List String} {m m' : Machine}

/-- Outside of other assignments, a run ends with the value that the tree means. -/
theorem pushes_iff {call : Option (Func → List Number → Evaluation Unit)} {nesting depth : Nat}
    {t : Tree} (answers : TreeAnswers env call nesting depth t) (tidy : m.Tidy env.prec)
    (unassigned : m.writes = .empty) (frame : List Number) (v : Number) :
    (Evaluation.eval env call frame t).Pushes m v ↔
      ∃ w', value env.scope nesting depth (frame.map (keep env.prec)) t .none = some (.ok (v, w')) := by
  have answered := answers frame m tidy
  rw [unassigned] at answered
  change Answers _ _ _ _ (value env.scope nesting depth (frame.map (keep env.prec)) t .none) at answered
  unfold Evaluation.Pushes
  generalize Evaluation.eval env call frame t m = result at answered
  generalize value env.scope nesting depth (frame.map (keep env.prec)) t .none = outcome at answered
  cases answered with
  | @ok m₁ x w _ live _ =>
    dsimp only
    rw [live]
    constructor
    · rintro ⟨⟩
      exact ⟨w, rfl⟩
    · rintro ⟨_, ⟨⟩⟩
      rfl
  | error =>
    refine iff_of_false id ?_
    rintro ⟨w', impossible⟩
    cases impossible

/-- A call of a new function evaluates the inlined body. That the function itself is there now does not
matter, since the body calls nothing. -/
theorem callBody_pushes_iff (ready : env.Ready) (body_ok : body.Expression true params)
    {function : String} {f : Func} (defined : env.define function params body = .ok f)
    (tidy : m.Tidy env.prec) (unassigned : m.writes = .empty) (args : List Number) (nesting : Nat)
    (v : Number) :
    (Evaluation.callBody (env.withFunction function f) f args).Pushes m v ↔
      ∃ w', value env.scope nesting 1 (args.map (keep env.prec)) f.body .none = some (.ok (v, w')) := by
  have f_ok := ready.flat.define body_ok defined
  have no_calls : CallsAnswer (env.withFunction function f) none nesting 1 := .inside Nat.one_ne_zero
  have answers := eval_answers (ready.withFunction body_ok defined).toSettled no_calls f_ok
  have same : value (env.withFunction function f).scope nesting 1 (args.map (keep env.prec)) f.body .none =
      value env.scope nesting 1 (args.map (keep env.prec)) f.body .none :=
    value_deep_congr rfl f_ok fun _ _ => rfl
  rw [← same]
  exact pushes_iff answers tidy unassigned args v

/-- Inlining keeps what calls mean where nothing is assigned. If a body has a value when its calls are
evaluated, then its definition succeeds and the stored body has the same value; and conversely, if the
functions that are called use all their parameters. -/
theorem inlining_preserves_calls {source : Lexer.Source} {text : List Char} {line : Line}
    {function : String} (reachable : Reachable .rising env)
    (read : Parser.parse source text = .ok line) (tree : line.tree = .define function params body)
    (free : body.AssignFree) (callees_free : ∀ f, env.Calls body f → f.body.AssignFree)
    (args : List Number) (tidy : m.Tidy env.prec) (unassigned : m.writes = .empty)
    (tidy' : m'.Tidy env.prec) (unassigned' : m'.writes = .empty) :
    (∀ v, (Evaluation.eval env (some (Evaluation.callBody env)) args body).Pushes m v →
      ∃ f, env.define function params body = .ok f ∧
        env.evaluate line = (.ok .defined, env.withFunction function f) ∧
        (Evaluation.callBody (env.withFunction function f) f args).Pushes m' v) ∧
    ((∀ f, env.Calls body f → f.UsesAll) →
      ∀ f v, env.define function params body = .ok f →
        (Evaluation.callBody (env.withFunction function f) f args).Pushes m' v →
        (Evaluation.eval env (some (Evaluation.callBody env)) args body).Pushes m v) := by
  have ready := reachable.ready
  have of_line := Parser.ofLine_of_parse read
  rw [tree] at of_line
  obtain ⟨⟨⟩⟩ | ⟨_, distinct, body_ok⟩ := of_line
  have calls := callBody_answers ready.toSettled 0
  have with_calls := pushes_iff (eval_answers ready.toSettled calls body_ok) tidy unassigned args
  have stored := fun f (defined : env.define function params body = .ok f) =>
    callBody_pushes_iff ready body_ok defined tidy' unassigned' args 0
  have unassigning : env.Unassigning body := ⟨free, callees_free⟩
  constructor
  · intro v pushed
    obtain ⟨w', meant⟩ := (with_calls v).mp pushed
    obtain ⟨-, inlined, success, same⟩ := inline_of_value ready.flat body_ok unassigning meant
    have defined : env.define function params body = .ok ⟨function, params, inlined⟩ :=
      define_eq_ok_iff.mpr ⟨inlined, success, rfl⟩
    refine ⟨_, defined, ?_, (stored _ defined v).mpr ⟨.none, same⟩⟩
    rw [evaluate_definition ready.idle tree, defined]
  · intro uses f v defined pushed
    obtain ⟨w', meant⟩ := (stored _ defined v).mp pushed
    obtain ⟨inlined, success, rfl⟩ := define_eq_ok_iff.mp defined
    have inlined_free := inline_assignFree ready.flat body_ok unassigning success
    cases value_writes (inline_expression ready.flat body_ok success) inlined_free meant
    exact (with_calls v).mpr
      ⟨.none, value_of_inline ready.flat body_ok unassigning uses success meant⟩

/-- The square that is called has its argument twice once it is inlined. -/
theorem inlining_preserves_calls_square :
    ∃ env line, Reachable .rising env ∧ Parser.parse {} "g x=>f(x+1)2".toList = .ok line ∧
      (∀ f, env.Calls line.tree f → f.body.AssignFree ∧ f.UsesAll) ∧
      ∃ f, env.evaluate line = (.ok .defined, env.withFunction "g" f) ∧
        (Evaluation.callBody (env.withFunction "g" f) f
          [{ prec := 8, neg := false, mag := .finite 3 0, words := 1 }]).Pushes env.machine
          { prec := 8, neg := false, mag := .finite 7 1, words := 1 } := by
  let f : Func := { name := "f", params := ["a", "b"],
                    body := .binary .sub (.binary .mul (.param 0 "a") (.param 0 "a")) (.param 1 "b") }
  let body : Tree := .call "f" [.binary .add (.param 0 "x") (.number "1"), .number "2"]
  have read_f : (blank 8).exec (Text.ofString "f a b=>a*a-b") =
      (.ok .defined, (blank 8).withFunction "f" f) := by
    cbv
  have reachable := (reachable_blank (Nat.succ_pos 7)).exec_ok (congrArg Prod.fst read_f)
  rw [read_f] at reachable
  have read_g : Parser.parse {} "g x=>f(x+1)2".toList =
      .ok { tree := .define "g" ["x"] body, vars := [] } := by
    cbv
  have calls_f : ∀ t g, Calls ((blank 8).withFunction "f" f) t g → g = f := by
    rintro t g ⟨name, found, -⟩
    change Bindings.find? (Bindings.empty.insert "f" f) name = some g at found
    rw [Bindings.find?_insert] at found
    split at found
    · exact (Option.some.inj found).symm
    · cases found
  have f_free : f.body.AssignFree := by simp [f, Tree.AssignFree, Tree.nodes]
  have f_uses : f.UsesAll := by
    intro index below
    have first_or_second : index = 0 ∨ index = 1 := by
      change index < 2 at below
      omega
    rcases first_or_second with rfl | rfl
    · exact ⟨"a", by simp [f, Tree.nodes]⟩
    · exact ⟨"b", by simp [f, Tree.nodes]⟩
  have body_free : body.AssignFree := by
    simp [body, Tree.AssignFree, Tree.nodes, Tree.nodesOfAll]
  have callees_free := fun g calls => calls_f body g calls ▸ f_free
  have tidy := reachable.ready.tidy
  have both := inlining_preserves_calls reachable read_g rfl body_free callees_free
    [{ prec := 8, neg := false, mag := .finite 3 0, words := 1 }] tidy rfl tidy rfl
  obtain ⟨g, -, evaluated, pushed⟩ :=
    both.1 { prec := 8, neg := false, mag := .finite 7 1, words := 1 } (by cbv)
  exact ⟨_, _, reachable, read_g, fun g calls => calls_f _ g calls ▸ ⟨f_free, f_uses⟩, g, evaluated, pushed⟩

end Environment

end Abacus
