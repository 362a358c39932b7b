import Abacus.Proofs.Effects
import Abacus.Proofs.Messages
import Abacus.Proofs.Safety
import Mathlib

/-!
Why a line has no value is told in one line.

Undefined names are quoted. The name of a function that is called in a wrong way stands in the message as it is, and
it is a name that the line itself has, since functions are stored under their own names.
-/

namespace Abacus

namespace Tree

variable {t part : Tree} {name : String} {params : List String}

/-- The name stands in the tree for a variable or a function. -/
def Uses (t : Tree) (name : String) : Prop :=
  .ident name ∈ t.nodes ∨ ∃ args, .call name args ∈ t.nodes

theorem Uses.mono (uses : part.Uses name) (sub : part.nodes ⊆ t.nodes) : t.Uses name := by
  rcases uses with leaf | ⟨args, called⟩
  · exact .inl (sub leaf)
  · exact .inr ⟨args, sub called⟩

theorem Readable.oneLine_uses (readable : t.Readable params) (uses : t.Uses name) : OneLine name := by
  induction readable with
  | number => simp [Uses, nodes] at uses
  | leaf named leaf =>
    cases leaf with
    | param => simp [Uses, nodes] at uses
    | ident =>
      simp only [Uses, nodes, List.mem_singleton, ident.injEq, reduceCtorEq, exists_false, or_false] at uses
      exact uses ▸ oneLine_of_isName named
  | assign _ _ _ ih | unary _ _ ih =>
    simp only [Uses, nodes, List.mem_cons, reduceCtorEq, false_or] at uses
    exact ih uses
  | call named _ _ _ ih =>
    rcases uses with leaf | ⟨args, called⟩
    · simp only [nodes, List.mem_cons, reduceCtorEq, false_or, mem_nodesOfAll_iff] at leaf
      obtain ⟨a, inside, leaf⟩ := leaf
      exact ih a inside (.inl leaf)
    · simp only [nodes, List.mem_cons, call.injEq, mem_nodesOfAll_iff] at called
      rcases called with ⟨rfl, -⟩ | ⟨a, inside, below⟩
      · exact oneLine_of_isName named
      · exact ih a inside (.inr ⟨args, below⟩)
  | binary _ _ _ left_ih right_ih =>
    simp only [Uses, nodes, List.mem_cons, reduceCtorEq, false_or, List.mem_append] at uses
    rcases uses with (left | right) | ⟨args, left | right⟩
    · exact left_ih (.inl left)
    · exact right_ih (.inl right)
    · exact left_ih (.inr ⟨args, left⟩)
    · exact right_ih (.inr ⟨args, right⟩)

end Tree

namespace EvalError

theorem oneLine_undefinedVariable (name : String) : OneLine (undefinedVariable name).message :=
  .append (by decide) (Text.oneLine_quoteString name)

theorem oneLine_undefinedFunction (name : String) : OneLine (undefinedFunction name).message :=
  .append (by decide) (Text.oneLine_quoteString name)

theorem oneLine_arity {function : String} (function_ok : OneLine function) (takes given : Int) :
    OneLine (arity function takes given).message :=
  .append (.append (.append (.append (.append (.append (by decide) function_ok) (by decide)) (oneLine_intRepr given))
    (by decide)) (oneLine_intRepr takes)) (by decide)

theorem oneLine_operand (x : Option Number) : OneLine (operand x) := by
  cases x with
  | none => decide
  | some x => exact .append (.append (by decide) (Number.oneLine_text _ _ x)) (by decide)

/-- An operation that fails shows its operands as numbers. -/
theorem oneLine_of_apply {op : BinaryOp} {x y : Number} {e : EvalError} (failed : op.apply x y = .error e) :
    OneLine e.message := by
  have sign : OneLine op.text := by cases op <;> decide
  rw [BinaryOp.apply_eq] at failed
  split at failed
  · cases failed
    exact oneLine_ite (by decide) (by decide)
  · split at failed
    · cases failed
    · cases failed
      have operation : OneLine (operand (some x) ++ " " ++ op.text ++ " " ++ operand (some y)) :=
        .append (.append (.append (.append (oneLine_operand _) (by decide)) sign) (by decide)) (oneLine_operand _)
      exact (operation.append (by decide)).append sign

end EvalError

variable {env : Environment} {t : Tree} {params : List String}

/-- A step whose errors are told in one line. -/
def Evaluation.Tells {α : Type} (x : Evaluation α) : Prop :=
  ∀ m e m', x m = .error (.error e) m' → OneLine e.message

namespace Evaluation

variable {α β : Type} {x : Evaluation α} {k : α → Evaluation β} {frame : List Number}
  {call : Option (Func → List Number → Evaluation Unit)}

theorem Tells.bind (first : Tells x) (next : ∀ a, Tells (k a)) : Tells (x >>= k) := by
  intro m e m' failed
  cases ran : x m with
  | ok a m₁ =>
    rw [bind_ok ran] at failed
    exact next a m₁ e m' failed
  | error stop m₁ =>
    rw [bind_error ran] at failed
    cases failed
    exact first m e m' ran

theorem tells_pure (a : α) : Tells (pure a : Evaluation α) := by
  rintro m e m' ⟨⟩

theorem tells_throw {e : EvalError} (told : OneLine e.message) : Tells (throw (.error e) : Evaluation α) := by
  rintro m _ _ ⟨⟩
  exact told

theorem tells_fault (f : Fault) : Tells (throw (.fault f) : Evaluation α) := by
  rintro m e m' ⟨⟩

theorem tells_modify (change : Machine → Machine) : Tells (modify change) := by
  rintro m e m' ⟨⟩

theorem tells_top : Tells top := by
  intro m e m' failed
  rw [top, get_bind] at failed
  cases live : m.stack.live <;> rw [live] at failed <;> cases failed

theorem tells_literal (text : String) : Tells (literal env text) := by
  intro m e m' failed
  obtain ⟨x, table, -, -, given⟩ | ⟨x, table, -, -, given⟩ | ⟨f, refused⟩ := literal_cases env text m
  · cases given.symm.trans failed
  · cases given.symm.trans failed
  · cases refused.symm.trans failed

theorem tells_checkArity {f : Func} (name_ok : OneLine f.name) (given : Nat) : Tells (checkArity f given) := by
  unfold checkArity
  split
  · exact tells_pure ()
  · exact tells_throw (EvalError.oneLine_arity name_ok _ _)

theorem tells_enterBody (count : Nat) {body : List Number → Evaluation Unit} (body_tells : ∀ args, Tells (body args)) :
    Tells (enterBody count body) := by
  intro m e m' failed
  rw [enterBody, get_bind] at failed
  have inner : Tells (body (m.stack.live.take count).reverse >>= fun _ => top >>= fun x =>
      drop (count + 1) >>= fun _ => store x) :=
    (body_tells _).bind fun _ => tells_top.bind fun x => (tells_modify _).bind fun _ => tells_modify _
  exact inner m e m' failed

theorem tells_operate (op : BinaryOp) : Tells (operate op) := by
  rw [operate_eq]
  refine tells_top.bind fun y => (tells_modify _).bind fun _ => tells_top.bind fun x => ?_
  cases applied : op.apply x y with
  | ok z => exact tells_modify _
  | error e => exact (tells_modify _).bind fun _ => tells_throw (EvalError.oneLine_of_apply applied)

theorem tells_evalAll {ts : List Tree} (each : ∀ t ∈ ts, Tells (eval env call frame t)) :
    Tells (evalAll env call frame ts) := by
  induction ts with
  | nil =>
    rw [evalAll, evalAllWith]
    exact tells_pure ()
  | cons t rest ih =>
    obtain ⟨first, others⟩ := List.forall_mem_cons.mp each
    rw [evalAll, evalAllWith]
    exact first.bind fun _ => ih others

/-- The functions that a tree uses, if it can call any, have their names in one line, and so are the errors of their
bodies told. -/
def CalleesTell (env : Environment) (t : Tree) (call : Option (Func → List Number → Evaluation Unit)) : Prop :=
  ∀ enter, call = some enter → ∀ name f, t.Uses name → env.functions.find? name = some f →
    OneLine f.name ∧ ∀ args, Tells (enter f args)

theorem CalleesTell.mono {part : Tree} (callees : CalleesTell env t call) (sub : part.nodes ⊆ t.nodes) :
    CalleesTell env part call :=
  fun enter same name f uses => callees enter same name f (uses.mono sub)

theorem tells_ident {name : String} (callees : CalleesTell env (.ident name) call) :
    Tells (eval env call frame (.ident name)) := by
  have undefined : Tells (throw (.error (.undefinedVariable name)) : Evaluation Unit) :=
    tells_throw (EvalError.oneLine_undefinedVariable name)
  intro m e m' failed
  rw [eval, evalWith, bind_ok (lookup_eq env name m)] at failed
  cases bound : (m.writes.find? name).or (env.vars.find? name) with
  | some x =>
    rw [bound] at failed
    exact (tells_modify _).bind (fun _ => tells_modify _) m e m' failed
  | none =>
    cases call with
    | none =>
      rw [bound] at failed
      exact undefined m e m' failed
    | some enter =>
      cases found : env.functions.find? name with
      | none =>
        rw [bound, found] at failed
        exact undefined m e m' failed
      | some f =>
        rw [bound, found] at failed
        have uses : (Tree.ident name).Uses name := .inl (List.mem_singleton_self _)
        obtain ⟨name_ok, body_tells⟩ := callees enter rfl name f uses found
        have called : Tells (checkArity f 0 >>= fun _ => push env >>= fun _ => enterBody 0 (enter f)) :=
          (tells_checkArity name_ok 0).bind fun _ => (tells_modify _).bind fun _ => tells_enterBody 0 body_tells
        exact called m e m' failed

theorem tells_call {function : String} {args : List Tree} (callees : CalleesTell env (.call function args) call)
    (args_tell : ∀ a ∈ args, Tells (eval env call frame a)) : Tells (eval env call frame (.call function args)) := by
  cases found : env.functions.find? function with
  | none =>
    simp only [eval, evalWith, found]
    exact tells_throw (EvalError.oneLine_undefinedFunction function)
  | some f =>
    cases call with
    | none =>
      simp only [eval, evalWith, found]
      exact tells_fault _
    | some enter =>
      have uses : (Tree.call function args).Uses function := .inr ⟨args, List.mem_cons_self ..⟩
      obtain ⟨name_ok, body_tells⟩ := callees enter rfl function f uses found
      simp only [eval, evalWith, found]
      refine (tells_checkArity name_ok args.length).bind fun _ => (tells_modify _).bind fun _ => ?_
      exact (tells_evalAll args_tell).bind fun _ => tells_enterBody _ body_tells

theorem tells_eval (ok : t.Expression call.isSome params) (callees : CalleesTell env t call) :
    Tells (eval env call frame t) := by
  induction ok with
  | number text =>
    rw [eval, evalWith]
    exact (tells_modify _).bind fun _ => (tells_literal text).bind fun x => tells_modify _
  | ident name => exact tells_ident callees
  | param index name =>
    rw [eval, evalWith]
    refine (tells_modify _).bind fun _ => ?_
    cases Tree.argument frame index with
    | ok x => exact tells_modify _
    | error fault => exact tells_fault _
  | @assign name value _ ih =>
    rw [eval, evalWith]
    exact (ih (callees.mono (Tree.nodes_value name value))).bind fun _ => tells_top.bind fun x => tells_modify _
  | @call function args _ _ ih =>
    exact tells_call callees fun a inside => ih a inside (callees.mono (Tree.nodes_arg function inside))
  | @unary op operand _ ih =>
    rw [eval, evalWith]
    exact (ih (callees.mono (Tree.nodes_operand op operand))).bind fun _ => tells_top.bind fun x => tells_modify _
  | @binary op left right _ _ left_ih right_ih =>
    have left_tells := left_ih (callees.mono (Tree.nodes_left op left right))
    have right_tells := right_ih (callees.mono (Tree.nodes_right op left right))
    rw [eval, evalWith]
    exact left_tells.bind fun _ => right_tells.bind fun _ => tells_operate op

end Evaluation

namespace Environment

variable {line : Line} {e : EvalError}

/-- Functions are stored under their names, and their bodies call nothing. -/
theorem Closed.calleesTell (closed : env.Closed) (readable : t.Readable params) :
    Evaluation.CalleesTell env t (some (Evaluation.callBody env)) := by
  rintro _ ⟨⟩ name f uses found
  obtain ⟨same, f_closed⟩ := closed name f found
  have no_callees : Evaluation.CalleesTell env f.body none := nofun
  exact ⟨same ▸ readable.oneLine_uses uses, fun args => Evaluation.tells_eval f_closed.body no_callees⟩

/-- A definition is refused for a call of a function that does not exist, or with a wrong number of arguments. -/
theorem oneLine_of_inline (readable : t.Readable params) (failed : env.inline t = .error (.error e)) :
    OneLine e.message := by
  induction readable with
  | number => cases failed
  | leaf named leaf =>
    cases leaf with
    | param => cases failed
    | ident =>
      rw [inline] at failed
      rcases Except.bind_eq_error_iff.mp failed with refused | ⟨body, -, impossible⟩
      · unfold inlineName at refused
        split at refused
        · split at refused
          · cases refused
          · cases refused
            exact EvalError.oneLine_arity (oneLine_of_isName named) _ _
        · cases refused
      · cases impossible
  | assign _ _ _ ih | unary _ _ ih =>
    rw [inline] at failed
    rcases Except.bind_eq_error_iff.mp failed with below | ⟨part, -, impossible⟩
    · exact ih below
    · cases impossible
  | @call function args named _ _ _ ih =>
    rw [inline] at failed
    cases found : env.functions.find? function with
    | none =>
      rw [found] at failed
      cases failed
      exact EvalError.oneLine_undefinedFunction function
    | some f =>
      rw [found] at failed
      dsimp only at failed
      split at failed
      · rcases Except.bind_eq_error_iff.mp failed with below | ⟨args', -, failed⟩
        · obtain ⟨a, inside, a_failed⟩ := inlineAll_eq_error below
          exact ih a inside a_failed
        · -- to put arguments in the place of parameters fails with faults only
          cases replaced : f.body.substitute (some args') <;> rw [replaced] at failed <;> cases failed
      · cases failed
        exact EvalError.oneLine_arity (oneLine_of_isName named) _ _
  | binary _ _ _ left_ih right_ih =>
    rw [inline] at failed
    rcases Except.bind_eq_error_iff.mp failed with left | ⟨left', -, failed⟩
    · exact left_ih left
    · rcases Except.bind_eq_error_iff.mp failed with right | ⟨right', -, impossible⟩
      · exact right_ih right
      · cases impossible

/-- The error of a line that was read and cannot be evaluated is told in one line, and nothing is changed. -/
theorem Safe.evaluate_error (safe : env.Safe) {text : Text} (read : Parser.parseText text = .ok line)
    (failed : (env.evaluate line).1 = .error (.error e)) :
    OneLine e.message ∧ (env.evaluate line).2.vars = env.vars ∧
      (env.evaluate line).2.functions = env.functions := by
  have readable := Parser.readableLine_of_parseText read
  have of_line := Parser.ofLine_of_parse (Parser.parse_of_parseText read)
  generalize tree : line.tree = t at readable of_line
  cases readable with
  | expression readable =>
    have ok : t.Expression true [] := by
      cases of_line with
      | expression ok => exact ok
      | definition => exact absurd readable nofun
    subst tree
    refine ⟨?_, vars_of_error ok failed, functions_of_expression ok⟩
    have tells : Evaluation.Tells (Evaluation.evalLine env line.tree) :=
      Evaluation.tells_eval ok (safe.closed.calleesTell readable)
    rw [Environment.evaluate_expression safe.idle ok] at failed
    cases ran : Evaluation.evalLine env line.tree env.machine with
    | ok _ m =>
      rw [ran] at failed
      dsimp only at failed
      unfold commit at failed
      split at failed <;> cases failed
    | error stop m =>
      rw [ran] at failed
      cases stop with
      | error e' =>
        cases failed
        exact tells _ _ _ ran
      | fault f => cases failed
  | @definition function params body named readable =>
    rw [Environment.evaluate_definition safe.idle tree] at failed ⊢
    cases defined : env.define function params body with
    | ok f =>
      rw [defined] at failed
      cases failed
    | error stop =>
      rw [defined] at failed
      cases failed
      rw [define] at defined
      rcases Except.bind_eq_error_iff.mp defined with refused | ⟨body, -, impossible⟩
      · exact ⟨oneLine_of_inline readable refused, rfl, rfl⟩
      · cases impossible

end Environment

end Abacus
