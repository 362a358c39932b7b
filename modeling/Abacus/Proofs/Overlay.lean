import Abacus.Proofs.Composition
import Abacus.Proofs.Lockstep
import Abacus.Proofs.Places
import Mathlib

/-!
What a line has assigned so far counts for the rest of it.

Assignments are collected while a line is evaluated and become variables when it succeeds. Evaluating anything while
they are pending is the same as evaluating it after they have become variables. So a line that assigns a variable in its
left operand and goes on with its right one does what two lines do, where the second reads the variable.
-/

namespace Abacus

open Environment (keep)

namespace Text

/-- The text that assigns a value to a variable. -/
def assigning (name : String) (value : Text) : Text :=
  ofString (name ++ " = ") ++ value

def inBrackets (t : Text) : Text :=
  ofString "(" ++ t ++ ofString ")"

/-- The text of two operands with an operator between them. -/
def operation (left : Text) (op : BinaryOp) (right : Text) : Text :=
  left ++ ofString (" " ++ op.text ++ " ") ++ right

end Text

namespace Grammar

variable {t a b : Tree} {text left right : Text}

theorem Expresses.assigning {name : String} (named : Text.isName (Text.ofString name) = true)
    (value : Expresses text.toChars t) : Expresses (Text.assigning name text).toChars (.assign name t) := by
  have chars : (Text.assigning name text).toChars = [] ++ (name.toList ++ ([' '] ++ '=' :: ' ' :: text.toChars)) := by
    simp [Text.assigning, Text.toChars, Text.ofString, Symbol.toChar, Function.comp_def]
  have white : ∀ c ∈ [' '], Text.isBlank c = true := by
    intro c inside
    rw [List.mem_singleton.mp inside]
    rfl
  obtain ⟨e, ls, spells, derived⟩ := value
  rw [chars, expresses_assign_iff named (by simp) white (by simp)]
  exact ⟨t, rfl, e, ls, .blank rfl spells, derived⟩

theorem Expresses.operand (inside : Expresses text.toChars t) : Operand text.inBrackets.toChars t := by
  have chars : text.inBrackets.toChars = '(' :: text.toChars ++ [')'] := by
    simp [Text.inBrackets, Text.toChars, Text.ofString, Symbol.toChar]
  rw [chars]
  exact inside.inBrackets

theorem Operand.operation (left_ok : Operand left.toChars a) (right_ok : Operand right.toChars b) (op : BinaryOp) :
    Expresses (left.operation op right).toChars (.binary op a b) := by
  have chars : (left.operation op right).toChars = left.toChars ++ ' ' :: op.text.toList ++ ' ' :: right.toChars := by
    simp [Text.operation, Text.toChars, Text.ofString, Symbol.toChar, Function.comp_def]
  rw [chars]
  exact left_ok.joined right_ok op

end Grammar

variable {env env' : Environment} {m m' : Machine} {t : Tree}

/-- The machine after what it has assigned became variables. -/
def Machine.settled (m : Machine) : Machine :=
  { m with writes := .empty }

/-- Runs in which nothing differs but whether what has been assigned is pending. -/
def Lockstep.pending (prec : env'.prec = env.prec) (functions : env'.functions = env.functions)
    (literal : String → Except Stop Number) : Lockstep env env' where
  prec := prec
  functions := functions
  literal := literal
  Meets _ := True
  Value _ := True
  Place p p' := p = p'
  unused := rfl
  place_of_value _ := rfl
  store places _ := ⟨by rw [places], trivial⟩
  value_literal _ _ := trivial
  value_keep _ := trivial
  value_unary _ _ _ := trivial
  value_binary _ _ _ _ _ _ := trivial
  value_failed _ _ _ _ := trivial

/-- Machines with the same stack and the same literals run in lockstep if every name has the same value in both. -/
theorem Lockstep.agree_pending (prec : env'.prec = env.prec) (functions : env'.functions = env.functions)
    (stack : m'.stack = m.stack) (literals : m'.literals = m.literals)
    (bound : ∀ name, m'.bound env' name = m.bound env name) :
    (Lockstep.pending prec functions (m.worth env)).Agree m m' where
  places := by
    rw [stack]
    exact List.forall₂_same.mpr fun _ _ => rfl
  spares i := by
    rw [stack]
    rfl
  literals _ := rfl
  literals' text := by
    rw [Machine.worth, literals, prec]
    rfl
  bound := bound
  values _ _ _ _ := trivial

theorem Lockstep.meets_pending (prec : env'.prec = env.prec) (functions : env'.functions = env.functions)
    (literal : String → Except Stop Number) (t : Tree) : (Lockstep.pending prec functions literal).MeetsAll t :=
  ⟨fun _ _ => trivial, fun _ _ _ _ => trivial⟩

theorem Machine.bound_settled (vars : env'.vars = env.vars.overriddenBy m.writes)
    (name : String) : m.settled.bound env' name = m.bound env name := by
  rw [bound, bound, vars, Bindings.find?_overriddenBy]
  rfl

/-- The machine runs in lockstep with itself after what it has assigned became variables. -/
theorem Lockstep.at_settled (prec : env'.prec = env.prec) (functions : env'.functions = env.functions)
    (vars : env'.vars = env.vars.overriddenBy m.writes) :
    (Lockstep.pending prec functions (m.worth env)).At m.stack.live m.stack.live m m.settled := by
  have agree := agree_pending prec functions (show m.settled.stack = m.stack from rfl) rfl
    (Machine.bound_settled vars)
  exact { agree with live := rfl, live' := rfl }

namespace Evaluation

/-- The two runs push the same value, or stop for the same reason; and every name has the same value then. -/
inductive EndAlike (env env' : Environment) (below : List Number) :
    EStateM.Result Stop Machine Unit → EStateM.Result Stop Machine Unit → Prop
  | value {x : Number} {m m' : Machine} (live : m.stack.live = x :: below) (live' : m'.stack.live = x :: below)
      (bound : ∀ name, m'.bound env' name = m.bound env name) : EndAlike env env' below (.ok () m) (.ok () m')
  | stop {stop : Stop} {m m' : Machine} (bound : ∀ name, m'.bound env' name = m.bound env name) :
      EndAlike env env' below (.error stop m) (.error stop m')

theorem endAlike_of_ends {L : Lockstep env env'} {below : List Number} {r r' : EStateM.Result Stop Machine Unit}
    (ends : L.Ends (L.Gives below below) r r') : EndAlike env env' below r r' := by
  cases ends with
  | ok gives =>
    obtain ⟨x, -, ended⟩ := gives
    exact .value ended.live ended.live' ended.bound
  | error agree => exact .stop agree.bound

/-- Whatever is evaluated, pending assignments count as if they had become variables. -/
theorem endAlike_settled (env : Environment) (m : Machine) (t : Tree) (frame : List Number) :
    EndAlike env { env with vars := env.vars.overriddenBy m.writes } m.stack.live (evalLine env t m)
        (evalLine { env with vars := env.vars.overriddenBy m.writes } t m.settled) ∧
      EndAlike env { env with vars := env.vars.overriddenBy m.writes } m.stack.live (eval env none frame t m)
        (eval { env with vars := env.vars.overriddenBy m.writes } none frame t m.settled) := by
  generalize after : { env with vars := env.vars.overriddenBy m.writes } = env'
  have prec : env'.prec = env.prec := after ▸ rfl
  have functions : env'.functions = env.functions := after ▸ rfl
  have vars : env'.vars = env.vars.overriddenBy m.writes := after ▸ rfl
  have start := Lockstep.at_settled prec functions vars
  refine ⟨endAlike_of_ends ((Lockstep.meets_pending prec functions _ t).runs start), ?_⟩
  exact endAlike_of_ends (Lockstep.runs_eval .inside (fun _ _ => trivial) (fun _ _ => trivial) start)

/-- A variable that was just assigned is pushed to the place where its value was left. -/
theorem evalLine_ident_committed {name : String} {value : Tree} {x : Number}
    (ran : evalLine env (.assign name value) m = .ok () m') (live : m'.stack.live = [x])
    (kept : keep env.prec x = x) :
    evalLine (env.committed m') (.ident name) (env.committed m').machine = .ok () m'.settled := by
  have found : (env.committed m').vars.find? name = some x := by
    obtain ⟨m₁, -, rfl⟩ := Environment.eval_assign_inv ran live
    change (env.vars.overriddenBy _).find? name = some x
    rw [Bindings.find?_overriddenBy, Bindings.find?_insert_self, kept]
    rfl
  have pushed : push (env.committed m') (env.committed m').machine = .ok () m'.settled := by
    obtain ⟨⟨_, spare⟩, literals, writes⟩ := m'
    cases live
    exact push_eq _ _
  have stored : store x m'.settled = .ok () m'.settled := by
    have same : m'.stack.store x = m'.stack := by
      obtain ⟨⟨_, spare⟩, literals, writes⟩ := m'
      cases live
      rw [Stack.store_of_live x x rfl, Number.atPrec_self]
      rfl
    change EStateM.Result.ok () { m'.settled with stack := m'.stack.store x } = _
    rw [same]
    rfl
  have looked : lookup (env.committed m') name (env.committed m').machine =
      .ok (some x) (env.committed m').machine := by
    rw [lookup_eq, found]
    rfl
  rw [evalLine, eval, evalWith, bind_ok looked]
  exact (bind_ok pushed).trans stored

end Evaluation

namespace Environment

variable {policy : Policy} {name : String} {op : BinaryOp} {a b : Tree} {result : Result}

/-- Where a line with an assignment as its left operand succeeds, so does the assignment by itself. -/
theorem assignment_succeeds (reachable : Reachable policy env) (a_ok : a.Expression true [])
    (b_ok : b.Expression true [])
    (succeeds : (env.evaluate (Tree.binary op (.assign name a) b).toLine).1 = .ok result) :
    ∃ x, (env.evaluate (Tree.assign name a).toLine).1 = .ok (.value x) := by
  have idle := reachable.safe.idle
  obtain ⟨m, -, ran, -⟩ := evaluate_expression_ok idle (.binary op (.assign name a_ok) b_ok) succeeds
  obtain ⟨_, m₁, left_ran, -⟩ := Evaluation.bind_eq_ok ran
  have assigned : Evaluation.evalLine env (.assign name a) env.machine = .ok () m₁ := left_ran
  obtain ⟨x, live⟩ := Evaluation.live_of_evalLine assigned
  have one : m₁.stack.live = [x] := live.trans (congrArg (x :: ·) idle)
  have evaluated : env.evaluate (Tree.assign name a).toLine = (.ok (.value x), env.committed m₁) :=
    evaluate_of_evalLine idle (.assign name a_ok) assigned one
  exact ⟨x, congrArg Prod.fst evaluated⟩

/-- A line whose left operand assigns a variable does what the assignment and then the line with the variable in its
place do. -/
theorem evaluate_assigned_operand (reachable : Reachable policy env) (op : BinaryOp) (a_ok : a.Expression true [])
    (b_ok : b.Expression true []) (succeeds : (env.evaluate (Tree.assign name a).toLine).1 = .ok result) :
    ((env.evaluate (Tree.assign name a).toLine).2.evaluate (Tree.binary op (.ident name) b).toLine).1 =
        (env.evaluate (Tree.binary op (.assign name a) b).toLine).1 ∧
      ∀ result, (env.evaluate (Tree.binary op (.assign name a) b).toLine).1 = .ok result →
        ((env.evaluate (Tree.assign name a).toLine).2.evaluate (Tree.binary op (.ident name) b).toLine).2.vars.find? =
          (env.evaluate (Tree.binary op (.assign name a) b).toLine).2.vars.find? := by
  have idle := reachable.safe.idle
  obtain ⟨m, x, ran, live, evaluated⟩ := evaluate_expression_ok idle (.assign name a_ok) succeeds
  have kept := keep_of_value reachable (congrArg Prod.fst evaluated)
  have idle' : (env.committed m).stack.live = [] := by
    change m.stack.live.drop 1 = []
    rw [live]
    rfl
  have prec : (env.committed m).prec = env.prec := rfl
  have start := Lockstep.at_settled prec rfl rfl
  rw [live] at start
  have right := (Lockstep.meets_pending prec rfl _ b).runs start
  rw [evaluated]
  refine Lockstep.Ends.evaluate (.binary op (.assign name a_ok) b_ok) (.binary op (.ident name) b_ok) idle idle'
    (L := Lockstep.pending prec rfl (m.worth env)) ?_
  -- both lines have the value on top of their stacks when they come to the right operand
  have from_left : Evaluation.evalLine env (.binary op (.assign name a) b) env.machine =
      (Evaluation.evalLine env b >>= fun _ => Evaluation.operate op) m := Evaluation.bind_ok ran
  have from_left' : Evaluation.evalLine (env.committed m) (.binary op (.ident name) b) (env.committed m).machine =
      (Evaluation.evalLine (env.committed m) b >>= fun _ => Evaluation.operate op) m.settled :=
    Evaluation.bind_ok (Evaluation.evalLine_ident_committed ran live kept)
  refine from_left ▸ from_left' ▸ right.bind fun _ m₁ m₁' pushed => ?_
  obtain ⟨y, -, both⟩ := pushed
  exact both.operate trivial op

/-- Pending assignments count as variables. A line whose left operand assigns a variable succeeds exactly if the
assignment and then the line with the variable in its place do, and gives the same result and the same variables.
Whatever is evaluated, in a line or in the body of a function, gives the same value or the same error while assignments
are pending as after they have become variables, and leaves every name with the same value. -/
theorem exec_pending_as_variables (reachable : Reachable policy env)
    (named : Text.isName (Text.ofString name) = true) (op : BinaryOp) {left right : Text} {line line' : Line}
    (left_read : Parser.parseText left = .ok line) (left_expression : line.isDefinition = false)
    (right_read : Parser.parseText right = .ok line') (right_expression : line'.isDefinition = false) :
    ((∃ result, (env.exec ((Text.assigning name left).inBrackets.operation op right.inBrackets)).1 = .ok result) ↔
      (∃ result, (env.exec (Text.assigning name left)).1 = .ok result) ∧
        ∃ result, ((env.exec (Text.assigning name left)).2.exec
          ((Text.ofString name).operation op right.inBrackets)).1 = .ok result) ∧
    (∀ result, (env.exec ((Text.assigning name left).inBrackets.operation op right.inBrackets)).1 = .ok result →
      ((env.exec (Text.assigning name left)).2.exec ((Text.ofString name).operation op right.inBrackets)).1 =
          .ok result ∧
        ((env.exec (Text.assigning name left)).2.exec
            ((Text.ofString name).operation op right.inBrackets)).2.vars.find? =
          (env.exec ((Text.assigning name left).inBrackets.operation op right.inBrackets)).2.vars.find?) ∧
    ∀ (m : Machine) (t : Tree) (frame : List Number),
      Evaluation.EndAlike env { env with vars := env.vars.overriddenBy m.writes } m.stack.live
          (Evaluation.evalLine env t m)
          (Evaluation.evalLine { env with vars := env.vars.overriddenBy m.writes } t m.settled) ∧
        Evaluation.EndAlike env { env with vars := env.vars.overriddenBy m.writes } m.stack.live
          (Evaluation.eval env none frame t m)
          (Evaluation.eval { env with vars := env.vars.overriddenBy m.writes } none frame t m.settled) := by
  have left_ok := Grammar.expresses_of_read left_read left_expression
  have right_ok := Grammar.expresses_of_read right_read right_expression
  have variable_ok : Grammar.Operand (Text.ofString name).toChars (.ident name) := by
    rw [Text.toChars_ofString]
    exact Grammar.operand_name named
  obtain ⟨first_read, -⟩ := Grammar.expresses_iff.mp (left_ok.assigning named)
  obtain ⟨joined_read, -⟩ := Grammar.expresses_iff.mp ((left_ok.assigning named).operand.operation right_ok.operand op)
  obtain ⟨second_read, -⟩ := Grammar.expresses_iff.mp (variable_ok.operation right_ok.operand op)
  simp only [exec_eq_ok_iff joined_read, exec_eq_ok_iff first_read, exec_eq_ok_iff second_read, exec_snd joined_read,
    exec_snd first_read, exec_snd second_read]
  refine ⟨⟨?_, ?_⟩, ?_, ?_⟩
  · rintro ⟨result, succeeds⟩
    obtain ⟨x, first⟩ := assignment_succeeds reachable left_ok.expression right_ok.expression succeeds
    obtain ⟨same, -⟩ := evaluate_assigned_operand reachable op left_ok.expression right_ok.expression first
    exact ⟨⟨_, first⟩, result, same.trans succeeds⟩
  · rintro ⟨⟨_, first⟩, result, second⟩
    obtain ⟨same, -⟩ := evaluate_assigned_operand reachable op left_ok.expression right_ok.expression first
    exact ⟨result, same.symm.trans second⟩
  · intro result succeeds
    obtain ⟨x, first⟩ := assignment_succeeds reachable left_ok.expression right_ok.expression succeeds
    obtain ⟨same, vars⟩ := evaluate_assigned_operand reachable op left_ok.expression right_ok.expression first
    exact ⟨same.trans succeeds, vars result succeeds⟩
  · intro m t frame
    exact Evaluation.endAlike_settled env m t frame

/-- The right operand calls a function that reads the pending variable and assigns it again. -/
theorem exec_pending_as_variables_called :
    ∃ env, Reachable .rising env ∧ env.vars.find? "x" = none ∧
      (env.exec (Text.ofString "(x = 2) + (f 3*x)")).1 =
        .ok (.value { prec := 8, neg := false, mag := .finite 27 0, words := 1 }) ∧
      ((env.exec (Text.ofString "x = 2")).2.exec (Text.ofString "x + (f 3*x)")).1 =
        .ok (.value { prec := 8, neg := false, mag := .finite 27 0, words := 1 }) ∧
      ((env.exec (Text.ofString "x = 2")).2.exec (Text.ofString "x + (f 3*x)")).2.vars.find? "x" =
        (env.exec (Text.ofString "(x = 2) + (f 3*x)")).2.vars.find? "x" := by
  have defined := (reachable_blank (Nat.succ_pos 7)).exec_ok
    (show (exec _ (Text.ofString "f y=>x=x+y")).1 = .ok .defined by cbv)
  have succeeds : (exec (exec (blank 8) (Text.ofString "f y=>x=x+y")).2
      ((Text.assigning "x" (Text.ofString "2")).inBrackets.operation .add (Text.ofString "f 3*x").inBrackets)).1 =
        .ok (.value { prec := 8, neg := false, mag := .finite 27 0, words := 1 }) := by
    cbv
  have left_read : Parser.parseText (Text.ofString "2") = .ok { tree := .number "2", vars := [] } := by cbv
  have right_read : Parser.parseText (Text.ofString "f 3*x") =
      .ok { tree := .binary .mul (.call "f" [.number "3"]) (.ident "x"), vars := ["x"] } := by cbv
  have named : Text.isName (Text.ofString "x") = true := by decide
  obtain ⟨-, same, -⟩ := exec_pending_as_variables defined named .add left_read rfl right_read rfl
  obtain ⟨result, vars⟩ := same _ succeeds
  exact ⟨_, defined, by cbv, succeeds, result, congrFun vars "x"⟩

end Environment

end Abacus
