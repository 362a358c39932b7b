import Abacus.Proofs.Uniformity
import Mathlib

/-!
A tree is evaluated above the places of the stack that are in use, and leaves them as they are.

This holds for trees of any shape, and wherever an evaluation stops. In particular the body of a function leaves the
places of its arguments alone. So a parameter has the same value whether it is read from the place of its argument or
from the values that were there when the body was entered.
-/

namespace Abacus

variable {env : Environment} {below : List Number} {n n' : Nat} {m : Machine}

/-- The values `below` are where they were, with `n` more above them. -/
structure Machine.Above (below : List Number) (n : Nat) (m : Machine) : Prop where
  kept : below <:+ m.stack.live
  height : m.stack.live.length = below.length + n

/-- How a run ends that leaves the values `below` where they are, and puts `n` above them unless it stops. -/
inductive Leaves (below : List Number) (n : Nat) : EStateM.Result Stop Machine Unit → Prop
  | ok {m : Machine} (above : m.Above below n) : Leaves below n (.ok () m)
  | error {stop : Stop} {m : Machine} (kept : below <:+ m.stack.live) : Leaves below n (.error stop m)

theorem Leaves.bind {x k : Evaluation Unit} (first : Leaves below n (x m))
    (next : ∀ m' : Machine, m'.Above below n → Leaves below n' (k m')) :
    Leaves below n' ((x >>= fun _ => k) m) := by
  generalize ran : x m = result at first
  cases first with
  | ok above =>
    rw [Evaluation.bind_ok ran]
    exact next _ above
  | error kept =>
    rw [Evaluation.bind_error ran]
    exact .error kept

namespace Machine.Above

theorem start (m : Machine) : m.Above m.stack.live 0 :=
  ⟨List.suffix_rfl, rfl⟩

theorem stop (above : m.Above below n) (stop : Stop) : Leaves below n' ((throw stop : Evaluation Unit) m) :=
  .error above.kept

theorem top_bind {k : Number → Evaluation Unit} (above : m.Above below (n + 1)) (next : ∀ x, Leaves below n' (k x m)) :
    Leaves below n' ((Evaluation.top >>= k) m) := by
  have some_live : m.stack.live.length = below.length + n + 1 := above.height
  obtain ⟨x, rest, live⟩ := List.exists_cons_of_length_eq_add_one some_live
  rw [Evaluation.bind_ok (Evaluation.top_of_live live)]
  exact next x

theorem push (above : m.Above below n) (env : Environment) : Leaves below (n + 1) (Evaluation.push env m) := by
  have tail := Stack.live_push_tail (.zero (Environment.numberPrec env.prec)) m.stack
  refine .ok ⟨?_, (Stack.length_push _ m.stack).trans (congrArg (· + 1) above.height)⟩
  exact above.kept.trans (tail ▸ List.tail_suffix _)

/-- What is taken out of use is above the values. -/
theorem drop (count : Nat) (above : m.Above below (n + count)) : Leaves below n (Evaluation.drop count m) := by
  have height : (m.stack.live.drop count).length = below.length + n := by
    rw [List.length_drop, above.height]
    omega
  have kept := List.suffix_of_suffix_length_le above.kept (List.drop_suffix count _) (by omega)
  exact .ok ⟨kept, height⟩

/-- Only the place on top gets another value. -/
theorem replace (above : m.Above below (n + 1)) (x : Number) : Leaves below (n + 1) (Evaluation.replace x m) := by
  have height : m.stack.live.tail.length = below.length + n := by
    rw [List.length_tail, above.height]
    omega
  have kept := List.suffix_of_suffix_length_le above.kept (List.tail_suffix _) (by omega)
  exact .ok ⟨kept.trans (List.suffix_cons x _), congrArg (· + 1) height⟩

theorem store (above : m.Above below (n + 1)) (x : Number) : Leaves below (n + 1) (Evaluation.store x m) := by
  cases live : m.stack.live with
  | nil =>
    have height := above.height
    rw [live] at height
    cases height
  | cons place rest =>
    change Leaves below (n + 1) (.ok () { m with stack := m.stack.store x })
    rw [Stack.store_of_live x place live]
    exact above.replace _

theorem push_store (above : m.Above below n) (env : Environment) (x : Number) :
    Leaves below (n + 1) ((Evaluation.push env >>= fun _ => Evaluation.store x) m) :=
  (above.push env).bind fun _ pushed => pushed.store x

theorem operate (above : m.Above below (n + 2)) (op : BinaryOp) : Leaves below (n + 1) (Evaluation.operate op m) := by
  rw [Evaluation.operate_eq]
  refine above.top_bind fun y => ?_
  refine (drop 1 above).bind fun m₁ dropped => ?_
  refine dropped.top_bind fun x => ?_
  cases op.apply x y with
  | ok z => exact dropped.replace z
  | error e => exact (dropped.replace _).bind fun _ replaced => replaced.stop _

theorem checkArity_bind {k : Evaluation Unit} (above : m.Above below n) (f : Func) (given : Nat)
    (next : Leaves below n' (k m)) : Leaves below n' ((Evaluation.checkArity f given >>= fun _ => k) m) := by
  unfold Evaluation.checkArity
  split
  · exact next
  · exact above.stop _

/-- A literal may be remembered, which is no matter of the stack. -/
theorem literal_store (above : m.Above below (n + 1)) (env : Environment) (text : String) :
    Leaves below (n + 1) ((Evaluation.literal env text >>= Evaluation.store) m) := by
  obtain ⟨x, table, -, -, read⟩ | ⟨x, table, -, -, read⟩ | ⟨f, refused⟩ := Evaluation.literal_cases env text m
  · rw [Evaluation.bind_ok read]
    exact above.store x
  · have noted : Machine.Above below (n + 1) { m with literals := some (table.insert text x) } :=
      ⟨above.kept, above.height⟩
    rw [Evaluation.bind_ok read]
    exact noted.store x
  · rw [Evaluation.bind_error refused]
    exact .error above.kept

end Machine.Above

namespace Evaluation

variable {call : Option (Func → List Number → Evaluation Unit)} {frame : List Number}

/-- A run from a machine leaves the values on its stack where they are, and puts one above them. -/
def PushesOne (x : Evaluation Unit) : Prop :=
  ∀ m : Machine, Leaves m.stack.live 1 (x m)

/-- What holds for the values on the stack holds for those that were there before. -/
theorem PushesOne.above {x : Evaluation Unit} (pushes : PushesOne x) (above : m.Above below n) :
    Leaves below (n + 1) (x m) := by
  have ended := pushes m
  generalize x m = result at ended
  cases ended with
  | ok above' =>
    refine .ok ⟨above.kept.trans above'.kept, ?_⟩
    rw [above'.height, above.height]
    omega
  | error kept => exact .error (above.kept.trans kept)

/-- The value of a body goes to the place below its arguments. -/
theorem leaves_enterBody {count : Nat} {body : List Number → Evaluation Unit}
    (pushes : ∀ args, PushesOne (body args)) (above : m.Above below (n + 1 + count)) :
    Leaves below (n + 1) (enterBody count body m) := by
  rw [enterBody, get_bind]
  refine ((pushes _).above above).bind fun m₁ ended => ?_
  refine ended.top_bind fun x => ?_
  exact (Machine.Above.drop (count + 1) ended).bind fun m₂ dropped => dropped.store x

theorem leaves_evalAll {ts : List Tree} (pushes : ∀ t ∈ ts, PushesOne (eval env call frame t))
    (above : m.Above below n) : Leaves below (n + ts.length) (evalAll env call frame ts m) := by
  induction ts generalizing m n with
  | nil => exact .ok above
  | cons t rest ih =>
    obtain ⟨first, others⟩ := List.forall_mem_cons.mp pushes
    rw [evalAll, evalAllWith, List.length_cons, Nat.add_comm rest.length, ← Nat.add_assoc]
    exact (first.above above).bind fun m₁ pushed => ih others pushed

/-- Bodies that are called push one value. -/
def CallsPush (call : Option (Func → List Number → Evaluation Unit)) : Prop :=
  ∀ enter, call = some enter → ∀ f args, PushesOne (enter f args)

theorem pushesOne_ident (calls : CallsPush call) (name : String) : PushesOne (eval env call frame (.ident name)) := by
  intro m
  have start := Machine.Above.start m
  rw [eval, evalWith, bind_ok (lookup_eq env name m)]
  cases (m.writes.find? name).or (env.vars.find? name) with
  | some x => exact start.push_store env x
  | none =>
    cases call with
    | none => exact start.stop _
    | some enter =>
      cases env.functions.find? name with
      | none => exact start.stop _
      | some f =>
        refine start.checkArity_bind f 0 ?_
        exact (start.push env).bind fun m₁ pushed => leaves_enterBody (calls enter rfl f) pushed

theorem pushesOne_call (calls : CallsPush call) (function : String) {args : List Tree}
    (args_push : ∀ a ∈ args, PushesOne (eval env call frame a)) :
    PushesOne (eval env call frame (.call function args)) := by
  intro m
  have start := Machine.Above.start m
  cases found : env.functions.find? function with
  | none =>
    simp only [eval, evalWith, found]
    exact start.stop _
  | some f =>
    cases call with
    | none =>
      simp only [eval, evalWith, found]
      exact start.stop _
    | some enter =>
      simp only [eval, evalWith, found]
      refine start.checkArity_bind f args.length ?_
      refine (start.push env).bind fun m₁ pushed => ?_
      refine (leaves_evalAll args_push pushed).bind fun m₂ evaluated => ?_
      exact leaves_enterBody (calls enter rfl f) evaluated

/-- Whatever the tree, its evaluation leaves the values on the stack where they are, and pushes one unless it stops. -/
theorem pushesOne_eval (calls : CallsPush call) (t : Tree) : PushesOne (eval env call frame t) := by
  induction t using Tree.induction with
  | ident name => exact pushesOne_ident calls name
  | call function args ih => exact pushesOne_call calls function ih
  | number text =>
    intro m
    rw [eval, evalWith]
    exact ((Machine.Above.start m).push env).bind fun _ pushed => pushed.literal_store env text
  | param index name =>
    intro m
    rw [eval, evalWith]
    refine ((Machine.Above.start m).push env).bind fun _ pushed => ?_
    cases Tree.argument frame index with
    | ok x => exact pushed.store x
    | error fault => exact pushed.stop _
  | assign name value ih =>
    intro m
    rw [eval, evalWith]
    refine (ih m).bind fun _ pushed => pushed.top_bind fun x => ?_
    exact .ok ⟨pushed.kept, pushed.height⟩
  | unary op operand ih =>
    intro m
    rw [eval, evalWith]
    exact (ih m).bind fun _ pushed => pushed.top_bind fun x => pushed.replace _
  | binary op left right left_ih right_ih =>
    intro m
    rw [eval, evalWith]
    refine (left_ih m).bind fun m₁ one => ?_
    exact (right_ih.above one).bind fun m₂ two => two.operate op
  | extended node name args left right ih => exact ih
  | absent | define | malformed => exact fun m => (Machine.Above.start m).stop _

theorem callsPush_none : CallsPush none := by
  rintro _ ⟨⟩

theorem pushesOne_callBody (env : Environment) (f : Func) (args : List Number) : PushesOne (callBody env f args) :=
  pushesOne_eval callsPush_none f.body

theorem pushesOne_evalLine (env : Environment) (t : Tree) : PushesOne (evalLine env t) := by
  refine pushesOne_eval ?_ t
  rintro _ ⟨⟩
  exact pushesOne_callBody env

/-- An evaluation that ends without an error has pushed a value. -/
theorem live_of_evalLine {t : Tree} {m' : Machine} (ran : evalLine env t m = .ok () m') :
    ∃ x, m'.stack.live = x :: m.stack.live := by
  have ended := pushesOne_evalLine env t m
  rw [ran] at ended
  cases ended with
  | ok above =>
    obtain ⟨values, live⟩ := above.kept
    have height := above.height
    rw [← live, List.length_append, Nat.add_comm, Nat.add_left_cancel_iff] at height
    obtain ⟨x, rfl⟩ := List.length_eq_one_iff.mp height
    exact ⟨x, live.symm⟩

/-- However the body of a function ends, its arguments are still in the places where it was entered with them. -/
theorem callBody_arguments {args : List Number} (entered : m.stack.live = args.reverse ++ below) (f : Func) :
    args.reverse ++ below <:+ (ending (callBody env f args m)).2 := by
  have ended := pushesOne_callBody env f args m
  rw [entered] at ended
  generalize callBody env f args m = result at ended
  cases ended with
  | ok above => exact above.kept
  | error kept => exact kept

end Evaluation

end Abacus
