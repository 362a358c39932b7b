import Abacus.Environment.Evaluation
import Mathlib

/-!
What a tree means, without a stack and without remembered literals.

The value of a tree depends on the precision, the variables, the functions, the assignments made before it in
the same line, the arguments of the function that is being evaluated, and how deep in calls it stands. A
name that is no variable calls a function only outside of all calls. The body of a function may call
others here, and itself, so there need not be any value at all. Hence calls are followed up to a given nesting,
and what a tree means is what it means at every nesting that is large enough.
-/

namespace Abacus

/-- What a value depends on, apart from the assignments before it. -/
structure Scope where
  prec : Nat
  vars : String → Option Number
  functions : String → Option Func

def Environment.scope (env : Environment) : Scope :=
  { prec := env.prec, vars := env.vars.find?, functions := env.functions.find? }

/-- The assignments so far. -/
abbrev Writes := String → Option Number

def Writes.none : Writes :=
  fun _ => .none

def Writes.assign (w : Writes) (name : String) (x : Number) : Writes :=
  fun other => if other = name then some x else w other

/-- The assignments over the variables from before. -/
def Writes.over (w : Writes) (vars : String → Option Number) : String → Option Number :=
  fun name => (w name).or (vars name)

/-- A meaning reads and adds assignments, and may end early or, as `none`, not at all. -/
abbrev Meaning := StateT Writes (ExceptT Stop Option)

namespace Meaning

/-- Calls are nested too deeply. -/
def tooDeep : Meaning Number :=
  fun _ => (none : Option _)

mutual

/-- The value of a tree, with calls nested no deeper than `nesting`. -/
def value (s : Scope) (nesting depth : Nat) (frame : List Number) (t : Tree) : Meaning Number :=
  match t with
  | .number text =>
    match Number.parse s.prec text with
    | .ok x => pure x
    | .error e => throw (.fault (.invalidNumber text e))
  | .ident name => do
    match ((← get) name).or (s.vars name) with
    | some x => return x
    | none =>
      if depth = 0 then
        match s.functions name with
        | some f => call s nesting depth frame f []
        | none => throw (.error (.undefinedVariable name))
      else throw (.error (.undefinedVariable name))
  | .param index _ =>
    match Tree.argument frame index with
    | .ok x => pure x
    | .error fault => throw (.fault fault)
  | .assign name value' => do
    let x ← value s nesting depth frame value'
    modify (·.assign name x)
    return x
  | .call function args =>
    match s.functions function with
    | some f => call s nesting depth frame f args
    | none => throw (.error (.undefinedFunction function))
  | .define _ _ _ => throw (.fault .definitionEvaluated)
  | .unary op operand => do
    let x ← value s nesting depth frame operand
    return op.apply x
  | .binary op left right => do
    let x ← value s nesting depth frame left
    let y ← value s nesting depth frame right
    match op.apply x y with
    | .ok z => return z
    | .error e => throw (.error e)
  | .absent => throw (.fault .missing)
  | .malformed code _ _ => throw (.fault (.invalidNode (Tree.kindNameOfCode code)))
  | .extended node _ _ _ _ => value s nesting depth frame node
termination_by (nesting, sizeOf t + 1, 0)

/-- The value of a call: the arguments are evaluated where the call stands, the body one call deeper with
their values as its arguments. -/
def call (s : Scope) (nesting depth : Nat) (frame : List Number) (f : Func) (args : List Tree) :
    Meaning Number :=
  if args.length = f.params.length then do
    let xs ← values s nesting depth frame args
    match nesting with
    | 0 => tooDeep
    | nesting + 1 => value s nesting (depth + 1) xs f.body
  else throw (.error (.arity f.name f.params.length args.length))
termination_by (nesting, sizeOf args, 1)

/-- The values of trees from left to right. -/
def values (s : Scope) (nesting depth : Nat) (frame : List Number) (ts : List Tree) :
    Meaning (List Number) :=
  match ts with
  | [] => return []
  | t :: rest => do
    let x ← value s nesting depth frame t
    let xs ← values s nesting depth frame rest
    return x :: xs
termination_by (nesting, sizeOf ts, 0)
decreasing_by all_goals cases rest <;> decreasing_tactic

end

variable {α β : Type} {x : Meaning α} {f : α → Meaning β} {w w' : Writes} {a : α}

theorem bind_ok (success : x w = some (.ok (a, w'))) : (x >>= f) w = f a w' := by
  change Option.bind (x w) _ = _
  rw [success]
  rfl

theorem get_bind (f : Writes → Meaning β) (w : Writes) : (get >>= f) w = f w w :=
  rfl

theorem bind_error {stop : Stop} (failed : x w = some (.error stop)) :
    (x >>= f) w = some (.error stop) := by
  change Option.bind (x w) _ = _
  rw [failed]
  rfl

theorem bind_eq_ok {b : β} (success : (x >>= f) w = some (.ok (b, w'))) :
    ∃ a w₁, x w = some (.ok (a, w₁)) ∧ f a w₁ = some (.ok (b, w')) := by
  cases first : x w with
  | none =>
    change Option.bind (x w) _ = _ at success
    rw [first] at success
    cases success
  | some outcome =>
    cases outcome with
    | error stop =>
      rw [bind_error first] at success
      cases success
    | ok result =>
      rw [bind_ok first] at success
      exact ⟨result.1, result.2, rfl, success⟩

theorem bind_congr {y : Meaning α} {g : α → Meaning β} (first : x w = y w)
    (next : ∀ a w', x w = some (.ok (a, w')) → f a w' = g a w') : (x >>= f) w = (y >>= g) w := by
  cases given : x w with
  | none =>
    change Option.bind (x w) _ = Option.bind (y w) _
    rw [← first, given]
    rfl
  | some outcome =>
    have given' : y w = some outcome := first ▸ given
    cases outcome with
    | error stop => rw [bind_error given, bind_error given']
    | ok result =>
      rw [bind_ok given, bind_ok given']
      exact next _ _ given

theorem given_eq_ok_iff {x v : α} {w w' : Writes} :
    (some (.ok (x, w)) : Option (Except Stop (α × Writes))) = some (.ok (v, w')) ↔
      x = v ∧ w' = w := by
  simp [eq_comm (a := w)]

section Success

variable {s : Scope} {nesting depth : Nat} {frame : List Number} {v : Number}

theorem value_number (text : String) :
    value s nesting depth frame (.number text) w =
      match Number.parse s.prec text with
      | .ok x => some (.ok (x, w))
      | .error e => some (.error (.fault (.invalidNumber text e))) := by
  rw [value]
  cases Number.parse s.prec text <;> rfl

theorem value_number_eq_ok_iff {text : String} :
    value s nesting depth frame (.number text) w = some (.ok (v, w')) ↔
      Number.parse s.prec text = .ok v ∧ w' = w := by
  rw [value_number]
  cases Number.parse s.prec text with
  | ok x => exact given_eq_ok_iff.trans (by simp)
  | error e => exact iff_of_false (fun success => by cases success) (by simp)

theorem value_param (index : Int) (name : String) :
    value s nesting depth frame (.param index name) w =
      match Tree.argument frame index with
      | .ok x => some (.ok (x, w))
      | .error fault => some (.error (.fault fault)) := by
  rw [value]
  cases Tree.argument frame index <;> rfl

theorem value_param_eq_ok_iff {index : Int} {name : String} :
    value s nesting depth frame (.param index name) w = some (.ok (v, w')) ↔
      Tree.argument frame index = .ok v ∧ w' = w := by
  rw [value_param]
  cases Tree.argument frame index with
  | ok x => exact given_eq_ok_iff.trans (by simp)
  | error fault => exact iff_of_false (fun success => by cases success) (by simp)

theorem value_ident (name : String) :
    value s nesting depth frame (.ident name) w =
      match (w name).or (s.vars name) with
      | some x => some (.ok (x, w))
      | none =>
        if depth = 0 then
          match s.functions name with
          | some f => call s nesting depth frame f [] w
          | none => some (.error (.error (.undefinedVariable name)))
        else some (.error (.error (.undefinedVariable name))) := by
  rw [value, get_bind]
  cases (w name).or (s.vars name) with
  | some x => rfl
  | none =>
    by_cases outside : depth = 0
    · simp only [if_pos outside]
      cases s.functions name <;> rfl
    · simp only [if_neg outside]
      rfl

/-- Inside of a body a name is a variable. -/
theorem value_ident_deep (name : String) :
    value s nesting (depth + 1) frame (.ident name) w =
      match (w name).or (s.vars name) with
      | some x => some (.ok (x, w))
      | none => some (.error (.error (.undefinedVariable name))) := by
  rw [value_ident, if_neg (Nat.add_one_ne_zero depth)]

theorem value_ident_deep_eq_ok_iff {name : String} :
    value s nesting (depth + 1) frame (.ident name) w = some (.ok (v, w')) ↔
      (w name).or (s.vars name) = some v ∧ w' = w := by
  rw [value_ident_deep]
  cases (w name).or (s.vars name) with
  | some x => exact given_eq_ok_iff.trans (by simp)
  | none => exact iff_of_false (fun success => by cases success) (by simp)

theorem call_eq_ok_iff {f : Func} {args : List Tree} :
    call s (nesting + 1) depth frame f args w = some (.ok (v, w')) ↔
      ∃ xs w₁, args.length = f.params.length ∧
        values s (nesting + 1) depth frame args w = some (.ok (xs, w₁)) ∧
        value s nesting (depth + 1) xs f.body w₁ = some (.ok (v, w')) := by
  rw [call]
  by_cases arity : args.length = f.params.length
  · rw [if_pos arity]
    constructor
    · intro success
      obtain ⟨xs, w₁, given, success⟩ := bind_eq_ok success
      exact ⟨xs, w₁, arity, given, success⟩
    · rintro ⟨xs, w₁, -, given, success⟩
      rw [bind_ok given]
      exact success
  · rw [if_neg arity]
    exact iff_of_false (fun success => by cases success) fun ⟨_, _, fits, _⟩ => arity fits

/-- Outside of all bodies a name that is no variable calls a function without parameters. -/
theorem value_ident_eq_ok_iff {name : String} :
    value s (nesting + 1) 0 frame (.ident name) w = some (.ok (v, w')) ↔
      ((w name).or (s.vars name) = some v ∧ w' = w) ∨
        ((w name).or (s.vars name) = none ∧ ∃ f, s.functions name = some f ∧ f.params = [] ∧
          value s nesting 1 [] f.body w = some (.ok (v, w'))) := by
  rw [value_ident, if_pos rfl]
  cases (w name).or (s.vars name) with
  | some x => exact given_eq_ok_iff.trans (by simp)
  | none =>
    cases s.functions name with
    | none => exact iff_of_false (fun success => by cases success) (by simp)
    | some f =>
      have no_args : values s (nesting + 1) 0 frame [] w = some (.ok ([], w)) := by
        rw [values]
        rfl
      dsimp only
      rw [call_eq_ok_iff]
      constructor
      · rintro ⟨xs, w₁, arity, given, success⟩
        rw [no_args] at given
        cases given
        exact .inr ⟨rfl, f, rfl, List.length_eq_zero_iff.mp arity.symm, success⟩
      · rintro (⟨impossible, -⟩ | ⟨-, g, found, niladic, success⟩)
        · cases impossible
        · cases found
          exact ⟨[], w, by rw [niladic]; rfl, no_args, success⟩

theorem value_unary_eq_ok_iff {op : UnaryOp} {t : Tree} :
    value s nesting depth frame (.unary op t) w = some (.ok (v, w')) ↔
      ∃ x, value s nesting depth frame t w = some (.ok (x, w')) ∧ op.apply x = v := by
  rw [value]
  constructor
  · intro success
    obtain ⟨x, w₁, given, success⟩ := bind_eq_ok success
    cases success
    exact ⟨x, given, rfl⟩
  · rintro ⟨x, given, rfl⟩
    rw [bind_ok given]
    rfl

theorem value_binary_eq_ok_iff {op : BinaryOp} {l r : Tree} :
    value s nesting depth frame (.binary op l r) w = some (.ok (v, w')) ↔
      ∃ x w₁ y, value s nesting depth frame l w = some (.ok (x, w₁)) ∧
        value s nesting depth frame r w₁ = some (.ok (y, w')) ∧ op.apply x y = .ok v := by
  rw [value]
  constructor
  · intro success
    obtain ⟨x, w₁, left, success⟩ := bind_eq_ok success
    obtain ⟨y, w₂, right, success⟩ := bind_eq_ok success
    cases applied : op.apply x y with
    | error e =>
      rw [applied] at success
      cases success
    | ok z =>
      rw [applied] at success
      cases success
      exact ⟨x, w₁, y, left, right, applied⟩
  · rintro ⟨x, w₁, y, left, right, applied⟩
    rw [bind_ok left, bind_ok right, applied]
    rfl

theorem value_call_eq_ok_iff {function : String} {args : List Tree} :
    value s (nesting + 1) depth frame (.call function args) w = some (.ok (v, w')) ↔
      ∃ f xs w₁, s.functions function = some f ∧ args.length = f.params.length ∧
        values s (nesting + 1) depth frame args w = some (.ok (xs, w₁)) ∧
        value s nesting (depth + 1) xs f.body w₁ = some (.ok (v, w')) := by
  rw [value]
  cases s.functions function with
  | none => exact iff_of_false (fun success => by cases success) (by simp)
  | some f =>
    simp only [call_eq_ok_iff, Option.some.injEq, exists_and_left, exists_eq_left']

theorem values_cons_eq_ok_iff {t : Tree} {rest : List Tree} {xs : List Number} :
    values s nesting depth frame (t :: rest) w = some (.ok (xs, w')) ↔
      ∃ x w₁ ys, value s nesting depth frame t w = some (.ok (x, w₁)) ∧
        values s nesting depth frame rest w₁ = some (.ok (ys, w')) ∧ xs = x :: ys := by
  rw [values]
  constructor
  · intro success
    obtain ⟨x, w₁, first, success⟩ := bind_eq_ok success
    obtain ⟨ys, w₂, others, success⟩ := bind_eq_ok success
    cases success
    exact ⟨x, w₁, ys, first, others, rfl⟩
  · rintro ⟨x, w₁, ys, first, others, rfl⟩
    rw [bind_ok first, bind_ok others]
    rfl

theorem values_length {ts : List Tree} {xs : List Number}
    (success : values s nesting depth frame ts w = some (.ok (xs, w'))) : xs.length = ts.length := by
  induction ts generalizing xs w with
  | nil =>
    rw [values] at success
    cases success
    rfl
  | cons t rest ih =>
    obtain ⟨x, w₁, ys, -, others, rfl⟩ := values_cons_eq_ok_iff.mp success
    rw [List.length_cons, ih others, List.length_cons]

end Success

end Meaning

end Abacus
