import Abacus.Proofs.Safety
import Mathlib

/-!
What a literal is worth, after any history.

A copy of lower precision rounds the literals that are remembered, and these were rounded before. Rounding twice is not
rounding once: `9.1` is 9 with four bits, and 9 is 8 with three, but the nearest to `9.1` with three bits is 10. So the
value of a literal depends on the precisions at which it was met before. Where the precision never falls, it is
the value of the text.
-/

namespace Abacus

open Environment (keep)

/-- Values have a precision, which may rise and fall. -/
def Policy.positive : Policy :=
  { begins := fun prec => 0 < prec, changes := fun _ prec' => 0 < prec' }

namespace Environment

/-- What a literal is worth. -/
def literalValue (env : Environment) (text : String) : Except Stop Number :=
  match Evaluation.literal env text env.machine with
  | .ok x _ => .ok x
  | .error stop _ => .error stop

variable {env : Environment} {line : Line} {text : String} {table : Bindings Number} {x : Number}

theorem literalValue_eq (has_table : env.literals = some table) (text : String) :
    env.literalValue text =
      match table.find? text with
      | some x => .ok x
      | none => (Number.parse env.prec text).mapError fun e => .fault (.invalidNumber text e) := by
  rw [literalValue, Evaluation.literal_eq env has_table]
  cases table.find? text with
  | some x => rfl
  | none => cases Number.parse env.prec text <;> rfl

/-- A value is read from the text, or was remembered. -/
theorem Safe.readAt (safe : env.Safe) (value : env.literalValue text = .ok x) :
    Number.ReadAt text env.prec x := by
  obtain ⟨table, has_table, all⟩ := safe.table
  rw [literalValue_eq has_table] at value
  cases found : table.find? text with
  | some y =>
    rw [found] at value
    cases value
    exact all text x found
  | none =>
    rw [found] at value
    cases read : Number.parse env.prec text with
    | ok y =>
      rw [read] at value
      cases value
      exact .parse read
    | error e =>
      rw [read] at value
      cases value

/-- Where the remembered literals have the values of their texts, so have all literals. -/
theorem Ready.literalValue (ready : env.Ready) (text : String) :
    env.literalValue text =
      (Number.parse env.prec text).mapError fun e => .fault (.invalidNumber text e) := by
  obtain ⟨table, has_table, all⟩ := ready.tidy.literals
  rw [literalValue_eq has_table]
  cases found : table.find? text with
  | some y =>
    have read : Number.parse env.prec text = .ok y := all text y found
    rw [read]
    rfl
  | none => rfl

/-- Whatever else the machine has, a literal keeps the value it had and is remembered with it. -/
theorem literal_of_literalValue (has_table : env.literals = some table) (value : env.literalValue text = .ok x)
    {m : Machine} (same : m.literals = env.literals) :
    ∃ m' table', Evaluation.literal env text m = .ok x m' ∧ m'.stack = m.stack ∧
      m'.literals = some table' ∧ table'.find? text = some x := by
  rw [literalValue_eq has_table] at value
  rw [Evaluation.literal_eq env (same.trans has_table)]
  cases found : table.find? text with
  | some y =>
    rw [found] at value
    cases value
    exact ⟨m, table, rfl, rfl, same.trans has_table, found⟩
  | none =>
    rw [found] at value
    cases read : Number.parse env.prec text with
    | error e =>
      rw [read] at value
      cases value
    | ok y =>
      rw [read] at value
      cases value
      exact ⟨_, _, rfl, rfl, rfl, Bindings.find?_insert_self table text x⟩

/-- A literal that is evaluated is remembered with the value it had. -/
theorem Safe.evaluate_literal (safe : env.Safe) (value : env.literalValue text = .ok x)
    (tree : line.tree = .number text) :
    ∃ y table, (env.evaluate line).1 = .ok (.value y) ∧ (env.evaluate line).2.prec = env.prec ∧
      (env.evaluate line).2.literals = some table ∧ table.find? text = some x := by
  have ok : line.tree.Expression true [] := tree ▸ .number text
  obtain ⟨_, has_table, -⟩ := safe.table
  obtain ⟨m₁, pushed, same, height⟩ : ∃ m₁, Evaluation.push env env.machine = .ok () m₁ ∧
      m₁.literals = env.literals ∧ m₁.stack.live.length = 1 := by
    refine ⟨_, rfl, rfl, ?_⟩
    rw [Stack.length_push, show env.machine.stack.live = [] from safe.idle]
    rfl
  obtain ⟨m₂, table, literal, stack, has_table, found⟩ := literal_of_literalValue has_table value same
  have evaluated : Evaluation.evalLine env line.tree env.machine =
      .ok () { m₂ with stack := m₂.stack.store x } := by
    rw [tree, Evaluation.evalLine, Evaluation.eval, Evaluation.evalWith, Evaluation.bind_ok pushed,
      Evaluation.bind_ok literal]
    rfl
  have stored : (m₂.stack.store x).live.length = 1 := by rw [Stack.length_store, stack, height]
  obtain ⟨y, live⟩ := List.length_eq_one_iff.mp stored
  rw [Environment.evaluate_expression safe.idle ok, evaluated]
  dsimp only
  rw [commit]
  dsimp only
  rw [live]
  exact ⟨y, table, rfl, rfl, has_table, found⟩

/-- A copy of the same or of a lower precision rounds what is remembered. -/
theorem literalValue_copyAt (has_table : env.literals = some table) (found : table.find? text = some x)
    {prec : Nat} (lower : prec ≤ env.prec) : (env.copyAt prec).literalValue text = .ok (keep prec x) := by
  have copied : (env.copyAt prec).literals = some (table.map (keep prec)) := by
    change some (env.literalsAt prec) = _
    rw [literalsAt, has_table, if_pos lower]
    rfl
  rw [literalValue_eq copied, Bindings.find?_map, found]
  rfl

theorem literalValue_blank (prec : Nat) (text : String) :
    (blank prec).literalValue text =
      (Number.parse prec text).mapError fun e => .fault (.invalidNumber text e) := by
  have has_table : (blank prec).literals = some .empty := rfl
  rw [literalValue_eq has_table, Bindings.find?_empty]
  rfl

/-- A literal has every value that rounding can lead to, in some environment. The induction is on the roundings: to
be rounded, the literal is evaluated before each copy. -/
theorem exists_literalValue (numeral : Number.isNumeral text.toList = true) {prec : Nat}
    (readAt : Number.ReadAt text prec x) (positive : 0 < prec) :
    ∃ env, Reachable .positive env ∧ env.prec = prec ∧ env.literalValue text = .ok x := by
  induction readAt with
  | @parse prec x read =>
    refine ⟨blank prec, .create (create_blank prec) positive, rfl, ?_⟩
    rw [literalValue_blank, read]
    rfl
  | @rounded prec prec' x lower _ ih =>
    obtain ⟨env, reachable, rfl, value⟩ := ih (Nat.lt_of_lt_of_le positive lower)
    have read := Parser.parse_numeral numeral
    generalize line_eq : Line.mk (.number text) _ = line at read
    obtain ⟨y, table, returned, same_prec, has_table, found⟩ :=
      reachable.safe.evaluate_literal value (line_eq ▸ rfl : line.tree = .number text)
    have evaluated := reachable.evaluate read (by rw [returned]; exact nofun)
    refine ⟨_, evaluated.clone (clone_prec _ prec') positive, rfl, ?_⟩
    exact literalValue_copyAt has_table found (same_prec ▸ lower)

/-- The values that a literal can have are those of its text at some precision, rounded to lower ones in turn. Where
the precision never falls, only the value of its text is left. -/
theorem literal_values (numeral : Number.isNumeral text.toList = true) {prec : Nat} (positive : 0 < prec) :
    (∀ x, (∃ env, Reachable .positive env ∧ env.prec = prec ∧ env.literalValue text = .ok x) ↔
      Number.ReadAt text prec x) ∧
    ∀ env, Reachable .rising env → env.prec = prec →
      env.literalValue text =
        (Number.parse prec text).mapError fun e => .fault (.invalidNumber text e) := by
  constructor
  · intro x
    constructor
    · rintro ⟨env, reachable, rfl, value⟩
      exact reachable.safe.readAt value
    · exact fun readAt => exists_literalValue numeral readAt positive
  · rintro env reachable rfl
    exact reachable.ready.literalValue text

/-- With four bits `9.1` is 9, and with three bits 9 is 8. -/
theorem literal_values_twice :
    ∃ env, Reachable .positive env ∧ env.prec = 3 ∧
      env.literalValue "9.1" = .ok { prec := 3, neg := false, mag := .finite 1 3, words := 1 } := by
  have nine : Number.parse 4 "9.1" = .ok { prec := 4, neg := false, mag := .finite 9 0, words := 1 } := by
    cbv
  have twice : Number.ReadAt "9.1" 3 (keep 3 { prec := 4, neg := false, mag := .finite 9 0, words := 1 }) :=
    .rounded (Nat.le_succ 3) (.parse nine)
  exact ((literal_values (by decide) (Nat.succ_pos 2)).1 _).mpr twice

/-- Two environments in which every line means the same, and copies of them in which `9.1` does not. The value
of the text is that of the copy in which it was not met before. -/
theorem literal_rounded_twice :
    ∃ env other, Reachable .positive env ∧ Reachable .positive other ∧ env.scope = other.scope ∧
      ((env.copyAt 3).exec (Text.ofString "9.1")).1 =
        .ok (.value { prec := 3, neg := false, mag := .finite 1 3, words := 1 }) ∧
      ((other.copyAt 3).exec (Text.ofString "9.1")).1 =
        .ok (.value { prec := 3, neg := false, mag := .finite 5 1, words := 1 }) ∧
      Number.parse 3 "9.1" = .ok { prec := 3, neg := false, mag := .finite 5 1, words := 1 } := by
  have start : Reachable .positive (blank 4) := .create (create_blank 4) (Nat.succ_pos 3)
  refine ⟨_, blank 4, start.exec_ok (show (exec _ (Text.ofString "9.1")).1 =
    .ok (.value { prec := 4, neg := false, mag := .finite 9 0, words := 1 }) from ?_), start, ?_, ?_, ?_, ?_⟩
  · cbv
  · cbv
  · cbv
  · cbv
  · cbv

end Environment

end Abacus
