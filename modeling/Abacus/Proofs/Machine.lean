import Abacus.Proofs.Bindings
import Abacus.Proofs.Grammar
import Abacus.Proofs.Meaning
import Abacus.Proofs.Outcomes
import Abacus.Proofs.Precision
import Mathlib

/-!
The machine computes what trees mean.

Every place of the stack has the precision of the environment, whether it is in use or not, and every literal
that is remembered has the value that reading it again would give. Then it does not show which values the
places held before, nor which literals are remembered.
-/

namespace Abacus

open Environment (numberPrec keep)

namespace Stack

variable {p : Nat} {s : Stack}

/-- All places have one precision. -/
structure Uniform (p : Nat) (s : Stack) : Prop where
  live : ∀ x ∈ s.live, x.prec = p
  spare : ∀ x ∈ s.spare, x.prec = p

theorem Uniform.push (uniform : s.Uniform p) (fresh : Number) (fresh_prec : fresh.prec = p) :
    ∃ place, place.prec = p ∧ (s.push fresh).live = place :: s.live ∧ (s.push fresh).Uniform p := by
  obtain ⟨live, spare⟩ := s
  cases spare with
  | nil =>
    refine ⟨fresh, fresh_prec, rfl, ?_, nofun⟩
    intro x inside
    rcases List.mem_cons.mp inside with rfl | inside
    · exact fresh_prec
    · exact uniform.live x inside
  | cons place spare =>
    have place_prec := uniform.spare place (List.mem_cons_self ..)
    refine ⟨place, place_prec, rfl, ?_, fun x inside => ?_⟩
    · intro x inside
      rcases List.mem_cons.mp inside with rfl | inside
      · exact place_prec
      · exact uniform.live x inside
    · exact uniform.spare x (List.mem_cons_of_mem _ inside)

theorem Uniform.replace (uniform : s.Uniform p) {x : Number} (x_prec : x.prec = p) :
    (s.replace x).Uniform p := by
  refine ⟨fun y inside => ?_, uniform.spare⟩
  rcases List.mem_cons.mp inside with rfl | inside
  · exact x_prec
  · exact uniform.live y (List.mem_of_mem_tail inside)

theorem Uniform.drop (uniform : s.Uniform p) (n : Nat) : (s.drop n).Uniform p := by
  refine ⟨fun x inside => uniform.live x (List.mem_of_mem_drop inside), fun x inside => ?_⟩
  rcases List.mem_append.mp inside with taken | kept
  · exact uniform.live x (List.mem_of_mem_take (List.mem_reverse.mp taken))
  · exact uniform.spare x kept

theorem store_of_live (x place : Number) {below : List Number} (live : s.live = place :: below) :
    s.store x = s.replace (x.atPrec place.prec) := by
  unfold store
  rw [live]

end Stack

/-- What every step of an evaluation leaves in order. -/
structure Machine.Tidy (prec : Nat) (m : Machine) : Prop where
  stack : m.stack.Uniform (numberPrec prec)
  literals : ∃ table, m.literals = some table ∧
    table.All fun text x => Number.parse prec text = .ok x
  writes : m.writes.All fun _ x => x.prec = numberPrec prec

/-- A run of the machine answers a meaning: it ends with the same error, or with the same assignments and with
the values on the stack, above what was there. -/
inductive Answers {α : Type} (prec : Nat) (below : List Number) (pushes : α → List Number) :
    EStateM.Result Stop Machine Unit → Option (Except Stop (α × Writes)) → Prop
  | ok {m : Machine} {a : α} {w : Writes} (tidy : m.Tidy prec)
      (live : m.stack.live = pushes a ++ below) (writes : m.writes.find? = w) :
      Answers prec below pushes (.ok () m) (some (.ok (a, w)))
  | error {m : Machine} {stop : Stop} (tidy : m.Tidy prec) :
      Answers prec below pushes (.error stop m) (some (.error stop))

/-- A single value on the stack. -/
abbrev one (x : Number) : List Number :=
  [x]

namespace Answers

variable {α β : Type} {prec : Nat} {below below' : List Number} {pushes : α → List Number}
  {pushes' : β → List Number} {m : Machine} {w : Writes}

theorem bind {x k : Evaluation Unit} {r : Meaning α} {g : α → Meaning β}
    (first : Answers prec below pushes (x m) (r w))
    (next : ∀ m' a, r w = some (.ok (a, m'.writes.find?)) → m'.Tidy prec →
      m'.stack.live = pushes a ++ below →
      Answers prec below' pushes' (k m') (g a m'.writes.find?)) :
    Answers prec below' pushes' ((x >>= fun _ => k) m) ((r >>= g) w) := by
  generalize ran : x m = result, meant : r w = outcome at first
  cases first with
  | ok tidy live writes =>
    subst writes
    rw [Evaluation.bind_ok ran, Meaning.bind_ok meant]
    exact next _ _ meant tidy live
  | error tidy =>
    rw [Evaluation.bind_error ran, Meaning.bind_error meant]
    exact .error tidy

/-- A run that leaves one value answers one meaning only. -/
theorem unique {result : EStateM.Result Stop Machine Unit}
    {outcome outcome' : Option (Except Stop (Number × Writes))}
    (answers : Answers prec below one result outcome)
    (answers' : Answers prec below one result outcome') : outcome = outcome' := by
  cases answers with
  | ok _ live writes =>
    cases answers' with
    | ok _ live' writes' =>
      rw [live] at live'
      rw [← writes, ← writes', (List.cons.inj live').1]
  | error =>
    cases answers' with
    | error => rfl

/-- A value that is computed from what was pushed, and stands for the same places. -/
theorem map {result : EStateM.Result Stop Machine Unit} {r : Meaning α} {f : α → β}
    (first : Answers prec below pushes result (r w))
    (same : ∀ a, pushes a ++ below = pushes' (f a) ++ below') :
    Answers prec below' pushes' result ((r >>= fun a => pure (f a)) w) := by
  generalize meant : r w = outcome at first
  cases first with
  | ok tidy live writes =>
    rw [Meaning.bind_ok meant]
    exact .ok tidy (live.trans (same _)) writes
  | error tidy =>
    rw [Meaning.bind_error meant]
    exact .error tidy

end Answers

/-- A literal that is not remembered is read, and remembered from then on. -/
theorem Evaluation.literal_eq (env : Environment) {m : Machine} {table : Bindings Number}
    (has_table : m.literals = some table) (text : String) :
    Evaluation.literal env text m =
      match table.find? text with
      | some x => .ok x m
      | none =>
        match Number.parse env.prec text with
        | .ok x => .ok x { m with literals := some (table.insert text x) }
        | .error e => .error (.fault (.invalidNumber text e)) m := by
  rw [Evaluation.literal, Evaluation.get_bind, has_table, Option.bind_some]
  cases table.find? text with
  | some x => rfl
  | none => cases Number.parse env.prec text <;> rfl

/-- All that asking for a literal can do: it is remembered, it is read and remembered from then on, or it is refused. -/
theorem Evaluation.literal_cases (env : Environment) (text : String) (m : Machine) :
    (∃ x table, m.literals = some table ∧ table.find? text = some x ∧ literal env text m = .ok x m) ∨
    (∃ x table, m.literals = some table ∧ Number.parse env.prec text = .ok x ∧
      literal env text m = .ok x { m with literals := some (table.insert text x) }) ∨
    ∃ f, literal env text m = .error (.fault f) m := by
  cases has_table : m.literals with
  | none =>
    refine .inr (.inr ?_)
    rw [literal, get_bind, has_table]
    cases Number.parse env.prec text with
    | ok x => exact ⟨_, rfl⟩
    | error e => exact ⟨_, rfl⟩
  | some table =>
    have asked := literal_eq env has_table text
    cases found : table.find? text with
    | some x =>
      rw [found] at asked
      exact .inl ⟨x, table, rfl, found, asked⟩
    | none =>
      cases read : Number.parse env.prec text with
      | ok x =>
        rw [found, read] at asked
        exact .inr (.inl ⟨x, table, rfl, rfl, asked⟩)
      | error e =>
        rw [found, read] at asked
        exact .inr (.inr ⟨_, asked⟩)

namespace Machine.Tidy

variable {prec : Nat} {m : Machine}

/-- A new place is on top. -/
theorem push {env : Environment} (tidy : m.Tidy env.prec) :
    ∃ m' place, Evaluation.push env m = .ok () m' ∧ m'.Tidy env.prec ∧
      place.prec = numberPrec env.prec ∧ m'.stack.live = place :: m.stack.live ∧
      m'.writes = m.writes := by
  obtain ⟨place, place_prec, live, uniform⟩ :=
    tidy.stack.push (.zero (numberPrec env.prec)) rfl
  exact ⟨_, place, rfl, ⟨uniform, tidy.literals, tidy.writes⟩, place_prec, live, rfl⟩

/-- A value is stored in the place on top. -/
theorem store (tidy : m.Tidy prec) (positive : 0 < prec) {place : Number} {below : List Number}
    (place_prec : place.prec = numberPrec prec) (live : m.stack.live = place :: below) (x : Number) :
    ∃ m', Evaluation.store x m = .ok () m' ∧ m'.Tidy prec ∧
      m'.stack.live = keep prec x :: below ∧ m'.writes = m.writes := by
  refine ⟨_, rfl, ⟨?_, tidy.literals, tidy.writes⟩, ?_, rfl⟩
  · change (m.stack.store x).Uniform _
    rw [Stack.store_of_live x place live, place_prec]
    exact tidy.stack.replace (Environment.prec_keep positive x)
  · change (m.stack.store x).live = _
    rw [Stack.store_of_live x place live, place_prec, Stack.replace, live]
    rfl

theorem drop (tidy : m.Tidy prec) (n : Nat) :
    ∃ m', Evaluation.drop n m = .ok () m' ∧ m'.Tidy prec ∧
      m'.stack.live = m.stack.live.drop n ∧ m'.writes = m.writes :=
  ⟨_, rfl, ⟨tidy.stack.drop n, tidy.literals, tidy.writes⟩, rfl, rfl⟩

theorem replace (tidy : m.Tidy prec) {x : Number} (x_prec : x.prec = numberPrec prec) :
    ∃ m', Evaluation.replace x m = .ok () m' ∧ m'.Tidy prec ∧
      m'.stack.live = x :: m.stack.live.tail ∧ m'.writes = m.writes :=
  ⟨_, rfl, ⟨tidy.stack.replace x_prec, tidy.literals, tidy.writes⟩, rfl, rfl⟩

/-- A literal has the value that reading it gives, whether or not it is remembered. -/
theorem literal {env : Environment} (tidy : m.Tidy env.prec) {text : String} {x : Number}
    (read : Number.parse env.prec text = .ok x) :
    ∃ m', Evaluation.literal env text m = .ok x m' ∧ m'.Tidy env.prec ∧ m'.stack = m.stack ∧
      m'.writes = m.writes := by
  obtain ⟨table, has_table, all⟩ := tidy.literals
  rw [Evaluation.literal_eq env has_table]
  cases found : table.find? text with
  | some y =>
    have same : Number.parse env.prec text = .ok y := all text y found
    cases read.symm.trans same
    exact ⟨m, rfl, tidy, rfl, rfl⟩
  | none =>
    rw [read]
    refine ⟨_, rfl, ⟨tidy.stack, ⟨_, rfl, all.insert read⟩, tidy.writes⟩, rfl, rfl⟩

theorem literal_error {env : Environment} (tidy : m.Tidy env.prec) {text : String}
    {e : LiteralError} (refused : Number.parse env.prec text = .error e) :
    Evaluation.literal env text m = .error (.fault (.invalidNumber text e)) m := by
  obtain ⟨table, has_table, all⟩ := tidy.literals
  rw [Evaluation.literal_eq env has_table]
  cases found : table.find? text with
  | some y =>
    have same : Number.parse env.prec text = .ok y := all text y found
    cases refused.symm.trans same
  | none => rw [refused]

end Machine.Tidy

theorem Evaluation.top_of_live {m : Machine} {x : Number} {below : List Number}
    (live : m.stack.live = x :: below) : Evaluation.top m = .ok x m := by
  rw [Evaluation.top, Evaluation.get_bind, live]
  rfl

theorem Evaluation.lookup_eq (env : Environment) (name : String) (m : Machine) :
    Evaluation.lookup env name m = .ok ((m.writes.find? name).or (env.vars.find? name)) m := by
  rw [Evaluation.lookup, Evaluation.get_bind]
  cases m.writes.find? name <;> rfl

end Abacus
