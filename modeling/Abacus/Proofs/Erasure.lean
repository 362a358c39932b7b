import Abacus.Proofs.Reachable
import Mathlib

/-!
A line that fails leaves no trace that a later line could show.

After an error everything but the spare places of the stack and the remembered literals is as before. After a
fault the stack stays in use, and all later lines fail.
-/

namespace Abacus.Environment

/-- Carries out lines one after the other. -/
def run (env : Environment) : List Text → List (Except Failure Result) × Environment
  | [] => ([], env)
  | text :: rest =>
    let (outcome, next) := env.exec text
    let (outcomes, last) := next.run rest
    (outcome :: outcomes, last)

/-- The lines that succeed when all are carried out, with what they give. -/
def survivors (env : Environment) (lines : List Text) : List (Text × Except Failure Result) :=
  (lines.zip (env.run lines).1).filter (·.2.isOk)

variable {env other : Environment} {text : Text}

theorem survivors_of_error {failure : Failure} (failed : (env.exec text).1 = .error failure)
    (rest : List Text) : env.survivors (text :: rest) = (env.exec text).2.survivors rest := by
  simp [survivors, run, failed, Except.isOk, Except.toBool]

theorem survivors_of_ok {result : Result} (succeeded : (env.exec text).1 = .ok result)
    (rest : List Text) :
    env.survivors (text :: rest) = (text, .ok result) :: (env.exec text).2.survivors rest := by
  simp [survivors, run, succeeded, Except.isOk, Except.toBool]

/-- A line fails and does nothing, or is evaluated where nothing else is being evaluated. -/
theorem Sound.exec_cases (sound : env.Sound) (text : Text) :
    (∃ failure, env.exec text = (.error failure, env)) ∨
      ∃ line, Parser.parseText text = .ok line ∧ line.tree.OfLine ∧ env.Ready := by
  cases read : Parser.parseText text with
  | error e => exact .inl ⟨_, exec_of_error read⟩
  | ok line =>
    by_cases idle : env.stack.live = []
    · have of_line := Parser.ofLine_of_parse (Parser.parse_of_parseText read)
      exact .inr ⟨line, rfl, of_line, sound, idle⟩
    · refine .inl ⟨.fault .evaluationInUse, ?_⟩
      rw [exec_of_read read, evaluate_in_use idle]
      rfl

theorem Sound.exec (sound : env.Sound) (text : Text) : (env.exec text).2.Sound := by
  rcases sound.exec_cases text with ⟨failure, failed⟩ | ⟨line, read, of_line, ready⟩
  · rw [failed]
    exact sound
  · rw [exec_of_read read]
    exact (ready.evaluate of_line).1

/-- A line that fails changes neither the precision nor the variables nor the functions. -/
theorem Sound.scope_of_error (sound : env.Sound) {failure : Failure}
    (failed : (env.exec text).1 = .error failure) : (env.exec text).2.scope = env.scope := by
  rcases sound.exec_cases text with ⟨_, same⟩ | ⟨line, read, of_line, ready⟩
  · rw [same]
  · rw [exec_of_read read] at failed ⊢
    cases result : (env.evaluate line).1 with
    | ok value =>
      rw [result] at failed
      cases failed
    | error stop => exact (ready.evaluate of_line).2.2 stop result

/-- A line that succeeds does the same wherever lines mean the same and nothing is being evaluated. -/
theorem Sound.exec_of_ok (sound : env.Sound) (ready : other.Ready) (same : env.scope = other.scope)
    {result : Result} (succeeded : (env.exec text).1 = .ok result) :
    (other.exec text).1 = .ok result ∧ (other.exec text).2.Ready ∧
      (env.exec text).2.scope = (other.exec text).2.scope := by
  rcases sound.exec_cases text with ⟨_, failed⟩ | ⟨line, read, of_line, env_ready⟩
  · rw [failed] at succeeded
    cases succeeded
  · rw [exec_of_read read] at succeeded ⊢
    rw [exec_of_read read]
    obtain ⟨result_same, scope_same⟩ := env_ready.evaluate_congr ready same of_line
    rw [result_same] at succeeded
    refine ⟨succeeded, (ready.evaluate of_line).2.1 fun f fails => ?_, scope_same⟩
    rw [fails] at succeeded
    cases succeeded

/-- The lines that succeed do the same without the others. Of the environment that has seen all lines it is only
known that it is in order, since a fault leaves its stack in use. -/
theorem run_survivors (sound : env.Sound) (ready : other.Ready) (same : env.scope = other.scope)
    (lines : List Text) :
    (other.run ((env.survivors lines).map (·.1))).1 = (env.survivors lines).map (·.2) ∧
      (other.run ((env.survivors lines).map (·.1))).2.scope = (env.run lines).2.scope := by
  induction lines generalizing env other with
  | nil => exact ⟨rfl, same.symm⟩
  | cons text rest ih =>
    cases outcome : (env.exec text).1 with
    | error failure =>
      rw [survivors_of_error outcome]
      exact ih (sound.exec text) ready ((sound.scope_of_error outcome).trans same)
    | ok result =>
      obtain ⟨other_ok, other_ready, next_same⟩ := sound.exec_of_ok ready same outcome
      obtain ⟨results_same, scope_same⟩ := ih (sound.exec text) other_ready next_same
      rw [survivors_of_ok outcome]
      refine ⟨?_, scope_same⟩
      change (other.exec text).1 :: _ = _
      rw [other_ok]
      exact congrArg (Except.ok result :: ·) results_same

/-- Lines that fail can be erased: the others then all succeed with the results they had, and lead to the same
variables, functions and precision. -/
theorem run_without_failures (reachable : Reachable .rising env) (lines : List Text) :
    (env.run ((env.survivors lines).map (·.1))).1 = (env.survivors lines).map (·.2) ∧
      (∀ outcome ∈ (env.run ((env.survivors lines).map (·.1))).1, ∃ result, outcome = .ok result) ∧
      (env.run ((env.survivors lines).map (·.1))).2.scope = (env.run lines).2.scope := by
  have ready := reachable.ready
  obtain ⟨results_same, scope_same⟩ := run_survivors ready.toSound ready rfl lines
  refine ⟨results_same, ?_, scope_same⟩
  rw [results_same]
  intro outcome inside
  obtain ⟨⟨text, outcome⟩, kept, rfl⟩ := List.mem_map.mp inside
  have succeeded := (List.mem_filter.mp kept).2
  cases outcome with
  | ok result => exact ⟨result, rfl⟩
  | error failure => cases succeeded

/-- The assignment in a line that divides by zero is erased with it. -/
theorem run_without_failures_assignment :
    ∃ env, Reachable .rising env ∧
      (env.survivors (["x=6", "(x=7)/0", "x"].map Text.ofString)).map (·.1) =
        ["x=6", "x"].map Text.ofString ∧
      (env.run (["x=6", "x"].map Text.ofString)).1 =
        [.ok (.value { prec := 8, neg := false, mag := .finite 3 1, words := 1 }),
          .ok (.value { prec := 8, neg := false, mag := .finite 3 1, words := 1 })] := by
  have kept : (blank 8).survivors (["x=6", "(x=7)/0", "x"].map Text.ofString) =
        [(Text.ofString "x=6",
            .ok (.value { prec := 8, neg := false, mag := .finite 3 1, words := 1 })),
          (Text.ofString "x",
            .ok (.value { prec := 8, neg := false, mag := .finite 3 1, words := 1 }))] := by
    cbv
  have reachable := reachable_blank (Nat.succ_pos 7)
  have erased := (run_without_failures reachable (["x=6", "(x=7)/0", "x"].map Text.ofString)).1
  rw [kept] at erased
  exact ⟨_, reachable, by rw [kept]; rfl, erased⟩

end Abacus.Environment
