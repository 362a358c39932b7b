import Abacus.Proofs.Reachable
import Mathlib

/-!
Evaluation on the stack refines the meaning of trees, and does not depend on what was evaluated before.
-/

namespace Abacus.Environment

/-- An expression gives the value or the error that it means, and on success its assignments become variables.
Neither the values left in unused places of the stack nor the literals that are remembered show, nor anything
else but the precision, the variables and the functions. -/
theorem evaluate_refines_meaning {env : Environment} {source : Lexer.Source} {text : List Char}
    {line : Line} (reachable : Reachable .rising env) (read : Parser.parse source text = .ok line)
    (expression : line.isDefinition = false) :
    ∃ outcome,
      (∀ nesting, Meaning.value env.scope (nesting + 1) 0 [] line.tree .none = some outcome) ∧
      (env.evaluate line).1 = outcome.map (fun meant => .value meant.1) ∧
      (∀ x w, outcome = .ok (x, w) → x.prec = numberPrec env.prec ∧
        (env.evaluate line).2.scope = { env.scope with vars := w.over env.vars.find? }) ∧
      (∀ stop, outcome = .error stop → (env.evaluate line).2.scope = env.scope) ∧
      (∀ spare table, (∀ x ∈ spare, x.prec = numberPrec env.prec) →
        (table.All fun text x => Number.parse env.prec text = .ok x) →
        Alike (evaluate { env with stack := { live := [], spare }, literals := some table } line)
          (env.evaluate line)) ∧
      ∀ other, Reachable .rising other → other.scope = env.scope →
        Alike (other.evaluate line) (env.evaluate line) := by
  have ready := reachable.ready
  have of_line := Parser.ofLine_of_parse read
  have ok : line.tree.Expression true [] := by
    generalize tree : line.tree = t at of_line
    cases of_line with
    | expression ok => exact ok
    | definition => simp [Line.isDefinition, tree, Tree.isDefinition, Tree.core] at expression
  obtain ⟨outcome, meant, yields⟩ := ready.yields ok
  refine ⟨outcome, meant, ?_, ?_, ?_, ?_, ?_⟩
  · generalize env.evaluate line = result at yields
    cases yields <;> rfl
  · rintro x w rfl
    generalize env.evaluate line = result at yields
    cases yields with
    | value _ x_prec scope => exact ⟨x_prec, scope⟩
  · rintro stop rfl
    generalize env.evaluate line = result at yields
    cases yields with
    | error _ scope | fault _ scope => exact scope
  · intro spare table spare_prec faithful
    have uniform : Stack.Uniform (numberPrec env.prec) { live := [], spare } :=
      ⟨by simp, spare_prec⟩
    have other_ready : Ready { env with stack := { live := [], spare }, literals := some table } :=
      ⟨⟨⟨ready.positive, ready.vars, ready.flat⟩, machine_tidy uniform faithful⟩, rfl⟩
    exact other_ready.evaluate_congr ready rfl of_line
  · intro other other_reachable same
    exact other_reachable.ready.evaluate_congr ready same of_line

/-- A variable is read before it is assigned anew, by a call of a function. -/
theorem evaluate_refines_meaning_call :
    ∃ env line, Reachable .rising env ∧
      Parser.parse {} "f x - (x = 1)".toList = .ok line ∧ line.isDefinition = false ∧
      ∃ w, Meaning.value env.scope 1 0 [] line.tree .none =
          some (.ok ({ prec := 8, neg := false, mag := .finite 11 0, words := 1 }, w)) ∧
        (env.evaluate line).2.scope = { env.scope with vars := w.over env.vars.find? } := by
  have defined := (reachable_blank (Nat.succ_pos 7)).exec_ok
    (show (exec _ (Text.ofString "f a => a * 2")).1 = .ok .defined by cbv)
  have assigned := defined.exec_ok (show (exec _ (Text.ofString "x = f 3")).1 =
    .ok (.value { prec := 8, neg := false, mag := .finite 3 1, words := 1 }) by cbv)
  have read : Parser.parse {} "f x - (x = 1)".toList = .ok {
      tree := .binary .sub (.call "f" [.ident "x"]) (.assign "x" (.number "1")), vars := ["x"] } := by
    cbv
  obtain ⟨outcome, meant, result, committed, -⟩ := evaluate_refines_meaning assigned read rfl
  have computed : outcome.map (fun meant => Result.value meant.1) =
      .ok (.value { prec := 8, neg := false, mag := .finite 11 0, words := 1 }) := by
    rw [← result]
    cbv
  refine ⟨_, _, assigned, read, rfl, ?_⟩
  obtain ⟨⟨x, w⟩, rfl, same⟩ := Except.map_eq_ok_iff.mp computed
  cases same
  exact ⟨w, meant 0, (committed _ w rfl).2⟩

end Abacus.Environment
