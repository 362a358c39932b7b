import Abacus.Proofs.Lockstep
import Mathlib

/-!
Lines that assign nothing leave no trace.

Values are computed in places of the stack that were used before, and literals that were met are remembered. Where
values have a precision all places have it, and so what was in them does not show. Without one a place takes the
precision of the first value that is stored in it: after a line whose value has 53 bits a quotient has 53 bits as well,
and would have had 64 without that line. Even then nothing shows as long as all numbers that the lines meet have the 64
bits of literals.
-/

namespace Abacus

open Environment (numberPrec keep)

/-- Values may have a precision or none, and it may rise and fall. -/
def Policy.free : Policy :=
  { begins := fun _ => True, changes := fun _ _ => True }

namespace Number

theorem literalPrec_pos (prec : Nat) : 0 < literalPrec prec := by
  unfold literalPrec maxPrec
  split <;> omega

theorem prec_parse_numeral {prec : Nat} {text : String} {x : Number} (numeral : isNumeral text.toList = true)
    (success : parse prec text = .ok x) : x.prec = literalPrec prec := by
  obtain ⟨whole, fraction, -, -, parsed⟩ := parse_numeral numeral prec
  rw [parsed] at success
  exact prec_toNumber success

/-- A place with the precision of a number, or with none, stores it as it is. -/
theorem atPrec_of_prec {x : Number} {prec : Nat} (place : prec = 0 ∨ prec = x.prec) : x.atPrec prec = x := by
  rcases place with rfl | rfl
  · exact atPrec_zero x
  · exact atPrec_self x

end Number

/-- A number with the precision of literals, or with none. -/
def Environment.Levels (env : Environment) (x : Number) : Prop :=
  x.prec = 0 ∨ x.prec = Number.literalPrec env.prec

theorem Environment.numberPrec_levels (prec : Nat) :
    numberPrec prec = 0 ∨ numberPrec prec = Number.literalPrec prec := by
  unfold numberPrec Number.literalPrec
  split
  · omega
  · exact .inr rfl

/-- All values have the precision of literals. It then does not show whether a place has that precision too, or none. -/
def Lockstep.level (env env' : Environment) (prec : env'.prec = env.prec) (functions : env'.functions = env.functions) :
    Lockstep env env' where
  prec
  functions
  literal := env.machine.worth env
  Meets t :=
    (∀ text x, t = .number text → env.machine.worth env text = .ok x → x.prec = Number.literalPrec env.prec) ∧
      ∀ name x, t = .ident name → env.vars.find? name = some x → x.prec = Number.literalPrec env.prec
  Value x := x.prec = Number.literalPrec env.prec
  Place a b := env.Levels a ∧ env.Levels b
  unused := ⟨Environment.numberPrec_levels env.prec, Environment.numberPrec_levels env.prec⟩
  place_of_value value := ⟨.inr value, .inr value⟩
  store places value := by
    rw [Number.atPrec_of_prec (value ▸ places.1), Number.atPrec_of_prec (value ▸ places.2)]
    exact ⟨rfl, value⟩
  value_literal meets worth := meets.1 _ _ rfl worth
  value_keep value := by
    rw [keep, Number.atPrec_of_prec (value ▸ Environment.numberPrec_levels env.prec)]
    exact value
  value_unary := fun op _ value => (op.prec_apply _).trans value
  value_binary := fun op _ _ _ value applied =>
    (op.prec_apply (value ▸ Number.literalPrec_pos env.prec) applied).trans value
  value_failed := fun op _ y value =>
    (op.prec_leftAfterFailure y (value ▸ Number.literalPrec_pos env.prec)).trans value

namespace Environment

variable {env env' : Environment} {line : Line} {t : Tree}

/-- The name stands in the tree, or in a function that the tree calls. -/
def Names (env : Environment) (t : Tree) (name : String) : Prop :=
  .ident name ∈ t.nodes ∨ ∃ f, env.Calls t f ∧ .ident name ∈ f.body.nodes

/-- All that evaluating a tree can meet has the precision of literals; places of the stack may have none. -/
structure Level (env : Environment) (t : Tree) : Prop where
  spare : ∀ x ∈ env.stack.spare, env.Levels x
  literals : ∀ table, env.literals = some table → table.All fun _ x => x.prec = Number.literalPrec env.prec
  vars : ∀ name x, env.Names t name → env.vars.find? name = some x → x.prec = Number.literalPrec env.prec

/-- Where values have a precision this is always so. -/
theorem level_of_pos {policy : Policy} (reachable : Reachable policy env) (positive : 0 < env.prec) (t : Tree) :
    env.Level t := by
  have same : numberPrec env.prec = Number.literalPrec env.prec :=
    (numberPrec_levels env.prec).resolve_left (Nat.ne_of_gt (numberPrec_pos positive))
  have uniform := reachable.uniform_of_pos positive
  rw [same] at uniform
  exact ⟨fun x inside => .inr (uniform.stack.spare x inside), uniform.literals,
    fun name x _ bound => uniform.vars name x bound⟩

/-- A numeral is worth a number of that precision, whether it is remembered or not. -/
theorem Level.prec_worth (level : env.Level t) {table : Bindings Number} (has_table : env.literals = some table)
    {text : String} {x : Number} (numeral : Number.isNumeral text.toList = true)
    (worth : env.machine.worth env text = .ok x) : x.prec = Number.literalPrec env.prec := by
  rw [Machine.worth_of_table has_table] at worth
  cases found : table.find? text with
  | some y =>
    rw [found] at worth
    cases worth
    exact level.literals table has_table text x found
  | none =>
    cases read : Number.parse env.prec text with
    | error e =>
      rw [found, read] at worth
      cases worth
    | ok y =>
      rw [found, read] at worth
      cases worth
      exact Number.prec_parse_numeral numeral read

theorem Level.meets (level : env.Level t) (safe : env.Safe) (numeric : t.Numeric) (prec : env'.prec = env.prec)
    (functions : env'.functions = env.functions) : (Lockstep.level env env' prec functions).MeetsAll t := by
  obtain ⟨table, has_table, -⟩ := safe.table
  refine ⟨fun node inside => ⟨?_, ?_⟩, fun f calls node inside => ⟨?_, ?_⟩⟩
  · rintro text x rfl worth
    exact level.prec_worth has_table (numeric text inside) worth
  · rintro name x rfl bound
    exact level.vars name x (.inl inside) bound
  · rintro text x rfl worth
    obtain ⟨name, found, -⟩ := calls
    exact level.prec_worth has_table ((safe.closed name f found).2.numeric text inside) worth
  · rintro name x rfl bound
    exact level.vars name x (.inr ⟨f, calls, inside⟩) bound

/-- Also the places that come into use for the first time have no other precision. -/
theorem levels_getD {places : List Number} (levels : ∀ x ∈ places, env.Levels x) (i : Nat) :
    env.Levels (places.getD i env.unused) := by
  rw [List.getD_eq_getElem?_getD]
  cases found : places[i]? with
  | none => exact numberPrec_levels env.prec
  | some x => exact levels x (List.mem_of_getElem? found)

theorem level_agree (prec : env'.prec = env.prec) (functions : env'.functions = env.functions)
    (idle : env.stack.live = []) (idle' : env'.stack.live = []) (spare : ∀ x ∈ env.stack.spare, env.Levels x)
    (spare' : ∀ x ∈ env'.stack.spare, env.Levels x)
    (worth : ∀ text, env'.machine.worth env' text = env.machine.worth env text)
    (vars : env'.vars.find? = env.vars.find?) :
    (Lockstep.level env env' prec functions).Agree env.machine env'.machine where
  places := by
    rw [show env.machine.stack.live = [] from idle, show env'.machine.stack.live = [] from idle']
    exact .nil
  spares i := ⟨levels_getD spare i, levels_getD spare' i⟩
  literals _ := rfl
  literals' := worth
  bound name := congrFun vars name
  values name x meets bound := meets.2 name x rfl bound

/-- What a line that assigns nothing leaves behind: its places have no other precision than those before it, and
literals are worth what they were. -/
structure Traceless (env env' : Environment) : Prop where
  prec : env'.prec = env.prec
  functions : env'.functions = env.functions
  vars : env'.vars.find? = env.vars.find?
  spare : ∀ x ∈ env'.stack.spare, env.Levels x
  worth : ∀ text, env'.machine.worth env' text = env.machine.worth env text

theorem traceless_settle {m : Machine} {prec : env.prec = env.prec} {functions : env.functions = env.functions}
    (agree : (Lockstep.level env env prec functions).Agree m m) {vars : Bindings Number}
    (same : vars.find? = env.vars.find?) (n : Nat) :
    Traceless env { settle env { m with stack := m.stack.drop n } with vars } := by
  refine ⟨rfl, rfl, same, fun x inside => ?_, agree.literals⟩
  rcases List.mem_append.mp inside with given_back | spare
  · have taken := List.mem_of_mem_take (List.mem_reverse.mp given_back)
    obtain ⟨i, bound, rfl⟩ := List.getElem_of_mem taken
    exact ((List.forall₂_iff_get.mp agree.places).2 i bound bound).1
  · obtain ⟨i, bound, rfl⟩ := List.getElem_of_mem spare
    have levels := (agree.spares i).1
    rw [List.getD_eq_getElem?_getD, List.getElem?_eq_getElem bound] at levels
    exact levels

/-- A line that assigns nothing leaves nothing that shows. -/
theorem Level.evaluate (level : env.Level line.tree) (safe : env.Safe) (numeric : line.tree.Numeric)
    (ok : line.tree.Expression true []) (pure : ∀ name, ¬env.MayAssign line.tree name)
    (returns : ∀ f, (env.evaluate line).1 ≠ .error (.fault f)) : Traceless env (env.evaluate line).2 := by
  have meets : (Lockstep.level env env rfl rfl).MeetsAll line.tree := level.meets safe numeric rfl rfl
  have start : (Lockstep.level env env rfl rfl).Agree env.machine env.machine :=
    level_agree rfl rfl safe.idle safe.idle level.spare level.spare (fun _ => rfl) rfl
  -- the line is evaluated beside itself, which tells what places and literals are like afterwards
  have ends := meets.runs { start with live := safe.idle, live' := safe.idle }
  have effect := effect_evalLine safe.closed.flat ok env.machine ()
  rw [evaluate_expression safe.idle ok] at returns ⊢
  generalize Evaluation.evalLine env line.tree env.machine = result at ends effect returns
  cases ends with
  | @error stop m _ agree =>
    cases stop with
    | fault f => exact absurd rfl (returns f)
    | error e => exact traceless_settle agree rfl m.stack.live.length
  | @ok _ m _ holds =>
    obtain ⟨x, -, ended⟩ := holds
    have nothing_written : ∀ name, m.writes.find? name = none := fun name =>
      ((effect m rfl).only name).resolve_right (pure name)
    dsimp only
    rw [commit, ended.live]
    refine traceless_settle ended.toAgree (funext fun name => ?_) 1
    rw [Bindings.find?_overriddenBy, nothing_written, Option.none_or]

theorem scope_evaluate (ok : line.tree.Expression true []) :
    (env.evaluate line).2.scope = { env.scope with vars := (env.evaluate line).2.vars.find? } := by
  rw [scope, prec_evaluate, functions_of_expression ok]
  rfl

theorem Traceless.scope_eq (traceless : Traceless env env') : env'.scope = env.scope := by
  rw [scope, scope, traceless.prec, traceless.vars, traceless.functions]

/-- Where nothing shows, every text is carried out in the same way. -/
theorem Traceless.exec (traceless : Traceless env env') (safe : env.Safe) (idle' : env'.stack.live = [])
    {text : Text}
    (level : ∀ line, Parser.parseText text = .ok line → line.isDefinition = false → env.Level line.tree) :
    (env'.exec text).1 = (env.exec text).1 ∧ (env'.exec text).2.scope = (env.exec text).2.scope := by
  cases read : Parser.parseText text with
  | error e =>
    rw [exec_of_error read, exec_of_error read]
    exact ⟨rfl, traceless.scope_eq⟩
  | ok line =>
    have alike : Alike (env'.evaluate line) (env.evaluate line) := by
      have read_chars := Parser.parse_of_parseText read
      have of_line := Parser.ofLine_of_parse read_chars
      generalize tree : line.tree = t at of_line
      cases of_line with
      | definition function distinct body_ok =>
        exact evaluate_definition_congr idle' safe.idle traceless.scope_eq tree body_ok
      | expression ok =>
        subst tree
        have here := level line read ok.not_definition
        have meets := here.meets safe (Parser.numeric_of_parse read_chars) traceless.prec traceless.functions
        have agree := level_agree traceless.prec traceless.functions safe.idle idle' here.spare traceless.spare
          traceless.worth traceless.vars
        obtain ⟨result, vars⟩ := meets.evaluate ok safe.idle idle' agree
        exact ⟨result, by rw [scope_evaluate ok, scope_evaluate ok, traceless.scope_eq, vars]⟩
    rw [exec_of_read read, exec_of_read read, alike.1]
    exact ⟨rfl, alike.2⟩

/-- A line that assigns nothing has no effect: the next one gives the same, with or without it. Without a precision
this needs all numbers that the two lines meet to have the 64 bits of literals. -/
theorem exec_after_pure {policy : Policy} {first next : Text} (reachable : Reachable policy env)
    (read : Parser.parseText first = .ok line) (expression : line.isDefinition = false)
    (pure : ∀ name, ¬env.MayAssign line.tree name) (returns : ∀ f, (env.exec first).1 ≠ .error (.fault f))
    (level : env.prec = 0 → env.Level line.tree ∧
      ∀ other, Parser.parseText next = .ok other → other.isDefinition = false → env.Level other.tree) :
    (env.exec first).2.scope = env.scope ∧
      ((env.exec first).2.exec next).1 = (env.exec next).1 ∧
      ((env.exec first).2.exec next).2.scope = (env.exec next).2.scope := by
  have safe := reachable.safe
  have read_chars := Parser.parse_of_parseText read
  have levels : env.Level line.tree ∧
      ∀ other, Parser.parseText next = .ok other → other.isDefinition = false → env.Level other.tree := by
    rcases Nat.eq_zero_or_pos env.prec with none | positive
    · exact level none
    · exact ⟨level_of_pos reachable positive _, fun _ _ _ => level_of_pos reachable positive _⟩
  have idle : (env.exec first).2.stack.live = [] := (reachable.exec first returns).safe.idle
  have traceless : Traceless env (env.exec first).2 := by
    rw [exec_of_read read] at returns ⊢
    refine levels.1.evaluate safe (Parser.numeric_of_parse read_chars)
      (Parser.expression_of_parse read_chars expression) pure fun f fails => returns f ?_
    rw [fails]
    rfl
  exact ⟨traceless.scope_eq, traceless.exec safe idle levels.2⟩

/-- Without a precision, a call and a quotient before another call. -/
theorem exec_after_pure_called :
    ∃ env line, Reachable .free env ∧ env.prec = 0 ∧ Parser.parseText (Text.ofString "f 2/8") = .ok line ∧
      (∀ name, ¬env.MayAssign line.tree name) ∧
      (env.exec (Text.ofString "y=f(1/4)")).1 = .ok (.value
        { prec := 64, neg := false, mag := .finite 3 (-2), words := 1 }) ∧
      ((env.exec (Text.ofString "f 2/8")).2.exec (Text.ofString "y=f(1/4)")).1 =
        (env.exec (Text.ofString "y=f(1/4)")).1 := by
  let three : Number := { prec := 64, neg := false, mag := .finite 3 0, words := 1 }
  let f : Func := { name := "f", params := ["a"], body := .binary .mul (.param 0 "a") (.ident "x") }
  let base : Environment := { blank 0 with vars := Bindings.empty.insert "x" three }
  let env := base.withFunction "f" f
  let line : Line := { tree := .binary .div (.call "f" [.number "2"]) (.number "8"), vars := [] }
  have created : create [.prec 0, .noConstants, .var "x" three] = .ok base := by cbv
  have defined : base.exec (Text.ofString "f a=>a*x") = (.ok .defined, env) := by cbv
  have start : Reachable .free base := .create created trivial
  have reachable := start.exec_ok (congrArg Prod.fst defined)
  rw [defined] at reachable
  have read : Parser.parseText (Text.ofString "f 2/8") = .ok line := by cbv
  have gives : (env.exec (Text.ofString "f 2/8")).1 = .ok (.value
      { prec := 64, neg := false, mag := .finite 3 (-2), words := 1 }) := by cbv
  have next_gives : (env.exec (Text.ofString "y=f(1/4)")).1 = .ok (.value
      { prec := 64, neg := false, mag := .finite 3 (-2), words := 1 }) := by cbv
  have returns : ∀ fault, (env.exec (Text.ofString "f 2/8")).1 ≠ .error (.fault fault) := by
    rw [gives]
    rintro fault ⟨⟩
  have functions : ∀ name g, env.functions.find? name = some g → g = f := by
    intro name g found
    change (Bindings.empty.insert "f" f).find? name = some g at found
    rw [Bindings.find?_insert] at found
    split at found
    · exact (Option.some.inj found).symm
    · cases found
  have pure : ∀ name, ¬env.MayAssign line.tree name := by
    rintro name (⟨value, inside⟩ | ⟨g, ⟨called, found, -⟩, value, inside⟩)
    · simp [line, Tree.nodes, Tree.nodesOfAll] at inside
    · rw [functions called g found] at inside
      simp [f, Tree.nodes] at inside
  have level : ∀ t, env.Level t := by
    refine fun t => ⟨by simp [env, base, withFunction, blank, Stack.empty], ?_, ?_⟩
    · rintro table ⟨⟩
      exact Bindings.all_empty
    · intro name x _ bound
      change (Bindings.empty.insert "x" three).find? name = some x at bound
      rw [Bindings.find?_insert] at bound
      split at bound
      · cases bound
        rfl
      · cases bound
  have levels : env.prec = 0 → env.Level line.tree ∧ ∀ other,
      Parser.parseText (Text.ofString "y=f(1/4)") = .ok other → other.isDefinition = false → env.Level other.tree :=
    fun _ => ⟨level _, fun other _ _ => level _⟩
  obtain ⟨-, same, -⟩ := exec_after_pure reachable read rfl pure returns levels
  exact ⟨env, line, reachable, rfl, read, pure, next_gives, same⟩

/-- Without a precision a line can have an effect although it assigns nothing: the quotient is computed in the place
that the constant was in, with its 53 bits. -/
theorem exec_after_constant :
    ∃ env line x y, create [.prec 0] = .ok env ∧ Parser.parseText (Text.ofString "e") = .ok line ∧
      (∀ name, ¬env.MayAssign line.tree name) ∧
      (env.exec (Text.ofString "1/3")).1 = .ok (.value x) ∧ x.prec = 64 ∧
      ((env.exec (Text.ofString "e")).2.exec (Text.ofString "1/3")).1 = .ok (.value y) ∧ y.prec = 53 := by
  have read : Parser.parseText (Text.ofString "e") = .ok { tree := .ident "e", vars := ["e"] } := by cbv
  have next_read : Parser.parseText (Text.ofString "1/3") =
      .ok { tree := .binary .div (.number "1") (.number "3"), vars := [] } := by cbv
  refine ⟨{ blank 0 with vars := predefined .standard 0 }, { tree := .ident "e", vars := ["e"] },
    { prec := 64, neg := false, mag := .finite 12297829382473034411 (-65), words := 1 },
    { prec := 53, neg := false, mag := .finite 6004799503160661 (-54), words := 1 }, rfl, read, ?_, ?_, rfl, ?_, rfl⟩
  · rintro name (⟨value, inside⟩ | ⟨g, ⟨called, found, -⟩, -⟩)
    · simp [Tree.nodes] at inside
    · cases found
  · rw [exec_of_read next_read]
    decide +kernel
  · rw [exec_of_read read, exec_of_read next_read]
    decide +kernel

end Environment

end Abacus
