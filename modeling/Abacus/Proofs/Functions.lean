import Abacus.Proofs.Nodes
import Abacus.Proofs.Reachable
import Mathlib

/-!
What is stored as a function, in every environment that a program can come to.

No order of definitions leads to a body that calls anything, and no redefinition does, not even one that calls the
older function of the same name. That needs neither a precision nor that it never falls.
-/

namespace Abacus

namespace Tree

/-- Whether a node can stand in a stored body. A call, a definition and a missing or superfluous part cannot; a
number has to be a numeral, and a parameter the one at its position. -/
def fitsBody (params : List String) : Tree → Bool
  | .number text => Number.isNumeral text.toList
  | .param index name => decide (0 ≤ index) && decide (params[index.toNat]? = some name)
  | .ident _ => true
  | .assign _ _ => true
  | .unary _ _ => true
  | .binary _ _ _ => true
  | .absent => false
  | .call _ _ => false
  | .define _ _ _ => false
  | .malformed _ _ _ => false
  | .extended _ _ _ _ _ => false

variable {t node : Tree} {params : List String} {calls : Bool}

/-- The parts of an expression are expressions. -/
theorem Expression.of_node (ok : t.Expression calls params) (inside : node ∈ t.nodes) :
    node.Expression calls params := by
  induction ok with
  | number text =>
    rw [List.mem_singleton.mp inside]
    exact .number text
  | ident name =>
    rw [List.mem_singleton.mp inside]
    exact .ident name
  | param index name named =>
    rw [List.mem_singleton.mp inside]
    exact .param index name named
  | assign name value_ok ih =>
    rcases List.mem_cons.mp inside with rfl | below
    · exact .assign name value_ok
    · exact ih below
  | call function allowed args_ok ih =>
    rcases List.mem_cons.mp inside with rfl | below
    · exact .call function allowed args_ok
    · obtain ⟨a, a_inside, below⟩ := mem_nodesOfAll_iff.mp below
      exact ih a a_inside below
  | unary op operand_ok ih =>
    rcases List.mem_cons.mp inside with rfl | below
    · exact .unary op operand_ok
    · exact ih below
  | binary op left_ok right_ok left_ih right_ih =>
    rcases List.mem_cons.mp inside with rfl | below
    · exact .binary op left_ok right_ok
    · rcases List.mem_append.mp below with below | below
      · exact left_ih below
      · exact right_ih below

theorem Expression.fitsBody (ok : node.Expression false params)
    (numeral : ∀ text, node = .number text → Number.isNumeral text.toList = true) :
    node.fitsBody params = true := by
  cases ok with
  | number text => exact numeral text rfl
  | param index name named => simp [Tree.fitsBody, named]
  | call function allowed => cases allowed
  | ident | assign | unary | binary => rfl

/-- All numbers in the tree are numerals. -/
def Numeric (t : Tree) : Prop :=
  ∀ text, .number text ∈ t.nodes → Number.isNumeral text.toList = true

end Tree

namespace Grammar

variable {params : List String} {p : Phrase} {ts : List Lexeme} {t : Tree} {text : String}

/-- The numbers of a phrase are those of its tokens. -/
theorem Derives.number_mem (derived : Derives params p ts t) (inside : .number text ∈ t.nodes) :
    .number text ∈ ts := by
  induction derived with
  | sum_product _ ih | product_unary _ ih | unary_primary _ ih | call _ _ ih => exact ih inside
  | sum_step _ _ _ left right | product_step _ _ _ left right =>
    simp only [Tree.nodes, List.mem_cons, reduceCtorEq, false_or, List.mem_append] at inside
    rcases inside with inside | inside
    · exact List.mem_append_left _ (left inside)
    · exact List.mem_append_right _ (List.mem_cons_of_mem _ (right inside))
  | unary_sign _ _ ih =>
    simp only [Tree.nodes, List.mem_cons, reduceCtorEq, false_or] at inside
    exact List.mem_cons_of_mem _ (ih inside)
  | assign _ _ ih =>
    simp only [Tree.nodes, List.mem_cons, reduceCtorEq, false_or] at inside
    exact List.mem_cons_of_mem _ (List.mem_cons_of_mem _ (ih inside))
  | name leaf | atom_name leaf => cases leaf <;> simp [Tree.nodes] at inside
  | number | atom_number => simpa [Tree.nodes] using inside
  | group _ ih | atom_group _ ih =>
    exact List.mem_cons_of_mem _ (List.mem_append_left _ (ih inside))
  | call_head => simp [Tree.nodes, Tree.nodesOfAll] at inside
  | @call_next function us vs args a _ _ before last =>
    simp only [Tree.nodes, List.mem_cons, reduceCtorEq, false_or, Tree.mem_nodesOfAll_iff] at inside before
    obtain ⟨b, b_inside, below⟩ := inside
    rcases List.mem_append.mp b_inside with earlier | here
    · exact List.mem_append_left _ (before ⟨b, earlier, below⟩)
    · rw [List.mem_singleton.mp here] at below
      exact List.mem_append_right _ (last below)

theorem Line.number_mem (line : Line ts t) (inside : .number text ∈ t.nodes) : .number text ∈ ts := by
  cases line with
  | expression body => exact List.mem_append_left _ (body.number_mem inside)
  | definition _ body =>
    simp only [Tree.nodes, List.mem_cons, reduceCtorEq, false_or] at inside
    have number := body.number_mem inside
    simp [number]

end Grammar

/-- Every number in a line that is read is a numeral. -/
theorem Parser.numeric_of_parse {source : Lexer.Source} {text : List Char} {line : Line}
    (read : Parser.parse source text = .ok line) : line.tree.Numeric := by
  intro number inside
  obtain ⟨tokens, tokenized, derived⟩ := line_of_parse read
  obtain ⟨t, t_inside, lexeme⟩ := List.mem_map.mp (derived.number_mem inside)
  exact Lexer.isNumeral_of_tokenize tokenized t_inside lexeme

/-- What is known of a definition that is read. -/
theorem Parser.definition_of_parse {source : Lexer.Source} {text : List Char} {line : Line}
    {function : String} {params : List String} {body : Tree} (read : Parser.parse source text = .ok line)
    (tree : line.tree = .define function params body) :
    params.Nodup ∧ body.Expression true params ∧ body.Numeric := by
  have of_line := ofLine_of_parse read
  have numeric := numeric_of_parse read
  rw [tree] at of_line numeric
  obtain ⟨⟨⟩⟩ | ⟨_, distinct, body_ok⟩ := of_line
  exact ⟨distinct, body_ok, fun number inside => numeric number (List.mem_cons_of_mem _ inside)⟩

/-- The parameters have distinct names, and the body calls nothing and has only numerals for numbers. -/
structure Func.Closed (f : Func) : Prop where
  distinct : f.params.Nodup
  body : f.body.Expression false f.params
  numeric : f.body.Numeric

theorem Func.Closed.fitsBody {f : Func} (closed : f.Closed) {node : Tree} (inside : node ∈ f.body.nodes) :
    node.fitsBody f.params = true := by
  refine (closed.body.of_node inside).fitsBody ?_
  rintro text rfl
  exact closed.numeric text inside

namespace Environment

variable {env env' : Environment} {line : Line} {settings : List Setting} {params : List String}
  {body : Tree} {function : String} {f : Func}

/-- Functions are stored under their names, and call nothing. -/
def Closed (env : Environment) : Prop :=
  env.functions.All fun name f => f.name = name ∧ f.Closed

theorem Closed.flat (closed : env.Closed) : env.Flat :=
  fun name f found => (closed name f found).2.body

/-- Numbers of a stored body come from the definition or from a function that it calls. -/
theorem Closed.inline_numeric (closed : env.Closed) (ok : body.Expression true params)
    (numeric : body.Numeric) {body' : Tree} (inlined : env.inline body = .ok body') : body'.Numeric := by
  intro text inside
  rcases draws_of_inline closed.flat ok inlined inside with own | ⟨f, ⟨name, found, -⟩, has⟩
  · exact numeric text (Tree.hasHead_number_iff.mp own)
  · exact (closed name f found).2.numeric text (Tree.hasHead_number_iff.mp has)

/-- A definition makes a function of its own name that calls nothing. -/
theorem Closed.define (closed : env.Closed) (distinct : params.Nodup) (ok : body.Expression true params)
    (numeric : body.Numeric) (defined : env.define function params body = .ok f) :
    f.name = function ∧ f.Closed := by
  obtain ⟨body', inlined, rfl⟩ := define_eq_ok_iff.mp defined
  exact ⟨rfl, distinct, inline_expression closed.flat ok inlined, closed.inline_numeric ok numeric inlined⟩

theorem functions_commit (env : Environment) (m : Machine) : (commit env m).2.functions = env.functions := by
  unfold commit
  split <;> rfl

/-- Evaluating a line adds the function that it defines, or leaves the functions as they are. -/
theorem functions_evaluate (of_line : line.tree.OfLine) :
    (env.evaluate line).2.functions = env.functions ∨
      ∃ function params body f, line.tree = .define function params body ∧
        env.define function params body = .ok f ∧ (env.evaluate line).2 = env.withFunction function f := by
  by_cases idle : env.stack.live = []
  · generalize tree : line.tree = t at of_line
    cases of_line with
    | expression ok =>
      subst tree
      refine .inl ?_
      rw [evaluate_expression idle ok]
      rcases Evaluation.evalLine env line.tree env.machine with m | ⟨e | f, m⟩
      · exact functions_commit env _
      · rfl
      · rfl
    | @definition function params body distinct body_ok =>
      rw [evaluate_definition idle tree]
      cases defined : env.define function params body with
      | error stop => exact .inl rfl
      | ok f => exact .inr ⟨function, params, body, f, rfl, defined, rfl⟩
  · rw [evaluate_in_use idle]
    exact .inl rfl

theorem functions_clone (copied : env.clone settings = .ok env') : env'.functions = env.functions := by
  obtain ⟨vars, -, same⟩ := Except.bind_eq_ok_iff.mp copied
  cases same
  rfl

theorem functions_set {name : String} {x : Number} (bound : env.set name x = .ok env') :
    env'.functions = env.functions := by
  unfold Environment.set at bound
  split at bound
  · cases bound
    rfl
  · cases bound

theorem Closed.evaluate (closed : env.Closed) {source : Lexer.Source} {text : List Char}
    (read : Parser.parse source text = .ok line) : (env.evaluate line).2.Closed := by
  rcases functions_evaluate (Parser.ofLine_of_parse read) with
    same | ⟨function, params, body, f, tree, defined, evaluated⟩
  · rw [Closed, same]
    exact closed
  · obtain ⟨distinct, body_ok, numeric⟩ := Parser.definition_of_parse read tree
    rw [evaluated]
    exact Bindings.All.insert closed (closed.define distinct body_ok numeric defined)

end Environment

theorem Reachable.closed {policy : Policy} {env : Environment} (reachable : Reachable policy env) :
    env.Closed := by
  induction reachable with
  | create created _ =>
    rw [Environment.Closed, Environment.functions_clone created]
    exact Bindings.all_empty
  | evaluate _ read _ ih => exact ih.evaluate read
  | set _ bound ih =>
    rw [Environment.Closed, Environment.functions_set bound]
    exact ih
  | clone _ copied _ ih =>
    rw [Environment.Closed, Environment.functions_clone copied]
    exact ih

namespace Environment

/-- Functions are stored under their own names. Their parameters are distinct, and their bodies call and define
nothing, lack nothing, have numerals for numbers and name each parameter as it is at its position. So one pass over
a definition is enough to inline calls of calls, whatever was defined before it and in which order. -/
theorem stored_functions_closed {policy : Policy} {env : Environment} (reachable : Reachable policy env) :
    (∀ name f, env.functions.find? name = some f →
      f.name = name ∧ f.params.Nodup ∧ ∀ node ∈ f.body.nodes, node.fitsBody f.params = true) ∧
    ∀ source text line function params body f, Parser.parse source text = .ok line →
      line.tree = .define function params body → env.define function params body = .ok f →
      f.name = function ∧ f.params = params ∧ params.Nodup ∧
        ∀ node ∈ f.body.nodes, node.fitsBody params = true := by
  constructor
  · intro name f found
    obtain ⟨named, closed⟩ := reachable.closed name f found
    exact ⟨named, closed.distinct, fun node inside => closed.fitsBody inside⟩
  · intro source text line function params body f read tree defined
    obtain ⟨distinct, body_ok, numeric⟩ := Parser.definition_of_parse read tree
    obtain ⟨named, closed⟩ := reachable.closed.define distinct body_ok numeric defined
    obtain ⟨body', -, rfl⟩ := define_eq_ok_iff.mp defined
    exact ⟨rfl, rfl, distinct, fun node inside => closed.fitsBody inside⟩

/-- A function is defined anew by means of itself and of a function that calls it. -/
theorem stored_functions_closed_redefined :
    ∃ env f, Reachable .rising env ∧ env.functions.find? "f" = some f ∧
      f.body = .binary .add (.binary .mul (.binary .mul (.param 0 "b") (.ident "y")) (.ident "y"))
        (.number "1.5") ∧
      f.name = "f" ∧ f.params.Nodup ∧ ∀ node ∈ f.body.nodes, node.fitsBody f.params = true := by
  have given : ((blank 8).give (Text.ofString "y=2")).1 = .ok () := by cbv
  have start := (reachable_blank (Nat.succ_pos 7)).give (Text.ofString "y=2") (by simp [given])
  have first := start.exec_ok (show (exec _ (Text.ofString "f a=>a*y")).1 = .ok .defined by cbv)
  have second := first.exec_ok (show (exec _ (Text.ofString "g a=>f a+1.5")).1 = .ok .defined by cbv)
  have third := second.exec_ok (show (exec _ (Text.ofString "f b=>g(f b)")).1 = .ok .defined by cbv)
  let f : Func := { name := "f", params := ["b"],
                    body := .binary .add (.binary .mul (.binary .mul (.param 0 "b") (.ident "y"))
                      (.ident "y")) (.number "1.5") }
  refine ⟨_, f, third, ?found, rfl, (stored_functions_closed third).1 "f" f ?found⟩
  cbv

end Environment

end Abacus
