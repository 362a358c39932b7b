import Abacus.Proofs.Encoding
import Abacus.Proofs.Nodes
import Abacus.Proofs.Spelling
import Mathlib

/-!
The variables of lines and of functions.

The names that are recorded while a line is read and the names found in a tree afterwards are the same: those of the
nodes that read or assign a variable. They are listed once each, in the order of their bytes.
-/

namespace Abacus

namespace Tree

variable {name : String} {t : Tree}

/-- The variable that a node by itself reads or assigns. -/
def mentioned? : Tree → Option String
  | .ident name => some name
  | .assign name _ => some name
  | _ => none

theorem mentioned?_eq_some_iff : t.mentioned? = some name ↔ t = .ident name ∨ ∃ value, t = .assign name value := by
  cases t <;> simp [mentioned?]

theorem mem_namesOfAll_iff {ts : List Tree} : name ∈ namesOfAll ts ↔ ∃ t ∈ ts, name ∈ t.names := by
  induction ts with
  | nil => simp [namesOfAll]
  | cons t rest ih => simp [namesOfAll, ih]

mutual

/-- The names of a tree are those of its nodes. -/
theorem mem_names_iff_filterMap (t : Tree) : name ∈ t.names ↔ name ∈ t.nodes.filterMap mentioned? := by
  cases t with
  | absent | number | ident | param => simp [names, nodes, mentioned?]
  | assign other value => simp [names, nodes, mentioned?, mem_names_iff_filterMap value]
  | call function args => simp [names, nodes, mentioned?, mem_namesOfAll_iff_filterMap args]
  | define function params body => simp [names, nodes, mentioned?, mem_names_iff_filterMap body]
  | unary op operand => simp [names, nodes, mentioned?, mem_names_iff_filterMap operand]
  | binary op left right | malformed code left right =>
    rw [names, nodes, List.filterMap_cons_none rfl, List.filterMap_append, List.mem_append, List.mem_append,
      mem_names_iff_filterMap left, mem_names_iff_filterMap right]
  | extended node other args left right =>
    have own : name ∈ node.names ↔
        name ∈ node.names.take node.ownNames ∨ name ∈ node.names.drop node.ownNames := by
      rw [← List.mem_append, List.take_append_drop]
    rw [mem_names_iff_filterMap node] at own
    rw [names, nodes, List.filterMap_cons_none rfl]
    simp only [List.filterMap_append, List.mem_append, own, ← mem_names_iff_filterMap left,
      ← mem_names_iff_filterMap right, ← mem_namesOfAll_iff_filterMap args]
    tauto

theorem mem_namesOfAll_iff_filterMap (ts : List Tree) :
    name ∈ namesOfAll ts ↔ name ∈ (nodesOfAll ts).filterMap mentioned? := by
  cases ts with
  | nil => simp [namesOfAll, nodesOfAll]
  | cons t rest =>
    rw [namesOfAll, nodesOfAll, List.filterMap_append, List.mem_append, List.mem_append, mem_names_iff_filterMap t,
      mem_namesOfAll_iff_filterMap rest]

end

theorem mem_names_iff : name ∈ t.names ↔ .ident name ∈ t.nodes ∨ ∃ value, .assign name value ∈ t.nodes := by
  simp only [mem_names_iff_filterMap, List.mem_filterMap, mentioned?_eq_some_iff]
  constructor
  · rintro ⟨node, inside, rfl | ⟨value, rfl⟩⟩
    · exact .inl inside
    · exact .inr ⟨value, inside⟩
  · rintro (inside | ⟨value, inside⟩)
    · exact ⟨_, inside, .inl rfl⟩
    · exact ⟨_, inside, .inr ⟨value, rfl⟩⟩

/-- The list has the variables of the tree: those that a walk through the tree meets, which are those that some node
reads or assigns. Their bytes increase from one to the next. -/
structure ListsVariables (t : Tree) (names : List String) : Prop where
  increasing : names.Pairwise fun a b => (Text.ofString a).toBytes < (Text.ofString b).toBytes
  met : ∀ name, name ∈ names ↔ name ∈ t.names
  mentioned : ∀ name, name ∈ names ↔ .ident name ∈ t.nodes ∨ ∃ value, .assign name value ∈ t.nodes

theorem listsVariables_vars (t : Tree) : t.ListsVariables t.vars where
  increasing := (listNames_increasing t.names).imp Text.toBytes_ofString_lt
  met _ := mem_vars_iff
  mentioned _ := mem_vars_iff.trans mem_names_iff

end Tree

namespace Grammar

variable {params : List String} {p : Phrase} {ts : List Lexeme} {t : Tree} {name : String}

/-- No parameter is read or assigned as a variable. -/
theorem Derives.not_mem_names (derived : Derives params p ts t) (isParam : name ∈ params) : name ∉ t.names := by
  induction derived with
  | sum_product _ ih | product_unary _ ih | unary_primary _ ih | call _ _ ih | group _ ih | atom_group _ ih => exact ih
  | sum_step _ _ _ left right | product_step _ _ _ left right =>
    rw [Tree.names, List.mem_append]
    exact not_or.mpr ⟨left, right⟩
  | unary_sign _ _ ih => exact ih
  | assign free _ ih =>
    rw [Tree.names, List.mem_cons]
    refine not_or.mpr ⟨?_, ih⟩
    rintro rfl
    exact free isParam
  | name leaf | atom_name leaf =>
    cases leaf with
    | param => exact List.not_mem_nil
    | ident free =>
      rw [Tree.names, List.mem_singleton]
      rintro rfl
      exact free isParam
  | number | atom_number | call_head => exact List.not_mem_nil
  | call_next _ _ before last =>
    simp only [Tree.names, Tree.mem_namesOfAll_iff, List.mem_append, List.mem_singleton] at before ⊢
    rintro ⟨arg, earlier | rfl, inside⟩
    · exact before ⟨arg, earlier, inside⟩
    · exact last inside

theorem Line.not_mem_names {function : String} {body : Tree} (line : Line ts (.define function params body))
    (isParam : name ∈ params) : name ∉ body.names := by
  cases line with
  | expression derived => cases derived.expression
  | definition _ derived => exact derived.not_mem_names isParam

end Grammar

/-- A line lists the variables of its tree, and a function those of its body. No parameter of a definition is among
them, nor a name that is only called. -/
theorem vars_listed :
    (∀ source text line, Parser.parse source text = .ok line →
      line.tree.ListsVariables line.vars ∧
        (∀ function params body, line.tree = .define function params body → ∀ name ∈ params, name ∉ line.vars) ∧
        (∀ function args, .call function args ∈ line.tree.nodes → .ident function ∉ line.tree.nodes →
          (∀ value, .assign function value ∉ line.tree.nodes) → function ∉ line.vars)) ∧
    ∀ f : Func, f.body.ListsVariables f.vars := by
  refine ⟨fun source text line read => ?_, fun f => f.body.listsVariables_vars⟩
  have listed : line.tree.ListsVariables line.vars := by
    rw [Parser.vars_of_parse read]
    exact line.tree.listsVariables_vars
  refine ⟨listed, fun function params body tree name isParam inside => ?_, ?_⟩
  · obtain ⟨tokens, -, derived⟩ := Parser.line_of_parse read
    have met := (listed.met name).mp inside
    rw [tree] at derived met
    exact derived.not_mem_names isParam met
  · intro function args _ not_read not_assigned inside
    rcases (listed.mentioned function).mp inside with found | ⟨value, found⟩
    · exact not_read found
    · exact not_assigned value found

/-- A parameter and a function that is only called are left out. -/
theorem vars_listed_definition :
    ∃ line, Parser.parse {} "f a => b = g a - b".toList = .ok line ∧ line.tree.ListsVariables line.vars ∧
      "a" ∉ line.vars ∧ "g" ∉ line.vars := by
  have read : Parser.parse {} "f a => b = g a - b".toList =
      .ok { tree := .define "f" ["a"] (.assign "b" (.binary .sub (.call "g" [.param 0 "a"]) (.ident "b"))),
            vars := ["b"] } := by cbv
  obtain ⟨listed, no_param, no_callee⟩ := vars_listed.1 _ _ _ read
  refine ⟨_, read, listed, no_param _ _ _ rfl "a" (by simp), no_callee "g" [.param 0 "a"] ?_ ?_ ?_⟩
  all_goals simp [Tree.nodes, Tree.nodesOfAll]

end Abacus
