import Abacus.Proofs.Definition
import Mathlib

/-!
The nodes of a tree, and where those of a stored body come from.

Substitution and inlining copy nodes. They change what stands below a node, but not the node itself: every node of
an inlined body is one of the definition or one of a function that the definition calls.
-/

namespace Abacus

namespace Tree

mutual

/-- All nodes of a tree, each before its parts. -/
def nodes : Tree → List Tree
  | .absent => [.absent]
  | .number text => [.number text]
  | .ident name => [.ident name]
  | .param index name => [.param index name]
  | .assign name value => .assign name value :: nodes value
  | .call function args => .call function args :: nodesOfAll args
  | .define function params body => .define function params body :: nodes body
  | .unary op operand => .unary op operand :: nodes operand
  | .binary op left right => .binary op left right :: (nodes left ++ nodes right)
  | .malformed code left right => .malformed code left right :: (nodes left ++ nodes right)
  | .extended node name args left right =>
    .extended node name args left right ::
      (nodes node ++ nodesOfAll args ++ nodes left ++ nodes right)

def nodesOfAll : List Tree → List Tree
  | [] => []
  | t :: rest => nodes t ++ nodesOfAll rest

end

theorem mem_nodesOfAll_iff {ts : List Tree} {node : Tree} :
    node ∈ nodesOfAll ts ↔ ∃ t ∈ ts, node ∈ t.nodes := by
  induction ts with
  | nil => simp [nodesOfAll]
  | cons t rest ih => simp [nodesOfAll, ih]

theorem nodes_subset_nodesOfAll {ts : List Tree} {t : Tree} (inside : t ∈ ts) :
    t.nodes ⊆ nodesOfAll ts :=
  fun _ node => mem_nodesOfAll_iff.mpr ⟨t, inside, node⟩

theorem nodes_value (name : String) (value : Tree) : value.nodes ⊆ (assign name value).nodes :=
  List.subset_cons_self _ _

theorem nodes_operand (op : UnaryOp) (operand : Tree) : operand.nodes ⊆ (unary op operand).nodes :=
  List.subset_cons_self _ _

theorem nodes_left (op : BinaryOp) (left right : Tree) : left.nodes ⊆ (binary op left right).nodes :=
  List.subset_cons_of_subset _ (List.subset_append_left _ _)

theorem nodes_right (op : BinaryOp) (left right : Tree) : right.nodes ⊆ (binary op left right).nodes :=
  List.subset_cons_of_subset _ (List.subset_append_right _ _)

theorem nodes_arg (function : String) {args : List Tree} {a : Tree} (inside : a ∈ args) :
    a.nodes ⊆ (call function args).nodes :=
  List.subset_cons_of_subset _ (nodes_subset_nodesOfAll inside)

/-- A node by itself, without what stands below it. -/
def head : Tree → Tree
  | .assign name _ => .assign name .absent
  | .call function _ => .call function []
  | .define function params _ => .define function params .absent
  | .unary op _ => .unary op .absent
  | .binary op _ _ => .binary op .absent .absent
  | .malformed code _ _ => .malformed code .absent .absent
  | .extended _ name _ _ _ => .extended .absent name [] .absent .absent
  | t => t

/-- The tree has the node, with whatever below it. -/
def HasHead (t node : Tree) : Prop :=
  ∃ part ∈ t.nodes, part.head = node.head

variable {t node part : Tree} {params : List String} {args : List Tree}

theorem HasHead.mono (has : part.HasHead node) (sub : part.nodes ⊆ t.nodes) : t.HasHead node := by
  obtain ⟨found, inside, same⟩ := has
  exact ⟨found, sub inside, same⟩

theorem hasHead_number_iff {text : String} : t.HasHead (.number text) ↔ .number text ∈ t.nodes := by
  constructor
  · rintro ⟨part, inside, same⟩
    cases part <;> cases same
    exact inside
  · exact fun inside => ⟨_, inside, rfl⟩

theorem hasHead_assign_iff {name : String} {value : Tree} :
    t.HasHead (.assign name value) ↔ ∃ value', .assign name value' ∈ t.nodes := by
  constructor
  · rintro ⟨part, inside, same⟩
    cases part <;> cases same
    exact ⟨_, inside⟩
  · rintro ⟨value', inside⟩
    exact ⟨_, inside, rfl⟩

/-- The nodes of a body with arguments in the place of parameters: those of the body, and those of the
arguments. -/
theorem hasHead_of_substitute {body : Tree} (ok : body.Expression false params)
    (replaced : body.substitute (some args) = .ok t) (inside : node ∈ t.nodes) :
    body.HasHead node ∨ ∃ a ∈ args, node ∈ a.nodes := by
  induction ok generalizing t with
  | number | ident =>
    cases replaced
    exact .inl ⟨node, inside, rfl⟩
  | param index name named =>
    have found : args[index]? = some t := argument_eq_ok_iff.mp replaced
    exact .inr ⟨t, List.mem_of_getElem? found, inside⟩
  | @assign name value _ ih =>
    rw [substitute] at replaced
    obtain ⟨value', value_replaced, same⟩ := Except.bind_eq_ok_iff.mp replaced
    cases same
    rcases List.mem_cons.mp inside with rfl | below
    · exact .inl ⟨_, List.mem_cons_self .., rfl⟩
    · exact (ih value_replaced below).imp_left (·.mono (nodes_value name value))
  | call function allowed => cases allowed
  | @unary op operand _ ih =>
    obtain ⟨operand', operand_replaced, rfl⟩ := substitute_unary_eq_ok_iff.mp replaced
    rcases List.mem_cons.mp inside with rfl | below
    · exact .inl ⟨_, List.mem_cons_self .., rfl⟩
    · exact (ih operand_replaced below).imp_left (·.mono (nodes_operand op operand))
  | @binary op left right _ _ left_ih right_ih =>
    obtain ⟨left', right', left_replaced, right_replaced, rfl⟩ := substitute_binary_eq_ok_iff.mp replaced
    rcases List.mem_cons.mp inside with rfl | below
    · exact .inl ⟨_, List.mem_cons_self .., rfl⟩
    · rcases List.mem_append.mp below with below | below
      · exact (left_ih left_replaced below).imp_left (·.mono (nodes_left op left right))
      · exact (right_ih right_replaced below).imp_left (·.mono (nodes_right op left right))

end Tree

namespace Environment

/-- The tree calls the function, with arguments or, if the function takes none, by its name alone. -/
def Calls (env : Environment) (t : Tree) (f : Func) : Prop :=
  ∃ name, env.functions.find? name = some f ∧
    ((∃ args, .call name args ∈ t.nodes) ∨
      (.ident name ∈ t.nodes ∧ env.vars.find? name = none ∧ f.params = []))

variable {env : Environment} {t t' part node : Tree} {params : List String} {f : Func}

theorem Calls.mono (calls : env.Calls part f) (sub : part.nodes ⊆ t.nodes) : env.Calls t f := by
  obtain ⟨name, found, ⟨args, node⟩ | ⟨node, unbound, niladic⟩⟩ := calls
  · exact ⟨name, found, .inl ⟨args, sub node⟩⟩
  · exact ⟨name, found, .inr ⟨sub node, unbound, niladic⟩⟩

theorem calls_of_call {function : String} {args : List Tree}
    (found : env.functions.find? function = some f) : env.Calls (.call function args) f :=
  ⟨function, found, .inl ⟨args, List.mem_cons_self ..⟩⟩

theorem calls_of_ident {name : String} (unbound : env.vars.find? name = none)
    (found : env.functions.find? name = some f) (niladic : f.params = []) :
    env.Calls (.ident name) f :=
  ⟨name, found, .inr ⟨List.mem_cons_self .., unbound, niladic⟩⟩

/-- A node of the tree, or of a function that the tree calls. -/
def Draws (env : Environment) (t node : Tree) : Prop :=
  t.HasHead node ∨ ∃ f, env.Calls t f ∧ f.body.HasHead node

theorem Draws.mono (draws : env.Draws part node) (sub : part.nodes ⊆ t.nodes) : env.Draws t node := by
  rcases draws with own | ⟨f, calls, has⟩
  · exact .inl (own.mono sub)
  · exact .inr ⟨f, calls.mono sub, has⟩

/-- Where the nodes of an inlined tree come from. -/
theorem draws_of_inline (flat : env.Flat) (ok : t.Expression true params)
    (inlined : env.inline t = .ok t') (inside : node ∈ t'.nodes) : env.Draws t node := by
  induction ok generalizing t' node with
  | number | param =>
    cases inlined
    exact .inl ⟨node, inside, rfl⟩
  | ident name =>
    rcases inline_ident_eq_ok_iff.mp inlined with ⟨f, unbound, found, niladic, rfl⟩ | ⟨-, rfl⟩
    · exact .inr ⟨f, calls_of_ident unbound found niladic, node, inside, rfl⟩
    · exact .inl ⟨node, inside, rfl⟩
  | @assign name value _ ih =>
    rw [inline] at inlined
    obtain ⟨value', value_inlined, same⟩ := Except.bind_eq_ok_iff.mp inlined
    cases same
    rcases List.mem_cons.mp inside with rfl | below
    · exact .inl ⟨_, List.mem_cons_self .., rfl⟩
    · exact (ih value_inlined below).mono (Tree.nodes_value name value)
  | @call function args _ _ ih =>
    obtain ⟨f, args', found, -, args_inlined, replaced⟩ := inline_call_eq_ok_iff.mp inlined
    rcases Tree.hasHead_of_substitute (flat function f found) replaced inside with own | ⟨a', a'_inside, below⟩
    · exact .inr ⟨f, calls_of_call found, own⟩
    · obtain ⟨a, a_inside, a_inlined⟩ := exists_mem_of_forall₂ args_inlined a'_inside
      exact (ih a a_inside a_inlined below).mono (Tree.nodes_arg function a_inside)
  | @unary op operand _ ih =>
    obtain ⟨operand', operand_inlined, rfl⟩ := inline_unary_eq_ok_iff.mp inlined
    rcases List.mem_cons.mp inside with rfl | below
    · exact .inl ⟨_, List.mem_cons_self .., rfl⟩
    · exact (ih operand_inlined below).mono (Tree.nodes_operand op operand)
  | @binary op left right _ _ left_ih right_ih =>
    obtain ⟨left', right', left_inlined, right_inlined, rfl⟩ := inline_binary_eq_ok_iff.mp inlined
    rcases List.mem_cons.mp inside with rfl | below
    · exact .inl ⟨_, List.mem_cons_self .., rfl⟩
    · rcases List.mem_append.mp below with below | below
      · exact (left_ih left_inlined below).mono (Tree.nodes_left op left right)
      · exact (right_ih right_inlined below).mono (Tree.nodes_right op left right)

end Environment

end Abacus
