import Abacus.Tree.Basic
import Mathlib

/-!
The grammar of lines, apart from how they are read.

    Line    = Def | Expr end
    Def     = name { name } "=>" Expr end
    Expr    = Sum
    Sum     = Product { ("+" | "-") Product }
    Product = Unary { ("*" | "/" | "%") Unary }
    Unary   = ("-" | "+") Unary | Primary
    Primary = name "=" Expr | name Atom { Atom } | name | number | "(" Expr ")"
    Atom    = number | name | "(" Expr ")"

By itself this is ambiguous: the value of an assignment could end before any operator after it. Here it
extends as far right as its group does, so a phrase that ends in an assignment without brackets around it is
never the left operand of anything.
-/

namespace Abacus

/-- The trees of expressions over the given parameters. Those without calls are the bodies of functions
once they are stored. -/
inductive Tree.Expression (calls : Bool) (params : List String) : Tree → Prop
  | number (text : String) : Expression calls params (.number text)
  | ident (name : String) : Expression calls params (.ident name)
  | param (index : Nat) (name : String) (named : params[index]? = some name) :
      Expression calls params (.param index name)
  | assign (name : String) {value : Tree} (value_ok : Expression calls params value) :
      Expression calls params (.assign name value)
  | call (function : String) {args : List Tree} (allowed : calls = true)
      (args_ok : ∀ a ∈ args, Expression calls params a) :
      Expression calls params (.call function args)
  | unary (op : UnaryOp) {operand : Tree} (operand_ok : Expression calls params operand) :
      Expression calls params (.unary op operand)
  | binary (op : BinaryOp) {left right : Tree} (left_ok : Expression calls params left)
      (right_ok : Expression calls params right) :
      Expression calls params (.binary op left right)

theorem Tree.Expression.not_definition {calls : Bool} {params : List String} {t : Tree}
    (ok : t.Expression calls params) : t.isDefinition = false := by
  cases ok <;> rfl

/-- The trees of whole lines. -/
inductive Tree.OfLine : Tree → Prop
  | expression {t : Tree} (ok : t.Expression true []) : OfLine t
  | definition (function : String) {params : List String} {body : Tree} (distinct : params.Nodup)
      (body_ok : body.Expression true params) : OfLine (.define function params body)

namespace Grammar

/-- Whether a phrase ends in an assignment that no bracket closes. -/
inductive Ending where
  | closed
  | greedy
deriving DecidableEq

/-- The kinds of phrases inside of a line. -/
inductive Phrase where
  | sum (e : Ending)
  | product (e : Ending)
  | unary (e : Ending)
  | primary (e : Ending)
  /-- A name and the arguments that follow it so far. -/
  | call
  | atom

/-- The signs between the operands of a sum. -/
inductive Additive : Sign → BinaryOp → Prop
  | plus : Additive .plus .add
  | minus : Additive .minus .sub

/-- The signs between the operands of a product. -/
inductive Multiplicative : Sign → BinaryOp → Prop
  | times : Multiplicative .times .mul
  | divide : Multiplicative .divide .div
  | percent : Multiplicative .percent .mod

/-- The signs before an operand. -/
inductive Leading : Sign → UnaryOp → Prop
  | minus : Leading .minus .neg
  | plus : Leading .plus .pos

/-- What a name stands for where it is an operand: the parameter of that name, or else a variable. -/
inductive Leaf (params : List String) (name : String) : Tree → Prop
  | param (index : Nat) (named : params[index]? = some name) : Leaf params name (.param index name)
  | ident (free : name ∉ params) : Leaf params name (.ident name)

/-- The phrases of an expression, with their trees. -/
inductive Derives (params : List String) : Phrase → List Lexeme → Tree → Prop
  | sum_product {e : Ending} {ts : List Lexeme} {t : Tree} (product : Derives params (.product e) ts t) :
      Derives params (.sum e) ts t
  | sum_step {e : Ending} {s : Sign} {op : BinaryOp} {ls rs : List Lexeme} {l r : Tree}
      (sign : Additive s op) (left : Derives params (.sum .closed) ls l)
      (right : Derives params (.product e) rs r) :
      Derives params (.sum e) (ls ++ .sign s :: rs) (.binary op l r)
  | product_unary {e : Ending} {ts : List Lexeme} {t : Tree} (unary : Derives params (.unary e) ts t) :
      Derives params (.product e) ts t
  | product_step {e : Ending} {s : Sign} {op : BinaryOp} {ls rs : List Lexeme} {l r : Tree}
      (sign : Multiplicative s op) (left : Derives params (.product .closed) ls l)
      (right : Derives params (.unary e) rs r) :
      Derives params (.product e) (ls ++ .sign s :: rs) (.binary op l r)
  | unary_sign {e : Ending} {s : Sign} {op : UnaryOp} {ts : List Lexeme} {t : Tree}
      (sign : Leading s op) (operand : Derives params (.unary e) ts t) :
      Derives params (.unary e) (.sign s :: ts) (.unary op t)
  | unary_primary {e : Ending} {ts : List Lexeme} {t : Tree} (primary : Derives params (.primary e) ts t) :
      Derives params (.unary e) ts t
  | assign {e : Ending} {name : String} {ts : List Lexeme} {t : Tree} (free : name ∉ params)
      (value : Derives params (.sum e) ts t) :
      Derives params (.primary .greedy) (.name name :: .assign :: ts) (.assign name t)
  | call {function : String} {ts : List Lexeme} {args : List Tree} (some_args : args ≠ [])
      (call : Derives params .call ts (.call function args)) :
      Derives params (.primary .closed) ts (.call function args)
  | name {name : String} {t : Tree} (leaf : Leaf params name t) :
      Derives params (.primary .closed) [.name name] t
  | number (text : String) : Derives params (.primary .closed) [.number text] (.number text)
  | group {e : Ending} {ts : List Lexeme} {t : Tree} (inside : Derives params (.sum e) ts t) :
      Derives params (.primary .closed) (.openBracket :: ts ++ [.closeBracket]) t
  | call_head {function : String} (free : function ∉ params) :
      Derives params .call [.name function] (.call function [])
  | call_next {function : String} {ts us : List Lexeme} {args : List Tree} {a : Tree}
      (before : Derives params .call ts (.call function args)) (arg : Derives params .atom us a) :
      Derives params .call (ts ++ us) (.call function (args ++ [a]))
  | atom_name {name : String} {t : Tree} (leaf : Leaf params name t) :
      Derives params .atom [.name name] t
  | atom_number (text : String) : Derives params .atom [.number text] (.number text)
  | atom_group {e : Ending} {ts : List Lexeme} {t : Tree} (inside : Derives params (.sum e) ts t) :
      Derives params .atom (.openBracket :: ts ++ [.closeBracket]) t

/-- Whole lines. The parameters of a definition have distinct names. -/
inductive Line : List Lexeme → Tree → Prop
  | expression {e : Ending} {ts : List Lexeme} {t : Tree} (body : Derives [] (.sum e) ts t) :
      Line (ts ++ [.ending]) t
  | definition {e : Ending} {function : String} {params : List String} {ts : List Lexeme} {t : Tree}
      (distinct : params.Nodup) (body : Derives params (.sum e) ts t) :
      Line (.name function :: params.map .name ++ .arrow :: ts ++ [.ending])
        (.define function params t)

/-- A line that begins with one or more names and an arrow. -/
def BeginsDefinition (ts : List Lexeme) : Prop :=
  ∃ function params rest, ts = .name function :: List.map .name params ++ .arrow :: rest

variable {params : List String} {name : String} {p : Phrase} {ts : List Lexeme} {t : Tree}

theorem Leaf.expression (leaf : Leaf params name t) (calls : Bool) : t.Expression calls params := by
  cases leaf with
  | param index named => exact .param index name named
  | ident free => exact .ident name

theorem Derives.expression (derived : Derives params p ts t) : t.Expression true params := by
  induction derived with
  | sum_product _ ih | product_unary _ ih | unary_primary _ ih => exact ih
  | call _ _ ih => exact ih
  | group _ ih | atom_group _ ih => exact ih
  | sum_step _ _ _ left right | product_step _ _ _ left right => exact .binary _ left right
  | unary_sign _ _ ih => exact .unary _ ih
  | assign _ _ ih => exact .assign _ ih
  | name leaf | atom_name leaf => exact leaf.expression true
  | number text | atom_number text => exact .number text
  | call_head free => exact .call _ rfl (by simp)
  | call_next _ _ before last =>
    cases before with
    | call function allowed args_ok =>
      refine .call _ rfl fun a inside => ?_
      rcases List.mem_append.mp inside with earlier | here
      · exact args_ok a earlier
      · rw [List.mem_singleton.mp here]
        exact last

/-- No phrase is empty. -/
theorem Derives.ne_nil (derived : Derives params p ts t) : ts ≠ [] := by
  induction derived with
  | sum_product _ ih | product_unary _ ih | unary_primary _ ih | call _ _ ih => exact ih
  | call_next _ _ ih => simp [ih]
  | _ => simp

theorem Derives.arrow_not_mem (derived : Derives params p ts t) : Lexeme.arrow ∉ ts := by
  induction derived with
  | sum_product _ ih | product_unary _ ih | unary_primary _ ih | call _ _ ih => exact ih
  | name | number | call_head | atom_name | atom_number => simp
  | sum_step _ _ _ left right | product_step _ _ _ left right => simp [left, right]
  | unary_sign _ _ ih | assign _ _ ih | group _ ih | atom_group _ ih => simp [ih]
  | call_next _ _ before last => simp [before, last]

theorem Derives.not_definition (derived : Derives params p ts t) : t.isDefinition = false :=
  derived.expression.not_definition

theorem Line.ofLine (line : Line ts t) : t.OfLine := by
  cases line with
  | expression body => exact .expression body.expression
  | definition distinct body => exact .definition _ distinct body.expression

/-- A line is a definition exactly if it begins like one. -/
theorem Line.isDefinition_iff (line : Line ts t) : t.isDefinition = true ↔ BeginsDefinition ts := by
  cases line with
  | expression body =>
    rw [body.not_definition]
    refine iff_of_false Bool.false_ne_true ?_
    rintro ⟨function, names, rest, same⟩
    have arrow : Lexeme.arrow ∈ Lexeme.name function :: List.map .name names ++ .arrow :: rest := by simp
    rw [← same, List.mem_append] at arrow
    rcases arrow with inside | last
    · exact body.arrow_not_mem inside
    · simp at last
  | @definition e function names ts t distinct body =>
    exact iff_of_true rfl ⟨function, names, ts ++ [.ending], by simp⟩

end Grammar

end Abacus
