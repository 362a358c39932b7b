import Abacus.Token.Basic
import Mathlib

/-!
Brackets and their partners.

Two brackets are partners if what stands between them is balanced. With the number of brackets that are open at each
place it is easy to see that a bracket has no partner: it never falls below zero inside of something balanced.
-/

namespace Abacus

/-- What a lexeme adds to the number of open brackets. -/
def Lexeme.opens : Lexeme → ℤ
  | .openBracket => 1
  | .closeBracket => -1
  | _ => 0

namespace Grammar

variable {before after inside ls rs : List Lexeme} {i j : Nat}

/-- All brackets among the lexemes have their partners among them, too. -/
inductive Balanced : List Lexeme → Prop
  | nothing : Balanced []
  | other {l : Lexeme} (no_open : l ≠ .openBracket) (no_close : l ≠ .closeBracket) : Balanced [l]
  | append {ls rs : List Lexeme} (left : Balanced ls) (right : Balanced rs) : Balanced (ls ++ rs)
  | group {ls : List Lexeme} (inside : Balanced ls) : Balanced (.openBracket :: ls ++ [.closeBracket])

/-- The brackets in the places `i` and `j` belong together. -/
inductive Partners : List Lexeme → (i j : Nat) → Prop
  | around {before inside after : List Lexeme} (between : Balanced inside) :
      Partners (before ++ .openBracket :: (inside ++ .closeBracket :: after)) before.length
        (before.length + inside.length + 1)

/-- The number of brackets that are open after the lexemes. -/
def depth (ls : List Lexeme) : ℤ :=
  (ls.map Lexeme.opens).sum

@[simp] theorem depth_nil : depth [] = 0 := rfl

@[simp] theorem depth_cons (l : Lexeme) (ls : List Lexeme) : depth (l :: ls) = l.opens + depth ls := by
  simp [depth]

@[simp] theorem depth_append (ls rs : List Lexeme) : depth (ls ++ rs) = depth ls + depth rs := by
  simp [depth]

theorem Balanced.cons {l : Lexeme} (no_open : l ≠ .openBracket) (no_close : l ≠ .closeBracket)
    (balanced : Balanced ls) : Balanced (l :: ls) :=
  .append (.other no_open no_close) balanced

theorem opens_eq_zero {l : Lexeme} (no_open : l ≠ .openBracket) (no_close : l ≠ .closeBracket) : l.opens = 0 := by
  cases l with
  | openBracket => exact absurd rfl no_open
  | closeBracket => exact absurd rfl no_close
  | _ => rfl

theorem Balanced.depth_eq (balanced : Balanced ls) : depth ls = 0 := by
  induction balanced with
  | nothing => rfl
  | other no_open no_close => simp [opens_eq_zero no_open no_close]
  | append _ _ left right => simp [left, right]
  | group _ ih => simp [ih, Lexeme.opens]

/-- On the way through something balanced no bracket is closed that was not opened. -/
theorem Balanced.depth_nonneg (balanced : Balanced ls) : before <+: ls → 0 ≤ depth before := by
  induction balanced generalizing before with
  | nothing =>
    intro part
    rw [List.prefix_nil.mp part, depth_nil]
  | @other l no_open no_close =>
    intro part
    rcases List.prefix_cons_iff.mp part with rfl | ⟨others, rfl, rest⟩
    · rw [depth_nil]
    · rw [List.prefix_nil.mp rest, depth_cons, depth_nil, opens_eq_zero no_open no_close, add_zero]
  | @append ls rs left _ left_ih right_ih =>
    intro part
    rcases List.prefix_or_prefix_of_prefix part (List.prefix_append ls rs) with short | ⟨more, rfl⟩
    · exact left_ih short
    · rw [depth_append, left.depth_eq, zero_add]
      exact right_ih ((List.prefix_append_right_inj ls).mp part)
  | @group ls inside ih =>
    intro part
    rcases List.prefix_cons_iff.mp part with rfl | ⟨others, rfl, rest⟩
    · rw [depth_nil]
    · have inside_nonneg : -1 ≤ depth others := by
        rcases List.prefix_concat_iff.mp rest with rfl | short
        · simp [inside.depth_eq, Lexeme.opens]
        · have := ih short
          omega
      rw [depth_cons, Lexeme.opens]
      omega

/-- An open bracket has no partner if what follows it is balanced. -/
theorem Balanced.unclosed (balanced : Balanced after) :
    ¬Partners (before ++ .openBracket :: after) before.length j := by
  generalize whole : before ++ .openBracket :: after = ls
  generalize place : before.length = i
  intro partners
  cases partners with
  | @around earlier inside later between =>
    have same := List.cons.inj (List.append_inj whole place).2
    have closes : inside ++ [.closeBracket] <+: after := ⟨later, by rw [same.2, List.append_assoc]; rfl⟩
    have nonneg := balanced.depth_nonneg closes
    rw [depth_append, between.depth_eq, depth_cons, depth_nil, Lexeme.opens] at nonneg
    omega

/-- A closing bracket has no partner if what stands before it is balanced. -/
theorem Balanced.unopened (balanced : Balanced before) :
    ¬Partners (before ++ .closeBracket :: after) i before.length := by
  generalize whole : before ++ .closeBracket :: after = ls
  generalize place : before.length = j
  intro partners
  cases partners with
  | @around earlier inside later between =>
    have split : before ++ .closeBracket :: after = (earlier ++ .openBracket :: inside) ++ .closeBracket :: later := by
      rw [whole, List.append_assoc]
      rfl
    have same := (List.append_inj split (by rw [place, List.length_append, List.length_cons, Nat.add_assoc])).1
    have nonneg : 0 ≤ depth earlier := balanced.depth_nonneg (same ▸ List.prefix_append _ _)
    have settled := balanced.depth_eq
    rw [same, depth_append, depth_cons, between.depth_eq, Lexeme.opens] at settled
    omega

end Grammar

end Abacus
