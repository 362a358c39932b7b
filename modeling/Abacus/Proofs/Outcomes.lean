import Abacus.Environment.Evaluation
import Mathlib

/-!
How steps in a row succeed: each of them does, with what the ones before it gave. They fail with the first that
does.
-/

namespace Abacus

theorem Except.bind_eq_ok_iff {ε α β : Type} {x : Except ε α} {f : α → Except ε β} {b : β} :
    x >>= f = .ok b ↔ ∃ a, x = .ok a ∧ f a = .ok b := by
  cases x with
  | error e => simp [bind, Except.bind]
  | ok a => simp [bind, Except.bind]

theorem Except.bind_eq_error_iff {ε α β : Type} {x : Except ε α} {f : α → Except ε β} {e : ε} :
    x >>= f = .error e ↔ x = .error e ∨ ∃ a, x = .ok a ∧ f a = .error e := by
  cases x with
  | error e' => simp [bind, Except.bind]
  | ok a => simp [bind, Except.bind]

theorem Except.map_eq_ok_iff {ε α β : Type} {x : Except ε α} {f : α → β} {b : β} :
    x.map f = .ok b ↔ ∃ a, x = .ok a ∧ f a = b := by
  cases x with
  | error e => simp [Except.map]
  | ok a => simp [Except.map]

theorem Except.map_eq_error_iff {ε α β : Type} {x : Except ε α} {f : α → β} {e : ε} :
    x.map f = .error e ↔ x = .error e := by
  cases x with
  | error e' => simp [Except.map]
  | ok a => simp [Except.map]

/-- A step that is taken for each member of a list in turn succeeds where it does for all of them. -/
theorem Except.each_eq_ok_iff {ε α β : Type} {f : α → Except ε β} {each : List α → Except ε (List β)}
    (nil : each [] = .ok []) (cons : ∀ a rest, each (a :: rest) = (do return (← f a) :: (← each rest)))
    {as : List α} {bs : List β} : each as = .ok bs ↔ List.Forall₂ (fun a b => f a = .ok b) as bs := by
  induction as generalizing bs with
  | nil => simp [nil, eq_comm]
  | cons a rest ih =>
    rw [cons, List.forall₂_cons_left_iff]
    simp only [Except.bind_eq_ok_iff, ih, pure, Except.pure, Except.ok.injEq]
    constructor
    · rintro ⟨b, given, bs, all, rfl⟩
      exact ⟨b, bs, given, all, rfl⟩
    · rintro ⟨b, bs, given, all, rfl⟩
      exact ⟨b, given, bs, all, rfl⟩

namespace Evaluation

variable {α β : Type} {x : Evaluation α} {f : α → Evaluation β} {a : α} {m m' : Machine}

theorem bind_ok (success : x m = .ok a m') : (x >>= f) m = f a m' := by
  change EStateM.bind x f m = _
  rw [EStateM.bind, success]

theorem get_bind (f : Machine → Evaluation β) (m : Machine) : (get >>= f) m = f m m :=
  rfl

theorem bind_error {stop : Stop} (failed : x m = .error stop m') :
    (x >>= f) m = .error stop m' := by
  change EStateM.bind x f m = _
  rw [EStateM.bind, failed]

end Evaluation

end Abacus
