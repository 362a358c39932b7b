import Abacus.Number.Basic

/-!
The stack of values of an evaluation.

Places of the stack are used again: a place that was left keeps its last value, and with it its
precision, until the stack grows over it again. A value that is stored in a place takes the
precision of the place, if that has one.
-/

namespace Abacus

/-- `live` holds the values in use, the top first, and `spare` the places above it, the next one first. -/
structure Stack where
  live : List Number
  spare : List Number
deriving DecidableEq

namespace Stack

def empty : Stack :=
  { live := [], spare := [] }

/-- Puts the next place into use; `fresh` is the value of a new one. -/
def push (fresh : Number) (s : Stack) : Stack :=
  match s.spare with
  | [] => { live := fresh :: s.live, spare := [] }
  | place :: spare => { live := place :: s.live, spare }

/-- Takes the `n` places at the top out of use. -/
def drop (n : Nat) (s : Stack) : Stack :=
  { live := s.live.drop n, spare := (s.live.take n).reverse ++ s.spare }

/-- Takes all places out of use. -/
def clear (s : Stack) : Stack :=
  s.drop s.live.length

/-- Puts a value in the place of the top, just as it is. -/
def replace (x : Number) (s : Stack) : Stack :=
  { s with live := x :: s.live.tail }

/-- Stores a value in the top place, at the precision of the place. -/
def store (x : Number) (s : Stack) : Stack :=
  match s.live with
  | [] => s
  | place :: _ => s.replace (x.atPrec place.prec)

/-- The value on top is the one that was stored, at the precision of its place. -/
theorem live_store (x place : Number) (below spare : List Number) :
    (store x { live := place :: below, spare }).live = x.atPrec place.prec :: below :=
  rfl

@[simp] theorem live_push_tail (fresh : Number) (s : Stack) : (s.push fresh).live.tail = s.live := by
  unfold push
  split <;> rfl

@[simp] theorem live_clear (s : Stack) : s.clear.live = [] := by
  simp [clear, drop]

/-- Giving places back and clearing the stack loses none of them. -/
theorem places_drop (n : Nat) (s : Stack) :
    (s.drop n).live.reverse ++ (s.drop n).spare = s.live.reverse ++ s.spare := by
  rw [drop, ← List.append_assoc, ← List.reverse_append, List.take_append_drop]

end Stack

end Abacus
