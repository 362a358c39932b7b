import Abacus.Bindings
import Mathlib

/-!
Bindings by what they find: the order of their entries never shows.
-/

namespace Abacus.Bindings

variable {α : Type} {b newer : Bindings α} {P : String → α → Prop} {name : String}

/-- What holds of every binding that can be found. -/
def All (P : String → α → Prop) (b : Bindings α) : Prop :=
  ∀ name x, b.find? name = some x → P name x

theorem find?_insert (b : Bindings α) (name other : String) (x : α) :
    (b.insert name x).find? other = if other = name then some x else b.find? other := by
  by_cases same : other = name
  · rw [if_pos same, same, find?_insert_self]
  · rw [if_neg same, find?_insert_of_ne b x same]

theorem lookup_map (f : α → α) (entries : List (String × α)) (name : String) :
    (entries.map fun (key, x) => (key, f x)).lookup name = (entries.lookup name).map f := by
  induction entries with
  | nil => rfl
  | cons entry rest ih =>
    obtain ⟨key, x⟩ := entry
    by_cases same : name = key
    · simp [same]
    · have test : (name == key) = false := beq_eq_false_iff_ne.mpr same
      simp only [List.map_cons, List.lookup_cons, test, ih]

theorem find?_map (f : α → α) (b : Bindings α) (name : String) :
    (b.map f).find? name = (b.find? name).map f :=
  lookup_map f b.entries name

theorem lookup_eq_none {entries : List (String × α)} (absent : name ∉ entries.map (·.1)) :
    entries.lookup name = none := by
  rw [List.lookup_eq_none_iff]
  intro entry inside
  rw [bne_iff_ne]
  rintro rfl
  exact absent (List.mem_map_of_mem inside)

/-- Of two entries for one name the later one is found. -/
theorem find?_insertAll_last (b : Bindings α) (entries : List (String × α)) (name : String) :
    (b.insertAll entries).find? name = (entries.reverse.lookup name).or (b.find? name) := by
  induction entries generalizing b with
  | nil => rfl
  | cons entry rest ih =>
    obtain ⟨key, x⟩ := entry
    change ((b.insert key x).insertAll rest).find? name = _
    rw [ih, find?_insert, List.reverse_cons, List.lookup_append, Option.or_assoc]
    by_cases same : name = key
    · simp [same]
    · have test : (name == key) = false := beq_eq_false_iff_ne.mpr same
      simp [same, List.lookup_cons, test]

theorem find?_insertAll (b : Bindings α) (entries : List (String × α))
    (distinct : (entries.map (·.1)).Nodup) (name : String) :
    (b.insertAll entries).find? name = (entries.lookup name).or (b.find? name) := by
  induction entries generalizing b with
  | nil => rfl
  | cons entry rest ih =>
    obtain ⟨key, x⟩ := entry
    obtain ⟨absent, rest_distinct⟩ := List.nodup_cons.mp distinct
    change ((b.insert key x).insertAll rest).find? name = _
    rw [ih (b.insert key x) rest_distinct, find?_insert]
    by_cases same : name = key
    · rw [same, lookup_eq_none absent]
      simp
    · have test : (name == key) = false := beq_eq_false_iff_ne.mpr same
      rw [if_neg same, List.lookup_cons, test]

/-- Of two bindings of a name the newer one is found. -/
theorem find?_overriddenBy (b newer : Bindings α) (name : String) :
    (b.overriddenBy newer).find? name = (newer.find? name).or (b.find? name) :=
  find?_insertAll b newer.entries newer.distinct name

theorem all_empty : (empty : Bindings α).All P :=
  nofun

theorem All.insert (all : b.All P) {x : α} (holds : P name x) : (b.insert name x).All P := by
  intro other y found
  rw [find?_insert] at found
  by_cases same : other = name
  · rw [if_pos same] at found
    cases found
    exact same ▸ holds
  · rw [if_neg same] at found
    exact all other y found

theorem All.insertAll (all : b.All P) {entries : List (String × α)}
    (hold : ∀ entry ∈ entries, P entry.1 entry.2) : (b.insertAll entries).All P := by
  induction entries generalizing b with
  | nil => exact all
  | cons entry rest ih =>
    exact ih (all.insert (hold entry (List.mem_cons_self ..)))
      fun other inside => hold other (List.mem_cons_of_mem _ inside)

theorem All.overriddenBy (all : b.All P) (newer_all : newer.All P) : (b.overriddenBy newer).All P := by
  intro name x found
  rw [find?_overriddenBy] at found
  cases newly : newer.find? name with
  | none =>
    rw [newly, Option.none_or] at found
    exact all name x found
  | some y =>
    rw [newly, Option.some_or] at found
    cases found
    exact newer_all name _ newly

theorem All.map {Q : String → α → Prop} {f : α → α} (all : b.All P)
    (maps : ∀ name x, P name x → Q name (f x)) : (b.map f).All Q := by
  intro name x found
  rw [find?_map] at found
  obtain ⟨y, was_found, rfl⟩ := Option.map_eq_some_iff.mp found
  exact maps name y (all name y was_found)

end Abacus.Bindings
