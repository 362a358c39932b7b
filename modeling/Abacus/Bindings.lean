/-!
Bindings of names to things: finite maps with the names in no particular order.
-/

namespace Abacus

/-- No name has two entries. -/
structure Bindings (α : Type) where
  entries : List (String × α)
  distinct : (entries.map (·.1)).Nodup
deriving DecidableEq

namespace Bindings

variable {α : Type}

def empty : Bindings α :=
  { entries := [], distinct := List.nodup_nil }

def find? (b : Bindings α) (name : String) : Option α :=
  b.entries.lookup name

theorem nodup_insert (b : Bindings α) (name : String) (value : α) :
    (((name, value) :: b.entries.filter (·.1 ≠ name)).map (·.1)).Nodup := by
  rw [List.map_cons, List.nodup_cons]
  refine ⟨fun inside => ?_, b.distinct.sublist (List.filter_sublist.map _)⟩
  obtain ⟨entry, kept, same⟩ := List.mem_map.mp inside
  simp [same] at kept

/-- Binds the name, in place of what it was bound to before. -/
def insert (b : Bindings α) (name : String) (value : α) : Bindings α :=
  { entries := (name, value) :: b.entries.filter (·.1 ≠ name), distinct := b.nodup_insert name value }

/-- Inserts the entries in order, so that of two for one name the later one counts. -/
def insertAll (b : Bindings α) (entries : List (String × α)) : Bindings α :=
  entries.foldl (fun b (name, value) => b.insert name value) b

/-- The bindings `newer`, and those of `b` for other names. -/
def overriddenBy (b newer : Bindings α) : Bindings α :=
  b.insertAll newer.entries

theorem nodup_map (f : α → α) (b : Bindings α) :
    ((b.entries.map fun (name, value) => (name, f value)).map (·.1)).Nodup := by
  rw [List.map_map]
  exact b.distinct

def map (f : α → α) (b : Bindings α) : Bindings α :=
  { entries := b.entries.map fun (name, value) => (name, f value), distinct := b.nodup_map f }

@[simp] theorem find?_empty (name : String) : (empty : Bindings α).find? name = none :=
  rfl

private theorem lookup_filter_ne (entries : List (String × α)) (name other : String)
    (h : other ≠ name) : (entries.filter (·.1 ≠ name)).lookup other = entries.lookup other := by
  induction entries with
  | nil => rfl
  | cons entry rest ih =>
    obtain ⟨key, value⟩ := entry
    by_cases hk : key = name
    · have : (other == name) = false := by simpa using h
      simpa [List.filter_cons, List.lookup_cons, hk, this] using ih
    · simp only [List.filter_cons, hk, ne_eq, not_false_eq_true, decide_true, if_true,
        List.lookup_cons]
      rw [ih]

@[simp] theorem find?_insert_self (b : Bindings α) (name : String) (value : α) :
    (b.insert name value).find? name = some value := by
  simp [find?, insert]

theorem find?_insert_of_ne (b : Bindings α) {name other : String} (value : α) (h : other ≠ name) :
    (b.insert name value).find? other = b.find? other := by
  have : (other == name) = false := by simpa using h
  simp only [find?, insert, List.lookup_cons, this]
  exact lookup_filter_ne b.entries name other h

end Bindings

end Abacus
