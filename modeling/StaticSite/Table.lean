import StaticSite.Text

/-!
# Tables

A table maps names to values. Its entries stand in ascending order of names, and a name occurs once.
-/
namespace StaticSite

abbrev Table (α : Type) := List (Text × α)

namespace Table

/-- Gives a name a value, at its place or instead of the value that it has. -/
def insert (name : Text) (value : α) : Table α → Table α
  | [] => [(name, value)]
  | (n, v) :: rest =>
    if n = name then (name, value) :: rest
    else if Text.before name n then (name, value) :: (n, v) :: rest
    else (n, v) :: insert name value rest

/-- The table of some entries, of which the last with a name counts. -/
def ofEntries (entries : List (Text × α)) : Table α :=
  entries.foldl (fun table (name, value) => insert name value table) []

def get? (name : Text) (table : Table α) : Option α := table.lookup name

def contains (name : Text) (table : Table α) : Bool := (table.get? name).isSome

def names (table : Table α) : List Text := table.map (·.1)

def mapValues (f : α → β) (table : Table α) : Table β := table.map fun (name, value) => (name, f value)

theorem get?_insert_self (name : Text) (value : α) (table : Table α) :
    get? name (insert name value table) = some value := by
  induction table with
  | nil => simp [insert, get?]
  | cons entry rest ih =>
    obtain ⟨n, v⟩ := entry
    rw [insert]
    split
    · simp [get?]
    · split
      · simp [get?]
      · rename_i h _
        have h' : (name == n) = false := by simpa using fun e => h e.symm
        simpa [get?, List.lookup_cons, h'] using ih

theorem get?_insert_of_ne {name other : Text} (h : other ≠ name) (value : α) (table : Table α) :
    get? other (insert name value table) = get? other table := by
  have ho : (other == name) = false := by simpa using h
  induction table with
  | nil => simp [insert, get?, h]
  | cons entry rest ih =>
    obtain ⟨n, v⟩ := entry
    rw [insert]
    split
    · rename_i e
      simp [get?, List.lookup_cons, e, ho]
    · split
      · simp [get?, List.lookup_cons, ho]
      · simp only [get?, List.lookup_cons] at ih ⊢
        split <;> simp_all

end Table

end StaticSite
