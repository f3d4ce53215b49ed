/-!
# Named bindings

A finite map from names to values, kept as a list of pairs of which the first of each name counts.
Scopes, the fields of an instance, the methods of a class and the scopes of the static pass are all
of this type; the operations are described by `find?` alone.
-/
namespace Lox

/-- A finite map from names to values of type `α`. -/
structure Bindings (α : Type) where
  entries : List (String × α) := []
  deriving Inhabited, Repr

namespace Bindings
variable {α : Type}

def empty : Bindings α := {}

/-- The value of the first pair named `name`. -/
def findEntry? (name : String) : List (String × α) → Option α
  | [] => none
  | (n, v) :: rest => if name == n then some v else findEntry? name rest

/-- The value bound to `name`. -/
def find? (b : Bindings α) (name : String) : Option α := findEntry? name b.entries

def contains (b : Bindings α) (name : String) : Bool := (b.find? name).isSome

/-- The names of the pairs, in order. -/
def names (b : Bindings α) : List String := b.entries.map Prod.fst

/-- Replaces the value of the first pair named `name`, or adds a pair at the end. -/
def insertEntry (name : String) (value : α) : List (String × α) → List (String × α)
  | [] => [(name, value)]
  | (n, v) :: rest =>
    if name == n then (n, value) :: rest else (n, v) :: insertEntry name value rest

/-- Binds `name` to `value`, in place of what it was bound to. -/
def insert (b : Bindings α) (name : String) (value : α) : Bindings α :=
  ⟨insertEntry name value b.entries⟩

/-- Binds `name` to `value` in front of what it was bound to, without a search for that. -/
def shadow (b : Bindings α) (name : String) (value : α) : Bindings α :=
  ⟨(name, value) :: b.entries⟩

@[simp] theorem find?_empty (name : String) : (empty : Bindings α).find? name = none := rfl

theorem find?_shadow (b : Bindings α) (name other : String) (value : α) :
    (b.shadow name value).find? other = if other = name then some value else b.find? other := by
  simp only [find?, shadow, findEntry?, beq_iff_eq]

@[simp] theorem find?_insert_self (b : Bindings α) (name : String) (value : α) :
    (b.insert name value).find? name = some value := by
  obtain ⟨entries⟩ := b
  simp only [find?, insert]
  induction entries with
  | nil => simp [insertEntry, findEntry?]
  | cons entry rest ih =>
    obtain ⟨n, v⟩ := entry
    by_cases h : name = n
    · simp [insertEntry, findEntry?, h]
    · simp [insertEntry, findEntry?, h, ih]

@[simp] theorem find?_insert_of_ne (b : Bindings α) {name other : String} (value : α)
    (h : other ≠ name) : (b.insert name value).find? other = b.find? other := by
  obtain ⟨entries⟩ := b
  simp only [find?, insert]
  induction entries with
  | nil => simp [insertEntry, findEntry?, h]
  | cons entry rest ih =>
    obtain ⟨n, v⟩ := entry
    by_cases hn : name = n
    · subst hn
      simp [insertEntry, findEntry?, h]
    · simp [insertEntry, hn, findEntry?, ih]

theorem find?_insert (b : Bindings α) (name other : String) (value : α) :
    (b.insert name value).find? other = if other = name then some value else b.find? other := by
  split
  · next h => rw [h, find?_insert_self]
  · next h => rw [find?_insert_of_ne b value h]

end Bindings
end Lox
