/-!
# The distance table

For each reference to a local variable, the number of scopes between the reference and the scope
that declares the name. A reference without a distance is one to a global variable.
-/
namespace Lox

/-- Distances by the number of the reference. -/
structure Distances where
  entries : Array (Option Nat) := #[]
  deriving Inhabited, Repr

namespace Distances

def empty : Distances := {}

/-- The recorded distance of a reference. -/
def find? (table : Distances) (id : Nat) : Option Nat := table.entries[id]?.join

/-- Lengthens an array to `size` entries by adding absent ones. -/
def padTo (entries : Array (Option Nat)) (size : Nat) : Array (Option Nat) :=
  entries ++ Array.replicate (size - entries.size) none

/-- Records the distance of a reference. -/
def record (table : Distances) (id : Nat) (distance : Nat) : Distances :=
  ⟨(padTo table.entries (id + 1)).setIfInBounds id (some distance)⟩

theorem getElem?_padTo_join (entries : Array (Option Nat)) (size id : Nat) :
    (padTo entries size)[id]?.join = entries[id]?.join := by
  by_cases h : id < entries.size
  · simp [padTo, Array.getElem?_append_left h]
  · have hle : entries.size ≤ id := Nat.le_of_not_lt h
    rw [padTo, Array.getElem?_append_right hle, Array.getElem?_eq_none hle,
      Array.getElem?_replicate]
    split <;> rfl

@[simp] theorem find?_empty (id : Nat) : empty.find? id = none := rfl

@[simp] theorem find?_record_self (table : Distances) (id : Nat) (distance : Nat) :
    (table.record id distance).find? id = some distance := by
  have h : id < (padTo table.entries (id + 1)).size := by
    simp only [padTo, Array.size_append, Array.size_replicate]
    omega
  simp [find?, record, h]

@[simp] theorem find?_record_of_ne (table : Distances) {id other : Nat} (distance : Nat)
    (h : other ≠ id) : (table.record id distance).find? other = table.find? other := by
  simp [find?, record, Ne.symm h, getElem?_padTo_join]

end Distances
end Lox
