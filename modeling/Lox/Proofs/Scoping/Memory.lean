import Lox.Proofs.Scoping.Lexical
import Lox.Proofs.Store.Binds

/-!
# The memory behind scopes and locations

The values of local variables are kept twice: under their names in the scopes of a store, and in
cells at locations. Each location stands for one name in one scope, and every name that a local
scope binds has one; the cell has the value of the name. The bindings of the global scope are those
of the table of globals.
-/
namespace Lox.Evaluation

/-- A name in a scope. -/
structure Slot where
  scope : ScopeId
  name : String

/-- The cells and the table have the values that the scopes of the store have. -/
structure Memory (globals : ScopeId) (store : Store) (slots : Array Slot)
    (cells : Array (Option Value)) (table : Bindings Value) : Prop where
  size : cells.size = slots.size
  cell : ∀ {location : Location} {slot : Slot}, slots[location]? = some slot →
    cells[location]?.join = store.findLocal? slot.scope slot.name
  inner : ∀ {location : Location} {slot : Slot}, slots[location]? = some slot →
    slot.scope ≠ globals ∧ slot.scope < store.scopes.size
  distinct : ∀ {i j : Location} {slot}, slots[i]? = some slot → slots[j]? = some slot → i = j
  covered : ∀ {s name v}, store.findLocal? s name = some v →
    s = globals ∨ ∃ location : Location, slots[location]? = some ⟨s, name⟩
  global : ∀ name, store.findLocal? globals name = table.find? name
  known : globals < store.scopes.size
  outermost : store.enclosing? globals = none

namespace Memory
variable {globals scope : ScopeId} {store store' : Store} {slots : Array Slot}
  {cells : Array (Option Value)} {table : Bindings Value} {name : String} {location : Location}
  (h : Memory globals store slots cells table)
include h

theorem lookup?_globals (name : String) : store.lookup? globals name = table.find? name := by
  rw [← h.global name]
  exact Store.firstAlong_last (Nat.zero_lt_of_lt h.known) h.outermost

theorem holder?_globals (name : String) :
    store.holder? globals name = if table.contains name then some globals else none := by
  unfold Bindings.contains
  rw [← h.global name]
  exact Store.firstAlong_last (Nat.zero_lt_of_lt h.known) h.outermost

theorem of_scopes (hscopes : store'.scopes = store.scopes) :
    Memory globals store' slots cells table := by
  have hlocal (s : ScopeId) (name : String) : store'.findLocal? s name = store.findLocal? s name := by
    unfold Store.findLocal?
    rw [hscopes]
  constructor
  · exact h.size
  · intro location slot hslot
    rw [hlocal]
    exact h.cell hslot
  · rw [hscopes]
    exact h.inner
  · exact h.distinct
  · intro s name v hv
    rw [hlocal] at hv
    exact h.covered hv
  · intro name
    rw [hlocal]
    exact h.global name
  · rw [hscopes]
    exact h.known
  · unfold Store.enclosing?
    rw [hscopes]
    exact h.outermost

/-- A scope is added with no names. -/
theorem newScope (enclosing : Option ScopeId) :
    Memory globals (store.newScope { enclosing }).1 slots cells table := by
  have hknown := Nat.ne_of_lt h.known
  have hsize : (store.newScope { enclosing }).1.scopes.size = store.scopes.size + 1 :=
    Array.size_push ..
  constructor
  · exact h.size
  · intro location slot hslot
    rw [Store.findLocal?_newScope, if_neg (Nat.ne_of_lt (h.inner hslot).2)]
    exact h.cell hslot
  · intro location slot hslot
    obtain ⟨hinner, hlt⟩ := h.inner hslot
    rw [hsize]
    exact ⟨hinner, Nat.lt_succ_of_lt hlt⟩
  · exact h.distinct
  · intro s name v hv
    rw [Store.findLocal?_newScope] at hv
    split at hv
    · cases hv
    · exact h.covered hv
  · intro name
    rw [Store.findLocal?_newScope, if_neg hknown]
    exact h.global name
  · rw [hsize]
    exact Nat.lt_succ_of_lt h.known
  · rw [Store.enclosing?_newScope, if_neg hknown]
    exact h.outermost

/-- A name of a local scope that has no location has no value. -/
theorem findLocal?_eq_none (hscope : scope ≠ globals)
    (hfresh : ∀ location : Location, slots[location]? ≠ some ⟨scope, name⟩) :
    store.findLocal? scope name = none := by
  cases hv : store.findLocal? scope name with
  | none => rfl
  | some v =>
    rcases h.covered hv with hglobal | ⟨location, hslot⟩
    · exact absurd hglobal hscope
    · exact absurd hslot (hfresh location)

/-- A name of a local scope gets a location. -/
theorem extend {v? : Option Value} (hbinds : store.Binds store' scope name v?)
    (hscope : scope ≠ globals) (hlt : scope < store.scopes.size)
    (hfresh : ∀ location : Location, slots[location]? ≠ some ⟨scope, name⟩) :
    Memory globals store' (slots.push ⟨scope, name⟩) (cells.push v?) table := by
  have hold {location : Location} {slot : Slot} (hslot : slots[location]? = some slot) :
      ¬ (slot.scope = scope ∧ slot.name = name) := by
    rintro ⟨rfl, rfl⟩
    exact hfresh location hslot
  have hpush {location : Location} {slot : Slot}
      (hslot : (slots.push ⟨scope, name⟩)[location]? = some slot) :
      location = slots.size ∧ slot = ⟨scope, name⟩ ∨ slots[location]? = some slot := by
    rw [Array.getElem?_push] at hslot
    split at hslot
    · next heq =>
      cases hslot
      exact .inl ⟨heq, rfl⟩
    · exact .inr hslot
  constructor
  · rw [Array.size_push, Array.size_push, h.size]
  · intro location slot hslot
    rw [hbinds.findLocal, Array.getElem?_push, h.size]
    rcases hpush hslot with ⟨rfl, rfl⟩ | hslot
    · rw [if_pos rfl, if_pos ⟨rfl, rfl⟩]
      rfl
    · have hne := Nat.ne_of_lt (Array.getElem?_eq_some_iff.mp hslot).1
      rw [if_neg hne, if_neg (hold hslot)]
      exact h.cell hslot
  · intro location slot hslot
    rw [hbinds.size]
    rcases hpush hslot with ⟨-, rfl⟩ | hslot
    · exact ⟨hscope, hlt⟩
    · exact h.inner hslot
  · intro i j slot hi hj
    rcases hpush hi with ⟨rfl, rfl⟩ | hi
    · rcases hpush hj with ⟨rfl, -⟩ | hj
      · rfl
      · exact absurd hj (hfresh j)
    · rcases hpush hj with ⟨-, rfl⟩ | hj
      · exact absurd hi (hfresh i)
      · exact h.distinct hi hj
  · intro s other v hv
    rw [hbinds.findLocal] at hv
    split at hv
    · next hsame =>
      obtain ⟨rfl, rfl⟩ := hsame
      exact .inr ⟨slots.size, Array.getElem?_push_size⟩
    · rcases h.covered hv with hglobal | ⟨location, hslot⟩
      · exact .inl hglobal
      · exact .inr ⟨location, Store.Extends.getElem?_push hslot⟩
  · intro other
    rw [hbinds.findLocal, if_neg fun hsame => hscope hsame.1.symm]
    exact h.global other
  · rw [hbinds.size]
    exact h.known
  · rw [hbinds.enclosing]
    exact h.outermost

/-- The variable at a location gets another value. -/
theorem write {v : Value} (hslot : slots[location]? = some ⟨scope, name⟩)
    (hbinds : store.Binds store' scope name (some v)) :
    Memory globals store' slots (cells.setIfInBounds location (some v)) table := by
  have hscope : scope ≠ globals := (h.inner hslot).1
  constructor
  · rw [Array.size_setIfInBounds]
    exact h.size
  · intro other slot hother
    rw [hbinds.findLocal]
    by_cases hsame : location = other
    · subst hsame
      obtain rfl := Option.some.inj (hslot.symm.trans hother)
      have hlt := (Array.getElem?_eq_some_iff.mp hslot).1
      rw [← h.size] at hlt
      rw [if_pos ⟨rfl, rfl⟩, Array.getElem?_setIfInBounds_self_of_lt hlt]
      rfl
    · rw [Array.getElem?_setIfInBounds_ne hsame, if_neg]
      · exact h.cell hother
      · rintro ⟨rfl, rfl⟩
        exact hsame (h.distinct hslot hother)
  · intro other slot hother
    rw [hbinds.size]
    exact h.inner hother
  · exact h.distinct
  · intro s other u hu
    rw [hbinds.findLocal] at hu
    split at hu
    · next hsame =>
      obtain ⟨rfl, rfl⟩ := hsame
      exact .inr ⟨location, hslot⟩
    · exact h.covered hu
  · intro other
    rw [hbinds.findLocal, if_neg fun hsame => hscope hsame.1.symm]
    exact h.global other
  · rw [hbinds.size]
    exact h.known
  · rw [hbinds.enclosing]
    exact h.outermost

/-- A global variable gets a value. -/
theorem writeGlobal {v : Value} (hbinds : store.Binds store' globals name (some v)) :
    Memory globals store' slots cells (table.insert name v) := by
  constructor
  · exact h.size
  · intro location slot hslot
    rw [hbinds.findLocal, if_neg fun hsame => (h.inner hslot).1 hsame.1]
    exact h.cell hslot
  · intro location slot hslot
    rw [hbinds.size]
    exact h.inner hslot
  · exact h.distinct
  · intro s other u hu
    rw [hbinds.findLocal] at hu
    split at hu
    · next hsame => exact .inl hsame.1
    · exact h.covered hu
  · intro other
    rw [hbinds.findLocal, Bindings.find?_insert]
    simp only [true_and]
    split
    · rfl
    · exact h.global other
  · rw [hbinds.size]
    exact h.known
  · rw [hbinds.enclosing]
    exact h.outermost

end Memory
end Lox.Evaluation
