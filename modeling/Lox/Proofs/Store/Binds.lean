import Lox.Proofs.Store.Holds

/-!
# One name in one scope

Most steps that change the scopes of a store change what one name is bound to in one of them, in
place or by making the scope anew with one more name. What follows from such a step does not depend
on how it was done.
-/
namespace Lox
namespace Store

/-- The stores differ in one name of one scope only, which `b` binds to `v?`. -/
structure Binds (a b : Store) (scope : ScopeId) (name : String) (v? : Option Value) : Prop where
  size : b.scopes.size = a.scopes.size
  enclosing : ∀ s, b.enclosing? s = a.enclosing? s
  findLocal : ∀ s other, b.findLocal? s other =
    if s = scope ∧ other = name then v? else a.findLocal? s other
  functions : b.functions = a.functions
  classes : b.classes = a.classes
  instances : b.instances = a.instances

variable {a b : Store} {scope : ScopeId} {name : String} {v? : Option Value}

theorem Binds.extends (h : a.Binds b scope name v?) : a.Extends b := by
  refine .of_enclosing (Nat.le_of_eq h.size.symm) ?_ h.functions h.classes h.instances
  intro s outer hs
  rw [h.enclosing]
  exact hs

theorem Binds.holds (h : a.Binds b scope name v?) {valueOk : Value → Prop}
    {methodOk : FunctionId → Prop} (ha : a.Holds valueOk methodOk) (hv : ∀ v ∈ v?, valueOk v) :
    b.Holds valueOk methodOk := by
  constructor
  · intro s other v hs
    rw [h.findLocal] at hs
    split at hs
    · exact hv v hs
    · exact ha.values hs
  · intro i other v hi
    unfold field? at hi
    rw [h.instances] at hi
    exact ha.fields hi
  · intro c other f hc
    unfold ownMethod? at hc
    rw [h.classes] at hc
    exact ha.methods hc

theorem binds_define (store : Store) {scope : ScopeId} (hscope : scope < store.scopes.size)
    (name : String) (v : Value) :
    store.Binds (store.define scope name v) scope name (some v) := by
  constructor
  · exact Array.size_modify ..
  · exact store.enclosing?_define scope name v
  · intro s other
    rw [findLocal?_define]
    by_cases hsame : s = scope ∧ other = name
    · rw [if_pos hsame, if_pos ⟨hsame.1, hsame.2, hsame.1 ▸ hscope⟩]
    · rw [if_neg hsame, if_neg fun h => hsame ⟨h.1, h.2.1⟩]
  · rfl
  · rfl
  · rfl

/-- Nothing is done for a name without a value. -/
theorem binds_none (h : a.findLocal? scope name = none) : a.Binds a scope name none := by
  refine ⟨rfl, fun _ => rfl, fun s other => ?_, rfl, rfl, rfl⟩
  split
  · next hsame => rw [hsame.1, hsame.2, h]
  · rfl

/-- The scope that was added last has one name more. -/
theorem binds_newScope (store : Store) (enclosing : Option ScopeId) {old new : Bindings Value}
    {name : String} {v? : Option Value}
    (h : ∀ other, new.find? other = if other = name then v? else old.find? other) :
    (store.newScope ⟨old, enclosing⟩).1.Binds (store.newScope ⟨new, enclosing⟩).1
      store.scopes.size name v? := by
  constructor
  · exact (Array.size_push ..).trans (Array.size_push ..).symm
  · intro s
    rw [enclosing?_newScope, enclosing?_newScope]
  · intro s other
    rw [findLocal?_newScope, findLocal?_newScope, h]
    by_cases hs : s = store.scopes.size
    · rw [if_pos hs, if_pos hs]
      simp only [hs, true_and]
    · rw [if_neg hs, if_neg hs, if_neg fun hsame => hs hsame.1]
  · rfl
  · rfl
  · rfl

end Store
end Lox
