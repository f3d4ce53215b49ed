import Lox.Proofs.Store.Extends

/-!
# What the values of a store are

Values are kept in scopes and in fields, and classes keep the numbers of methods. If all of them
have a property, then they have it after each operation with values that have it.
-/
namespace Lox
namespace Store

/-- All values that the store holds, and all methods of its classes, have a property. -/
structure Holds (valueOk : Value → Prop) (methodOk : FunctionId → Prop) (store : Store) : Prop where
  values : ∀ {s name v}, store.findLocal? s name = some v → valueOk v
  fields : ∀ {i name v}, store.field? i name = some v → valueOk v
  methods : ∀ {c name f}, store.ownMethod? c name = some f → methodOk f

/-- What was found along a chain was found in one of its places. -/
theorem firstAlong_some {α : Type} {link : Nat → Option Nat} {find? : Nat → Option α} {limit id : Nat}
    {x : α} (h : firstAlong link find? limit id = some x) : ∃ place, find? place = some x := by
  induction limit generalizing id with
  | zero => cases h
  | succ limit ih =>
    unfold firstAlong at h
    split at h
    · next y hy =>
      cases h
      exact ⟨id, hy⟩
    · split at h
      · exact ih h
      · cases h

theorem field?_setField (store : Store) (i : InstanceId) (name : String) (v : Value)
    (j : InstanceId) (other : String) :
    (store.setField i name v).field? j other =
      if j = i ∧ other = name ∧ j < store.instances.size then some v else store.field? j other := by
  unfold field? setField
  rw [Array.getElem?_modify]
  by_cases hj : i = j
  · subst hj
    rw [if_pos rfl]
    by_cases hlt : i < store.instances.size
    · rw [Array.getElem?_eq_getElem hlt]
      simp only [Option.map_some, Option.bind_some, hlt, and_true, true_and]
      exact Bindings.find?_insert _ _ _ _
    · rw [Array.getElem?_eq_none (Nat.le_of_not_lt hlt), if_neg fun h => hlt h.2.2]
      rfl
  · rw [if_neg hj, if_neg fun h => hj h.1.symm]

theorem field?_newInstance (store : Store) (c : ClassId) (i : InstanceId) (name : String) :
    (store.newInstance c).1.field? i name = store.field? i name := by
  have hinstance : (store.newInstance c).1.instances[i]? =
      if i = store.instances.size then some { classId := c } else store.instances[i]? :=
    Array.getElem?_push
  unfold field?
  rw [hinstance]
  split
  · next heq =>
    rw [heq, Array.getElem?_eq_none (Nat.le_refl _)]
    rfl
  · rfl

theorem getElem?_newClass (store : Store) (new : ClassObject) (c : ClassId) :
    (store.newClass new).1.classes[c]? =
      if c = store.classes.size then some new else store.classes[c]? :=
  Array.getElem?_push

namespace Holds
variable {valueOk valueOk' : Value → Prop} {methodOk methodOk' : FunctionId → Prop} {store : Store}

theorem imp (h : store.Holds valueOk methodOk) (hvalue : ∀ v, valueOk v → valueOk' v)
    (hmethod : ∀ f, methodOk f → methodOk' f) : store.Holds valueOk' methodOk' :=
  ⟨fun hv => hvalue _ (h.values hv), fun hv => hvalue _ (h.fields hv),
    fun hf => hmethod _ (h.methods hf)⟩

theorem lookup (h : store.Holds valueOk methodOk) {s : ScopeId} {name : String} {v : Value}
    (hv : store.lookup? s name = some v) : valueOk v := by
  obtain ⟨place, hplace⟩ := firstAlong_some hv
  exact h.values hplace

theorem findMethod (h : store.Holds valueOk methodOk) {c : ClassId} {name : String}
    {f : FunctionId} (hf : store.findMethod? c name = some f) : methodOk f := by
  obtain ⟨place, hplace⟩ := firstAlong_some hf
  exact h.methods hplace

theorem define (h : store.Holds valueOk methodOk) (scope : ScopeId) (name : String) {v : Value}
    (hv : valueOk v) : (store.define scope name v).Holds valueOk methodOk := by
  refine ⟨fun {s other u} hu => ?_, h.fields, h.methods⟩
  rw [findLocal?_define] at hu
  split at hu
  · cases hu
    exact hv
  · exact h.values hu

theorem newScope (h : store.Holds valueOk methodOk) {new : Scope}
    (hnew : ∀ {name v}, new.bindings.find? name = some v → valueOk v) :
    (store.newScope new).1.Holds valueOk methodOk := by
  refine ⟨fun {s name v} hv => ?_, h.fields, h.methods⟩
  rw [findLocal?_newScope] at hv
  split at hv
  · exact hnew hv
  · exact h.values hv

theorem withFunctions (h : store.Holds valueOk methodOk) (functions : Array FunctionObject) :
    Holds valueOk methodOk { store with functions } :=
  ⟨h.values, h.fields, h.methods⟩

theorem newClass (h : store.Holds valueOk methodOk) {new : ClassObject}
    (hnew : ∀ {name f}, new.methods.find? name = some f → methodOk f) :
    (store.newClass new).1.Holds valueOk methodOk := by
  refine ⟨h.values, h.fields, fun {c name f} hf => ?_⟩
  unfold ownMethod? at hf
  rw [getElem?_newClass] at hf
  split at hf
  · exact hnew hf
  · exact h.methods hf

theorem newInstance (h : store.Holds valueOk methodOk) (c : ClassId) :
    (store.newInstance c).1.Holds valueOk methodOk := by
  refine ⟨h.values, fun {i name v} hv => ?_, h.methods⟩
  rw [field?_newInstance] at hv
  exact h.fields hv

theorem setField (h : store.Holds valueOk methodOk) (i : InstanceId) (name : String) {v : Value}
    (hv : valueOk v) : (store.setField i name v).Holds valueOk methodOk := by
  refine ⟨h.values, fun {j other u} hu => ?_, h.methods⟩
  rw [field?_setField] at hu
  split at hu
  · cases hu
    exact hv
  · exact h.fields hu

end Holds
end Store
end Lox
