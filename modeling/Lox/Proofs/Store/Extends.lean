import Lox.Store

/-!
# Stores that grow

A store extends another if it has all its objects, with the same links between them. Every
operation of the store extends it. What the operations do to the names of a scope and to the chain
of scopes is stated with them.
-/
namespace Lox
namespace Store
variable {a b c store : Store} {s outer : ScopeId} {d : Nat}

theorem ancestor?_succ (store : Store) (d : Nat) (s : ScopeId) :
    store.ancestor? (d + 1) s = (store.enclosing? s).bind (store.ancestor? d) := by
  rw [ancestor?]
  cases store.enclosing? s with
  | none => rfl
  | some outer => rfl

/-- Each scope on the way to an outer one is there. -/
theorem ancestor?_of_le {n : Nat} (h : store.ancestor? n s = some outer) (hd : d ≤ n) :
    ∃ between, store.ancestor? d s = some between ∧
      store.ancestor? (n - d) between = some outer := by
  induction d generalizing n s with
  | zero => exact ⟨s, rfl, h⟩
  | succ d ih =>
    obtain ⟨n, rfl⟩ : ∃ m, n = m + 1 := ⟨n - 1, by omega⟩
    rw [ancestor?_succ, Option.bind_eq_some_iff] at h
    obtain ⟨next, hnext, hrest⟩ := h
    obtain ⟨between, hbetween, houter⟩ := ih hrest (by omega)
    refine ⟨between, ?_, ?_⟩
    · rw [ancestor?_succ, hnext]
      exact hbetween
    · rw [Nat.add_sub_add_right]
      exact houter

theorem ancestor?_isSome {n : Nat} (h : store.ancestor? n s = some outer) (hd : d ≤ n) :
    ∃ between, store.ancestor? d s = some between := by
  obtain ⟨between, hbetween, -⟩ := ancestor?_of_le h hd
  exact ⟨between, hbetween⟩

theorem enclosing?_define (store : Store) (scope : ScopeId) (name : String) (value : Value)
    (s : ScopeId) : (store.define scope name value).enclosing? s = store.enclosing? s := by
  unfold enclosing? define
  rw [Array.getElem?_modify]
  split
  · cases store.scopes[s]? with
    | none => rfl
    | some o => rfl
  · rfl

theorem findLocal?_define (store : Store) (scope : ScopeId) (name : String) (value : Value)
    (s : ScopeId) (other : String) :
    (store.define scope name value).findLocal? s other =
      if s = scope ∧ other = name ∧ s < store.scopes.size then some value
      else store.findLocal? s other := by
  unfold findLocal? define
  rw [Array.getElem?_modify]
  by_cases hs : scope = s
  · subst hs
    rw [if_pos rfl]
    by_cases hlt : scope < store.scopes.size
    · rw [Array.getElem?_eq_getElem hlt]
      simp only [Option.map_some, Option.bind_some, hlt, and_true, true_and]
      exact Bindings.find?_insert _ _ _ _
    · rw [Array.getElem?_eq_none (Nat.le_of_not_lt hlt), if_neg fun h => hlt h.2.2]
      rfl
  · rw [if_neg hs, if_neg fun h => hs h.1.symm]

theorem findLocal?_define_of_ne (store : Store) (scope : ScopeId) {name other : String}
    (value : Value) (s : ScopeId) (h : other ≠ name) :
    (store.define scope name value).findLocal? s other = store.findLocal? s other := by
  rw [findLocal?_define, if_neg fun hsame => h hsame.2.1]

theorem getElem?_newScope (store : Store) (scope : Scope) (s : ScopeId) :
    (store.newScope scope).1.scopes[s]? =
      if s = store.scopes.size then some scope else store.scopes[s]? :=
  Array.getElem?_push

theorem enclosing?_newScope (store : Store) (scope : Scope) (s : ScopeId) :
    (store.newScope scope).1.enclosing? s =
      if s = store.scopes.size then scope.enclosing else store.enclosing? s := by
  unfold enclosing?
  rw [getElem?_newScope]
  split <;> rfl

theorem findLocal?_newScope (store : Store) (scope : Scope) (s : ScopeId) (name : String) :
    (store.newScope scope).1.findLocal? s name =
      if s = store.scopes.size then scope.bindings.find? name else store.findLocal? s name := by
  unfold findLocal?
  rw [getElem?_newScope]
  split <;> rfl

/-- In the scope that a bound method closes over, `this` is its receiver. -/
theorem findLocal?_bindMethod (store : Store) (function : FunctionObject) (receiver : InstanceId) :
    (store.bindMethod function receiver).1.findLocal? store.scopes.size "this" =
      some (.instanceRef receiver) := by
  change (store.newScope _).1.findLocal? store.scopes.size "this" = _
  rw [findLocal?_newScope, if_pos rfl]
  exact Bindings.find?_insert_self _ _ _

/-- Apart from that scope a bound method is the method. -/
theorem getElem?_bindMethod (store : Store) (function : FunctionObject) (receiver : InstanceId) :
    (store.bindMethod function receiver).1.functions[store.functions.size]? =
      some { function with closure := store.scopes.size } :=
  Array.getElem?_push_size

theorem lt_of_enclosing? (h : store.enclosing? s = some outer) : s < store.scopes.size := by
  obtain ⟨o, ho, -⟩ := Option.bind_eq_some_iff.mp h
  exact (Array.getElem?_eq_some_iff.mp ho).1

theorem lt_of_findLocal? {name : String} {v : Value} (h : store.findLocal? s name = some v) :
    s < store.scopes.size := by
  obtain ⟨o, ho, -⟩ := Option.bind_eq_some_iff.mp h
  exact (Array.getElem?_eq_some_iff.mp ho).1

/-- Where a chain ends, only its last place is left to look at. -/
theorem firstAlong_last {α : Type} {link : Nat → Option Nat} {find? : Nat → Option α}
    {limit id : Nat} (hlimit : 0 < limit) (hlast : link id = none) :
    firstAlong link find? limit id = find? id := by
  obtain ⟨limit, rfl⟩ := Nat.exists_eq_add_of_lt hlimit
  unfold firstAlong
  split
  · next heq => exact heq.symm
  · next heq => rw [hlast, heq]

/-- In a scope with none around it only its own bindings are found. -/
theorem holder?_outermost (hs : s < store.scopes.size) (hlast : store.enclosing? s = none)
    (name : String) :
    store.holder? s name = if (store.findLocal? s name).isSome then some s else none :=
  firstAlong_last (Nat.zero_lt_of_lt hs) hlast

/-- A scope that binds a name is the nearest one to itself. -/
theorem holder?_of_findLocal? {name : String} {v : Value} (h : store.findLocal? s name = some v) :
    store.holder? s name = some s := by
  obtain ⟨limit, hlimit⟩ := Nat.exists_eq_add_of_lt (Nat.zero_lt_of_lt (lt_of_findLocal? h))
  unfold holder?
  rw [hlimit]
  unfold firstAlong
  rw [h]
  rfl

theorem lookup?_of_findLocal? {name : String} {v : Value} (h : store.findLocal? s name = some v) :
    store.lookup? s name = some v := by
  obtain ⟨limit, hlimit⟩ := Nat.exists_eq_add_of_lt (Nat.zero_lt_of_lt (lt_of_findLocal? h))
  unfold lookup?
  rw [hlimit]
  unfold firstAlong
  rw [h]

/-- All objects are there, with the same links. -/
structure Extends (a b : Store) : Prop where
  scopes : a.scopes.size ≤ b.scopes.size
  enclosing : ∀ {s outer}, a.enclosing? s = some outer → b.enclosing? s = some outer
  functions : ∀ {f : FunctionId} {o}, a.functions[f]? = some o → b.functions[f]? = some o
  classes : ∀ {c : ClassId} {o}, a.classes[c]? = some o → b.classes[c]? = some o
  instances : ∀ {i : InstanceId} {c : ClassId}, a.instances[i]?.map (·.classId) = some c →
    b.instances[i]?.map (·.classId) = some c

namespace Extends

theorem refl (a : Store) : a.Extends a := ⟨Nat.le_refl _, id, id, id, id⟩

theorem trans (h : a.Extends b) (h' : b.Extends c) : a.Extends c := by
  constructor
  · exact Nat.le_trans h.scopes h'.scopes
  · exact fun hs => h'.enclosing (h.enclosing hs)
  · exact fun hf => h'.functions (h.functions hf)
  · exact fun hc => h'.classes (h.classes hc)
  · exact fun hi => h'.instances (h.instances hi)

theorem instances_lt (h : a.Extends b) {i : InstanceId} (hi : i < a.instances.size) :
    i < b.instances.size := by
  have hclass := h.instances (i := i) (c := a.instances[i].classId) (by simp [hi])
  obtain ⟨o, ho, -⟩ := Option.map_eq_some_iff.mp hclass
  exact (Array.getElem?_eq_some_iff.mp ho).1

theorem ownMethod? (h : a.Extends b) {c : ClassId} {name : String} {f : FunctionId}
    (hf : a.ownMethod? c name = some f) : b.ownMethod? c name = some f := by
  obtain ⟨object, hobject, hown⟩ := Option.bind_eq_some_iff.mp hf
  exact Option.bind_eq_some_iff.mpr ⟨object, h.classes hobject, hown⟩

theorem ancestor? (h : a.Extends b) (hs : a.ancestor? d s = some outer) :
    b.ancestor? d s = some outer := by
  induction d generalizing s with
  | zero => exact hs
  | succ d ih =>
    rw [ancestor?_succ, Option.bind_eq_some_iff] at hs ⊢
    obtain ⟨next, hnext, hrest⟩ := hs
    exact ⟨next, h.enclosing hnext, ih hrest⟩

/-- A store whose other objects are the same and whose scopes have the same links. -/
theorem of_enclosing (hsize : a.scopes.size ≤ b.scopes.size)
    (henclosing : ∀ {s outer}, a.enclosing? s = some outer → b.enclosing? s = some outer)
    (hfunctions : b.functions = a.functions) (hclasses : b.classes = a.classes)
    (hinstances : b.instances = a.instances) : a.Extends b := by
  constructor
  · exact hsize
  · exact henclosing
  · rw [hfunctions]
    exact id
  · rw [hclasses]
    exact id
  · rw [hinstances]
    exact id

theorem define (store : Store) (scope : ScopeId) (name : String) (value : Value) :
    store.Extends (store.define scope name value) := by
  refine of_enclosing ?_ ?_ rfl rfl rfl
  · exact Nat.le_of_eq (Array.size_modify ..).symm
  · intro s outer hs
    rw [enclosing?_define]
    exact hs

theorem newScope (store : Store) (scope : Scope) : store.Extends (store.newScope scope).1 := by
  refine of_enclosing ?_ ?_ rfl rfl rfl
  · exact Nat.le_trans (Nat.le_succ _) (Nat.le_of_eq (Array.size_push ..).symm)
  · intro s outer hs
    have hlt := lt_of_enclosing? hs
    rw [enclosing?_newScope, if_neg (Nat.ne_of_lt hlt)]
    exact hs

theorem getElem?_push {α : Type} {objects : Array α} {new o : α} {i : Nat}
    (h : objects[i]? = some o) : (objects.push new)[i]? = some o := by
  have hlt := (Array.getElem?_eq_some_iff.mp h).1
  rw [Array.getElem?_push_lt hlt, ← Array.getElem?_eq_getElem hlt]
  exact h

theorem getElem?_append {α : Type} {objects new : Array α} {o : α} {i : Nat}
    (h : objects[i]? = some o) : (objects ++ new)[i]? = some o := by
  rw [Array.getElem?_append_left (Array.getElem?_eq_some_iff.mp h).1]
  exact h

theorem addFunctions (store : Store) (functions : Array FunctionObject) :
    store.Extends { store with functions := store.functions ++ functions } :=
  ⟨Nat.le_refl _, id, getElem?_append, id, id⟩

theorem newFunction (store : Store) (f : FunctionObject) :
    store.Extends (store.newFunction f).1 :=
  ⟨Nat.le_refl _, id, getElem?_push, id, id⟩

theorem newClass (store : Store) (c : ClassObject) : store.Extends (store.newClass c).1 :=
  ⟨Nat.le_refl _, id, id, getElem?_push, id⟩

theorem newInstance (store : Store) (c : ClassId) : store.Extends (store.newInstance c).1 := by
  refine ⟨Nat.le_refl _, id, id, id, fun hi => ?_⟩
  obtain ⟨o, ho, hclass⟩ := Option.map_eq_some_iff.mp hi
  exact Option.map_eq_some_iff.mpr ⟨o, getElem?_push ho, hclass⟩

theorem setField (store : Store) (i : InstanceId) (name : String) (value : Value) :
    store.Extends (store.setField i name value) := by
  refine ⟨Nat.le_refl _, id, id, id, fun {j c} hj => ?_⟩
  unfold Store.setField
  rw [Array.getElem?_modify]
  split
  · rw [Option.map_map]
    exact hj
  · exact hj

theorem bindMethod (store : Store) (f : FunctionObject) (receiver : InstanceId) :
    store.Extends (store.bindMethod f receiver).1 :=
  (newScope store _).trans (newFunction _ _)

end Extends

/-- A scope that is added stands inside the one that it encloses. -/
theorem ancestor?_newScope (store : Store) {scope : Scope} {next : ScopeId}
    (hscope : scope.enclosing = some next) (h : store.ancestor? d next = some outer) :
    (store.newScope scope).1.ancestor? (d + 1) store.scopes.size = some outer := by
  rw [ancestor?_succ, enclosing?_newScope, if_pos rfl, hscope]
  exact (Extends.newScope store scope).ancestor? h

end Store
end Lox
