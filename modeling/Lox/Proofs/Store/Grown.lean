import Lox.Proofs.Store.Access

/-!
# What a store never loses

As a store grows, a scope keeps its place and every name that it binds, an instance its class and
every field, and functions and classes stay as they were made. Only what a name or a field has as
its value may be another one. Every operation of the store is of this kind.
-/
namespace Lox
namespace Store
variable {a b c store : Store}

/-- The scopes that are there keep the scope around them and the names that they bind. -/
structure ScopesGrown (a b : Store) : Prop where
  size : a.scopes.size ≤ b.scopes.size
  enclosing : ∀ s < a.scopes.size, b.enclosing? s = a.enclosing? s
  bindings : ∀ s name, a.findLocal? s name ≠ none → b.findLocal? s name ≠ none

/-- The instances that are there keep their classes and the fields that they have. -/
structure InstancesGrown (a b : Store) : Prop where
  classes : ∀ (i : InstanceId) c, a.instances[i]?.map (·.classId) = some c →
    b.instances[i]?.map (·.classId) = some c
  fields : ∀ i name, a.field? i name ≠ none → b.field? i name ≠ none

/-- Nothing that is there is lost; functions and classes are the same. -/
structure Grown (a b : Store) : Prop where
  scopes : ScopesGrown a b
  functions : ∀ (f : FunctionId) o, a.functions[f]? = some o → b.functions[f]? = some o
  classes : ∀ (c : ClassId) o, a.classes[c]? = some o → b.classes[c]? = some o
  instances : InstancesGrown a b

namespace ScopesGrown

theorem of_eq (h : b.scopes = a.scopes) : ScopesGrown a b := by
  refine ⟨Nat.le_of_eq (congrArg Array.size h.symm), fun s _ => ?_, fun s name => ?_⟩
  · unfold enclosing?
    rw [h]
  · unfold findLocal?
    rw [h]
    exact id

theorem trans (h : ScopesGrown a b) (h' : ScopesGrown b c) : ScopesGrown a c where
  size := Nat.le_trans h.size h'.size
  enclosing s hs := (h'.enclosing s (Nat.lt_of_lt_of_le hs h.size)).trans (h.enclosing s hs)
  bindings s name hname := h'.bindings s name (h.bindings s name hname)

theorem define (store : Store) (scope : ScopeId) (name : String) (v : Value) :
    ScopesGrown store (store.define scope name v) := by
  refine ⟨Nat.le_of_eq (Array.size_modify ..).symm, fun s _ => ?_, fun s other hother => ?_⟩
  · exact store.enclosing?_define scope name v s
  · rw [findLocal?_define]
    split
    · exact Option.some_ne_none v
    · exact hother

theorem newScope (store : Store) (new : Scope) : ScopesGrown store (store.newScope new).1 := by
  refine ⟨?_, fun s hs => ?_, fun s name hname => ?_⟩
  · exact Nat.le_trans (Nat.le_succ _) (Nat.le_of_eq (Array.size_push ..).symm)
  · rw [enclosing?_newScope, if_neg (Nat.ne_of_lt hs)]
  · obtain ⟨v, hv⟩ := Option.ne_none_iff_exists'.mp hname
    rw [findLocal?_newScope, if_neg (Nat.ne_of_lt (lt_of_findLocal? hv))]
    exact hname

end ScopesGrown

namespace InstancesGrown

theorem of_eq (h : b.instances = a.instances) : InstancesGrown a b := by
  refine ⟨fun i c => ?_, fun i name => ?_⟩
  · rw [h]
    exact id
  · unfold field?
    rw [h]
    exact id

theorem trans (h : InstancesGrown a b) (h' : InstancesGrown b c) : InstancesGrown a c :=
  ⟨fun i d hi => h'.classes i d (h.classes i d hi),
    fun i name hname => h'.fields i name (h.fields i name hname)⟩

theorem newInstance (store : Store) (c : ClassId) :
    InstancesGrown store (store.newInstance c).1 := by
  refine ⟨fun i d hi => (Extends.newInstance store c).instances hi, fun i name hname => ?_⟩
  rw [field?_newInstance]
  exact hname

theorem setField (store : Store) (i : InstanceId) (name : String) (v : Value) :
    InstancesGrown store (store.setField i name v) := by
  refine ⟨fun j d hj => (Extends.setField store i name v).instances hj, fun j other hother => ?_⟩
  rw [field?_setField]
  split
  · exact Option.some_ne_none v
  · exact hother

end InstancesGrown

namespace Grown

theorem refl (a : Store) : a.Grown a := ⟨.of_eq rfl, fun _ _ => id, fun _ _ => id, .of_eq rfl⟩

theorem trans (h : a.Grown b) (h' : b.Grown c) : a.Grown c where
  scopes := h.scopes.trans h'.scopes
  functions f o hf := h'.functions f o (h.functions f o hf)
  classes k o hk := h'.classes k o (h.classes k o hk)
  instances := h.instances.trans h'.instances

theorem define (store : Store) (scope : ScopeId) (name : String) (v : Value) :
    store.Grown (store.define scope name v) :=
  ⟨.define store scope name v, fun _ _ => id, fun _ _ => id, .of_eq rfl⟩

theorem newScope (store : Store) (new : Scope) : store.Grown (store.newScope new).1 :=
  ⟨.newScope store new, fun _ _ => id, fun _ _ => id, .of_eq rfl⟩

theorem addFunctions (store : Store) (functions : Array FunctionObject) :
    store.Grown { store with functions := store.functions ++ functions } :=
  ⟨.of_eq rfl, fun _ _ => Extends.getElem?_append, fun _ _ => id, .of_eq rfl⟩

theorem newFunction (store : Store) (f : FunctionObject) : store.Grown (store.newFunction f).1 :=
  ⟨.of_eq rfl, fun _ _ => Extends.getElem?_push, fun _ _ => id, .of_eq rfl⟩

theorem newClass (store : Store) (new : ClassObject) : store.Grown (store.newClass new).1 :=
  ⟨.of_eq rfl, fun _ _ => id, fun _ _ => Extends.getElem?_push, .of_eq rfl⟩

theorem newInstance (store : Store) (c : ClassId) : store.Grown (store.newInstance c).1 :=
  ⟨.of_eq rfl, fun _ _ => id, fun _ _ => id, .newInstance store c⟩

theorem setField (store : Store) (i : InstanceId) (name : String) (v : Value) :
    store.Grown (store.setField i name v) :=
  ⟨.of_eq rfl, fun _ _ => id, fun _ _ => id, .setField store i name v⟩

theorem bindMethod (store : Store) (f : FunctionObject) (receiver : InstanceId) :
    store.Grown (store.bindMethod f receiver).1 :=
  (newScope store _).trans (newFunction _ _)

end Grown

/-- Scopes stand inside older ones, and superclasses are older than their subclasses. -/
structure Orderly (store : Store) : Prop where
  scopes : store.Nested
  superclasses : Descends store.superclass?

/-- Every chain of scopes or superclasses ends, and so does every search along one: the operations
that look for a name find what a search without a limit finds. -/
structure Finite (store : Store) : Prop where
  scopes : ∀ s, ∃ n, ChainOf store.enclosing? s n
  superclasses : ∀ c, ∃ n, ChainOf store.superclass? c n
  ancestor : ∀ d s, store.ancestor? d s = along store.enclosing? d s
  lookup : ∀ s name,
    Searches store.enclosing? (store.findLocal? · name) s (store.lookup? s name)
  holder : ∀ s name, Searches store.enclosing?
    (fun scope => if (store.findLocal? scope name).isSome then some scope else none) s
      (store.holder? s name)
  method : ∀ c name,
    Searches store.superclass? (store.ownMethod? · name) c (store.findMethod? c name)

theorem beyond_scopes {s : ScopeId} (hs : store.scopes.size ≤ s) (name : String) :
    store.findLocal? s name = none ∧ store.enclosing? s = none := by
  unfold findLocal? enclosing?
  rw [Array.getElem?_eq_none hs]
  exact ⟨rfl, rfl⟩

theorem beyond_classes {c : ClassId} (hc : store.classes.size ≤ c) (name : String) :
    store.ownMethod? c name = none ∧ store.superclass? c = none := by
  unfold ownMethod? superclass?
  rw [Array.getElem?_eq_none hc]
  exact ⟨rfl, rfl⟩

theorem Orderly.finite (h : store.Orderly) : store.Finite where
  scopes := Descends.exists_chain h.scopes
  superclasses := h.superclasses.exists_chain
  ancestor := store.ancestor?_eq_along
  lookup s name := Descends.searches h.scopes (fun _ hs => beyond_scopes hs name) s
  holder s name := by
    refine Descends.searches h.scopes (fun scope hs => ?_) s
    obtain ⟨hnone, hlast⟩ := beyond_scopes hs name
    rw [hnone]
    exact ⟨rfl, hlast⟩
  method c name := h.superclasses.searches (fun _ hc => beyond_classes hc name) c

namespace Grown

theorem superclass? (h : a.Grown b) {c : ClassId} (hc : c < a.classes.size) :
    b.superclass? c = a.superclass? c := by
  have hclass := Array.getElem?_eq_getElem hc
  unfold Store.superclass?
  rw [hclass, h.classes c _ hclass]

/-- Links that were there are the links to older objects that they are later. -/
theorem orderly (h : a.Grown b) (hb : b.Orderly) : a.Orderly := by
  constructor
  · intro s outer hs
    refine hb.scopes s outer ?_
    rw [h.scopes.enclosing s (lt_of_enclosing? hs)]
    exact hs
  · intro c d hc
    obtain ⟨o, ho, -⟩ := Option.bind_eq_some_iff.mp hc
    refine hb.superclasses c d ?_
    rw [h.superclass? (Array.getElem?_eq_some_iff.mp ho).1]
    exact hc

/-- The chain of a scope that is there stays as it is. -/
theorem along_enclosing? (h : a.Grown b) (ha : a.Nested) {s : ScopeId} (hs : s < a.scopes.size)
    (d : Nat) : along b.enclosing? d s = along a.enclosing? d s :=
  Descends.along_congr ha h.scopes.enclosing hs d

theorem along_superclass? (h : a.Grown b) (ha : Descends a.superclass?) {c : ClassId}
    (hc : c < a.classes.size) (d : Nat) : along b.superclass? d c = along a.superclass? d c :=
  ha.along_congr (fun _ => h.superclass?) hc d

end Grown
end Store
end Lox
