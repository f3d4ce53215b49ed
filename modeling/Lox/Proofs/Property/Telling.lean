import Lox.Proofs.Dispatch.InStep
import Lox.Proofs.Property.Journal

/-!
# What a journal tells of a store

A journal tells of a store what it holds of classes and instances. Each operation of the store that
changes them keeps this, if it is entered; the others keep it as it is. What a journal answers about
a property is then what the machine finds.
-/
namespace Lox.Evaluation
open Resolution

namespace Journal

/-- Classes, instances and fields of the store are those of the journal. -/
structure Tells (journal : Journal) (store : Store) : Prop where
  declared : ∀ c, (journal.declaration? c).isSome ↔ c < store.classes.size
  superclasses : ∀ c, (journal.declaration? c).bind (·.superclass) = store.superclass? c
  methods : ∀ c name, (journal.declaration? c).bind (·.method? name) =
    (store.ownMethod? c name).bind (store.functions[·]?)
  instances : ∀ i : InstanceId, journal.class? i = store.instances[i]?.map (·.classId)
  fields : ∀ i name, journal.stored? i name = store.field? i name

/-- The functions that classes have as methods are there. -/
def MethodsThere (store : Store) : Prop :=
  ∀ c name f, store.ownMethod? c name = some f → ∃ method, store.functions[f]? = some method

variable {journal : Journal} {a b store : Store} {before after : Store} {c : ClassId}
  {i : InstanceId} {name : String} {v : Value} {setting : Setting} {w : Objects}

theorem methodsThere_of_sound (h : w.Sound setting) : MethodsThere w.store := by
  intro c name f hf
  obtain ⟨method, hmethod, -⟩ := h.named hf
  exact ⟨method, hmethod⟩

theorem tells_initial : Tells [] Machine.initial.store where
  declared _ := ⟨nofun, nofun⟩
  superclasses _ := rfl
  methods _ _ := rfl
  instances _ := rfl
  fields _ _ := rfl

theorem declaration?_declares (journal : Journal) (d c : ClassId) (declaration : ClassDeclaration) :
    declaration? (⟨.declares d declaration, before, after⟩ :: journal) c =
      if c = d then some declaration else journal.declaration? c := by
  unfold declaration?
  rw [List.findSome?_cons]
  dsimp only
  by_cases h : c = d
  · rw [if_pos h.symm, if_pos h]
  · rw [if_neg (Ne.symm h), if_neg h]

theorem class?_creates (journal : Journal) (j i : InstanceId) (c : ClassId) :
    class? (⟨.creates j c, before, after⟩ :: journal) i =
      if i = j then some c else journal.class? i := by
  unfold class?
  rw [List.findSome?_cons]
  dsimp only
  by_cases h : i = j
  · rw [if_pos h.symm, if_pos h]
  · rw [if_neg (Ne.symm h), if_neg h]

theorem stored?_stores (journal : Journal) (j i : InstanceId) (other name : String) (v : Value) :
    stored? (⟨.stores j other v, before, after⟩ :: journal) i name =
      if i = j ∧ name = other then some v else journal.stored? i name := by
  unfold stored?
  rw [List.findSome?_cons]
  dsimp only
  by_cases h : i = j ∧ name = other
  · rw [if_pos ⟨h.1.symm, h.2.symm⟩, if_pos h]
  · rw [if_neg fun heq => h ⟨heq.1.symm, heq.2.symm⟩, if_neg h]

/-- An instance stays one of its class. -/
theorem classId_setField (store : Store) (i : InstanceId) (name : String) (v : Value)
    (j : InstanceId) :
    (store.setField i name v).instances[j]?.map (·.classId) =
      store.instances[j]?.map (·.classId) := by
  unfold Store.setField
  rw [Array.getElem?_modify]
  split
  · exact Option.map_map ..
  · rfl

/-- Functions that were made meanwhile are no methods of the classes that are there. -/
theorem bind_ownMethod? (hthere : MethodsThere a) (hextends : a.Extends b) :
    (a.ownMethod? c name).bind (b.functions[·]?) = (a.ownMethod? c name).bind (a.functions[·]?) := by
  cases hf : a.ownMethod? c name with
  | none => rfl
  | some f =>
    obtain ⟨method, hmethod⟩ := hthere _ _ _ hf
    exact (hextends.functions hmethod).trans hmethod.symm

/-- What changes neither a class nor an instance. -/
theorem Tells.same (h : Tells journal a) (hthere : MethodsThere a) (hextends : a.Extends b)
    (hclasses : b.classes = a.classes) (hinstances : b.instances = a.instances) :
    Tells journal b where
  declared c := by rw [h.declared, hclasses]
  superclasses c := by
    rw [h.superclasses]
    unfold Store.superclass?
    rw [hclasses]
  methods c name := by
    rw [h.methods, ← bind_ownMethod? hthere hextends]
    unfold Store.ownMethod?
    rw [hclasses]
  instances i := by rw [h.instances, hinstances]
  fields i name := by
    rw [h.fields]
    unfold Store.field?
    rw [hinstances]

theorem Tells.read (h : Tells journal store) {name : Name} {result : Except Halt Value} :
    Tells (⟨.reads i name result, before, after⟩ :: journal) store :=
  ⟨h.declared, h.superclasses, h.methods, h.instances, h.fields⟩

theorem Tells.created (h : Tells journal store) (c : ClassId) :
    Tells (⟨.creates store.instances.size c, before, after⟩ :: journal)
      (store.newInstance c).1 where
  declared := h.declared
  superclasses := h.superclasses
  methods := h.methods
  instances i := by
    rw [class?_creates]
    change _ = (store.instances.push { classId := c })[i]?.map (·.classId)
    rw [Array.getElem?_push]
    split
    · rfl
    · exact h.instances i
  fields i name := by
    rw [Store.field?_newInstance]
    exact h.fields i name

theorem Tells.stored (h : Tells journal store) (hi : i < store.instances.size) :
    Tells (⟨.stores i name v, before, after⟩ :: journal) (store.setField i name v) where
  declared := h.declared
  superclasses := h.superclasses
  methods := h.methods
  instances j := (h.instances j).trans (classId_setField store i name v j).symm
  fields j other := by
    rw [stored?_stores, Store.field?_setField]
    by_cases hsame : j = i ∧ other = name
    · obtain ⟨rfl, rfl⟩ := hsame
      rw [if_pos ⟨rfl, rfl⟩, if_pos ⟨rfl, rfl, hi⟩]
    · rw [if_neg hsame, if_neg fun heq => hsame ⟨heq.1, heq.2.1⟩]
      exact h.fields j other

/-- Of several methods under one name the number of the last one is found. -/
theorem bind_methodNumbers {functions : Array FunctionObject} {first : FunctionId}
    {superclass : Option ClassId} {closure : ScopeId} {methods : List FunctionDecl}
    {numbers : Bindings FunctionId}
    (h : ∀ k method, methods[k]? = some method →
      functions[first + k]? = some ⟨method, closure, method.isInitializer⟩) :
    ((methodNumbers first methods numbers).find? name).bind (functions[·]?) =
      (ClassDeclaration.method? ⟨superclass, closure, methods⟩ name).or
        ((numbers.find? name).bind (functions[·]?)) := by
  induction methods generalizing first numbers with
  | nil => rfl
  | cons declaration rest ih =>
    have hrest (k : Nat) (method : FunctionDecl) (hk : rest[k]? = some method) :
        functions[first + 1 + k]? = some ⟨method, closure, method.isInitializer⟩ := by
      rw [Nat.add_assoc, Nat.add_comm 1 k]
      exact h (k + 1) method hk
    rw [methodNumbers, ih hrest, Bindings.find?_insert]
    unfold ClassDeclaration.method?
    dsimp only
    rw [List.reverse_cons, List.find?_append, Option.map_or, Option.or_assoc, List.find?_singleton]
    by_cases hname : name = declaration.name.text
    · have hfirst := h 0 declaration rfl
      rw [if_pos hname, if_pos (beq_iff_eq.mpr hname.symm)]
      exact congrArg _ hfirst
    · rw [if_neg hname, if_neg fun heq => hname (beq_iff_eq.mp heq).symm]
      rfl

/-- A class is added with its methods. -/
theorem Tells.declares (h : Tells journal a) (hthere : MethodsThere a) (hextends : a.Extends b)
    {superclass : Option ClassId} {closure : ScopeId} {methods : List FunctionDecl}
    (hclasses : b.classes =
      a.classes.push ⟨name, superclass, methodNumbers a.functions.size methods .empty⟩)
    (hfunctions : b.functions = a.functions ++ (methodObjects closure methods).toArray)
    (hinstances : b.instances = a.instances) :
    Tells (⟨.declares a.classes.size ⟨superclass, closure, methods⟩, before, after⟩ :: journal) b := by
  have hclass (c : ClassId) : b.classes[c]? =
      if c = a.classes.size then
        some ⟨name, superclass, methodNumbers a.functions.size methods .empty⟩
      else a.classes[c]? := by
    rw [hclasses, Array.getElem?_push]
  constructor
  case declared =>
    intro c
    rw [declaration?_declares, hclasses, Array.size_push]
    split
    · next hc => simp [hc]
    · next hc =>
      rw [h.declared]
      lia
  case superclasses =>
    intro c
    unfold Store.superclass?
    rw [declaration?_declares, hclass]
    split
    · rfl
    · exact h.superclasses c
  case methods =>
    intro c other
    unfold Store.ownMethod?
    rw [declaration?_declares, hclass]
    split
    · have hmade (k : Nat) (method : FunctionDecl) (hk : methods[k]? = some method) :
          b.functions[a.functions.size + k]? = some ⟨method, closure, method.isInitializer⟩ := by
        rw [hfunctions, Array.getElem?_append_right (Nat.le_add_right _ _),
          Nat.add_sub_cancel_left]
        simp [methodObjects, hk]
      exact ((bind_methodNumbers hmade).trans Option.or_none).symm
    · rw [h.methods, ← bind_ownMethod? hthere hextends]
      rfl
  case instances =>
    intro i
    rw [hinstances]
    exact h.instances i
  case fields =>
    intro i other
    unfold Store.field?
    rw [hinstances]
    exact h.fields i other

/-- The closest class that declares a method, and its last one, are those of the store. -/
theorem Tells.provides_iff (h : Tells journal store) (hthere : MethodsThere store)
    {method : FunctionObject} : journal.Provides name c method ↔
      ∃ f, Nearest store name c f ∧ store.functions[f]? = some method := by
  constructor
  · intro hprovides
    induction hprovides with
    | @own c declaration method hdeclaration hmethod =>
      have hown := h.methods c name
      rw [hdeclaration, Option.bind_some, hmethod] at hown
      obtain ⟨f, hf, hfunction⟩ := Option.bind_eq_some_iff.mp hown.symm
      exact ⟨f, .own hf, hfunction⟩
    | @inherited c superclass declaration method hdeclaration hnone hsuperclass _ ih =>
      obtain ⟨f, hnearest, hfunction⟩ := ih
      have hown := h.methods c name
      have hsuper := h.superclasses c
      rw [hdeclaration, Option.bind_some] at hown hsuper
      refine ⟨f, .inherited ?_ (hsuper.symm.trans hsuperclass) hnearest, hfunction⟩
      cases hg : store.ownMethod? c name with
      | none => rfl
      | some g =>
        obtain ⟨other, hother⟩ := hthere _ _ _ hg
        rw [hg, Option.bind_some, hother, hnone] at hown
        cases hown
  · rintro ⟨f, hnearest, hfunction⟩
    induction hnearest with
    | @own c f hf =>
      have hown := h.methods c name
      rw [hf, Option.bind_some, hfunction] at hown
      obtain ⟨declaration, hdeclaration, hmethod⟩ := Option.bind_eq_some_iff.mp hown
      exact .own hdeclaration hmethod
    | @inherited c superclass f hnone hsuperclass _ ih =>
      have hsuper := (h.superclasses c).trans hsuperclass
      obtain ⟨declaration, hdeclaration, hclause⟩ := Option.bind_eq_some_iff.mp hsuper
      have hown := h.methods c name
      rw [hdeclaration, hnone] at hown
      exact .inherited hdeclaration hown hclause (ih hfunction)

/-- Reading a property of an instance leads to what the journal tells. -/
theorem Tells.answers {m : Machine} (h : Tells journal m.store) (hsound : w.Sound setting)
    (hstore : w.store = m.store) (hi : i < m.store.instances.size) (name : Name) :
    journal.Answers i name m.store (resultOf (readProperty i name m))
      (stateOf (readProperty i name m)).store := by
  obtain ⟨store, homes⟩ := w
  obtain rfl : store = m.store := hstore
  have hthere := methodsThere_of_sound hsound
  have hfield := h.fields i name.text
  rw [readProperty_apply]
  cases hv : m.store.field? i name.text with
  | some v => exact .field (hfield.trans hv)
  | none =>
    obtain ⟨o, ho⟩ : ∃ o, m.store.instances[i]? = some o := ⟨_, Array.getElem?_eq_getElem hi⟩
    have hclass := h.instances i
    rw [ho] at hclass ⊢
    rw [hv] at hfield
    dsimp only
    cases hf : m.store.findMethod? o.classId name.text with
    | some f =>
      obtain ⟨object, _, _, _, hunbound⟩ := hsound.holds.findMethod hf
      have hobject : m.store.functions[f]? = some object := hunbound.function
      have hprovides : journal.Provides name.text o.classId object :=
        (h.provides_iff hthere).mpr ⟨f, Objects.nearest_of_findMethod? hf, hobject⟩
      dsimp only
      rw [Observed.map_apply_ok (bindTo_apply m hobject i)]
      exact .method hfield hclass hprovides
    | none =>
      refine .undefined hfield hclass fun method hprovides => ?_
      obtain ⟨f, hnearest, -⟩ := (h.provides_iff hthere).mp hprovides
      cases hf.symm.trans (hsound.findMethod?_of_nearest hnearest)

end Journal

section
variable {α β : Type} {i : InstanceId} {name : String} {v : Value}

/-- The machine after a value was stored on an instance. -/
def Machine.setField (m : Machine) (i : InstanceId) (name : String) (v : Value) : Machine :=
  { m with store := m.store.setField i name v }

/-- The evaluation does the same whether the value is stored before it or after it. -/
def Ignores (i : InstanceId) (name : String) (v : Value) (x : Eval α) : Prop :=
  ∀ m : Machine, x (m.setField i name v) = leaving (·.setField i name v) (x m)

namespace Ignores

theorem pure (a : α) : Ignores i name v (Pure.pure a) := fun _ => rfl

theorem throw (halt : Halt) : Ignores i name v (MonadExcept.throw halt : Eval α) := fun _ => rfl

theorem bind {x : Eval α} {f : α → Eval β} (h : Ignores i name v x)
    (hf : ∀ a, Ignores i name v (f a)) : Ignores i name v (x >>= f) := by
  intro m
  change EStateM.bind x f (m.setField i name v) = leaving _ (EStateM.bind x f m)
  unfold EStateM.bind
  rw [h m]
  cases x m with
  | ok a ended => exact hf a ended
  | error halt ended => rfl

/-- Only what is not looked at is stored. -/
theorem get_bind {f : Machine → Eval α} (hf : ∀ m, f (m.setField i name v) = f m)
    (h : ∀ m, Ignores i name v (f m)) : Ignores i name v (get >>= f) := by
  intro m
  change f (m.setField i name v) (m.setField i name v) = leaving _ (f m m)
  rw [hf]
  exact h m m

theorem orFault (fault : Fault) (a : Option α) :
    Ignores i name v (Evaluation.orFault fault a) := by
  cases a with
  | none => exact .throw _
  | some a => exact .pure a

theorem ancestor? (m : Machine) (d : Nat) (scope : ScopeId) :
    (m.setField i name v).store.ancestor? d scope = m.store.ancestor? d scope := by
  induction d generalizing scope with
  | zero => rfl
  | succ d ih =>
    rw [Store.ancestor?_succ, Store.ancestor?_succ]
    exact congrArg _ (funext ih)

theorem superclassAt (d : Nat) : Ignores i name v (Evaluation.superclassAt d) := by
  refine get_bind (fun m => ?_) fun m => (orFault _ _).bind fun scope => ?_
  · rw [ancestor?]
    rfl
  · split
    · exact .pure _
    · exact .throw _

theorem receiverInside (d : Nat) : Ignores i name v (Evaluation.receiverInside d) := by
  cases d with
  | zero => exact .throw _
  | succ d =>
    refine get_bind (fun m => ?_) fun m => (orFault _ _).bind fun scope => ?_
    · rw [ancestor?]
      rfl
    · split
      · exact .pure _
      · exact .throw _

theorem getStore_bind {f : Store → Eval α}
    (hf : ∀ m : Machine, f (m.setField i name v).store = f m.store)
    (h : ∀ store, Ignores i name v (f store)) : Ignores i name v (getStore >>= f) :=
  get_bind hf fun m => h m.store

theorem bindTo (f : FunctionId) (receiver : InstanceId) :
    Ignores i name v (Evaluation.bindTo f receiver) :=
  (getStore_bind (fun _ => rfl) fun _ => orFault _ _).bind fun _ _ => rfl

/-- `super` does not look at properties. -/
theorem superMethod (id : NodeId) (line : Nat) (method : Name) :
    Ignores i name v (Evaluation.superMethod id line method) := by
  refine get_bind (fun _ => rfl) fun m => ?_
  cases m.distances.find? id with
  | none => exact .throw _
  | some d =>
    refine (superclassAt d).bind fun c => (receiverInside d).bind fun receiver => ?_
    refine getStore_bind (fun _ => rfl) fun store => ?_
    cases store.findMethod? c method.text with
    | some f => exact (bindTo f receiver).bind fun _ => .pure _
    | none => exact .throw _

end Ignores

/-- A value that is stored on an instance that is there changes nothing else. -/
theorem stored_setField {store : Store} (hi : i < store.instances.size) (name : String) (v : Value) :
    Stored store (store.setField i name v) i name v where
  scopes := rfl
  functions := rfl
  classes := rfl
  instances := Journal.classId_setField store i name v
  property := by
    rw [Store.field?_setField]
    exact if_pos ⟨rfl, rfl, hi⟩
  others j other hother := by
    rw [Store.field?_setField]
    exact if_neg fun h => hother ⟨h.1, h.2.1⟩
  super m id line method := Ignores.superMethod id line method { m with store }

end

end Lox.Evaluation
