import Lox.Proofs.Resolution.Setting
import Lox.Proofs.Scoping.Memory

/-!
# What names mean in scopes and in environments

A chain of scopes and a map from names to locations agree in a context if the distance that the
context gives a name leads to the variable whose location the map has. Code keeps the scope and the
environment in which it was declared, and both keep agreeing in its context: the links between
scopes and the slots of locations stay, and new slots are made in the running scope and in new
scopes only.
-/
namespace Lox
namespace Resolution

namespace Context
variable {ctx : Context} {name : String}

theorem distance?_declare_self (h : ctx.scopes ≠ []) (name : String) :
    (ctx.declare name).distance? name = some 0 := by
  obtain ⟨scopes, globals, functionKind, classKind⟩ := ctx
  cases scopes with
  | nil => exact absurd rfl h
  | cons scope outer =>
    unfold distance? declare
    simp [List.findIdx?_cons]

/-- Inside a class with a superclass the scope with `super` is the one around that with `this`. -/
def Layered (ctx : Context) : Prop :=
  ctx.classKind = some .derived →
    ∃ i, ctx.distance? "super" = some (i + 1) ∧ ctx.distance? "this" = some i

theorem Layered.declare (h : ctx.Layered) {name : Name} (hname : name.Ordinary) :
    (ctx.declare name.text).Layered := by
  intro hkind
  rw [declare_classKind] at hkind
  rw [distance?_declare_of_ne ctx (Ne.symm hname.1), distance?_declare_of_ne ctx (Ne.symm hname.2)]
  exact h hkind

theorem Layered.enter (h : ctx.Layered) : (ctx.enter []).Layered := by
  intro hkind
  obtain ⟨i, hsuper, hthis⟩ := h hkind
  refine ⟨i + 1, ?_, ?_⟩
  · rw [distance?_enter, hsuper]
    rfl
  · rw [distance?_enter, hthis]
    rfl

theorem layered_method (around : Context) (kind : ClassKind) : (around.method kind).Layered := by
  intro hkind
  obtain rfl : kind = .derived := Option.some.inj (by cases kind <;> exact hkind)
  exact ⟨0, rfl, rfl⟩

end Context
end Resolution

namespace Evaluation
open Resolution

/-- What a machine and a lexical state consist of but for values, with the slots of the locations. -/
structure Layout where
  store : Store
  objects : Store
  environments : Array Environment
  slots : Array Slot

namespace Layout

/-- Seen from the scope, the names of the context are the variables at their locations. -/
structure Sees (w : Layout) (ctx : Context) (scope : ScopeId) (locations : Bindings Location) :
    Prop where
  found : ∀ {name d}, ctx.distance? name = some d → ∃ location outer,
    locations.find? name = some location ∧ w.store.ancestor? d scope = some outer ∧
      w.slots[location]? = some ⟨outer, name⟩
  absent : ∀ {name}, ctx.distance? name = none → locations.find? name = none

/-- The scope and the environment that two functions close over agree. -/
def Keeps (w : Layout) (ctx : Context) (object object' : FunctionObject) : Prop :=
  ∃ environment : Environment, w.environments[object'.closure]? = some environment ∧
    w.Sees ctx object.closure environment.locations

/-- The functions are declared where the context is `ctx`. -/
structure Closes (setting : Setting) (w : Layout) (object object' : FunctionObject)
    (ctx : Context) : Prop where
  within : Stmt.FunctionWithin setting.Admits ctx object.declaration
  keeps : w.Keeps ctx object object'
  layered : ctx.Layered
  initializer : object.isInitializer = true → ctx.distance? "this" = some 0

/-- The functions under one number in both stores have a property. -/
def Both (w : Layout) (f : FunctionId) (holds : FunctionObject → FunctionObject → Prop) : Prop :=
  ∃ object object', w.store.functions[f]? = some object ∧
    w.objects.functions[f]? = some object' ∧ holds object object'

def ValueOk (setting : Setting) (w : Layout) : Value → Prop
  | .functionRef f => w.Both f fun object object' => ∃ ctx, w.Closes setting object object' ctx
  | .nil | .bool _ | .number _ | .string _ | .classRef _ | .instanceRef _ => True

/-- The function is a method that is not bound. -/
def IsMethod (setting : Setting) (w : Layout) (f : FunctionId) : Prop :=
  w.Both f fun object object' => ∃ around kind,
    Stmt.FunctionWithin setting.Admits
      ((Context.method around kind).inFunction (kindOfMethod object.declaration))
      object.declaration ∧
      w.Keeps (around.inherit kind) object object'

/-- All objects and slots are there; slots were added in the scope `p` and in new scopes only. -/
structure Grows (p : ScopeId) (a b : Layout) : Prop where
  store : a.store.Extends b.store
  objects : a.objects.Extends b.objects
  environments : ∀ {i : Nat} {environment}, a.environments[i]? = some environment →
    b.environments[i]? = some environment
  slots : ∀ {location : Location} {slot : Slot}, a.slots[location]? = some slot →
    b.slots[location]? = some slot
  old : ∀ {location : Location} {slot : Slot}, b.slots[location]? = some slot → slot.scope ≠ p →
    slot.scope < a.store.scopes.size → a.slots[location]? = some slot

variable {setting : Setting} {a b c w : Layout} {p q scope : ScopeId} {ctx : Context}
  {locations : Bindings Location} {object object' : FunctionObject}

theorem Grows.refl (p : ScopeId) (a : Layout) : Grows p a a :=
  ⟨.refl _, .refl _, id, id, fun h _ _ => h⟩

theorem Grows.trans (h : Grows p a b) (h' : Grows p b c) : Grows p a c := by
  constructor
  · exact h.store.trans h'.store
  · exact h.objects.trans h'.objects
  · exact fun he => h'.environments (h.environments he)
  · exact fun hs => h'.slots (h.slots hs)
  · intro location slot hslot hne hlt
    exact h.old (h'.old hslot hne (Nat.lt_of_lt_of_le hlt h.store.scopes)) hne hlt

/-- What was done in a new scope was done with new slots. -/
theorem Grows.inside (h : Grows p a b) (h' : Grows q b c) (hq : a.store.scopes.size ≤ q) :
    Grows p a c := by
  constructor
  · exact h.store.trans h'.store
  · exact h.objects.trans h'.objects
  · exact fun he => h'.environments (h.environments he)
  · exact fun hs => h'.slots (h.slots hs)
  · intro location slot hslot hne hlt
    have hq' : slot.scope ≠ q := Nat.ne_of_lt (Nat.lt_of_lt_of_le hlt hq)
    exact h.old (h'.old hslot hq' (Nat.lt_of_lt_of_le hlt h.store.scopes)) hne hlt

theorem Grows.anew (h : Grows q a b) (hq : a.store.scopes.size ≤ q) (p : ScopeId) : Grows p a b :=
  (Grows.refl p a).inside h hq

theorem grows_objects {store objects : Store} (p : ScopeId) (hstore : w.store.Extends store)
    (hobjects : w.objects.Extends objects) : Grows p w { w with store, objects } :=
  ⟨hstore, hobjects, id, id, fun h _ _ => h⟩

/-- A slot is added in the scope `p`. -/
theorem grows_slot {store : Store} (p : ScopeId) (hstore : w.store.Extends store) (name : String) :
    Grows p w { w with store, slots := w.slots.push ⟨p, name⟩ } := by
  refine ⟨hstore, .refl _, id, Store.Extends.getElem?_push, fun {location slot} hslot hne _ => ?_⟩
  rw [Array.getElem?_push] at hslot
  split at hslot
  · cases hslot
    exact absurd rfl hne
  · exact hslot

theorem Sees.grows (h : a.Sees ctx scope locations) (hab : Grows p a b) :
    b.Sees ctx scope locations := by
  refine ⟨fun hd => ?_, h.absent⟩
  obtain ⟨location, outer, hlocation, houter, hslot⟩ := h.found hd
  exact ⟨location, outer, hlocation, hab.store.ancestor? houter, hab.slots hslot⟩

theorem Keeps.grows (h : a.Keeps ctx object object') (hab : Grows p a b) :
    b.Keeps ctx object object' := by
  obtain ⟨environment, henvironment, hsees⟩ := h
  exact ⟨environment, hab.environments henvironment, hsees.grows hab⟩

theorem Closes.grows (h : a.Closes setting object object' ctx) (hab : Grows p a b) :
    b.Closes setting object object' ctx :=
  ⟨h.within, h.keeps.grows hab, h.layered, h.initializer⟩

theorem Both.grows {f : FunctionId} {holds holds' : FunctionObject → FunctionObject → Prop}
    (h : a.Both f holds) (hab : Grows p a b)
    (himp : ∀ object object', holds object object' → holds' object object') : b.Both f holds' := by
  obtain ⟨object, object', hobject, hobject', hholds⟩ := h
  exact ⟨object, object', hab.store.functions hobject, hab.objects.functions hobject',
    himp _ _ hholds⟩

theorem ValueOk.grows {v : Value} (h : a.ValueOk setting v) (hab : Grows p a b) :
    b.ValueOk setting v := by
  cases v with
  | functionRef f =>
    refine Both.grows h hab fun _ _ hcloses => ?_
    obtain ⟨ctx, hcloses⟩ := hcloses
    exact ⟨ctx, hcloses.grows hab⟩
  | nil | bool _ | number _ | string _ | classRef _ | instanceRef _ => trivial

theorem IsMethod.grows {f : FunctionId} (h : a.IsMethod setting f) (hab : Grows p a b) :
    b.IsMethod setting f := by
  refine Both.grows h hab fun _ _ hmethod => ?_
  obtain ⟨around, kind, hwithin, hkeeps⟩ := hmethod
  exact ⟨around, kind, hwithin, hkeeps.grows hab⟩

section
variable {next : Setting} (hlater : setting.Later next)
include hlater

theorem IsMethod.later {f : FunctionId} (h : w.IsMethod setting f) : w.IsMethod next f := by
  obtain ⟨object, object', hobject, hobject', around, kind, hwithin, hkeeps⟩ := h
  have hwithin := hwithin.imp fun _ ho => ho.later hlater
  exact ⟨object, object', hobject, hobject', around, kind, hwithin, hkeeps⟩

theorem ValueOk.later {v : Value} (h : w.ValueOk setting v) : w.ValueOk next v := by
  cases v with
  | functionRef f =>
    obtain ⟨object, object', hobject, hobject', ctx, hcloses⟩ := h
    have hwithin := hcloses.within.imp fun _ ho => ho.later hlater
    have hcloses := Closes.mk hwithin hcloses.keeps hcloses.layered hcloses.initializer
    exact ⟨object, object', hobject, hobject', ctx, hcloses⟩
  | nil | bool _ | number _ | string _ | classRef _ | instanceRef _ => trivial

end

/-- Only the names that are in local scopes matter. -/
theorem Sees.of_scopes {ctx' : Context} (h : w.Sees ctx scope locations)
    (hscopes : ctx'.scopes = ctx.scopes) : w.Sees ctx' scope locations := by
  have hdistance (name : String) : ctx'.distance? name = ctx.distance? name := by
    unfold Context.distance?
    rw [hscopes]
  constructor
  · intro name d hd
    rw [hdistance] at hd
    exact h.found hd
  · intro name hd
    rw [hdistance] at hd
    exact h.absent hd

/-- A declared name is the variable at its new location. -/
theorem Sees.declare (h : w.Sees ctx scope locations) (hscopes : ctx.scopes ≠ [])
    {location : Location} {name : String} (hslot : w.slots[location]? = some ⟨scope, name⟩) :
    w.Sees (ctx.declare name) scope (locations.insert name location) := by
  constructor
  · intro other d hd
    rw [Bindings.find?_insert]
    split
    · next heq =>
      rw [heq, Context.distance?_declare_self hscopes] at hd
      cases hd
      refine ⟨location, scope, rfl, rfl, ?_⟩
      rw [heq]
      exact hslot
    · next hne =>
      rw [Context.distance?_declare_of_ne ctx hne] at hd
      exact h.found hd
  · intro other hd
    rw [Bindings.find?_insert]
    split
    · next heq =>
      rw [heq, Context.distance?_declare_self hscopes] at hd
      cases hd
    · next hne =>
      rw [Context.distance?_declare_of_ne ctx hne] at hd
      exact h.absent hd

/-- A scope inside another has the same names at first. -/
theorem Sees.enter {outer : ScopeId} (h : w.Sees ctx outer locations)
    (henclosing : w.store.enclosing? scope = some outer) :
    w.Sees (ctx.enter []) scope locations := by
  constructor
  · intro name d hd
    rw [Context.distance?_enter, Option.map_eq_some_iff] at hd
    obtain ⟨d, hd, rfl⟩ := hd
    obtain ⟨location, further, hlocation, hfurther, hslot⟩ := h.found hd
    refine ⟨location, further, hlocation, ?_, hslot⟩
    rw [Store.ancestor?_succ, henclosing]
    exact hfurther
  · intro name hd
    rw [Context.distance?_enter, Option.map_eq_none_iff] at hd
    exact h.absent hd

end Layout
end Evaluation
end Lox
