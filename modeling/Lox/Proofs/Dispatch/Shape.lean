import Lox.Proofs.Dispatch.Observation
import Lox.Proofs.Store.Covers

/-!
# The shape of scopes

The chain of scopes in which code runs has the shape that the static pass saw around it: as many
scopes, which bind what was declared in them before, and in a class with a superclass a scope with
`super` around one with `this`. These two hold what the home of the code says. The shape stays when
the store grows, since no binding is removed and `this` and `super` are never bound anew.
-/
namespace Lox.Evaluation
open Resolution

/-- `this` is bound `i` scopes out, to the receiver of the home. -/
def ThisAt (store : Store) (scope : ScopeId) (i : Nat) (home : Home) : Prop :=
  ∃ inner id, store.ancestor? i scope = some inner ∧
    store.findLocal? inner "this" = some (.instanceRef id) ∧ home.receiver = some id

/-- `this` is bound `i` scopes out, and `super` in the scope around that one. -/
structure SuperAt (store : Store) (scope : ScopeId) (i : Nat) (home : Home) : Prop where
  receiver : ThisAt store scope i home
  superclass : ∃ outer c, store.ancestor? (i + 1) scope = some outer ∧
    store.findLocal? outer "super" = some (.classRef c) ∧ home.superclass = some c

/-- The scopes from `scope` outwards are those of the site. -/
structure Fits (store : Store) (site : Site) (scope : ScopeId) (home : Home) : Prop
    extends Covers store site scope where
  inClass : site.classKind.isSome = true →
    ∃ i, site.distance? "this" = some i ∧ ThisAt store scope i home
  derived : site.classKind = some .derived →
    ∃ i, site.distance? "super" = some (i + 1) ∧ SuperAt store scope i home

/-- The scopes from `closure` outwards are those around the methods of a class. -/
structure FitsClass (store : Store) (around : Context) (kind : ClassKind) (closure : ScopeId)
    (home : Home) : Prop extends Covers store (around.inherit kind) closure where
  derived : kind = .derived → ∃ c, store.findLocal? closure "super" = some (.classRef c) ∧
    home.superclass = some c

section
variable {a b store : Store} {site : Site} {ctx around : Context} {scope closure : ScopeId}
  {home : Home} {kind : ClassKind} {i : Nat} {name : Name}

theorem ThisAt.preserved (h : ThisAt a scope i home) (hab : Preserves a b) :
    ThisAt b scope i home := by
  obtain ⟨inner, id, hinner, hthis, hid⟩ := h
  exact ⟨inner, id, hab.store.ancestor? hinner, hab.special (.inl rfl) hthis, hid⟩

theorem SuperAt.preserved (h : SuperAt a scope i home) (hab : Preserves a b) :
    SuperAt b scope i home := by
  refine ⟨h.receiver.preserved hab, ?_⟩
  obtain ⟨outer, c, houter, hsuper, hc⟩ := h.superclass
  exact ⟨outer, c, hab.store.ancestor? houter, hab.special (.inr rfl) hsuper, hc⟩

/-- Inside a new scope `this` is one scope further out. -/
theorem ThisAt.enter (h : ThisAt store scope i home) {new : Scope}
    (hnew : new.enclosing = some scope) :
    ThisAt (store.newScope new).1 store.scopes.size (i + 1) home := by
  obtain ⟨inner, id, hinner, hthis, hid⟩ := h
  refine ⟨inner, id, store.ancestor?_newScope hnew hinner, ?_, hid⟩
  exact (Preserves.newScope store new).special (.inl rfl) hthis

theorem Fits.preserved (h : Fits a site scope home) (hab : Preserves a b) :
    Fits b site scope home := by
  refine ⟨h.toCovers.preserved hab, fun hkind => ?_, fun hkind => ?_⟩
  · obtain ⟨i, hdistance, hthis⟩ := h.inClass hkind
    exact ⟨i, hdistance, hthis.preserved hab⟩
  · obtain ⟨i, hdistance, hsuper⟩ := h.derived hkind
    exact ⟨i, hdistance, hsuper.preserved hab⟩

theorem FitsClass.preserved (h : FitsClass a around kind closure home) (hab : Preserves a b) :
    FitsClass b around kind closure home := by
  refine ⟨h.toCovers.preserved hab, fun hkind => ?_⟩
  obtain ⟨c, hsuper, hc⟩ := h.derived hkind
  exact ⟨c, hab.special (.inr rfl) hsuper, hc⟩

/-- A declaration adds no scope. -/
theorem Fits.initializer (h : Fits store ctx scope home) (hname : name.Ordinary) :
    Fits store (ctx.initializer name.text) scope home := by
  refine ⟨h.toCovers.initializer name.text, fun hkind => ?_, fun hkind => ?_⟩
  · change (ctx.declare name.text).classKind.isSome = true at hkind
    rw [Context.declare_classKind] at hkind
    obtain ⟨i, hthis, hat⟩ := h.inClass hkind
    exact ⟨i, (Context.distance?_declare_of_ne ctx (Ne.symm hname.1)).trans hthis, hat⟩
  · change (ctx.declare name.text).classKind = _ at hkind
    rw [Context.declare_classKind] at hkind
    obtain ⟨i, hsuper, hat⟩ := h.derived hkind
    exact ⟨i, (Context.distance?_declare_of_ne ctx (Ne.symm hname.2)).trans hsuper, hat⟩

/-- Only what the scopes bind depends on which declarations are under way. -/
theorem Fits.covered (h : Fits store site scope home) {site' : Site}
    (hcovers : Covers store site' scope) (hcontext : site'.toContext = site.toContext) :
    Fits store site' scope home := by
  obtain ⟨ctx', opening'⟩ := site'
  obtain rfl : ctx' = site.toContext := hcontext
  exact ⟨hcovers, h.inClass, h.derived⟩

theorem Fits.superclass {name : String} (h : Fits store (ctx.initializer name) scope home) :
    Fits store (ctx.superclass name) scope home := h.covered h.toCovers.superclass rfl

theorem Fits.declared {name : String} (h : Fits store (ctx.initializer name) scope home)
    (hbound : store.Has scope name) : Fits store (ctx.declare name) scope home :=
  h.covered (h.toCovers.declared hbound) rfl

theorem Fits.inherited {name : String} (h : Fits store (ctx.superclass name) scope home)
    (hbound : store.Has scope name) : Fits store (ctx.declare name) scope home :=
  h.covered (h.toCovers.inherited hbound) rfl

theorem Fits.declareAll (h : Fits store ctx scope home) {names : List Name}
    (hnames : ∀ name ∈ names, name.Ordinary) (hbound : ∀ name ∈ names, store.Has scope name.text) :
    Fits store (ctx.declareAll names) scope home := by
  induction names generalizing ctx with
  | nil => exact h
  | cons name names ih =>
    obtain ⟨hname, hnames⟩ := List.forall_mem_cons.mp hnames
    obtain ⟨hhas, hbound⟩ := List.forall_mem_cons.mp hbound
    exact ih ((h.initializer hname).declared hhas) hnames hbound

/-- The kind of the function does not matter. -/
theorem Fits.inFunction (h : Fits store ctx scope home) (kind : FunctionKind) :
    Fits store (ctx.inFunction kind) scope home :=
  ⟨⟨h.chain, h.known, h.bound⟩, h.inClass, h.derived⟩

/-- Inside a new scope all others are one further away. -/
theorem Fits.enter (h : Fits store ctx scope home) {new : Scope}
    (hnew : new.enclosing = some scope) :
    Fits (store.newScope new).1 (ctx.enter []) store.scopes.size home := by
  have hpreserves := Preserves.newScope store new
  refine ⟨h.toCovers.enter hnew nofun, fun hkind => ?_, fun hkind => ?_⟩
  · obtain ⟨i, hdistance, hthis⟩ := h.inClass hkind
    refine ⟨i + 1, ?_, hthis.enter hnew⟩
    change (ctx.enter []).distance? "this" = _
    rw [Context.distance?_enter, hdistance]
    rfl
  · obtain ⟨i, hdistance, hsuper⟩ := h.derived hkind
    obtain ⟨hthis, ⟨outer, c, houter, hsuper, hc⟩⟩ := hsuper
    refine ⟨i + 1, ?_, hthis.enter hnew, ?_⟩
    · change (ctx.enter []).distance? "super" = _
      rw [Context.distance?_enter, hdistance]
      rfl
    · have houter' := store.ancestor?_newScope hnew houter
      exact ⟨outer, c, houter', hpreserves.special (.inr rfl) hsuper, hc⟩

/-- A bound method stands in a scope with `this` inside those of its class. -/
theorem FitsClass.bind (h : FitsClass store around kind closure home) {id : InstanceId}
    {new : Scope} (hnew : new.enclosing = some closure)
    (hthis : new.bindings.find? "this" = some (.instanceRef id)) :
    Fits (store.newScope new).1 (around.method kind) store.scopes.size
      { home with receiver := some id } := by
  have hbound : (store.newScope new).1.findLocal? store.scopes.size "this" =
      some (.instanceRef id) := by
    rw [Store.findLocal?_newScope, if_pos rfl]
    exact hthis
  have hat : ThisAt (store.newScope new).1 store.scopes.size 0 { home with receiver := some id } :=
    ⟨store.scopes.size, id, rfl, hbound, rfl⟩
  refine ⟨h.toCovers.enter hnew ?_, fun _ => ⟨0, rfl, hat⟩, fun hkind => ?_⟩
  · intro name hname
    obtain rfl := List.mem_singleton.mp hname
    exact ⟨_, hthis⟩
  · obtain rfl : kind = .derived := by
      cases kind with
      | base => cases hkind
      | derived => rfl
    obtain ⟨c, hsuper, hc⟩ := h.derived rfl
    refine ⟨0, Context.distance?_super_method around, hat, closure, c, ?_, ?_, hc⟩
    · exact store.ancestor?_newScope hnew rfl
    · exact (Preserves.newScope store new).special (.inr rfl) hsuper

/-- A class without a superclass has no scope of its own around its methods. -/
theorem Fits.base (h : Fits store ctx scope home) (home' : Home) :
    FitsClass store ctx .base scope home' :=
  ⟨⟨h.chain, h.known, h.bound⟩, nofun⟩

/-- A class with a superclass has a scope with `super` around its methods. -/
theorem Fits.inherit (h : Fits store ctx scope home) {new : Scope} {c : ClassId}
    (hnew : new.enclosing = some scope)
    (hsuper : new.bindings.find? "super" = some (.classRef c)) :
    FitsClass (store.newScope new).1 ctx .derived store.scopes.size { superclass := some c } := by
  have hcovers : Covers (store.newScope new).1 (ctx.enter ["super"]) store.scopes.size := by
    refine h.toCovers.enter hnew fun name hname => ?_
    obtain rfl := List.mem_singleton.mp hname
    exact ⟨_, hsuper⟩
  refine ⟨⟨hcovers.chain, hcovers.known, hcovers.bound⟩, fun _ => ⟨c, ?_, rfl⟩⟩
  rw [Store.findLocal?_newScope, if_pos rfl]
  exact hsuper

end
end Lox.Evaluation
