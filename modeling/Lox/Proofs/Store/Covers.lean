import Lox.Evaluation.Machine
import Lox.Proofs.Resolution.Setting
import Lox.Proofs.Store.Extends

/-!
# Scopes that bind what is declared

A chain of scopes covers a place of a program if it has as many scopes as the static pass has seen
around the place and each of them binds the names that were declared in it before. Only a name whose
declaration is under way need not have a value yet. No link changes and no binding is removed, so
what covers a place goes on to cover it, whenever the code at that place runs.
-/
namespace Lox
namespace Resolution

/-- The scope `d` steps out declares the name; outside of all local scopes are the globals. -/
def Context.HasAt (ctx : Context) (d : Nat) (name : String) : Prop :=
  match ctx.scopes[d]? with
  | some names => name ∈ names
  | none => d = ctx.scopes.length ∧ ctx.globals name = true

/-- The declaration of the name is under way. -/
def Site.Opens (site : Site) (name : String) : Prop :=
  site.opening = some (.initializer name) ∨ site.opening = some (.superclass name)

namespace Context
variable {ctx : Context} {d : Nat} {name other : String}

theorem hasAt_of_distance (h : ctx.distance? name = some d) : ctx.HasAt d name := by
  obtain ⟨hlt, hmem, -⟩ := List.findIdx?_eq_some_iff_getElem.mp h
  unfold HasAt
  rw [List.getElem?_eq_getElem hlt]
  exact List.contains_iff_mem.mp hmem

theorem hasAt_zero : ctx.HasAt 0 name ↔ ctx.declares name = true := by
  obtain ⟨scopes, globals, functionKind, classKind⟩ := ctx
  cases scopes with
  | nil => exact and_iff_right rfl
  | cons scope outer => exact List.contains_iff_mem.symm

theorem hasAt_enter_zero (names : List String) : (ctx.enter names).HasAt 0 name ↔ name ∈ names :=
  .rfl

theorem hasAt_enter_succ (names : List String) :
    (ctx.enter names).HasAt (d + 1) name ↔ ctx.HasAt d name := by
  unfold HasAt enter
  rw [List.getElem?_cons_succ, List.length_cons]
  cases ctx.scopes[d]? with
  | some names => rfl
  | none => rw [Nat.add_right_cancel_iff]

/-- A declaration adds its name to the scope that it stands in. -/
theorem hasAt_declare :
    (ctx.declare name).HasAt d other ↔ d = 0 ∧ other = name ∨ ctx.HasAt d other := by
  obtain ⟨scopes, globals, functionKind, classKind⟩ := ctx
  unfold HasAt declare
  cases scopes with
  | nil =>
    simp only [List.getElem?_nil, List.length_nil, Bool.or_eq_true, beq_iff_eq]
    exact and_or_left
  | cons scope outer =>
    cases d with
    | zero => simp only [List.getElem?_cons_zero, List.mem_cons, true_and]
    | succ d =>
      simp only [List.getElem?_cons_succ, List.length_cons, Nat.add_eq_zero_iff, Nat.one_ne_zero,
        and_false, false_and, false_or]

/-- No declaration is under way between statements. -/
theorem not_opens (ctx : Context) (name : String) : ¬ Site.Opens ctx name := by
  rintro (hnone | hnone) <;> cases hnone

theorem eq_of_opens_initializer (h : (ctx.initializer name).Opens other) : other = name := by
  rcases h with h | h
  · obtain ⟨-, heq⟩ := Option.ite_none_left_eq_some.mp h
    cases heq
    rfl
  · obtain ⟨-, heq⟩ := Option.ite_none_left_eq_some.mp h
    cases heq

theorem opens_superclass : (ctx.superclass name).Opens other ↔ other = name := by
  constructor
  · rintro (h | h)
    · cases h
    · cases h
      rfl
  · rintro rfl
    exact .inr rfl

/-- In its own initializer a name is new or declared already. -/
theorem hasAt_of_not_opens (h : ¬ (ctx.initializer name).Opens name) : ctx.HasAt 0 name := by
  rw [hasAt_zero]
  by_contra hnot
  refine h (.inl ?_)
  unfold initializer
  rw [if_neg hnot]

end Context
end Resolution

/-- The scope itself binds the name. -/
def Store.Has (store : Store) (scope : ScopeId) (name : String) : Prop :=
  ∃ v, store.findLocal? scope name = some v

namespace Store

theorem has_define (store : Store) {scope : ScopeId} (hscope : scope < store.scopes.size)
    (name : String) (v : Value) : (store.define scope name v).Has scope name := by
  refine ⟨v, ?_⟩
  rw [findLocal?_define, if_pos ⟨rfl, rfl, hscope⟩]

/-- The scope that is added has the names that it is made with. -/
theorem has_newScope (store : Store) {new : Scope} {name : String} {v : Value}
    (h : new.bindings.find? name = some v) : (store.newScope new).1.Has store.scopes.size name := by
  refine ⟨v, ?_⟩
  rw [findLocal?_newScope, if_pos rfl]
  exact h

end Store

namespace Evaluation
open Resolution

/-- The two names that only the language itself binds. -/
def Special (name : String) : Prop := name = "this" ∨ name = "super"

theorem not_special {name : Name} (h : name.Ordinary) : ¬ Special name.text := by
  rintro (hthis | hsuper)
  · exact h.1 hthis
  · exact h.2 hsuper

/-- All objects and bindings are there, and `this` and `super` are bound to the same values. -/
structure Preserves (a b : Store) : Prop where
  store : a.Extends b
  bound : ∀ {s name}, a.Has s name → b.Has s name
  special : ∀ {s name v}, Special name → a.findLocal? s name = some v →
    b.findLocal? s name = some v

namespace Preserves
variable {a b c : Store}

theorem refl (a : Store) : Preserves a a := ⟨.refl a, id, fun _ => id⟩

theorem trans (h : Preserves a b) (h' : Preserves b c) : Preserves a c :=
  ⟨h.store.trans h'.store, fun hs => h'.bound (h.bound hs),
    fun hname hs => h'.special hname (h.special hname hs)⟩

theorem define (store : Store) (scope : ScopeId) {name : String} (h : ¬ Special name) (v : Value) :
    Preserves store (store.define scope name v) := by
  refine ⟨.define store scope name v, fun {s other} hs => ?_, fun {s other w} hother hs => ?_⟩
  · obtain ⟨w, hw⟩ := hs
    unfold Store.Has
    rw [Store.findLocal?_define]
    split
    · exact ⟨v, rfl⟩
    · exact ⟨w, hw⟩
  · have hne : other ≠ name := by
      rintro rfl
      exact h hother
    rw [Store.findLocal?_define_of_ne store scope v s hne]
    exact hs

theorem newScope (store : Store) (scope : Scope) : Preserves store (store.newScope scope).1 := by
  have hold {s : ScopeId} {name : String} {v : Value} (hs : store.findLocal? s name = some v) :
      (store.newScope scope).1.findLocal? s name = some v := by
    rw [Store.findLocal?_newScope, if_neg (Nat.ne_of_lt (Store.lt_of_findLocal? hs))]
    exact hs
  exact ⟨.newScope store scope, fun ⟨v, hs⟩ => ⟨v, hold hs⟩, fun _ => hold⟩

/-- The scopes are the same. -/
theorem of_scopes {a b : Store} (h : a.Extends b) (hscopes : b.scopes = a.scopes) :
    Preserves a b := by
  have hold {s : ScopeId} {name : String} : b.findLocal? s name = a.findLocal? s name := by
    unfold Store.findLocal?
    rw [hscopes]
  refine ⟨h, fun ⟨v, hs⟩ => ⟨v, hold.trans hs⟩, fun _ hs => hold.trans hs⟩

end Preserves

/-- The outermost scope of every session. -/
def outermostScope : ScopeId := Machine.initial.globals

/-- The scopes from `scope` outwards bind what is declared at the site so far. -/
structure Covers (store : Store) (site : Site) (scope : ScopeId) : Prop where
  chain : store.ancestor? site.scopes.length scope = some outermostScope
  known : scope < store.scopes.size
  bound : ∀ {d name}, site.HasAt d name → (d = 0 → ¬ site.Opens name) →
    ∃ s, store.ancestor? d scope = some s ∧ store.Has s name

namespace Covers
variable {a b store : Store} {site : Site} {ctx : Context} {scope : ScopeId} {name : String}

theorem preserved (h : Covers a site scope) (hab : Preserves a b) : Covers b site scope := by
  constructor
  · exact hab.store.ancestor? h.chain
  · exact Nat.lt_of_lt_of_le h.known hab.store.scopes
  · intro d name hat hopens
    obtain ⟨s, hs, hhas⟩ := h.bound hat hopens
    exact ⟨s, hab.store.ancestor? hs, hab.bound hhas⟩

/-- A declaration is begun. -/
theorem initializer (h : Covers store ctx scope) (name : String) :
    Covers store (ctx.initializer name) scope := by
  constructor
  · exact (congrArg (store.ancestor? · scope) (ctx.length_declare name)).trans h.chain
  · exact h.known
  · intro d other hat hopens
    refine h.bound (d := d) ?_ fun _ => ctx.not_opens other
    rcases Context.hasAt_declare.mp hat with ⟨rfl, rfl⟩ | hold
    · exact Context.hasAt_of_not_opens (hopens rfl)
    · exact hold

/-- The superclass clause stands in a declaration that is under way. -/
theorem superclass (h : Covers store (ctx.initializer name) scope) :
    Covers store (ctx.superclass name) scope := by
  refine ⟨h.chain, h.known, fun {d other} hat hopens => h.bound (d := d) hat fun hd hother => ?_⟩
  exact hopens hd (Context.opens_superclass.mpr (Context.eq_of_opens_initializer hother))

/-- The declarations that were under way have come to an end. -/
theorem closed (h : Covers store site scope) (hbound : ∀ name, site.Opens name → store.Has scope name) :
    Covers store site.toContext scope := by
  refine ⟨h.chain, h.known, fun {d name} hat _ => ?_⟩
  by_cases hopens : d = 0 ∧ site.Opens name
  · obtain ⟨rfl, hopens⟩ := hopens
    exact ⟨scope, rfl, hbound name hopens⟩
  · exact h.bound (d := d) hat fun hd hopen => hopens ⟨hd, hopen⟩

/-- A declaration is over when the name is bound. -/
theorem declared (h : Covers store (ctx.initializer name) scope) (hbound : store.Has scope name) :
    Covers store (ctx.declare name) scope := by
  refine h.closed fun other hopens => ?_
  rw [Context.eq_of_opens_initializer hopens]
  exact hbound

/-- So is that of a class. -/
theorem inherited (h : Covers store (ctx.superclass name) scope) (hbound : store.Has scope name) :
    Covers store (ctx.declare name) scope := by
  refine h.closed fun other hopens => ?_
  rw [Context.opens_superclass.mp hopens]
  exact hbound

/-- Inside a new scope all others are one further away. -/
theorem enter (h : Covers store ctx scope) {new : Scope} (hnew : new.enclosing = some scope)
    {names : List String} (hnames : ∀ name ∈ names, ∃ v, new.bindings.find? name = some v) :
    Covers (store.newScope new).1 (ctx.enter names) store.scopes.size := by
  constructor
  · exact store.ancestor?_newScope hnew h.chain
  · exact Nat.lt_of_lt_of_eq (Nat.lt_succ_self _) (Array.size_push ..).symm
  · intro d name hat _
    cases d with
    | zero =>
      obtain ⟨v, hv⟩ := hnames name ((Context.hasAt_enter_zero names).mp hat)
      exact ⟨_, rfl, store.has_newScope hv⟩
    | succ d =>
      have hold := (Context.hasAt_enter_succ names).mp hat
      obtain ⟨s, hs, hhas⟩ := h.bound hold fun _ => ctx.not_opens name
      exact ⟨s, store.ancestor?_newScope hnew hs, (Preserves.newScope store new).bound hhas⟩

end Covers
end Evaluation
end Lox
