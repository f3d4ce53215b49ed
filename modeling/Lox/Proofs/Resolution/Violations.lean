import Lox.Proofs.Resolution.Occurrences

/-!
# What is forbidden

The uses of names and of `return` that a program must not have. Whether an occurrence is one of
them, and with what error it is reported, follows from the site that it stands at. A clean
occurrence is none of them.
-/
namespace Lox
namespace Resolution

/-- The occurrence is forbidden and is reported with the error. -/
inductive Violates : Occurrence → ResolutionError → Prop where
  | declaredTwice {site : Site} {scope : List String} {outer : List (List String)} {name : Name} :
    site.scopes = scope :: outer → name.text ∈ scope →
      Violates ⟨site, .declaration name⟩ ⟨.declaredTwice, name⟩
  | readInOwnInitializer {site : Site} {id : NodeId} {name : Name} :
    site.opening = some (.initializer name.text) →
      Violates ⟨site, .reference ⟨.variable, id, name⟩⟩ ⟨.readInOwnInitializer, name⟩
  | inheritsFromItself {site : Site} {id : NodeId} {name : Name} :
    site.opening = some (.superclass name.text) →
      Violates ⟨site, .reference ⟨.variable, id, name⟩⟩ ⟨.inheritsFromItself, name⟩
  | thisOutsideClass {site : Site} {id : NodeId} {name : Name} : site.classKind = none →
    Violates ⟨site, .reference ⟨.this, id, name⟩⟩ ⟨.thisOutsideClass, name⟩
  | superOutsideClass {site : Site} {id : NodeId} {method : Name} : site.classKind = none →
    Violates ⟨site, .reference ⟨.super, id, method⟩⟩ ⟨.superOutsideClass, ⟨"super", method.line⟩⟩
  | superWithoutSuperclass {site : Site} {id : NodeId} {method : Name} :
    site.classKind = some .base →
      Violates ⟨site, .reference ⟨.super, id, method⟩⟩
        ⟨.superWithoutSuperclass, ⟨"super", method.line⟩⟩
  | returnOutsideFunction {site : Site} {line : Nat} {hasValue : Bool} : site.functionKind = none →
    Violates ⟨site, .exit line hasValue⟩ ⟨.returnOutsideFunction, ⟨"return", line⟩⟩
  | valueFromInitializer {site : Site} {line : Nat} : site.functionKind = some .initializer →
    Violates ⟨site, .exit line true⟩ ⟨.valueFromInitializer, ⟨"return", line⟩⟩

/-- The error that a reference is reported with at a site. -/
def Site.referenceError? (site : Site) (r : Reference) : Option ResolutionError :=
  match r.kind with
  | .variable =>
    match site.opening with
    | some (.initializer name) =>
      if name = r.name.text then some ⟨.readInOwnInitializer, r.name⟩ else none
    | some (.superclass name) =>
      if name = r.name.text then some ⟨.inheritsFromItself, r.name⟩ else none
    | none => none
  | .assign => none
  | .this => if site.classKind = none then some ⟨.thisOutsideClass, r.name⟩ else none
  | .super =>
    match site.classKind with
    | none => some ⟨.superOutsideClass, ⟨"super", r.name.line⟩⟩
    | some .base => some ⟨.superWithoutSuperclass, ⟨"super", r.name.line⟩⟩
    | some .derived => none

/-- The error that an occurrence is reported with. -/
def Occurrence.violation? (o : Occurrence) : Option ResolutionError :=
  match o.item with
  | .reference r => o.site.referenceError? r
  | .declaration name =>
    match o.site.scopes with
    | [] => none
    | scope :: _ => if scope.contains name.text then some ⟨.declaredTwice, name⟩ else none
  | .exit line hasValue =>
    match o.site.functionKind, hasValue with
    | none, _ => some ⟨.returnOutsideFunction, ⟨"return", line⟩⟩
    | some .initializer, true => some ⟨.valueFromInitializer, ⟨"return", line⟩⟩
    | _, _ => none

theorem referenceError?_eq_some {site : Site} {r : Reference} {e : ResolutionError} :
    site.referenceError? r = some e ↔ Violates ⟨site, .reference r⟩ e := by
  obtain ⟨kind, id, name⟩ := r
  unfold Site.referenceError?
  constructor
  · intro h
    match kind, h with
    | .variable, h =>
      dsimp only at h
      split at h
      · next hopening =>
        obtain ⟨hname, heq⟩ := Option.ite_none_right_eq_some.mp h
        cases heq
        rw [hname] at hopening
        exact .readInOwnInitializer hopening
      · next hopening =>
        obtain ⟨hname, heq⟩ := Option.ite_none_right_eq_some.mp h
        cases heq
        rw [hname] at hopening
        exact .inheritsFromItself hopening
      · cases h
    | .this, h =>
      obtain ⟨hclass, heq⟩ := Option.ite_none_right_eq_some.mp h
      cases heq
      exact .thisOutsideClass hclass
    | .super, h =>
      dsimp only at h
      split at h
      · next hclass =>
        cases h
        exact .superOutsideClass hclass
      · next hclass =>
        cases h
        exact .superWithoutSuperclass hclass
      · cases h
  · intro h
    cases h with
    | readInOwnInitializer h | inheritsFromItself h =>
      dsimp only
      rw [h]
      exact if_pos rfl
    | thisOutsideClass h => exact if_pos h
    | superOutsideClass h | superWithoutSuperclass h =>
      dsimp only
      rw [h]

/-- An occurrence has an error exactly if it is forbidden. -/
theorem Occurrence.violation?_eq_some {o : Occurrence} {e : ResolutionError} :
    o.violation? = some e ↔ Violates o e := by
  obtain ⟨site, item⟩ := o
  cases item with
  | reference r => exact referenceError?_eq_some
  | declaration name =>
    unfold violation?
    constructor
    · intro h
      dsimp only at h
      split at h
      · cases h
      · next scope outer hscopes =>
        split at h
        · next hmem =>
          cases h
          exact .declaredTwice hscopes (List.contains_iff_mem.mp hmem)
        · cases h
    · intro h
      cases h with
      | declaredTwice hscopes hmem =>
        dsimp only
        rw [hscopes]
        exact if_pos (List.contains_iff_mem.mpr hmem)
  | exit line hasValue =>
    unfold violation?
    constructor
    · intro h
      dsimp only at h
      split at h
      · next hkind =>
        cases h
        exact .returnOutsideFunction hkind
      · next hkind =>
        cases h
        exact .valueFromInitializer hkind
      · cases h
    · intro h
      cases h with
      | returnOutsideFunction hkind | valueFromInitializer hkind =>
        dsimp only
        rw [hkind]

/-- The occurrence is not forbidden. -/
def Occurrence.Clean (o : Occurrence) : Prop := o.violation? = none

namespace Occurrence.Clean
variable {site : Site} {r : Reference} {name : Name} {line : Nat} {hasValue : Bool}

theorem not_violates {o : Occurrence} (h : o.Clean) (e : ResolutionError) : ¬ Violates o e := by
  intro hviolates
  cases h.symm.trans (violation?_eq_some.mpr hviolates)

/-- A local name is new in its scope. -/
theorem undeclared (h : Clean ⟨site, .declaration name⟩) :
    ∀ scope ∈ site.scopes.head?, name.text ∉ scope := by
  intro scope hscope hmem
  obtain ⟨outer, hscopes⟩ := List.head?_eq_some_iff.mp hscope
  exact h.not_violates _ (.declaredTwice hscopes hmem)

/-- `this` stands in a class. -/
theorem inClass (h : Clean ⟨site, .reference r⟩) (hkind : r.kind = .this) :
    site.classKind.isSome = true := by
  obtain ⟨kind, id, name⟩ := r
  obtain rfl : kind = .this := hkind
  rw [Option.isSome_iff_ne_none]
  exact fun hnone => h.not_violates _ (.thisOutsideClass hnone)

/-- `super` stands in a class with a superclass. -/
theorem inDerived (h : Clean ⟨site, .reference r⟩) (hkind : r.kind = .super) :
    site.classKind = some .derived := by
  obtain ⟨kind, id, name⟩ := r
  obtain rfl : kind = .super := hkind
  cases hclass : site.classKind with
  | none => exact (h.not_violates _ (.superOutsideClass hclass)).elim
  | some kind =>
    cases kind with
    | base => exact (h.not_violates _ (.superWithoutSuperclass hclass)).elim
    | derived => rfl

/-- A `return` stands in a function. -/
theorem inFunction (h : Clean ⟨site, .exit line hasValue⟩) : site.functionKind.isSome = true := by
  rw [Option.isSome_iff_ne_none]
  exact fun hnone => h.not_violates _ (.returnOutsideFunction hnone)

end Occurrence.Clean

end Resolution
end Lox
