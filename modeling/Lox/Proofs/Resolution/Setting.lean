import Lox.Proofs.Resolution.Pass

/-!
# What evaluation may rely on

A setting has the distances that were found and tells whether the programs are clean. It admits an
occurrence if the distance of a reference is the expected one. In a setting that is not strict a
reference may also have no distance, as if no pass had gone over it.
-/
namespace Lox
namespace Resolution

structure Setting where
  table : Distances
  /-- The first number that no reference has. -/
  next : NodeId
  /-- Whether the static pass has found no errors. -/
  strict : Prop

namespace Setting

structure AdmitsReference (setting : Setting) (ctx : Context) (r : Reference) : Prop where
  proper : r.Proper
  known : r.id < setting.next
  distance : setting.table.find? r.id = ctx.expected? r ∨
    ¬ setting.strict ∧ setting.table.find? r.id = none

structure Admits (setting : Setting) (o : Occurrence) : Prop where
  reference : ∀ r, o.item = .reference r → setting.AdmitsReference o.site.toContext r
  clean : setting.strict → o.Clean

/-- Outside of functions no clean program returns. -/
theorem not_admits_exit {setting : Setting} {site : Site} {line : Nat} {hasValue : Bool}
    (hstrict : setting.strict) (hkind : site.functionKind = none) :
    ¬ setting.Admits ⟨site, .exit line hasValue⟩ := by
  intro hadmits
  have hinside := (hadmits.clean hstrict).inFunction
  rw [hkind] at hinside
  cases hinside

/-- A later setting, in which the distances found so far are the same. -/
structure Later (a b : Setting) : Prop where
  next : a.next ≤ b.next
  table : ∀ id < a.next, b.table.find? id = a.table.find? id
  strict : a.strict ↔ b.strict

theorem Admits.later {a b : Setting} {o : Occurrence} (h : a.Admits o) (hlater : a.Later b) :
    b.Admits o := by
  constructor
  · intro r hr
    obtain ⟨hproper, hknown, hdistance⟩ := h.reference r hr
    constructor
    · exact hproper
    · exact Nat.lt_of_lt_of_le hknown hlater.next
    · rw [hlater.table _ hknown, ← hlater.strict]
      exact hdistance
  · intro hstrict
    exact h.clean (hlater.strict.mpr hstrict)

end Setting

namespace Context

theorem distance?_lt {ctx : Context} {name : String} {d : Nat} (h : ctx.distance? name = some d) :
    d < ctx.scopes.length := by
  obtain ⟨hlt, -⟩ := List.findIdx?_eq_some_iff_getElem.mp h
  exact hlt

theorem expected?_lt {ctx : Context} {r : Reference} {d : Nat} (h : ctx.expected? r = some d) :
    d < ctx.scopes.length := by
  unfold expected? at h
  split at h
  · exact distance?_lt h
  · exact distance?_lt h
  · split at h
    · exact distance?_lt h
    · cases h
  · split at h
    · exact distance?_lt h
    · cases h

theorem distance?_declare_of_ne (ctx : Context) {name other : String} (h : other ≠ name) :
    (ctx.declare name).distance? other = ctx.distance? other := by
  obtain ⟨scopes, globals, functionKind, classKind⟩ := ctx
  cases scopes with
  | nil => rfl
  | cons scope outer =>
    unfold distance? declare
    simp [List.findIdx?_cons, h]

theorem distance?_enter (ctx : Context) (name : String) :
    (ctx.enter []).distance? name = (ctx.distance? name).map (· + 1) := by
  unfold distance? enter
  rw [List.findIdx?_cons]
  rfl

/-- The scope with `super` is the one around that with `this`. -/
theorem distance?_super_method (around : Context) :
    (around.method .derived).distance? "super" = some 1 := rfl

end Context

section
variable {lo hi : NodeId} {table : Distances} {program : List Stmt} {known : String → Bool}

/-- The references of a program that was read are known when its numbers are. -/
theorem reference_of_occurrence (hnumbered : Numbered lo hi (Stmt.listReferences program))
    {ctx : Context} {o : Occurrence} (ho : o ∈ Stmt.listOccurrences ctx program) {r : Reference}
    (hr : o.item = .reference r) : r.Proper ∧ lo ≤ r.id ∧ r.id < hi := by
  have hmem := Stmt.mem_listReferences ho hr
  exact ⟨hnumbered.proper r hmem, hnumbered.bounds r hmem⟩

/-- After the static pass every occurrence of the program is admitted. -/
theorem admits_ofProgram {strict : Prop} (hnumbered : Numbered lo hi (Stmt.listReferences program))
    (hfresh : ∀ id, lo ≤ id → table.find? id = none)
    (hclean : strict → (ofProgram known table program).errors = []) :
    ∀ o ∈ Stmt.listOccurrences { globals := known } program,
      Setting.Admits ⟨(ofProgram known table program).distances, hi, strict⟩ o := by
  intro o ho
  constructor
  · intro r hr
    obtain ⟨hproper, -, hlt⟩ := reference_of_occurrence hnumbered ho hr
    have hsettled := settled_ofProgram known hnumbered.nodup
      (fun r hr => hfresh r.id (hnumbered.bounds r hr).1) o ho
    unfold Occurrence.Settled at hsettled
    rw [hr] at hsettled
    exact ⟨hproper, hlt, .inl hsettled⟩
  · intro hstrict
    exact clean_ofProgram known (hclean hstrict) o ho

/-- Without the static pass no reference has a distance. -/
theorem admits_unresolved (hnumbered : Numbered lo hi (Stmt.listReferences program))
    (hfresh : ∀ id, lo ≤ id → table.find? id = none) (ctx : Context) :
    ∀ o ∈ Stmt.listOccurrences ctx program, Setting.Admits ⟨table, hi, False⟩ o := by
  intro o ho
  constructor
  · intro r hr
    obtain ⟨hproper, hle, hlt⟩ := reference_of_occurrence hnumbered ho hr
    exact ⟨hproper, hlt, .inr ⟨id, hfresh r.id hle⟩⟩
  · exact False.elim

end
end Resolution
end Lox
