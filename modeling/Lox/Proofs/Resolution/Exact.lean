import Lox.Proofs.Resolution.Pass

/-!
# The pass finds what the text says

The distance of a reference is the number of scope boundaries between it and the scope that
declares its name, and the errors are those of the forbidden occurrences. Both are said here
without the scopes that the pass keeps: what is declared at a place, and in which function and class
the place is, is part of the site of an occurrence.
-/
namespace Lox

/-- The name under which a reference is looked up. -/
def Reference.sought (r : Reference) : String :=
  match r.kind with
  | .variable | .assign => r.name.text
  | .this => "this"
  | .super => "super"

namespace Resolution

namespace Context

/-- The reference may stand here: `this` in a class, `super` in one that has a superclass. -/
def Allows (ctx : Context) (r : Reference) : Prop :=
  match r.kind with
  | .variable | .assign => True
  | .this => ctx.classKind ≠ none
  | .super => ctx.classKind = some .derived

/-- Of the scopes that have the name, the innermost one is `d` boundaries away. -/
structure DeclaredAt (ctx : Context) (name : String) (d : Nat) : Prop where
  declared : ∃ names, ctx.scopes[d]? = some names ∧ name ∈ names
  nearest : ∀ i < d, ∀ names, ctx.scopes[i]? = some names → name ∉ names

variable {ctx : Context} {name : String} {d : Nat} {r : Reference}

theorem distance?_eq_some : ctx.distance? name = some d ↔ ctx.DeclaredAt name d := by
  unfold distance?
  rw [List.findIdx?_eq_some_iff_getElem]
  constructor
  · rintro ⟨hlt, hmem, hbefore⟩
    constructor
    · exact ⟨_, List.getElem?_eq_getElem hlt, List.contains_iff_mem.mp hmem⟩
    · intro i hi names hnames hname
      obtain ⟨_, heq⟩ := List.getElem?_eq_some_iff.mp hnames
      have hnot := hbefore i hi
      rw [heq] at hnot
      exact hnot (List.contains_iff_mem.mpr hname)
  · rintro ⟨⟨names, hnames, hmem⟩, hnearest⟩
    obtain ⟨hlt, heq⟩ := List.getElem?_eq_some_iff.mp hnames
    refine ⟨hlt, ?_, fun i hi => ?_⟩
    · rw [heq]
      exact List.contains_iff_mem.mpr hmem
    · intro hcontains
      have hi' := Nat.lt_trans hi hlt
      exact hnearest i hi _ (List.getElem?_eq_getElem hi') (List.contains_iff_mem.mp hcontains)

/-- A reference has a distance if it may stand here and its name is declared in a scope around. -/
theorem expected?_eq_some :
    ctx.expected? r = some d ↔ ctx.Allows r ∧ ctx.DeclaredAt r.sought d := by
  rw [← distance?_eq_some]
  obtain ⟨kind, id, name⟩ := r
  match kind with
  | .variable | .assign => exact (and_iff_right trivial).symm
  | .this =>
    refine Option.ite_none_right_eq_some.trans (and_congr_left' ?_)
    exact Option.isSome_iff_ne_none
  | .super => exact Option.ite_none_right_eq_some

end Context

/-- Whatever global variables there are, the errors of the pass are one for each forbidden
occurrence, in the order of the walk. A program has none exactly if nothing in it is forbidden. -/
theorem errors_exact (known : String → Bool) (table : Distances) (program : List Stmt) :
    let occurrences := Stmt.listOccurrences { globals := known } program
    let errors := (ofProgram known table program).errors
    errors = occurrences.filterMap Occurrence.violation? ∧
      (∀ o ∈ occurrences, ∀ e, o.violation? = some e ↔ Violates o e) ∧
        (errors = [] ↔ ∀ o ∈ occurrences, ∀ e, ¬ Violates o e) := by
  intro occurrences errors
  have herrors : errors = occurrences.filterMap Occurrence.violation? :=
    errors_ofProgram known table program
  refine ⟨herrors, fun o _ e => Occurrence.violation?_eq_some, ?_⟩
  rw [herrors, List.filterMap_eq_nil_iff]
  constructor
  · intro hnone o ho
    exact Occurrence.Clean.not_violates (hnone o ho)
  · intro hnone o ho
    rw [Option.eq_none_iff_forall_ne_some]
    exact fun e he => hnone o ho e (Occurrence.violation?_eq_some.mp he)

end Resolution
end Lox
