import Lox.Proofs.Resolution.Exact
import Lox.Proofs.Session.Safety
import Mathlib

/-!
# The distances of a session

Whatever a session has run before and whatever errors there are, after the static pass each
reference of a program has the distance that the text around it tells, or has none, and all other
references keep theirs.
-/
namespace Lox
open Evaluation Resolution

namespace Session

/-- After any uses of sources, no reference to come has a distance. -/
theorem fresh_after (fuel : Nat) (uses : List Use) {id : NodeId}
    (h : ((initial fuel).after uses).next ≤ id) :
    ((initial fuel).after uses).machine.distances.find? id = none := by
  obtain ⟨o, hlinked⟩ := (linked_initial (Observed.invariant False) fuel).after uses
  exact hlinked.fresh id h

/-- After any uses of sources, the pass over statements whose references are new records the
distances of exactly these references: the number of scope boundaries to the innermost local scope
around that declares the name so far, and none where there is no such scope or where `this` or
`super` must not stand. -/
theorem distances_exact (fuel : Nat) (uses : List Use) {program : List Stmt}
    (hnodup : ((Stmt.listReferences program).map (·.id)).Nodup)
    (hnew : ∀ r ∈ Stmt.listReferences program, ((initial fuel).after uses).next ≤ r.id) :
    let session := (initial fuel).after uses
    let table := (session.resolve program).2.machine.distances
    let occurrences := Stmt.listOccurrences { globals := session.knows } program
    (occurrences.filterMap Occurrence.reference?).Perm (Stmt.listReferences program) ∧
      (∀ o ∈ occurrences, ∀ r, o.item = .reference r →
        (∀ d, table.find? r.id = some d ↔ o.site.Allows r ∧ o.site.DeclaredAt r.sought d) ∧
          (table.find? r.id = none ↔ ¬ (o.site.Allows r ∧ ∃ d, o.site.DeclaredAt r.sought d))) ∧
        ∀ id, (∀ r ∈ Stmt.listReferences program, r.id ≠ id) →
          table.find? id = session.machine.distances.find? id := by
  intro session table occurrences
  have hfresh (r : Reference) (hr : r ∈ Stmt.listReferences program) :
      session.machine.distances.find? r.id = none := fresh_after fuel uses (hnew r hr)
  have hsettled := settled_ofProgram session.knows hnodup hfresh
  refine ⟨Stmt.references_listOccurrences _ program, fun o ho r hr => ?_,
    fun id hid => find?_ofProgram session.knows hid⟩
  have hfound : table.find? r.id = o.site.expected? r := by
    have hsame := hsettled o ho
    unfold Occurrence.Settled at hsame
    rw [hr] at hsame
    exact hsame
  rw [hfound]
  refine ⟨fun d => Context.expected?_eq_some, ?_⟩
  rw [Option.eq_none_iff_forall_ne_some]
  constructor
  · rintro hnone ⟨hallows, d, hdeclared⟩
    exact hnone d (Context.expected?_eq_some.mpr ⟨hallows, hdeclared⟩)
  · intro hnot d hd
    obtain ⟨hallows, hdeclared⟩ := Context.expected?_eq_some.mp hd
    exact hnot ⟨hallows, d, hdeclared⟩

/-- A class with a superclass in a block, whose method refers to each scope around it, and a
reference before the declaration of its name. -/
def layeredProgram : List Stmt :=
  [.classDecl ⟨"A", 1⟩ none [],
    .block
      [.classDecl ⟨"B", 2⟩ (some ⟨0, ⟨"A", 2⟩⟩)
        [⟨⟨"m", 3⟩, [⟨"x", 3⟩],
          [.expression (.super 1 4 ⟨"m", 4⟩), .print (.this 2 5),
            .print (.variable 3 ⟨"x", 6⟩), .print (.variable 4 ⟨"B", 7⟩)]⟩],
      .print (.variable 5 ⟨"a", 9⟩), .varDecl ⟨"a", 10⟩ none]]

/-- The distances count the scopes of the function, of `this` and of `super`, and the block. -/
theorem distances_exact_layered :
    let table := ((initial 9).resolve layeredProgram).2.machine.distances
    let occurrences := Stmt.listOccurrences { globals := (initial 9).knows } layeredProgram
    [0, 1, 2, 3, 4, 5].map table.find? = [none, some 2, some 1, some 0, some 3, none] ∧
      ∀ o ∈ occurrences, ∀ r, o.item = .reference r →
        (∀ d, table.find? r.id = some d ↔ o.site.Allows r ∧ o.site.DeclaredAt r.sought d) ∧
          (table.find? r.id = none ↔ ¬ (o.site.Allows r ∧ ∃ d, o.site.DeclaredAt r.sought d)) := by
  have hnew : ∀ r ∈ Stmt.listReferences layeredProgram, ((initial 9).after []).next ≤ r.id :=
    fun r _ => Nat.zero_le r.id
  refine ⟨?_, (distances_exact 9 [] (by decide) hnew).2.1⟩
  cbv

end Session
end Lox
