import Lox.Syntax.References

/-!
# Well-formed trees

What holds of every tree that is read from a source, whatever errors it has: no name is `this` or
`super`, the branches of an `if` and the body of a loop declare nothing in the scope around them,
and the references have numbers of their own.
-/
namespace Lox

/-- The name is none of the two that only the language itself binds. -/
def Name.Ordinary (name : Name) : Prop := name.text ≠ "this" ∧ name.text ≠ "super"

/-- Only the reference to `this` has that name, and none is named `super`. -/
def Reference.Proper (r : Reference) : Prop :=
  match r.kind with
  | .variable | .assign => r.name.Ordinary
  | .this => r.name.text = "this"
  | .super => True

/-- The references have different numbers from `lo` on and below `hi`. -/
structure Numbered (lo hi : Nat) (references : List Reference) : Prop where
  nodup : (references.map (·.id)).Nodup
  bounds : ∀ r ∈ references, lo ≤ r.id ∧ r.id < hi
  proper : ∀ r ∈ references, r.Proper

namespace Numbered
variable {lo mid hi : Nat} {r : Reference} {a b : List Reference}

theorem nil : Numbered lo hi [] := ⟨List.nodup_nil, nofun, nofun⟩

theorem mono (h : Numbered lo hi a) {lo' hi' : Nat} (hlo : lo' ≤ lo) (hhi : hi ≤ hi') :
    Numbered lo' hi' a := by
  refine ⟨h.nodup, fun r hr => ?_, h.proper⟩
  have hbounds := h.bounds r hr
  lia

theorem singleton (r : Reference) (hr : r.Proper) : Numbered r.id (r.id + 1) [r] := by
  refine ⟨by simp, fun s hs => ?_, fun s hs => ?_⟩
  · rw [List.mem_singleton] at hs
    subst hs
    lia
  · rw [List.mem_singleton] at hs
    exact hs ▸ hr

theorem append_of_disjoint (ha : Numbered lo hi a) (hb : Numbered lo hi b)
    (h : ∀ r ∈ a, ∀ s ∈ b, r.id ≠ s.id) : Numbered lo hi (a ++ b) := by
  refine ⟨?_, ?_, ?_⟩
  · rw [List.map_append, List.nodup_append]
    refine ⟨ha.nodup, hb.nodup, ?_⟩
    simp only [List.mem_map]
    rintro _ ⟨r, hr, rfl⟩ _ ⟨s, hs, rfl⟩
    exact h r hr s hs
  · intro r hr
    exact (List.mem_append.mp hr).elim (ha.bounds r) (hb.bounds r)
  · intro r hr
    exact (List.mem_append.mp hr).elim (ha.proper r) (hb.proper r)

theorem append (ha : Numbered lo mid a) (hb : Numbered mid hi b) (hlo : lo ≤ mid) (hhi : mid ≤ hi) :
    Numbered lo hi (a ++ b) := by
  refine (ha.mono (Nat.le_refl _) hhi).append_of_disjoint (hb.mono hlo (Nat.le_refl _)) ?_
  intro r hr s hs
  have hra := ha.bounds r hr
  have hsb := hb.bounds s hs
  lia

/-- The references on the left may be those numbered last. -/
theorem append_swap (ha : Numbered mid hi a) (hb : Numbered lo mid b) (hlo : lo ≤ mid)
    (hhi : mid ≤ hi) : Numbered lo hi (a ++ b) := by
  refine (ha.mono hlo (Nat.le_refl _)).append_of_disjoint (hb.mono (Nat.le_refl _) hhi) ?_
  intro r hr s hs
  have hra := ha.bounds r hr
  have hsb := hb.bounds s hs
  lia

end Numbered

namespace Stmt

/-- The name that a declaration adds to the scope it stands in. -/
def declaredName? : Stmt → Option Name
  | .varDecl name _ => some name
  | .funDecl function => some function.name
  | .classDecl name _ _ => some name
  | _ => none

mutual

/-- Names are ordinary, and what stands in a branch or as the body of a loop is no declaration. -/
def WellFormed : Stmt → Prop
  | .expression _ | .print _ | .returnWith _ _ => True
  | .varDecl name _ => name.Ordinary
  | .block body => AllWellFormed body
  | .ifElse _ thenBranch none => thenBranch.declaredName? = none ∧ thenBranch.WellFormed
  | .ifElse _ thenBranch (some elseBranch) =>
    (thenBranch.declaredName? = none ∧ thenBranch.WellFormed) ∧
      elseBranch.declaredName? = none ∧ elseBranch.WellFormed
  | .whileLoop _ body => body.declaredName? = none ∧ body.WellFormed
  | .funDecl function => function.name.Ordinary ∧ FunctionWellFormed function
  | .classDecl name _ methods => name.Ordinary ∧ MethodsWellFormed methods

def AllWellFormed : List Stmt → Prop
  | [] => True
  | first :: rest => first.WellFormed ∧ AllWellFormed rest

/-- The body of a function is well formed, and so are the names of its parameters. -/
def FunctionWellFormed : FunctionOf Stmt → Prop
  | ⟨_, parameters, body⟩ => (∀ parameter ∈ parameters, parameter.Ordinary) ∧ AllWellFormed body

def MethodsWellFormed : List (FunctionOf Stmt) → Prop
  | [] => True
  | first :: rest => FunctionWellFormed first ∧ MethodsWellFormed rest

end

end Stmt
end Lox
