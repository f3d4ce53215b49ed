import Lox.Proofs.Evaluation.Congruence

/-!
# More fuel

An evaluation that ends with some fuel ends in the same way with more of it. An evaluation
approximates another one if they do the same unless it runs out of fuel; all rules preserve this, so
by induction on the fuel an evaluator approximates itself with more fuel.
-/
namespace Lox.Evaluation
open Operations
variable {σ α β : Type}

/-- `y` does what `x` does, unless `x` runs out of fuel. -/
def Approximates (x y : EStateM Halt σ α) : Prop :=
  ∀ s, resultOf (x s) = .error .outOfFuel ∨ x s = y s

namespace Approximates

theorem refl (x : EStateM Halt σ α) : Approximates x x := fun _ => .inr rfl

/-- Out of fuel from the start, nothing was done that is not done with more. -/
theorem outOfFuel (y : EStateM Halt σ α) : Approximates (throw .outOfFuel) y := fun _ => .inl rfl

theorem bind {x y : EStateM Halt σ α} {f g : α → EStateM Halt σ β} (h : Approximates x y)
    (hfg : ∀ a, Approximates (f a) (g a)) : Approximates (x >>= f) (y >>= g) := by
  intro s
  change resultOf (EStateM.bind x f s) = _ ∨ EStateM.bind x f s = EStateM.bind y g s
  unfold EStateM.bind
  rcases h s with hout | hsame
  · left
    cases hx : x s with
    | ok a s' =>
      rw [hx] at hout
      cases hout
    | error halt s' =>
      rw [hx] at hout
      cases hout
      rfl
  · rw [← hsame]
    cases x s with
    | ok a s' => exact hfg a s'
    | error halt s' => exact .inr rfl

/-- Whatever is set back in the end, this is so afterwards. -/
theorem leaving {x y : EStateM Halt σ α} (h : Approximates x y) (back : σ → σ) (s : σ) :
    resultOf (Evaluation.leaving back (x s)) = .error .outOfFuel ∨
      Evaluation.leaving back (x s) = Evaluation.leaving back (y s) := by
  rw [resultOf_leaving]
  exact (h s).imp_right (congrArg _)

end Approximates

/-- All rules preserve the approximation. -/
def approximation (σ : Type) : Congruence σ σ where
  Rel := Approximates
  pure _ := .refl _
  throw _ := .refl _
  bind := Approximates.bind

/-- A loop may also repeat more often. -/
theorem approximates_loop {x y : EStateM Halt σ Bool} {x' y' : EStateM Halt σ Completion}
    (h : Approximates x y) (h' : Approximates x' y') {limit limit' : Nat} (hlimit : limit ≤ limit') :
    Approximates (loop x x' limit) (loop y y' limit') := by
  induction limit generalizing limit' with
  | zero => exact .outOfFuel _
  | succ limit ih =>
    obtain ⟨limit', rfl⟩ : ∃ k, limit' = k + 1 := ⟨limit' - 1, by omega⟩
    refine h.bind fun holds => ?_
    cases holds with
    | false => exact .refl _
    | true =>
      refine h'.bind fun completion => ?_
      cases completion with
      | normal => exact ih (Nat.le_of_succ_le_succ hlimit)
      | returned value => exact .refl _

/-- The operations that evaluate something do the same if it does. -/
structure Operations.Steady (ops : Operations σ) : Prop where
  asCall : ∀ {x y}, Approximates x y → Approximates (ops.asCall x) (ops.asCall y)
  inBlock : ∀ {x y}, Approximates x y → Approximates (ops.inBlock x) (ops.inBlock y)
  inCall : ∀ {x y} f object arguments, Approximates x y →
    Approximates (ops.inCall f object arguments x) (ops.inCall f object arguments y)

theorem Operations.Steady.ofOperations {ops : Operations σ} (steady : ops.Steady) :
    (approximation σ).OfOperations ops ops where
  getStore := .refl _
  printLine _ := .refl _
  readVariable _ _ := .refl _
  writeVariable _ _ _ := .refl _
  superMethod _ _ _ := .refl _
  setField _ _ _ := .refl _
  newInstance _ := .refl _
  bindTo _ _ := .refl _
  declare _ := .refl _
  define _ _ := .refl _
  newFunction _ := .refl _
  newClass _ _ _ := .refl _
  inBlock := steady.inBlock
  inCall := steady.inCall
  receiver _ := .refl _

section
variable {ops : Operations σ} (steady : ops.Steady) {fuel fuel' : Nat} (hfuel : fuel ≤ fuel')
include steady hfuel

theorem approximates_evaluators :
    (approximation σ).OfParts ⟨fuel, ops.evaluate fuel, ops.execute fuel⟩
      ⟨fuel', ops.evaluate fuel', ops.execute fuel'⟩ := by
  induction fuel generalizing fuel' with
  | zero =>
    refine ⟨fun e => ?_, fun s => ?_, fun h h' => approximates_loop h h' hfuel⟩
    · change Approximates (ops.evaluate 0 e) _
      rw [Operations.evaluate]
      exact .outOfFuel _
    · change Approximates (ops.execute 0 s) _
      rw [Operations.execute]
      exact .outOfFuel _
  | succ fuel ih =>
    obtain ⟨fuel', rfl⟩ : ∃ k, fuel' = k + 1 := ⟨fuel' - 1, by omega⟩
    have parts := ih (Nat.le_of_succ_le_succ hfuel)
    have hops := steady.ofOperations.ofCalls
    refine ⟨fun e => ?_, fun s => ?_, fun h h' => approximates_loop h h' hfuel⟩
    · change Approximates (ops.evaluate (fuel + 1) e) (ops.evaluate (fuel' + 1) e)
      rw [Operations.evaluate, Operations.evaluate, ← Operations.evaluateFormWith_callValue,
        ← Operations.evaluateFormWith_callValue]
      exact hops.evaluateFormWith parts.evaluate (hops.callValue parts (.refl _) steady.asCall) e
    · change Approximates (ops.execute (fuel + 1) s) (ops.execute (fuel' + 1) s)
      rw [Operations.execute, Operations.execute]
      exact hops.executeForm parts s

theorem approximates_interpret (program : List Stmt) :
    Approximates (ops.interpret fuel program) (ops.interpret fuel' program) := by
  have hexecute := (approximates_evaluators steady hfuel).execute
  refine ((approximation σ).runAll hexecute program).bind fun _ => ?_
  exact .refl _

end

theorem approximates_inScope {x y : Eval α} (h : Approximates x y) (scope : ScopeId) :
    Approximates (inScope scope x) (inScope scope y) := by
  intro m
  rw [inScope_apply, inScope_apply]
  exact h.leaving _ _

theorem approximates_asCall {x y : Eval α} (h : Approximates x y) :
    Approximates (asCall x) (asCall y) := by
  intro m
  rw [asCall_apply, asCall_apply]
  exact h.leaving _ _

theorem Operations.steady_machine : machine.Steady where
  asCall h := approximates_asCall h
  inBlock h := by
    refine (Approximates.refl _).bind fun m => ?_
    refine (Approximates.refl _).bind fun scope => ?_
    exact approximates_inScope h scope
  inCall f object arguments h := by
    refine (Approximates.refl _).bind fun scope => ?_
    exact approximates_inScope h scope

/-- A program that ends with some fuel ends in the same way with more. -/
theorem interpret_more {fuel fuel' : Nat} (hfuel : fuel ≤ fuel') (program : List Stmt) (m : Machine)
    (hend : resultOf (interpret fuel program m) ≠ .error .outOfFuel) :
    interpret fuel' program m = interpret fuel program m := by
  have happroximates := approximates_interpret Operations.steady_machine hfuel program m
  rw [Operations.machine_interpret, Operations.machine_interpret] at happroximates
  rcases happroximates with hout | hsame
  · exact absurd hout hend
  · exact hsame.symm

end Lox.Evaluation
