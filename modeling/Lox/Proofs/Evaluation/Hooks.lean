import Lox.Proofs.Evaluation.Congruence
import Lox.Proofs.Evaluation.Lockstep

/-!
# Evaluators with hooks

An evaluator that follows the rules may do something more around each expression, each statement
and each call: it hands what the rule does to a hook, which says when it is done. With hooks that
let everything through, such an evaluator stays in step with every one that its operations simulate.
-/
namespace Lox.Evaluation
open Operations

/-- What is done around expressions, statements and calls of values. -/
structure Hooks (σ : Type) where
  expression : Expr → EStateM Halt σ Value → EStateM Halt σ Value
  statement : Stmt → EStateM Halt σ Completion → EStateM Halt σ Completion
  call : Value → (line : Nat) → List Value → EStateM Halt σ Value → EStateM Halt σ Value

namespace Hooks
variable {σ τ : Type}

section
variable (hooks : Hooks σ) (ops : Operations σ)

/-- Calls a value as the rules say, inside the hook. -/
def callValue (parts : Parts σ) (callee : Value) (line : Nat) (arguments : List Value) :
    EStateM Halt σ Value :=
  hooks.call callee line arguments (ops.callValue parts callee line arguments)

mutual

def evaluate : (fuel : Nat) → Expr → EStateM Halt σ Value
  | 0, _ => throw .outOfFuel
  | fuel + 1, e =>
    let parts : Parts σ := ⟨fuel, evaluate fuel, execute fuel⟩
    hooks.expression e (ops.evaluateFormWith parts (hooks.callValue ops parts) e)

def execute : (fuel : Nat) → Stmt → EStateM Halt σ Completion
  | 0, _ => throw .outOfFuel
  | fuel + 1, s => hooks.statement s (ops.executeForm ⟨fuel, evaluate fuel, execute fuel⟩ s)

end

/-- Runs a program until it ends, fails or returns. -/
def interpret (fuel : Nat) (program : List Stmt) : EStateM Halt σ Unit := do
  let _ ← runAll (hooks.execute ops fuel) program

end

/-- Whatever ends like `u` ends like it inside the hooks. -/
structure Transparent (hooks : Hooks τ) (r : Correspondence σ τ) : Prop where
  expression : ∀ {p w site s t u y} (e : Expr), r.States p w site s t →
    (∀ t', r.States p w site s t' → r.Sim p w site r.ValueOk u (y t')) →
      r.Sim p w site r.ValueOk u (hooks.expression e y t)
  statement : ∀ {p w site after s t u y post} (stmt : Stmt), r.States p w site s t →
    (∀ t', r.States p w site s t' → r.Sim p w after post u (y t')) →
      r.Sim p w after post u (hooks.statement stmt y t)
  call : ∀ {p w site s t u y callee arguments} (line : Nat), r.States p w site s t →
    r.ValueOk w callee → (∀ v ∈ arguments, r.ValueOk w v) →
    (∀ t', r.States p w site s t' → r.Sim p w site r.ValueOk u (y t')) →
      r.Sim p w site r.ValueOk u (hooks.call callee line arguments y t)

end Hooks

namespace Simulates
variable {σ τ : Type} {r : Correspondence σ τ} {a : Operations σ} {b : Operations τ}
  {hooks : Hooks τ} (sim : Simulates r a b) (transparent : hooks.Transparent r)
include sim transparent

theorem evaluatorsWithHooks (fuel : Nat) :
    r.Evaluators ⟨fuel, a.evaluate fuel, a.execute fuel⟩
      ⟨fuel, hooks.evaluate b fuel, hooks.execute b fuel⟩ := by
  induction fuel with
  | zero =>
    constructor
    · rfl
    · intro e p w site s t _ hs
      change r.Sim p w site _ (a.evaluate 0 e s) (hooks.evaluate b 0 e t)
      rw [Operations.evaluate, Hooks.evaluate]
      exact sim.throw hs (sim.halt_outOfFuel w)
    · intro stmt p w ctx s t _ hs
      change r.Sim p w _ _ (a.execute 0 stmt s) (hooks.execute b 0 stmt t)
      rw [Operations.execute, Hooks.execute]
      exact sim.throw hs (sim.halt_outOfFuel w)
  | succ fuel ih =>
    have hcall {p w site s t callee line arguments} (hs : r.States p w site s t)
        (hcallee : r.ValueOk w callee) (harguments : ∀ v ∈ arguments, r.ValueOk w v) :
        r.Sim p w site r.ValueOk
          (a.callValue ⟨fuel, a.evaluate fuel, a.execute fuel⟩ callee line arguments s)
          (hooks.callValue b ⟨fuel, hooks.evaluate b fuel, hooks.execute b fuel⟩ callee line
            arguments t) :=
      transparent.call line hs hcallee harguments fun t' hs' =>
        sim.callValue ih hs' hcallee harguments
    constructor
    · rfl
    · intro e p w site s t h hs
      change r.Sim p w site _ (a.evaluate (fuel + 1) e s) (hooks.evaluate b (fuel + 1) e t)
      rw [Operations.evaluate, Hooks.evaluate]
      exact transparent.expression e hs fun t' hs' =>
        sim.evaluateFormWith ih hcall e p w site s t' h hs'
    · intro stmt p w ctx s t h hs
      change r.Sim p w _ _ (a.execute (fuel + 1) stmt s) (hooks.execute b (fuel + 1) stmt t)
      rw [Operations.execute, Hooks.execute]
      exact transparent.statement stmt hs fun t' hs' =>
        sim.executeForm ih stmt p w ctx s t' h hs'

/-- With the same fuel a program ends alike with hooks. -/
theorem interpretWithHooks {p : r.Position} {w : r.World} {ctx : Resolution.Context} {s : σ} {t : τ}
    (fuel : Nat) {program : List Stmt} (h : Stmt.BodyWithin r.Admits ctx program)
    (hs : r.States p w ctx s t) :
    ∃ names, r.Sim p w (ctx.declareAll names) (fun _ _ => True) (a.interpret fuel program s)
      (hooks.interpret b fuel program t) := by
  obtain ⟨names, hrun⟩ := sim.runAll (sim.evaluatorsWithHooks transparent fuel).executes h hs
  refine ⟨names, sim.bind hrun fun _ w' s t _ hs _ => ?_⟩
  exact sim.pure hs trivial

end Simulates

namespace Congruence
variable {σ τ : Type} {c : Congruence σ τ} {a : Operations σ} {b : Operations τ}

/-- What is related is so inside the hooks. -/
structure OfHooks (c : Congruence σ τ) (hooks : Hooks σ) (hooks' : Hooks τ) : Prop where
  expression : ∀ {x y} e, c.Rel x y → c.Rel (hooks.expression e x) (hooks'.expression e y)
  statement : ∀ {x y} s, c.Rel x y → c.Rel (hooks.statement s x) (hooks'.statement s y)
  call : ∀ {x y} callee line arguments, c.Rel x y →
    c.Rel (hooks.call callee line arguments x) (hooks'.call callee line arguments y)

/-- Evaluators with hooks are related if what they consist of is. -/
theorem OfCalls.evaluatorsWithHooks {hooks : Hooks σ} {hooks' : Hooks τ} (ops : c.OfCalls a b)
    (hhooks : c.OfHooks hooks hooks') (hdepth : c.Rel (a.callDepth <$> get) (b.callDepth <$> get))
    (hcall : ∀ {v w}, c.Rel v w → c.Rel (a.asCall v) (b.asCall w)) (fuel : Nat) :
    c.OfParts ⟨fuel, hooks.evaluate a fuel, hooks.execute a fuel⟩
      ⟨fuel, hooks'.evaluate b fuel, hooks'.execute b fuel⟩ := by
  induction fuel with
  | zero =>
    refine ⟨fun e => ?_, fun s => ?_, fun h h' => c.loop h h' _⟩
    · change c.Rel (hooks.evaluate a 0 e) (hooks'.evaluate b 0 e)
      rw [Hooks.evaluate, Hooks.evaluate]
      exact c.throw _
    · change c.Rel (hooks.execute a 0 s) (hooks'.execute b 0 s)
      rw [Hooks.execute, Hooks.execute]
      exact c.throw _
  | succ fuel ih =>
    refine ⟨fun e => ?_, fun s => ?_, fun h h' => c.loop h h' _⟩
    · change c.Rel (hooks.evaluate a (fuel + 1) e) (hooks'.evaluate b (fuel + 1) e)
      rw [Hooks.evaluate, Hooks.evaluate]
      refine hhooks.expression e (ops.evaluateFormWith ih.evaluate (fun callee line arguments => ?_) e)
      exact hhooks.call callee line arguments (ops.callValue ih hdepth hcall callee line arguments)
    · change c.Rel (hooks.execute a (fuel + 1) s) (hooks'.execute b (fuel + 1) s)
      rw [Hooks.execute, Hooks.execute]
      exact hhooks.statement s (ops.executeForm ih s)

end Congruence
end Lox.Evaluation
