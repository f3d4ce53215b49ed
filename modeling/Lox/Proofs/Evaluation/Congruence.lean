import Lox.Proofs.Evaluation.Simulation

/-!
# Relations that the rules preserve

A relation between the evaluations over two kinds of states is a congruence if it holds of equal
results and equal failures and sequences preserve it. If it also holds of the operations, one by
one, then every rule preserves it: what the rule says is related as soon as the parts are. How the
two sides call a value is left open, since one of them may do more about a call than the other.
-/
namespace Lox.Evaluation
open Operations

/-- A relation of evaluations that sequences preserve. -/
structure Congruence (σ τ : Type) where
  Rel : {α : Type} → EStateM Halt σ α → EStateM Halt τ α → Prop
  pure : ∀ {α : Type} (a : α), Rel (Pure.pure a) (Pure.pure a)
  throw : ∀ {α : Type} (halt : Halt),
    Rel (MonadExcept.throw halt : EStateM Halt σ α) (MonadExcept.throw halt)
  bind : ∀ {α β : Type} {x : EStateM Halt σ α} {y : EStateM Halt τ α}
    {f : α → EStateM Halt σ β} {g : α → EStateM Halt τ β},
    Rel x y → (∀ a, Rel (f a) (g a)) → Rel (x >>= f) (y >>= g)

namespace Congruence
variable {σ τ α β : Type} (c : Congruence σ τ)

theorem map {x : EStateM Halt σ α} {y : EStateM Halt τ α} (h : c.Rel x y) (f : α → β) :
    c.Rel (f <$> x) (f <$> y) := by
  rw [map_eq_pure_bind, map_eq_pure_bind]
  exact c.bind h fun a => c.pure _

theorem runAll {x : Stmt → EStateM Halt σ Completion} {y : Stmt → EStateM Halt τ Completion}
    (h : ∀ s, c.Rel (x s) (y s)) (body : List Stmt) :
    c.Rel (Evaluation.runAll x body) (Evaluation.runAll y body) := by
  induction body with
  | nil => exact c.pure _
  | cons first rest ih =>
    refine c.bind (h first) fun completion => ?_
    cases completion with
    | normal => exact ih
    | returned value => exact c.pure _

theorem evaluateAll {x : Expr → EStateM Halt σ Value} {y : Expr → EStateM Halt τ Value}
    (h : ∀ e, c.Rel (x e) (y e)) (es : List Expr) (done : List Value) :
    c.Rel (Evaluation.evaluateAll x es done) (Evaluation.evaluateAll y es done) := by
  induction es generalizing done with
  | nil => exact c.pure _
  | cons e es ih => exact c.bind (h e) fun v => ih (v :: done)

theorem loop {x : EStateM Halt σ Bool} {y : EStateM Halt τ Bool}
    {x' : EStateM Halt σ Completion} {y' : EStateM Halt τ Completion} (h : c.Rel x y)
    (h' : c.Rel x' y') (limit : Nat) :
    c.Rel (Evaluation.loop x x' limit) (Evaluation.loop y y' limit) := by
  induction limit with
  | zero => exact c.throw _
  | succ limit ih =>
    refine c.bind h fun holds => ?_
    cases holds with
    | false => exact c.pure _
    | true =>
      refine c.bind h' fun completion => ?_
      cases completion with
      | normal => exact ih
      | returned value => exact c.pure _

theorem atLine (line : Nat) (result : Except RuntimeError.Cause Value) :
    c.Rel (Operations.atLine line result) (Operations.atLine line result) := by
  cases result with
  | ok value => exact c.pure _
  | error cause => exact c.throw _

theorem object (o : Option α) : c.Rel (Operations.object o) (Operations.object o) := by
  cases o with
  | none => exact c.throw _
  | some a => exact c.pure _

/-- The parts are related. -/
structure OfParts (x : Parts σ) (y : Parts τ) : Prop where
  evaluate : ∀ e, c.Rel (x.evaluate e) (y.evaluate e)
  execute : ∀ s, c.Rel (x.execute s) (y.execute s)
  loop : ∀ {a b a' b'}, c.Rel a b → c.Rel a' b' →
    c.Rel (Evaluation.loop a a' x.limit) (Evaluation.loop b b' y.limit)

/-- The operations that execute nothing are related. -/
structure OfSteps (a : Operations σ) (b : Operations τ) : Prop where
  getStore : c.Rel a.getStore b.getStore
  printLine : ∀ text, c.Rel (a.printLine text) (b.printLine text)
  readVariable : ∀ id name, c.Rel (a.readVariable id name) (b.readVariable id name)
  writeVariable : ∀ id name v, c.Rel (a.writeVariable id name v) (b.writeVariable id name v)
  superMethod : ∀ id line method,
    c.Rel (a.superMethod id line method) (b.superMethod id line method)
  setField : ∀ id name v, c.Rel (a.setField id name v) (b.setField id name v)
  newInstance : ∀ k, c.Rel (a.newInstance k) (b.newInstance k)
  bindTo : ∀ f id, c.Rel (a.bindTo f id) (b.bindTo f id)
  declare : ∀ name, c.Rel (a.declare name) (b.declare name)
  define : ∀ name v, c.Rel (a.define name v) (b.define name v)
  newFunction : ∀ f, c.Rel (a.newFunction f) (b.newFunction f)
  newClass : ∀ name k methods, c.Rel (a.newClass name k methods) (b.newClass name k methods)
  receiver : ∀ object, c.Rel (a.receiver object) (b.receiver object)

/-- So are blocks, and calls of functions if the statements of bodies are. -/
structure OfCalls (a : Operations σ) (b : Operations τ) : Prop extends c.OfSteps a b where
  inBlock : ∀ {x y}, c.Rel x y → c.Rel (a.inBlock x) (b.inBlock y)
  callFunction : ∀ {x y}, c.OfParts x y → ∀ f arguments,
    c.Rel (a.callFunction x f arguments) (b.callFunction y f arguments)

/-- The operations other than those for calls are related, whatever function object is called. -/
structure OfOperations (a : Operations σ) (b : Operations τ) : Prop extends c.OfSteps a b where
  inBlock : ∀ {x y}, c.Rel x y → c.Rel (a.inBlock x) (b.inBlock y)
  inCall : ∀ {x y} f object arguments, c.Rel x y →
    c.Rel (a.inCall f object arguments x) (b.inCall f object arguments y)

section
variable {c} {a : Operations σ} {b : Operations τ}

section
variable (steps : c.OfSteps a b)
include steps

theorem OfSteps.function (f : FunctionId) : c.Rel (a.function f) (b.function f) :=
  c.bind steps.getStore fun _ => c.object _

theorem OfSteps.instanceClass (id : InstanceId) :
    c.Rel (a.instanceClass id) (b.instanceClass id) :=
  c.bind steps.getStore fun _ => c.object _

theorem OfSteps.readProperty (id : InstanceId) (name : Name) :
    c.Rel (a.readProperty id name) (b.readProperty id name) := by
  refine c.bind steps.getStore fun store => ?_
  cases store.field? id name.text with
  | some value => exact c.pure _
  | none =>
    refine c.bind steps.getStore fun store => c.bind (steps.instanceClass id) fun k => ?_
    cases store.findMethod? k name.text with
    | some method => exact c.bind (steps.bindTo method id) fun f => c.pure _
    | none => exact c.throw _

end

theorem OfOperations.callFunction (ops : c.OfOperations a b) {x : Parts σ} {y : Parts τ}
    (parts : c.OfParts x y) (f : FunctionId) (arguments : List Value) :
    c.Rel (a.callFunction x f arguments) (b.callFunction y f arguments) := by
  refine c.bind (ops.function f) fun object => ?_
  have hbody := c.runAll parts.execute object.declaration.body
  refine c.bind (ops.inCall f object arguments hbody) fun completion => ?_
  split
  · exact ops.receiver object
  · cases completion with
    | returned value => exact c.pure _
    | normal => exact c.pure _

theorem OfOperations.ofCalls (ops : c.OfOperations a b) : c.OfCalls a b :=
  ⟨ops.toOfSteps, ops.inBlock, ops.callFunction⟩

variable (ops : c.OfCalls a b) {x : Parts σ} {y : Parts τ} (parts : c.OfParts x y)
include ops parts

theorem OfCalls.instantiate (k : ClassId) (arguments : List Value) :
    c.Rel (a.instantiate x k arguments) (b.instantiate y k arguments) := by
  refine c.bind (ops.newInstance k) fun id => c.bind ops.getStore fun store => ?_
  cases store.findMethod? k FunctionOf.initializerName with
  | none => exact c.pure _
  | some init =>
    refine c.bind (ops.bindTo init id) fun f => ?_
    exact c.bind (ops.callFunction parts f arguments) fun _ => c.pure _

omit ops

theorem OfParts.evaluate? (e : Option Expr) :
    c.Rel (Operations.evaluate? x e) (Operations.evaluate? y e) := by
  cases e with
  | none => exact c.pure _
  | some e => exact parts.evaluate e

theorem OfParts.superclassValue? (superclass : Option Superclass) :
    c.Rel (Operations.superclassValue? x superclass) (Operations.superclassValue? y superclass) := by
  cases superclass with
  | none => exact c.pure _
  | some superclass =>
    refine c.map (c.bind (parts.evaluate superclass.toExpr) fun v => ?_) some
    cases v with
    | classRef k => exact c.pure _
    | nil | bool _ | number _ | string _ | functionRef _ | instanceRef _ => exact c.throw _

end
end Congruence

namespace Congruence
variable {σ τ : Type} {c : Congruence σ τ} {a : Operations σ} {b : Operations τ}
  {x : Parts σ} {y : Parts τ}

/-- The rules for expressions preserve the relation if calls do. -/
theorem OfSteps.evaluateFormWith (steps : c.OfSteps a b)
    (hevaluate : ∀ e, c.Rel (x.evaluate e) (y.evaluate e))
    {call : Value → Nat → List Value → EStateM Halt σ Value}
    {call' : Value → Nat → List Value → EStateM Halt τ Value}
    (hcall : ∀ callee line arguments,
      c.Rel (call callee line arguments) (call' callee line arguments)) (e : Expr) :
    c.Rel (a.evaluateFormWith x call e) (b.evaluateFormWith y call' e) := by
  cases e with
  | literal _ => exact c.pure _
  | «variable» id name => exact steps.readVariable id name
  | this id line => exact steps.readVariable id ⟨"this", line⟩
  | super id line method => exact steps.superMethod id line method
  | grouping e => exact hevaluate e
  | unary op line operand => exact c.bind (hevaluate operand) fun v => c.atLine _ _
  | binary op line left right =>
    exact c.bind (hevaluate left) fun u => c.bind (hevaluate right) fun v =>
      c.atLine _ _
  | logical op left right =>
    refine c.bind (hevaluate left) fun v => ?_
    split
    · exact c.pure _
    · exact hevaluate right
  | assign id name value =>
    exact c.bind (hevaluate value) fun v => c.bind (steps.writeVariable id name v) fun _ =>
      c.pure _
  | call callee line arguments =>
    exact c.bind (hevaluate callee) fun v =>
      c.bind (c.evaluateAll hevaluate arguments []) fun vs => hcall v line vs
  | get object name =>
    refine c.bind (hevaluate object) fun v => ?_
    cases v with
    | instanceRef id => exact steps.readProperty id name
    | nil | bool _ | number _ | string _ | functionRef _ | classRef _ => exact c.throw _
  | set object name value =>
    refine c.bind (hevaluate object) fun v => ?_
    cases v with
    | instanceRef id =>
      exact c.bind (hevaluate value) fun v => c.bind (steps.setField id name.text v) fun _ =>
        c.pure _
    | nil | bool _ | number _ | string _ | functionRef _ | classRef _ => exact c.throw _

variable (ops : c.OfCalls a b) (parts : c.OfParts x y)
include ops parts

/-- The rules for statements preserve the relation. -/
theorem OfCalls.executeForm (s : Stmt) : c.Rel (a.executeForm x s) (b.executeForm y s) := by
  cases s with
  | expression e => exact c.bind (parts.evaluate e) fun v => c.pure _
  | print e =>
    exact c.bind (parts.evaluate e) fun v => c.bind ops.getStore fun store =>
      c.bind (ops.printLine _) fun _ => c.pure _
  | varDecl name initializer =>
    exact c.bind (ops.declare name.text) fun _ => c.bind (parts.evaluate? initializer) fun v =>
      c.bind (ops.define name.text v) fun _ => c.pure _
  | block body => exact ops.inBlock (c.runAll parts.execute body)
  | ifElse condition thenBranch elseBranch =>
    refine c.bind (parts.evaluate condition) fun v => ?_
    split
    · exact parts.execute thenBranch
    · cases elseBranch with
      | none => exact c.pure _
      | some elseBranch => exact parts.execute elseBranch
  | whileLoop condition body =>
    exact parts.loop (c.map (parts.evaluate condition) Value.isTruthy) (parts.execute body)
  | funDecl declaration =>
    exact c.bind (ops.declare _) fun _ => c.bind (ops.newFunction declaration) fun f =>
      c.bind (ops.define _ _) fun _ => c.pure _
  | returnWith line value => exact c.bind (parts.evaluate? value) fun v => c.pure _
  | classDecl name superclass methods =>
    exact c.bind (ops.declare name.text) fun _ => c.bind (parts.superclassValue? superclass)
      fun k => c.bind (ops.newClass name k methods) fun _ => c.pure _

/-- Calls preserve the relation if it holds of the depth and of what runs as a call. -/
theorem OfCalls.callValue
    (hdepth : c.Rel (a.callDepth <$> get) (b.callDepth <$> get))
    (hcall : ∀ {v w}, c.Rel v w → c.Rel (a.asCall v) (b.asCall w)) (callee : Value) (line : Nat)
    (arguments : List Value) :
    c.Rel (a.callValue x callee line arguments) (b.callValue y callee line arguments) := by
  have hchecked {body : EStateM Halt σ Value} {body' : EStateM Halt τ Value} (arity : Nat)
      (hbody : c.Rel body body') : c.Rel (a.checkedCall arity line arguments body)
        (b.checkedCall arity line arguments body') := by
    unfold Operations.checkedCall
    split
    · exact c.throw _
    · let enter {ρ : Type} (call : EStateM Halt ρ Value) (depth : Nat) : EStateM Halt ρ Value :=
        if maxCallDepth ≤ depth then Operations.fail .stackOverflow line else call
      have hentered := c.bind hdepth (f := enter (a.asCall body)) (g := enter (b.asCall body'))
        fun depth => by
          unfold enter
          split
          · exact c.throw _
          · exact hcall hbody
      exact hentered
  cases callee with
  | functionRef f =>
    exact c.bind (ops.function f) fun object => hchecked _ (ops.callFunction parts f arguments)
  | classRef k =>
    exact c.bind ops.getStore fun store => hchecked _ (ops.instantiate parts k arguments)
  | nil | bool _ | number _ | string _ | instanceRef _ => exact c.throw _

omit parts in
/-- Evaluators that follow the rules are related. -/
theorem OfCalls.evaluators
    (hdepth : c.Rel (a.callDepth <$> get) (b.callDepth <$> get))
    (hcall : ∀ {v w}, c.Rel v w → c.Rel (a.asCall v) (b.asCall w)) (fuel : Nat) :
    c.OfParts ⟨fuel, a.evaluate fuel, a.execute fuel⟩
      ⟨fuel, b.evaluate fuel, b.execute fuel⟩ := by
  induction fuel with
  | zero =>
    refine ⟨fun e => ?_, fun s => ?_, fun h h' => c.loop h h' _⟩
    · change c.Rel (a.evaluate 0 e) (b.evaluate 0 e)
      rw [Operations.evaluate, Operations.evaluate]
      exact c.throw _
    · change c.Rel (a.execute 0 s) (b.execute 0 s)
      rw [Operations.execute, Operations.execute]
      exact c.throw _
  | succ fuel ih =>
    refine ⟨fun e => ?_, fun s => ?_, fun h h' => c.loop h h' _⟩
    · change c.Rel (a.evaluate (fuel + 1) e) (b.evaluate (fuel + 1) e)
      rw [Operations.evaluate, Operations.evaluate, ← Operations.evaluateFormWith_callValue,
        ← Operations.evaluateFormWith_callValue]
      exact ops.evaluateFormWith ih.evaluate (ops.callValue ih hdepth hcall) e
    · change c.Rel (a.execute (fuel + 1) s) (b.execute (fuel + 1) s)
      rw [Operations.execute, Operations.execute]
      exact ops.executeForm ih s

end Congruence
end Lox.Evaluation
