import Lox.Proofs.Evaluation.Operations
import Lox.Proofs.Resolution.Occurrences
import Lox.Value.Text

/-!
# Evaluators in step

Two evaluators that follow the rules stay in step if their operations do. How their states are
related is left open: a correspondence says it, relative to a world that grows while both run and to
the context of the tree that is evaluated. `Simulates` has what must be shown of the operations;
that the evaluators stay in step follows by induction on the fuel.
-/
namespace Lox

/-- What of a function does not depend on how scopes are kept. -/
def FunctionObject.text (f : FunctionObject) : FunctionDecl × Bool :=
  (f.declaration, f.isInitializer)

/-- The stores have the same objects, but for the closures of functions. -/
structure Store.Alike (a b : Store) : Prop where
  functions : a.functions.map FunctionObject.text = b.functions.map FunctionObject.text
  classes : a.classes = b.classes
  instances : a.instances = b.instances

namespace Store.Alike
variable {a b : Store}

theorem function (h : a.Alike b) (f : FunctionId) :
    a.functions[f]?.map FunctionObject.text = b.functions[f]?.map FunctionObject.text := by
  rw [← Array.getElem?_map, ← Array.getElem?_map, h.functions]

theorem arity (h : a.Alike b) (f : FunctionId) :
    a.functions[f]?.map (·.declaration.arity) = b.functions[f]?.map (·.declaration.arity) := by
  have htext := congrArg (Option.map fun text : FunctionDecl × Bool => text.1.arity) (h.function f)
  rw [Option.map_map, Option.map_map] at htext
  exact htext

theorem functionName (h : a.Alike b) (f : FunctionId) : a.functionName f = b.functionName f := by
  have htext := congrArg (Option.map fun text : FunctionDecl × Bool => text.1.name.text)
    (h.function f)
  rw [Option.map_map, Option.map_map] at htext
  exact congrArg (·.getD "") htext

theorem findMethod? (h : a.Alike b) (c : ClassId) (name : String) :
    a.findMethod? c name = b.findMethod? c name := by
  unfold Store.findMethod? superclass? ownMethod?
  rw [h.classes]

theorem classArity (h : a.Alike b) (c : ClassId) : a.classArity c = b.classArity c := by
  unfold Store.classArity
  rw [h.findMethod?]
  split
  · next init _ => rw [h.arity init]
  · rfl

theorem field? (h : a.Alike b) (id : InstanceId) (name : String) :
    a.field? id name = b.field? id name := by
  unfold Store.field?
  rw [h.instances]

theorem display (h : a.Alike b) (v : Value) : a.display v = b.display v := by
  unfold Store.display
  split
  · rfl
  · rfl
  · rfl
  · rfl
  · next f => rw [h.functionName f]
  · next c => rw [className, className, h.classes]
  · next id => simp only [instanceClassName, className, h.instances, h.classes]

end Store.Alike

/-- The value refers to no object. -/
def Value.IsPlain : Value → Prop
  | .functionRef _ | .classRef _ | .instanceRef _ => False
  | .nil | .bool _ | .number _ | .string _ => True

theorem Literal.isPlain_value (l : Literal) : l.value.IsPlain := by
  cases l <;> trivial

theorem UnaryOp.isPlain_apply {op : UnaryOp} {v result : Value} (h : op.apply v = .ok result) :
    result.IsPlain := by
  unfold apply at h
  split at h <;> cases h <;> trivial

theorem BinaryOp.isPlain_onNumbers {f : Float → Float → Value} (hf : ∀ x y, (f x y).IsPlain)
    {a b result : Value} (h : onNumbers f a b = .ok result) : result.IsPlain := by
  unfold onNumbers at h
  split at h
  · cases h
    exact hf _ _
  · cases h

theorem BinaryOp.isPlain_add {a b result : Value} (h : add? a b = .ok result) :
    result.IsPlain := by
  unfold add? at h
  split at h <;> cases h <;> trivial

theorem BinaryOp.isPlain_apply {op : BinaryOp} {a b result : Value}
    (h : op.apply a b = .ok result) : result.IsPlain := by
  cases op with
  | add => exact isPlain_add h
  | equal | notEqual =>
    cases h
    trivial
  | subtract | multiply | divide | less | lessEqual | greater | greaterEqual =>
    refine isPlain_onNumbers ?_ h
    exact fun _ _ => trivial

/-- The error is one of looking up a name. -/
def RuntimeError.Cause.OfLookup : RuntimeError.Cause → Prop
  | .undefinedVariable _ | .superOutsideClass => True
  | .undefinedProperty _ | .propertyOfNonInstance | .fieldOfNonInstance | .notCallable
  | .wrongArgumentCount _ _ | .stackOverflow | .superclassNotClass | .operandNotNumber
  | .operandsNotNumbers | .operandsNotAddable => False

theorem UnaryOp.not_ofLookup {op : UnaryOp} {v : Value} {cause : RuntimeError.Cause}
    (h : op.apply v = .error cause) : ¬ cause.OfLookup := by
  unfold apply at h
  split at h <;> cases h
  exact id

theorem BinaryOp.not_ofLookup_onNumbers {f : Float → Float → Value} {a b : Value}
    {cause : RuntimeError.Cause} (h : onNumbers f a b = .error cause) : ¬ cause.OfLookup := by
  unfold onNumbers at h
  split at h <;> cases h
  exact id

theorem BinaryOp.not_ofLookup_add {a b : Value} {cause : RuntimeError.Cause}
    (h : add? a b = .error cause) : ¬ cause.OfLookup := by
  unfold add? at h
  split at h <;> cases h
  exact id

theorem BinaryOp.not_ofLookup {op : BinaryOp} {a b : Value} {cause : RuntimeError.Cause}
    (h : op.apply a b = .error cause) : ¬ cause.OfLookup := by
  cases op with
  | add => exact not_ofLookup_add h
  | equal | notEqual => cases h
  | subtract | multiply | divide | less | lessEqual | greater | greaterEqual =>
    exact not_ofLookup_onNumbers h

namespace Evaluation
open Resolution Operations
variable {σ τ α β : Type}

/-- The state in which an evaluation ends, however it ends. -/
def stateOf : EStateM.Result Halt σ α → σ
  | .ok _ s | .error _ s => s

/-- How an evaluation ends. -/
def resultOf : EStateM.Result Halt σ α → Except Halt α
  | .ok a _ => .ok a
  | .error halt _ => .error halt

/-- The same result, from a state that is set back when the evaluation has ended, in whatever way. -/
def leaving (back : σ → σ) : EStateM.Result Halt σ α → EStateM.Result Halt σ α
  | .ok a s => .ok a (back s)
  | .error halt s => .error halt (back s)

@[simp] theorem stateOf_leaving (back : σ → σ) (result : EStateM.Result Halt σ α) :
    stateOf (leaving back result) = back (stateOf result) := by
  cases result <;> rfl

@[simp] theorem resultOf_leaving (back : σ → σ) (result : EStateM.Result Halt σ α) :
    resultOf (leaving back result) = resultOf result := by
  cases result <;> rfl

theorem leaving_leaving (back back' : σ → σ) (result : EStateM.Result Halt σ α) :
    leaving back (leaving back' result) = leaving (back ∘ back') result := by
  cases result <;> rfl

theorem inScope_apply (scope : ScopeId) (x : Eval α) (m : Machine) :
    inScope scope x m =
      leaving (fun after => { after with scope := m.scope }) (x { m with scope }) := by
  unfold inScope
  dsimp only
  cases x { m with scope } <;> rfl

theorem asCall_apply (x : Eval α) (m : Machine) :
    asCall x m =
      leaving (fun after => { after with callDepth := after.callDepth - 1 })
        (x { m with callDepth := m.callDepth + 1 }) := by
  unfold asCall
  cases x { m with callDepth := m.callDepth + 1 } <;> rfl

/-- How the states of two evaluators are related. -/
structure Correspondence (σ τ : Type) where
  /-- What is known of both states. -/
  World : Type
  /-- Where in the states the running scope is. -/
  Position : Type
  /-- What is known grows while something is evaluated at a position. -/
  Grows : Position → World → World → Prop
  /-- The states are related, and the running scopes are those of the site. -/
  States : Position → World → Site → σ → τ → Prop
  /-- The states are related, wherever the evaluation has stopped. -/
  Ended : Position → World → σ → τ → Prop
  ValueOk : World → Value → Prop
  /-- The function is a method that is not bound. -/
  MethodOk : World → FunctionId → Prop
  /-- The functions under one number close over related scopes. -/
  Closures : World → FunctionId → FunctionObject → FunctionObject → Prop
  HaltOk : World → Halt → Prop
  Admits : Occurrence → Prop

namespace Correspondence
variable (r : Correspondence σ τ)

/-- A `return` is admitted in the function of the context. -/
def Returns (ctx : Context) : Prop :=
  ∃ (site : Site) (line : Nat) (hasValue : Bool),
    site.functionKind = ctx.functionKind ∧ r.Admits ⟨site, .exit line hasValue⟩

def CompletionOk (ctx : Context) (w : r.World) : Completion → Prop
  | .normal => True
  | .returned value => r.ValueOk w value ∧ r.Returns ctx

/-- The results agree. The states afterwards are related in a world that has grown. -/
inductive Sim (p : r.Position) (w : r.World) (after : Site) (post : r.World → α → Prop) :
    EStateM.Result Halt σ α → EStateM.Result Halt τ α → Prop where
  | ok {a : α} {s : σ} {t : τ} {w' : r.World} : r.Grows p w w' → r.States p w' after s t →
    post w' a → Sim p w after post (.ok a s) (.ok a t)
  | error {h : Halt} {s : σ} {t : τ} {w' : r.World} : r.HaltOk w' h → r.Grows p w w' →
    r.Ended p w' s t → Sim p w after post (.error h s) (.error h t)

/-- Expressions whose occurrences are admitted have the same values. -/
def Evaluates (x : Expr → EStateM Halt σ Value) (y : Expr → EStateM Halt τ Value) : Prop :=
  ∀ e p w site s t, e.Within r.Admits site → r.States p w site s t →
    r.Sim p w site r.ValueOk (x e s) (y e t)

/-- Statements whose occurrences are admitted end alike. -/
def Executes (x : Stmt → EStateM Halt σ Completion) (y : Stmt → EStateM Halt τ Completion) :
    Prop :=
  ∀ stmt p w (ctx : Context) s t, stmt.Within r.Admits ctx → r.States p w ctx s t →
    r.Sim p w (ctx.declareAll stmt.declaredNames) (r.CompletionOk ctx) (x stmt s) (y stmt t)

/-- Wherever a body starts in the context, it ends alike. -/
def Bodies (ctx : Context) (x : EStateM Halt σ Completion) (y : EStateM Halt τ Completion) : Prop :=
  ∀ p w s t, r.States p w ctx s t → ∃ after, r.Sim p w after (r.CompletionOk ctx) (x s) (y t)

end Correspondence

/-- What makes evaluations in step that follow one another one that is in step. -/
structure Correspondence.Lawful (r : Correspondence σ τ) : Prop where
  grows_refl : ∀ p w, r.Grows p w w
  grows_trans : ∀ {p w w' w''}, r.Grows p w w' → r.Grows p w' w'' → r.Grows p w w''
  ended : ∀ {p w site s t}, r.States p w site s t → r.Ended p w s t

/-- What must be shown of the operations of two evaluators that stay in step. -/
structure Simulates (r : Correspondence σ τ) (a : Operations σ) (b : Operations τ) : Prop
    extends r.Lawful where
  value_grows : ∀ {p w w' v}, r.Grows p w w' → r.ValueOk w v → r.ValueOk w' v
  closures_grows : ∀ {p w w' f o o'}, r.Grows p w w' → r.Closures w f o o' → r.Closures w' f o o'
  halt_failure : ∀ w {e}, ¬ e.cause.OfLookup → r.HaltOk w (.failure e)
  halt_outOfFuel : ∀ w, r.HaltOk w .outOfFuel
  value_plain : ∀ w {v}, v.IsPlain → r.ValueOk w v
  alike : ∀ {p w site s t}, r.States p w site s t → (a.store s).Alike (b.store t)
  callDepth : ∀ {p w site s t}, r.States p w site s t → a.callDepth s = b.callDepth t
  /-- A function that a value refers to is there, or its absence may be met. -/
  function : ∀ {p w site s t f}, r.States p w site s t → r.ValueOk w (.functionRef f) →
    (a.store s).functions[f]? = none → r.HaltOk w (.fault .noSuchObject)
  closures : ∀ {p w site s t f o o'}, r.States p w site s t → r.ValueOk w (.functionRef f) →
    (a.store s).functions[f]? = some o → (b.store t).functions[f]? = some o' → r.Closures w f o o'
  instance_ : ∀ {p w site s t id}, r.States p w site s t → r.ValueOk w (.instanceRef id) →
    (a.store s).instances[id]? = none → r.HaltOk w (.fault .noSuchObject)
  field : ∀ {p w site s t id name v}, r.States p w site s t →
    (a.store s).field? id name = some v → r.ValueOk w v
  method : ∀ {p w site s t c name f}, r.States p w site s t →
    (a.store s).findMethod? c name = some f → r.MethodOk w f
  asCall : ∀ {p w site s t x y}, r.States p w site s t →
    (∀ s' t', r.States p w site s' t' → a.store s' = a.store s →
      r.Sim p w site r.ValueOk (x s') (y t')) →
        r.Sim p w site r.ValueOk (a.asCall x s) (b.asCall y t)
  printLine : ∀ {p w site s t} text, r.States p w site s t →
    r.Sim p w site (fun _ _ => True) (a.printLine text s) (b.printLine text t)
  readVariable : ∀ {p w site s t} ref, r.States p w site s t → r.Admits ⟨site, .reference ref⟩ →
    ref.kind = .variable ∨ ref.kind = .this →
      r.Sim p w site r.ValueOk (a.readVariable ref.id ref.name s) (b.readVariable ref.id ref.name t)
  writeVariable : ∀ {p w site s t v} id name, r.States p w site s t →
    r.Admits ⟨site, .reference ⟨.assign, id, name⟩⟩ → r.ValueOk w v →
      r.Sim p w site (fun _ _ => True) (a.writeVariable id name v s) (b.writeVariable id name v t)
  superMethod : ∀ {p w site s t} id line method, r.States p w site s t →
    r.Admits ⟨site, .reference ⟨.super, id, ⟨method.text, line⟩⟩⟩ →
      r.Sim p w site r.ValueOk (a.superMethod id line method s) (b.superMethod id line method t)
  setField : ∀ {p w site s t id v} name, r.States p w site s t → r.ValueOk w (.instanceRef id) →
    r.ValueOk w v →
      r.Sim p w site (fun _ _ => True) (a.setField id name v s) (b.setField id name v t)
  newInstance : ∀ {p w site s t c}, r.States p w site s t → r.ValueOk w (.classRef c) →
    r.Sim p w site (fun w id => r.ValueOk w (.instanceRef id)) (a.newInstance c s)
      (b.newInstance c t)
  /-- A new instance changes no class. -/
  newInstance_keeps : ∀ {c id s s'}, a.newInstance c s = .ok id s' →
    (a.store s').classArity = (a.store s).classArity
  /-- A bound method takes as many arguments as the method. -/
  bindTo_keeps : ∀ {f f' id s s'}, a.bindTo f id s = .ok f' s' →
    (a.store s').functions[f']?.map (·.declaration.arity) =
      (a.store s).functions[f]?.map (·.declaration.arity)
  bindTo : ∀ {p w site s t f id}, r.States p w site s t → r.MethodOk w f →
    r.ValueOk w (.instanceRef id) →
      r.Sim p w site (fun w f => r.ValueOk w (.functionRef f)) (a.bindTo f id s) (b.bindTo f id t)
  declare : ∀ {p w s t} {ctx : Context} {name : Name}, r.States p w ctx s t →
    r.Admits ⟨ctx, .declaration name⟩ → name.Ordinary →
      r.Sim p w (ctx.initializer name.text) (fun _ _ => True) (a.declare name.text s)
        (b.declare name.text t)
  define : ∀ {p w s t v} {ctx : Context} {name : Name},
    r.States p w (ctx.initializer name.text) s t → name.Ordinary → r.ValueOk w v →
      r.Sim p w (ctx.declare name.text) (fun _ _ => True) (a.define name.text v s)
        (b.define name.text v t)
  /-- A function is made and bound to its name. -/
  defineFunction : ∀ {p w s t f} {ctx : Context}, r.States p w (ctx.initializer f.name.text) s t →
    f.name.Ordinary →
    Stmt.FunctionWithin r.Admits ((ctx.declare f.name.text).inFunction .ordinary) f →
      r.Sim p w (ctx.declare f.name.text) (fun _ _ => True)
        ((a.newFunction f >>= fun id => a.define f.name.text (.functionRef id)) s)
        ((b.newFunction f >>= fun id => b.define f.name.text (.functionRef id)) t)
  /-- The name of a class is declared before the superclass clause. -/
  superclass : ∀ {p w s t name} {ctx : Context}, r.States p w (ctx.initializer name) s t →
    r.States p w (ctx.superclass name) s t
  newClass : ∀ {p w s t superclass methods} {ctx : Context} {name : Name},
    r.States p w (ctx.superclass name.text) s t → name.Ordinary →
    (∀ c ∈ superclass, r.ValueOk w (.classRef c)) →
    Stmt.MethodsWithin r.Admits ((ctx.declare name.text).method (kindOf superclass)) methods →
      r.Sim p w (ctx.declare name.text) (fun _ _ => True) (a.newClass name superclass methods s)
        (b.newClass name superclass methods t)
  inBlock : ∀ {p w s t x y} {ctx : Context}, r.States p w ctx s t → r.Bodies (ctx.enter []) x y →
    r.Sim p w ctx (r.CompletionOk ctx) (a.inBlock x s) (b.inBlock y t)
  inCall : ∀ {p w site s t f o o' arguments}, r.States p w site s t → r.Closures w f o o' →
    o.text = o'.text → o.declaration.arity = arguments.length →
    (∀ v ∈ arguments, r.ValueOk w v) →
      ∃ around, Stmt.FunctionWithin r.Admits around o.declaration ∧
        ∀ x y, r.Bodies (around.function o.declaration.parameters) x y →
          r.Sim p w site (r.CompletionOk (around.function o.declaration.parameters))
            (a.inCall f o arguments x s) (b.inCall f o' arguments y t)
  receiver : ∀ {p w site s t f o o'}, r.States p w site s t → r.Closures w f o o' →
    o.isInitializer = true → r.Sim p w site r.ValueOk (a.receiver o s) (b.receiver o' t)

end Evaluation
end Lox
