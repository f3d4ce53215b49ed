import Lox.Proofs.Evaluation.Simulation
import Lox.Proofs.Scoping.Lexical
import Lox.Proofs.Syntax.Lines

/-!
# Evaluation on other lines

Lexically, the numbers of references do nothing, and lines do nothing but tell where an error is.
A program on other lines, in a state whose functions are on other lines and in which something else
was printed before, does what it does where it stands: it prints the same and ends alike, with the
error on the other line.
-/
namespace Lox
variable (line : Nat → Nat)

def FunctionObject.onLines (object : FunctionObject) : FunctionObject :=
  { object with declaration := Stmt.functionOnLines line object.declaration }

def Store.onLines (store : Store) : Store :=
  { store with functions := store.functions.map (FunctionObject.onLines line) }

namespace Store
variable {line} (store : Store)

theorem functions_onLines (f : FunctionId) :
    (store.onLines line).functions[f]? = store.functions[f]?.map (FunctionObject.onLines line) :=
  Array.getElem?_map

theorem functionName_onLines (f : FunctionId) :
    (store.onLines line).functionName f = store.functionName f := by
  unfold functionName
  rw [functions_onLines, Option.map_map]
  refine congrArg (Option.getD · "") (congrArg (Option.map · _) (funext fun object => ?_))
  simp [FunctionObject.onLines, FunctionObject.name, Name.onLine]

theorem field?_onLines (id : InstanceId) (name : String) :
    (store.onLines line).field? id name = store.field? id name := rfl

theorem findMethod?_onLines (c : ClassId) (name : String) :
    (store.onLines line).findMethod? c name = store.findMethod? c name := rfl

theorem classArity_onLines (c : ClassId) :
    (store.onLines line).classArity c = store.classArity c := by
  unfold classArity
  rw [findMethod?_onLines]
  split
  · next init _ =>
    rw [functions_onLines, Option.map_map]
    refine congrArg (Option.getD · 0) (congrArg (Option.map · _) (funext fun object => ?_))
    exact Stmt.functionOnLines_arity object.declaration
  · rfl

theorem display_onLines (v : Value) : (store.onLines line).display v = store.display v := by
  cases v with
  | functionRef f =>
    change "<fn " ++ (store.onLines line).functionName f ++ ">" = _
    rw [functionName_onLines]
    rfl
  | nil | bool _ | number _ | string _ | classRef _ | instanceRef _ => rfl

theorem newFunction_onLines (line : Nat → Nat) (store : Store) (object : FunctionObject) :
    (store.onLines line).newFunction (object.onLines line) =
      ((store.newFunction object).1.onLines line, (store.newFunction object).2) := by
  simp [newFunction, onLines]

end Store

namespace Evaluation
open Operations

def Halt.onLine : Halt → Halt
  | .failure error => .failure { error with line := line error.line }
  | .fault reason => .fault reason
  | .outOfFuel => .outOfFuel

namespace Lexical
variable {α β : Type} (printed : String)

/-- The state with its functions on other lines, if `printed` was printed before. -/
def onLines (l : Lexical) : Lexical :=
  { l with objects := l.objects.onLines line, output := printed ++ l.output }

/-- The result of what is done on other lines. -/
def resultOnLines : EStateM.Result Halt Lexical α → EStateM.Result Halt Lexical α
  | .ok a l => .ok a (l.onLines line printed)
  | .error halt l => .error (halt.onLine line) (l.onLines line printed)

/-- `y` does on other lines what `x` does. -/
def Mirrors (x y : EStateM Halt Lexical α) : Prop :=
  ∀ l, y (l.onLines line printed) = resultOnLines line printed (x l)

namespace Mirrors
variable {line printed} {x y : EStateM Halt Lexical α} {f g : α → EStateM Halt Lexical β}

theorem pure (a : α) : Mirrors line printed (Pure.pure a) (Pure.pure a) := fun _ => rfl

theorem throw (halt : Halt) :
    Mirrors line printed (MonadExcept.throw halt : EStateM Halt Lexical α)
      (MonadExcept.throw (halt.onLine line)) :=
  fun _ => rfl

theorem fail (cause : RuntimeError.Cause) (n : Nat) :
    Mirrors line printed (Operations.fail cause n : EStateM Halt Lexical α)
      (Operations.fail cause (line n)) :=
  fun _ => rfl

theorem bind (h : Mirrors line printed x y) (hfg : ∀ a, Mirrors line printed (f a) (g a)) :
    Mirrors line printed (x >>= f) (y >>= g) := by
  intro l
  change EStateM.bind y g _ = resultOnLines line printed (EStateM.bind x f l)
  unfold EStateM.bind
  rw [h l]
  cases x l with
  | ok a l' => exact hfg a l'
  | error halt l' => rfl

theorem map (h : Mirrors line printed x y) (k : α → β) :
    Mirrors line printed (k <$> x) (k <$> y) := by
  rw [map_eq_pure_bind, map_eq_pure_bind]
  exact h.bind fun a => .pure _

theorem withState {f g : Lexical → EStateM Halt Lexical α}
    (h : ∀ l, Mirrors line printed (f l) (g (l.onLines line printed))) :
    Mirrors line printed (get >>= f) (get >>= g) :=
  fun l => h l l

/-- What depends on the objects depends on them in the same way. -/
theorem withStore {f g : Store → EStateM Halt Lexical α}
    (h : ∀ store, Mirrors line printed (f store) (g (store.onLines line))) :
    Mirrors line printed (operations.getStore >>= f) (operations.getStore >>= g) :=
  fun l => h l.objects l

theorem withObject {object : Option FunctionObject} {f g : FunctionObject → EStateM Halt Lexical α}
    (h : ∀ object, Mirrors line printed (f object) (g (object.onLines line))) :
    Mirrors line printed (Operations.object object >>= f)
      (Operations.object (object.map (FunctionObject.onLines line)) >>= g) := by
  cases object with
  | none => exact fun _ => rfl
  | some object => exact h object

/-- A function on other lines has the body on these lines. -/
theorem withFunction (id : FunctionId) {f g : FunctionObject → EStateM Halt Lexical α}
    (h : ∀ object, Mirrors line printed (f object) (g (object.onLines line))) :
    Mirrors line printed (operations.function id >>= f) (operations.function id >>= g) := by
  unfold Operations.function
  rw [bind_assoc, bind_assoc]
  refine withStore fun store => ?_
  rw [store.functions_onLines]
  exact withObject h

end Mirrors

section
variable {line printed}

theorem mirrors_runAll {x y : Stmt → EStateM Halt Lexical Completion}
    (h : ∀ s, Mirrors line printed (x s) (y (s.onLines line))) (body : List Stmt) :
    Mirrors line printed (runAll x body) (runAll y (Stmt.listOnLines line body)) := by
  induction body with
  | nil => exact .pure _
  | cons first rest ih =>
    refine (h first).bind fun completion => ?_
    cases completion with
    | normal => exact ih
    | returned v => exact .pure _

theorem mirrors_evaluateAll {x y : Expr → EStateM Halt Lexical Value}
    (h : ∀ e, Mirrors line printed (x e) (y (e.onLines line))) (es : List Expr)
    (done : List Value) :
    Mirrors line printed (evaluateAll x es done)
      (evaluateAll y (Expr.onLines.listOnLines line es) done) := by
  induction es generalizing done with
  | nil => exact .pure _
  | cons e es ih => exact (h e).bind fun v => ih (v :: done)

theorem mirrors_loop {x y : EStateM Halt Lexical Bool} {x' y' : EStateM Halt Lexical Completion}
    (h : Mirrors line printed x y) (h' : Mirrors line printed x' y') (limit : Nat) :
    Mirrors line printed (loop x x' limit) (loop y y' limit) := by
  induction limit with
  | zero => exact fun _ => rfl
  | succ limit ih =>
    refine h.bind fun holds => ?_
    cases holds with
    | false => exact .pure _
    | true =>
      refine h'.bind fun completion => ?_
      cases completion with
      | normal => exact ih
      | returned v => exact .pure _

end

section
variable {line printed} (name : Name) (v : Value)

theorem mirrors_read : Mirrors line printed (read name) (read (name.onLine line)) := by
  intro l
  unfold read
  dsimp only [onLines, Name.onLine]
  cases l.environment.locations.find? name.text with
  | some location =>
    dsimp only
    cases l.cells[location]?.join with
    | none => rfl
    | some v => rfl
  | none =>
    dsimp only
    cases l.globals.find? name.text with
    | none => rfl
    | some v => rfl

theorem mirrors_write : Mirrors line printed (write name v) (write (name.onLine line) v) := by
  intro l
  unfold write
  dsimp only [onLines, Name.onLine]
  cases l.environment.locations.find? name.text with
  | some location => rfl
  | none =>
    dsimp only
    by_cases hknown : l.globals.contains name.text = true
    · rw [if_pos hknown]
      exact if_pos hknown
    · rw [if_neg hknown]
      exact if_neg hknown

theorem mirrors_declare (name : String) : Mirrors line printed (declare name) (declare name) := by
  intro l
  unfold declare
  change (if l.environment.isLocal = true then _ else _) = _
  split
  · rfl
  · rfl

theorem mirrors_define (name : String) :
    Mirrors line printed (define name v) (define name v) := by
  intro l
  unfold define
  dsimp only [onLines]
  cases l.environment.locations.find? name with
  | some location => rfl
  | none => rfl

theorem mirrors_inside (environment : Environment) {x y : EStateM Halt Lexical α}
    (h : Mirrors line printed x y) :
    Mirrors line printed (inside environment x) (inside environment y) := by
  intro l
  have hstep := h { l with environment }
  unfold inside
  change y { l.onLines line printed with environment } = _ at hstep
  rw [hstep]
  cases x { l with environment } with
  | ok a after => rfl
  | error halt after => rfl

theorem mirrors_asCall {x y : EStateM Halt Lexical α} (h : Mirrors line printed x y) :
    Mirrors line printed (asCall x) (asCall y) := by
  intro l
  have hstep := h { l with callDepth := l.callDepth + 1 }
  unfold asCall
  change y { l.onLines line printed with callDepth := l.callDepth + 1 } = _ at hstep
  change (match y { l.onLines line printed with callDepth := l.callDepth + 1 } with
    | .ok a after => EStateM.Result.ok a { after with callDepth := after.callDepth - 1 }
    | .error halt after => .error halt { after with callDepth := after.callDepth - 1 }) = _
  rw [hstep]
  cases x { l with callDepth := l.callDepth + 1 } with
  | ok a after => rfl
  | error halt after => rfl

theorem mirrors_makeFunction (environment : Environment) (declaration : FunctionDecl)
    (isInitializer : Bool) :
    Mirrors line printed (makeFunction environment declaration isInitializer)
      (makeFunction environment (Stmt.functionOnLines line declaration) isInitializer) := by
  intro l
  unfold makeFunction
  have hnew := Store.newFunction_onLines line l.objects
    ⟨declaration, l.environments.size, isInitializer⟩
  dsimp only [onLines, FunctionObject.onLines] at hnew ⊢
  rw [hnew]
  rfl

theorem mirrors_bindTo (f : FunctionId) (receiver : InstanceId) :
    Mirrors line printed (bindTo f receiver) (bindTo f receiver) := by
  refine Mirrors.withFunction f fun object l => ?_
  exact mirrors_makeFunction _ _ _
    { (l.extend (l.environmentOf object) "this" (some (.instanceRef receiver))).2 with }

theorem mirrors_superMethod (n : Nat) :
    Mirrors line printed (superMethod n name) (superMethod (line n) (name.onLine line)) := by
  refine Mirrors.withState fun l => ?_
  change Mirrors line printed (if l.environment.locations.contains "super" then _ else _)
    (if l.environment.locations.contains "super" then _ else _)
  by_cases hsuper : l.environment.locations.contains "super" = true
  · rw [if_pos hsuper, if_pos hsuper]
    have hvalue (name : String) : (l.onLines line printed).valueOf?
        (l.onLines line printed).environment name = l.valueOf? l.environment name := rfl
    rw [hvalue, hvalue]
    generalize l.valueOf? l.environment "super" = superclass
    generalize l.valueOf? l.environment "this" = this
    cases superclass with
    | none => exact .throw _
    | some superclass =>
      cases superclass with
      | classRef c =>
        cases this with
        | none => exact .throw _
        | some this =>
          cases this with
          | instanceRef receiver =>
            dsimp only [Lexical.onLines, Name.onLine]
            rw [Store.findMethod?_onLines]
            cases l.objects.findMethod? c name.text with
            | none => exact .fail _ _
            | some f => exact (mirrors_bindTo f receiver).map Value.functionRef
          | nil | bool _ | number _ | string _ | functionRef _ | classRef _ => exact .throw _
      | nil | bool _ | number _ | string _ | functionRef _ | instanceRef _ => exact .throw _
  · rw [if_neg hsuper, if_neg hsuper]
    exact .fail _ _

theorem mirrors_methodEnvironment (superclass : Option ClassId) :
    Mirrors line printed (methodEnvironment superclass) (methodEnvironment superclass) := by
  cases superclass with
  | none => exact fun _ => rfl
  | some c => exact fun _ => rfl

theorem methodNumbers_onLines (first : FunctionId) (methods : List FunctionDecl)
    (numbers : Bindings FunctionId) :
    methodNumbers first (Stmt.methodsOnLines line methods) numbers =
      methodNumbers first methods numbers := by
  induction methods generalizing first numbers with
  | nil => rfl
  | cons method rest ih =>
    rw [Stmt.methodsOnLines, methodNumbers, methodNumbers, ih, Stmt.functionOnLines_name]
    rfl

theorem methodObjects_onLines (closure : Nat) (methods : List FunctionDecl) :
    methodObjects closure (Stmt.methodsOnLines line methods) =
      (methodObjects closure methods).map (FunctionObject.onLines line) := by
  simp [methodObjects, Stmt.methodsOnLines_eq_map, FunctionObject.onLines]

theorem mirrors_makeClass (environment : Environment) (superclass : Option ClassId)
    (methods : List FunctionDecl) :
    Mirrors line printed (makeClass environment name superclass methods)
      (makeClass environment (name.onLine line) superclass
        (Stmt.methodsOnLines line methods)) := by
  intro l
  unfold makeClass
  have hsize : (l.onLines line printed).objects.functions.size = l.objects.functions.size :=
    Array.size_map
  rw [hsize, methodNumbers_onLines, methodObjects_onLines]
  simp [onLines, Store.onLines, Store.newClass, resultOnLines, Name.onLine]

theorem mirrors_newClass (superclass : Option ClassId) (methods : List FunctionDecl) :
    Mirrors line printed (operations.newClass name superclass methods)
      (operations.newClass (name.onLine line) superclass (Stmt.methodsOnLines line methods)) := by
  refine (mirrors_define .nil name.text).bind fun _ => ?_
  refine (mirrors_methodEnvironment superclass).bind fun environment => ?_
  refine (mirrors_makeClass name environment superclass methods).bind fun c => ?_
  exact mirrors_define (.classRef c) name.text

theorem bindParameters_onLines (l : Lexical) (environment : Environment) (parameters : List Name)
    (arguments : List Value) :
    (l.onLines line printed).bindParameters environment (parameters.map (Name.onLine line))
        arguments =
      ((l.bindParameters environment parameters arguments).1,
        (l.bindParameters environment parameters arguments).2.onLines line printed) := by
  induction parameters generalizing l environment arguments with
  | nil => rfl
  | cons parameter parameters ih =>
    let extended := l.extend environment parameter.text arguments.head?
    exact ih extended.2 extended.1 arguments.tail

theorem mirrors_inCall (f : FunctionId) (object : FunctionObject) (arguments : List Value)
    {x y : EStateM Halt Lexical Completion} (h : Mirrors line printed x y) :
    Mirrors line printed (operations.inCall f object arguments x)
      (operations.inCall f (object.onLines line) arguments y) := by
  intro l
  let closure := { l.environmentOf object with isLocal := true }
  let bound := l.bindParameters closure object.declaration.parameters arguments
  have hbound : (l.onLines line printed).bindParameters closure
      (object.onLines line).declaration.parameters arguments =
        (bound.1, bound.2.onLines line printed) := by
    rw [FunctionObject.onLines, Stmt.functionOnLines_parameters]
    exact bindParameters_onLines l closure object.declaration.parameters arguments
  change inside ((l.onLines line printed).bindParameters closure _ arguments).1 y
    ((l.onLines line printed).bindParameters closure _ arguments).2 =
      resultOnLines line printed (inside bound.1 x bound.2)
  rw [hbound]
  exact mirrors_inside bound.1 h bound.2

end

/-- The parts are evaluated alike on other lines. -/
structure MirrorsParts (x y : Parts Lexical) : Prop where
  limit : x.limit = y.limit
  evaluate : ∀ e, Mirrors line printed (x.evaluate e) (y.evaluate (e.onLines line))
  execute : ∀ s, Mirrors line printed (x.execute s) (y.execute (s.onLines line))

namespace MirrorsParts
variable {line printed} {x y : Parts Lexical} (parts : MirrorsParts line printed x y)

theorem atLine (n : Nat) (result : Except RuntimeError.Cause Value) :
    Mirrors line printed (Operations.atLine n result) (Operations.atLine (line n) result) := by
  cases result with
  | ok v => exact .pure v
  | error cause => exact .fail cause n

theorem readProperty (id : InstanceId) (name : Name) :
    Mirrors line printed (operations.readProperty id name)
      (operations.readProperty id (name.onLine line)) := by
  refine .withStore fun store => ?_
  dsimp only [Name.onLine]
  rw [Store.field?_onLines]
  cases store.field? id name.text with
  | some v => exact .pure v
  | none =>
    refine .withStore fun store => ?_
    have hclass : Mirrors line printed (operations.instanceClass id)
        (operations.instanceClass id) := by
      refine .withStore fun store => ?_
      change Mirrors line printed (object (store.instances[id]?.map (·.classId)))
        (object (store.instances[id]?.map (·.classId)))
      cases store.instances[id]? with
      | none => exact .throw _
      | some o => exact .pure _
    refine hclass.bind fun c => ?_
    rw [Store.findMethod?_onLines]
    cases store.findMethod? c name.text with
    | none => exact .fail _ _
    | some method => exact (mirrors_bindTo method id).map Value.functionRef

include parts

theorem callFunction (f : FunctionId) (arguments : List Value) :
    Mirrors line printed (operations.callFunction x f arguments)
      (operations.callFunction y f arguments) := by
  refine Mirrors.withFunction f fun object => ?_
  have hbody := mirrors_runAll parts.execute object.declaration.body
  rw [← Stmt.functionOnLines_body] at hbody
  refine (mirrors_inCall f object arguments hbody).bind fun completion => ?_
  change Mirrors line printed (if object.isInitializer then _ else _)
    (if object.isInitializer then _ else _)
  cases object.isInitializer with
  | true => exact fun _ => rfl
  | false =>
    cases completion with
    | normal => exact .pure _
    | returned v => exact .pure _

theorem instantiate (c : ClassId) (arguments : List Value) :
    Mirrors line printed (operations.instantiate x c arguments)
      (operations.instantiate y c arguments) := by
  have hnew : Mirrors line printed (operations.newInstance c) (operations.newInstance c) :=
    fun _ => rfl
  refine hnew.bind fun id => ?_
  refine .withStore fun store => ?_
  have hmethod : (store.onLines line).findMethod? c FunctionOf.initializerName =
      store.findMethod? c FunctionOf.initializerName := rfl
  rw [hmethod]
  cases store.findMethod? c FunctionOf.initializerName with
  | none => exact .pure _
  | some init =>
    refine (mirrors_bindTo init id).bind fun f => ?_
    refine (parts.callFunction f arguments).bind fun _ => ?_
    exact .pure _

omit parts in
theorem checkedCall {body body' : EStateM Halt Lexical Value} (h : Mirrors line printed body body')
    (arity n : Nat) (arguments : List Value) :
    Mirrors line printed (operations.checkedCall arity n arguments body)
      (operations.checkedCall arity (line n) arguments body') := by
  unfold Operations.checkedCall
  split
  · exact .fail _ _
  · refine .withState fun l => ?_
    change Mirrors line printed (if maxCallDepth ≤ l.callDepth then _ else _)
      (if maxCallDepth ≤ l.callDepth then _ else _)
    split
    · exact .fail _ _
    · exact mirrors_asCall h

theorem callValue (callee : Value) (n : Nat) (arguments : List Value) :
    Mirrors line printed (operations.callValue x callee n arguments)
      (operations.callValue y callee (line n) arguments) := by
  cases callee with
  | functionRef f =>
    refine Mirrors.withFunction f fun object => ?_
    have harity : (object.onLines line).declaration.arity = object.declaration.arity :=
      Stmt.functionOnLines_arity object.declaration
    dsimp only
    rw [harity]
    exact checkedCall (parts.callFunction f arguments) _ n arguments
  | classRef c =>
    refine .withStore fun store => ?_
    dsimp only
    rw [store.classArity_onLines]
    exact checkedCall (parts.instantiate c arguments) _ n arguments
  | nil | bool _ | number _ | string _ | instanceRef _ => exact .fail _ n

theorem evaluateForm (e : Expr) :
    Mirrors line printed (operations.evaluateForm x e)
      (operations.evaluateForm y (e.onLines line)) := by
  cases e with
  | literal value => exact .pure _
  | grouping e => exact parts.evaluate e
  | unary op n operand => exact (parts.evaluate operand).bind fun v => atLine n _
  | binary op n left right =>
    refine (parts.evaluate left).bind fun u => ?_
    exact (parts.evaluate right).bind fun v => atLine n _
  | logical op left right =>
    refine (parts.evaluate left).bind fun v => ?_
    split
    · exact .pure v
    · exact parts.evaluate right
  | «variable» id name => exact mirrors_read name
  | assign id name value =>
    refine (parts.evaluate value).bind fun v => ?_
    exact (mirrors_write name v).bind fun _ => .pure v
  | call callee n arguments =>
    refine (parts.evaluate callee).bind fun v => ?_
    refine (mirrors_evaluateAll parts.evaluate arguments []).bind fun vs => ?_
    exact parts.callValue v n vs
  | get object name =>
    refine (parts.evaluate object).bind fun v => ?_
    cases v with
    | instanceRef id => exact readProperty id name
    | nil | bool _ | number _ | string _ | functionRef _ | classRef _ => exact .fail _ name.line
  | set object name value =>
    refine (parts.evaluate object).bind fun v => ?_
    cases v with
    | instanceRef id =>
      refine (parts.evaluate value).bind fun v => ?_
      have hset : Mirrors line printed (operations.setField id name.text v)
          (operations.setField id name.text v) := fun _ => rfl
      exact hset.bind fun _ => .pure v
    | nil | bool _ | number _ | string _ | functionRef _ | classRef _ => exact .fail _ name.line
  | this id n => exact mirrors_read ⟨"this", n⟩
  | super id n method => exact mirrors_superMethod method n

theorem evaluate? (e : Option Expr) :
    Mirrors line printed (Operations.evaluate? x e)
      (Operations.evaluate? y (e.map (Expr.onLines line))) := by
  cases e with
  | none => exact .pure _
  | some e => exact parts.evaluate e

theorem superclassValue? (superclass : Option Superclass) :
    Mirrors line printed (Operations.superclassValue? x superclass)
      (Operations.superclassValue? y (superclass.map (Superclass.onLines line))) := by
  cases superclass with
  | none => exact .pure _
  | some superclass =>
    refine Mirrors.map ?_ some
    refine (parts.evaluate superclass.toExpr).bind fun v => ?_
    cases v with
    | classRef c => exact .pure c
    | nil | bool _ | number _ | string _ | functionRef _ | instanceRef _ =>
      exact .fail _ superclass.name.line

theorem executeForm (s : Stmt) :
    Mirrors line printed (operations.executeForm x s)
      (operations.executeForm y (s.onLines line)) := by
  cases s with
  | expression e => exact (parts.evaluate e).bind fun _ => .pure _
  | print e =>
    refine (parts.evaluate e).bind fun v => ?_
    refine .withStore fun store => ?_
    rw [store.display_onLines]
    have hprint (text : String) : Mirrors line printed (operations.printLine text)
        (operations.printLine text) := by
      intro l
      have houtput :
          printed ++ l.output ++ text ++ "\n" = printed ++ (l.output ++ text ++ "\n") := by
        simp only [String.append_assoc]
      exact congrArg (fun output => EStateM.Result.ok ()
        { l with objects := l.objects.onLines line, output }) houtput
    exact (hprint _).bind fun _ => .pure _
  | varDecl name initializer =>
    refine (mirrors_declare name.text).bind fun _ => ?_
    refine (parts.evaluate? initializer).bind fun v => ?_
    exact (mirrors_define v name.text).bind fun _ => .pure _
  | block body =>
    refine .withState fun l => ?_
    exact mirrors_inside _ (mirrors_runAll parts.execute body)
  | ifElse condition thenBranch elseBranch =>
    cases elseBranch with
    | none =>
      refine (parts.evaluate condition).bind fun v => ?_
      split
      · exact parts.execute thenBranch
      · exact .pure _
    | some elseBranch =>
      refine (parts.evaluate condition).bind fun v => ?_
      split
      · exact parts.execute thenBranch
      · exact parts.execute elseBranch
  | whileLoop condition body =>
    change Mirrors line printed (loop _ _ x.limit) (loop _ _ y.limit)
    rw [← parts.limit]
    exact mirrors_loop ((parts.evaluate condition).map Value.isTruthy) (parts.execute body) x.limit
  | funDecl f =>
    change Mirrors line printed (operations.executeForm x (.funDecl f))
      (operations.executeForm y (.funDecl (Stmt.functionOnLines line f)))
    unfold Operations.executeForm
    dsimp only
    rw [Stmt.functionOnLines_name]
    refine (mirrors_declare f.name.text).bind fun _ => ?_
    have hnew : Mirrors line printed (operations.newFunction f)
        (operations.newFunction (Stmt.functionOnLines line f)) :=
      .withState fun l => mirrors_makeFunction l.environment f false
    refine hnew.bind fun id => ?_
    exact (mirrors_define (.functionRef id) f.name.text).bind fun _ => .pure _
  | returnWith n value => exact (parts.evaluate? value).bind fun v => .pure _
  | classDecl name superclass methods =>
    refine (mirrors_declare name.text).bind fun _ => ?_
    refine (parts.superclassValue? superclass).bind fun c => ?_
    exact (mirrors_newClass name c methods).bind fun _ => .pure _

end MirrorsParts

section
variable {line printed}

theorem mirrors_evaluators (fuel : Nat) :
    MirrorsParts line printed ⟨fuel, operations.evaluate fuel, operations.execute fuel⟩
      ⟨fuel, operations.evaluate fuel, operations.execute fuel⟩ := by
  induction fuel with
  | zero =>
    constructor
    · rfl
    · intro e
      change Mirrors line printed (operations.evaluate 0 e) (operations.evaluate 0 (e.onLines line))
      rw [Operations.evaluate, Operations.evaluate]
      exact .throw _
    · intro s
      change Mirrors line printed (operations.execute 0 s) (operations.execute 0 (s.onLines line))
      rw [Operations.execute, Operations.execute]
      exact .throw _
  | succ fuel ih =>
    constructor
    · rfl
    · intro e
      change Mirrors line printed (operations.evaluate (fuel + 1) e)
        (operations.evaluate (fuel + 1) (e.onLines line))
      rw [Operations.evaluate, Operations.evaluate]
      exact ih.evaluateForm e
    · intro s
      change Mirrors line printed (operations.execute (fuel + 1) s)
        (operations.execute (fuel + 1) (s.onLines line))
      rw [Operations.execute, Operations.execute]
      exact ih.executeForm s

/-- A program on other lines ends alike and prints the same. -/
theorem mirrors_interpret (fuel : Nat) (program : List Stmt) :
    Mirrors line printed (operations.interpret fuel program)
      (operations.interpret fuel (Stmt.listOnLines line program)) :=
  (mirrors_runAll (mirrors_evaluators fuel).execute program).bind fun _ => .pure _

/-- One change of lines after another. -/
theorem onLines_onLines (l : Lexical) (outer : Nat → Nat) (before : String) :
    (l.onLines line printed).onLines outer before =
      l.onLines (outer ∘ line) (before ++ printed) := by
  have hobject (object : FunctionObject) :
      (object.onLines line).onLines outer = object.onLines (outer ∘ line) := by
    unfold FunctionObject.onLines
    rw [Stmt.functionOnLines_onLines]
  have hobjects : (l.objects.onLines line).onLines outer = l.objects.onLines (outer ∘ line) := by
    unfold Store.onLines
    simp only [Array.map_map]
    rw [show FunctionObject.onLines outer ∘ FunctionObject.onLines line =
      FunctionObject.onLines (outer ∘ line) from funext hobject]
  unfold onLines
  rw [hobjects, String.append_assoc]

end

end Lexical
end Evaluation
end Lox
