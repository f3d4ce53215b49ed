import Lox.Proofs.Resolution.Occurrences
import Lox.Proofs.Scoping.Lexical
import Lox.Proofs.Evaluation.Simulation

/-!
# Which global variables there are

Lexically, only the declarations that stand outside of all local scopes add global variables: an
expression adds none, whatever functions it calls, and neither does a statement in a local scope.
After a program has come to its end, the global variables are those that there were before it and
those that it declares.
-/
namespace Lox.Evaluation.Lexical
open Operations
variable {α β : Type}

/-- Names mean what they did, and the same of them are global variables. -/
structure Same (l l' : Lexical) : Prop where
  environment : l'.environment = l.environment
  globals : ∀ name, l'.globals.contains name = l.globals.contains name

/-- In a local scope the global variables stay the same. -/
def SameInside (l l' : Lexical) : Prop :=
  l.environment.isLocal = true → l'.environment.isLocal = true ∧
    ∀ name, l'.globals.contains name = l.globals.contains name

theorem Same.refl (l : Lexical) : Same l l := ⟨rfl, fun _ => rfl⟩

theorem Same.trans {l l' l'' : Lexical} (h : Same l l') (h' : Same l' l'') : Same l l'' :=
  ⟨h'.environment.trans h.environment, fun name => (h'.globals name).trans (h.globals name)⟩

theorem Same.inside {l l' : Lexical} (h : Same l l') : SameInside l l' :=
  fun hlocal => ⟨h.environment ▸ hlocal, h.globals⟩

/-- What is true of a state and of the one after a step, however the step ends. -/
def Preserves (p : Lexical → Lexical → Prop) (x : EStateM Halt Lexical α) : Prop :=
  ∀ l, p l (stateOf (x l))

theorem Preserves.withState {p : Lexical → Lexical → Prop} {f : Lexical → EStateM Halt Lexical α}
    (h : ∀ l, Preserves p (f l)) : Preserves p (get >>= f) :=
  fun l => h l l

theorem Preserves.withStore {p : Lexical → Lexical → Prop} {f : Store → EStateM Halt Lexical α}
    (h : ∀ store, Preserves p (f store)) : Preserves p (operations.getStore >>= f) :=
  fun l => h l.objects l

/-- Steps can be taken one after another. -/
structure Chains (p : Lexical → Lexical → Prop) : Prop where
  refl : ∀ l, p l l
  trans : ∀ {l l' l''}, p l l' → p l' l'' → p l l''

theorem chains_same : Chains Same := ⟨.refl, .trans⟩

theorem chains_sameInside : Chains SameInside where
  refl _ hlocal := ⟨hlocal, fun _ => rfl⟩
  trans h h' hlocal :=
    have ⟨hlocal', hglobals⟩ := h hlocal
    have ⟨hlocal'', hglobals'⟩ := h' hlocal'
    ⟨hlocal'', fun name => (hglobals' name).trans (hglobals name)⟩

/-- Steps in sequence end as the second one does, unless the first one stops them. -/
theorem bind_cases (x : EStateM Halt Lexical α) (f : α → EStateM Halt Lexical β) (l : Lexical) :
    (∃ a l', x l = .ok a l' ∧ (x >>= f) l = f a l') ∨
      ∃ halt l', x l = .error halt l' ∧ (x >>= f) l = .error halt l' := by
  change (∃ a l', x l = .ok a l' ∧ EStateM.bind x f l = f a l') ∨
    ∃ halt l', x l = .error halt l' ∧ EStateM.bind x f l = .error halt l'
  unfold EStateM.bind
  cases x l with
  | ok a l' => exact .inl ⟨a, l', rfl, rfl⟩
  | error halt l' => exact .inr ⟨halt, l', rfl, rfl⟩

namespace Chains
variable {p : Lexical → Lexical → Prop} (chains : Chains p) {x : EStateM Halt Lexical α}
  {f : α → EStateM Halt Lexical β}
include chains

theorem pure (a : α) : Preserves p (Pure.pure a) := fun l => chains.refl l

theorem throw (halt : Halt) : Preserves p (MonadExcept.throw halt : EStateM Halt Lexical α) :=
  fun l => chains.refl l

theorem fail (cause : RuntimeError.Cause) (line : Nat) :
    Preserves p (Operations.fail cause line : EStateM Halt Lexical α) :=
  chains.throw _

theorem bind (h : Preserves p x) (hf : ∀ a, Preserves p (f a)) : Preserves p (x >>= f) := by
  intro l
  have hx := h l
  rcases bind_cases x f l with ⟨a, l', heq, hbind⟩ | ⟨halt, l', heq, hbind⟩
  · rw [heq] at hx
    rw [hbind]
    exact chains.trans hx (hf a l')
  · rw [heq] at hx
    rw [hbind]
    exact hx

theorem map (h : Preserves p x) (k : α → β) : Preserves p (k <$> x) := by
  rw [map_eq_pure_bind]
  exact chains.bind h fun a => chains.pure _

theorem object (o : Option α) : Preserves p (Operations.object o) := by
  cases o with
  | none => exact chains.throw _
  | some o => exact chains.pure o

theorem function (f : FunctionId) : Preserves p (operations.function f) :=
  .withStore fun _ => chains.object _

theorem runAll {x : Stmt → EStateM Halt Lexical Completion} (h : ∀ s, Preserves p (x s))
    (body : List Stmt) : Preserves p (Evaluation.runAll x body) := by
  induction body with
  | nil => exact chains.pure _
  | cons first rest ih =>
    refine chains.bind (h first) fun completion => ?_
    cases completion with
    | normal => exact ih
    | returned v => exact chains.pure _

theorem evaluateAll {x : Expr → EStateM Halt Lexical Value} (h : ∀ e, Preserves p (x e))
    (es : List Expr) (done : List Value) : Preserves p (Evaluation.evaluateAll x es done) := by
  induction es generalizing done with
  | nil => exact chains.pure _
  | cons e es ih => exact chains.bind (h e) fun v => ih (v :: done)

theorem loop {x : EStateM Halt Lexical Bool} {y : EStateM Halt Lexical Completion}
    (h : Preserves p x) (h' : Preserves p y) (limit : Nat) :
    Preserves p (Evaluation.loop x y limit) := by
  induction limit with
  | zero => exact chains.throw _
  | succ limit ih =>
    refine chains.bind h fun holds => ?_
    cases holds with
    | false => exact chains.pure _
    | true =>
      refine chains.bind h' fun completion => ?_
      cases completion with
      | normal => exact ih
      | returned v => exact chains.pure _

end Chains

theorem Preserves.inside {x : EStateM Halt Lexical α} (h : Preserves Same x) :
    Preserves SameInside x :=
  fun l => (h l).inside

/-- What is done in a local scope changes neither the environment around nor the globals. -/
theorem same_inside {environment : Environment} (hlocal : environment.isLocal = true)
    {x : EStateM Halt Lexical α} (h : Preserves SameInside x) :
    Preserves Same (inside environment x) := by
  intro l
  obtain ⟨-, hglobals⟩ := h { l with environment } hlocal
  unfold inside
  cases heq : x { l with environment } with
  | ok a after =>
    rw [heq] at hglobals
    exact ⟨rfl, hglobals⟩
  | error halt after =>
    rw [heq] at hglobals
    exact ⟨rfl, hglobals⟩

theorem same_asCall {x : EStateM Halt Lexical α} (h : Preserves Same x) :
    Preserves Same (asCall x) := by
  intro l
  have hx := h { l with callDepth := l.callDepth + 1 }
  unfold asCall
  cases heq : x { l with callDepth := l.callDepth + 1 } with
  | ok a after =>
    rw [heq] at hx
    exact ⟨hx.environment, hx.globals⟩
  | error halt after =>
    rw [heq] at hx
    exact ⟨hx.environment, hx.globals⟩

theorem contains_insert (b : Bindings Value) (name other : String) (v : Value) :
    (b.insert name v).contains other = (other == name || b.contains other) := by
  unfold Bindings.contains
  rw [Bindings.find?_insert]
  by_cases h : other = name
  · simp [h]
  · simp [h]

theorem same_read (name : Name) : Preserves Same (read name) := by
  intro l
  unfold read
  dsimp only
  split
  · exact .refl l
  · exact .refl l

/-- Only a global variable that has a value gets another one. -/
theorem same_write (name : Name) (v : Value) : Preserves Same (write name v) := by
  intro l
  unfold write
  split
  · exact ⟨rfl, fun _ => rfl⟩
  · split
    · next hknown =>
      refine ⟨rfl, fun other => ?_⟩
      change (l.globals.insert name.text v).contains other = _
      rw [contains_insert]
      by_cases h : other = name.text
      · rw [h, hknown, Bool.or_true]
      · rw [beq_false_of_ne h, Bool.false_or]
    · exact .refl l

theorem same_bindTo (f : FunctionId) (receiver : InstanceId) :
    Preserves Same (bindTo f receiver) := by
  refine .withState fun l => ?_
  refine chains_same.bind (chains_same.object _) fun object l => ?_
  exact ⟨rfl, fun _ => rfl⟩

theorem same_superMethod (line : Nat) (method : Name) :
    Preserves Same (superMethod line method) := by
  refine .withState fun l => ?_
  split
  · split
    · split
      · exact chains_same.map (same_bindTo _ _) _
      · exact chains_same.fail _ _
    · exact chains_same.throw _
    · exact chains_same.throw _
  · exact chains_same.fail _ _

theorem bindParameters_same (l : Lexical) (environment : Environment) (parameters : List Name)
    (arguments : List Value) (hlocal : environment.isLocal = true) :
    (l.bindParameters environment parameters arguments).1.isLocal = true ∧
      Same l (l.bindParameters environment parameters arguments).2 := by
  induction parameters generalizing l environment arguments with
  | nil => exact ⟨hlocal, .refl l⟩
  | cons parameter parameters ih =>
    let extended := l.extend environment parameter.text arguments.head?
    obtain ⟨hinner, hsame⟩ := ih extended.2 extended.1 arguments.tail rfl
    exact ⟨hinner, hsame.environment, hsame.globals⟩

theorem same_inCall (f : FunctionId) (object : FunctionObject) (arguments : List Value)
    {x : EStateM Halt Lexical Completion} (h : Preserves SameInside x) :
    Preserves Same (operations.inCall f object arguments x) := by
  intro l
  obtain ⟨hlocal, hbound⟩ := bindParameters_same l
    { l.environmentOf object with isLocal := true } object.declaration.parameters arguments rfl
  exact hbound.trans (same_inside hlocal h _)

/-- What is known of the evaluation of the parts of a tree. -/
structure Tame (parts : Parts Lexical) : Prop where
  evaluate : ∀ e, Preserves Same (parts.evaluate e)
  execute : ∀ s, Preserves SameInside (parts.execute s)

namespace Tame
variable {parts : Parts Lexical} (tame : Tame parts)

theorem atLine (n : Nat) (result : Except RuntimeError.Cause Value) :
    Preserves Same (Operations.atLine n result : EStateM Halt Lexical Value) := by
  cases result with
  | ok v => exact chains_same.pure v
  | error cause => exact chains_same.fail cause n

theorem readProperty (id : InstanceId) (name : Name) :
    Preserves Same (operations.readProperty id name) := by
  refine .withStore fun store => ?_
  split
  · exact chains_same.pure _
  · refine .withStore fun store => ?_
    refine chains_same.bind (Preserves.withStore fun _ => chains_same.object _) fun c => ?_
    split
    · exact chains_same.map (same_bindTo _ _) _
    · exact chains_same.fail _ _

include tame

theorem callFunction (f : FunctionId) (arguments : List Value) :
    Preserves Same (operations.callFunction parts f arguments) := by
  refine chains_same.bind (chains_same.function f) fun object => ?_
  have hbody := chains_sameInside.runAll tame.execute object.declaration.body
  refine chains_same.bind (same_inCall f object arguments hbody) fun completion => ?_
  split
  · exact fun l => .refl l
  · split
    · exact chains_same.pure _
    · exact chains_same.pure _

theorem instantiate (c : ClassId) (arguments : List Value) :
    Preserves Same (operations.instantiate parts c arguments) := by
  have hnew : Preserves Same (operations.newInstance c) := fun l => ⟨rfl, fun _ => rfl⟩
  refine chains_same.bind hnew fun id => ?_
  refine .withStore fun store => ?_
  cases store.findMethod? c FunctionOf.initializerName with
  | none => exact chains_same.pure _
  | some init =>
    refine chains_same.bind (same_bindTo init id) fun f => ?_
    refine chains_same.bind (tame.callFunction f arguments) fun _ => ?_
    exact chains_same.pure _

omit tame in
theorem checkedCall {body : EStateM Halt Lexical Value} (h : Preserves Same body) (arity n : Nat)
    (arguments : List Value) : Preserves Same (operations.checkedCall arity n arguments body) := by
  unfold Operations.checkedCall
  split
  · exact chains_same.fail _ _
  · refine .withState fun l => ?_
    split
    · exact chains_same.fail _ _
    · exact same_asCall h

theorem callValue (callee : Value) (n : Nat) (arguments : List Value) :
    Preserves Same (operations.callValue parts callee n arguments) := by
  cases callee with
  | functionRef f =>
    refine chains_same.bind (chains_same.function f) fun object => ?_
    exact checkedCall (tame.callFunction f arguments) _ n arguments
  | classRef c =>
    refine .withStore fun store => ?_
    exact checkedCall (tame.instantiate c arguments) _ n arguments
  | nil | bool _ | number _ | string _ | instanceRef _ => exact chains_same.fail _ n

theorem evaluateForm (e : Expr) : Preserves Same (operations.evaluateForm parts e) := by
  cases e with
  | literal value => exact chains_same.pure _
  | grouping e => exact tame.evaluate e
  | unary op n operand => exact chains_same.bind (tame.evaluate operand) fun v => atLine n _
  | binary op n left right =>
    refine chains_same.bind (tame.evaluate left) fun u => ?_
    exact chains_same.bind (tame.evaluate right) fun v => atLine n _
  | logical op left right =>
    refine chains_same.bind (tame.evaluate left) fun v => ?_
    split
    · exact chains_same.pure v
    · exact tame.evaluate right
  | «variable» id name => exact same_read name
  | assign id name value =>
    refine chains_same.bind (tame.evaluate value) fun v => ?_
    exact chains_same.bind (same_write name v) fun _ => chains_same.pure v
  | call callee n arguments =>
    refine chains_same.bind (tame.evaluate callee) fun v => ?_
    refine chains_same.bind (chains_same.evaluateAll tame.evaluate arguments []) fun vs => ?_
    exact tame.callValue v n vs
  | get object name =>
    refine chains_same.bind (tame.evaluate object) fun v => ?_
    split
    · exact readProperty _ name
    · exact chains_same.fail _ _
  | set object name value =>
    refine chains_same.bind (tame.evaluate object) fun v => ?_
    split
    · next id =>
      refine chains_same.bind (tame.evaluate value) fun v => ?_
      have hset : Preserves Same (operations.setField id name.text v) :=
        fun l => ⟨rfl, fun _ => rfl⟩
      exact chains_same.bind hset fun _ => chains_same.pure v
    · exact chains_same.fail _ _
  | this id n => exact same_read ⟨"this", n⟩
  | super id n method => exact same_superMethod n method

theorem evaluate? (e : Option Expr) : Preserves Same (Operations.evaluate? parts e) := by
  cases e with
  | none => exact chains_same.pure _
  | some e => exact tame.evaluate e

theorem superclassValue? (superclass : Option Superclass) :
    Preserves Same (Operations.superclassValue? parts superclass) := by
  cases superclass with
  | none => exact chains_same.pure _
  | some superclass =>
    refine chains_same.map ?_ some
    refine chains_same.bind (tame.evaluate superclass.toExpr) fun v => ?_
    split
    · exact chains_same.pure _
    · exact chains_same.fail _ _

end Tame

/-- A name that has a location keeps it. -/
def SameIfLocated (name : String) (l l' : Lexical) : Prop :=
  l.environment.locations.contains name = true → Same l l'

theorem chains_sameIfLocated (name : String) : Chains (SameIfLocated name) where
  refl l _ := .refl l
  trans h h' hname := (h hname).trans (h' ((h hname).environment ▸ hname))

theorem Preserves.located {x : EStateM Halt Lexical α} (h : Preserves Same x) (name : String) :
    Preserves (SameIfLocated name) x :=
  fun l _ => h l

theorem sameIfLocated_define (name : String) (v : Value) :
    Preserves (SameIfLocated name) (define name v) := by
  intro l hname
  rw [Bindings.contains, Option.isSome_iff_exists] at hname
  obtain ⟨location, hlocation⟩ := hname
  unfold define
  rw [hlocation]
  exact ⟨rfl, fun _ => rfl⟩

theorem same_methodEnvironment (superclass : Option ClassId) :
    Preserves Same (methodEnvironment superclass) := by
  cases superclass with
  | none => exact .refl
  | some c => exact fun l => ⟨rfl, fun _ => rfl⟩

theorem same_makeClass (environment : Environment) (name : Name) (superclass : Option ClassId)
    (methods : List FunctionDecl) :
    Preserves Same (makeClass environment name superclass methods) :=
  fun _ => ⟨rfl, fun _ => rfl⟩

theorem same_newFunction (f : FunctionDecl) : Preserves Same (operations.newFunction f) :=
  fun _ => ⟨rfl, fun _ => rfl⟩

theorem sameIfLocated_newClass (name : Name) (superclass : Option ClassId)
    (methods : List FunctionDecl) :
    Preserves (SameIfLocated name.text) (operations.newClass name superclass methods) := by
  have chains := chains_sameIfLocated name.text
  refine chains.bind (sameIfLocated_define name.text .nil) fun _ => ?_
  refine chains.bind ((same_methodEnvironment superclass).located _) fun environment => ?_
  refine chains.bind ((same_makeClass environment name superclass methods).located _) fun c => ?_
  exact sameIfLocated_define name.text _

/-- After its declaration a local name has a location. -/
theorem sameInside_declare {name : String} {x : EStateM Halt Lexical α}
    (h : Preserves (SameIfLocated name) x) :
    Preserves SameInside (declare name >>= fun _ => x) := by
  intro l hlocal
  let extended := l.extend l.environment name none
  have hlocated : extended.1.locations.contains name = true := by
    rw [Bindings.contains]
    change ((l.environment.locations.insert name l.cells.size).find? name).isSome = true
    rw [Bindings.find?_insert_self]
    rfl
  have hsame := h { extended.2 with environment := extended.1 } hlocated
  have hdeclare : declare name l = .ok () { extended.2 with environment := extended.1 } := by
    unfold declare
    rw [if_pos hlocal]
  rcases bind_cases (declare name) (fun _ => x) l with ⟨a, l', heq, hbind⟩ | ⟨halt, l', heq, -⟩
  · cases hdeclare.symm.trans heq
    rw [hbind]
    refine ⟨?_, hsame.globals⟩
    rw [hsame.environment]
    rfl
  · cases hdeclare.symm.trans heq

theorem Tame.executeForm {parts : Parts Lexical} (tame : Tame parts) (s : Stmt) :
    Preserves SameInside (operations.executeForm parts s) := by
  have chains := chains_sameInside
  match s with
  | .expression e =>
    exact chains.bind (tame.evaluate e).inside fun _ => chains.pure _
  | .print e =>
    refine chains.bind (tame.evaluate e).inside fun v => ?_
    refine .withStore fun store => ?_
    have hprint : Preserves Same (operations.printLine (store.display v)) :=
      fun l => ⟨rfl, fun _ => rfl⟩
    exact chains.bind hprint.inside fun _ => chains.pure _
  | .varDecl name initializer =>
    have located := chains_sameIfLocated name.text
    refine sameInside_declare (located.bind ((tame.evaluate? initializer).located _) fun v => ?_)
    exact located.bind (sameIfLocated_define name.text v) fun _ => located.pure _
  | .block body =>
    refine .withState fun l => ?_
    exact (same_inside rfl (chains.runAll tame.execute body)).inside
  | .ifElse condition thenBranch elseBranch =>
    refine chains.bind (tame.evaluate condition).inside fun v => ?_
    split
    · exact tame.execute thenBranch
    · cases elseBranch with
      | none => exact chains.pure _
      | some elseBranch => exact tame.execute elseBranch
  | .whileLoop condition body =>
    exact chains.loop (chains.map (tame.evaluate condition).inside _) (tame.execute body) _
  | .funDecl f =>
    have located := chains_sameIfLocated f.name.text
    refine sameInside_declare (located.bind ((same_newFunction f).located _) fun id => ?_)
    exact located.bind (sameIfLocated_define f.name.text _) fun _ => located.pure _
  | .returnWith n value =>
    exact chains.bind (tame.evaluate? value).inside fun _ => chains.pure _
  | .classDecl name superclass methods =>
    have located := chains_sameIfLocated name.text
    refine sameInside_declare
      (located.bind ((tame.superclassValue? superclass).located _) fun c => ?_)
    exact located.bind (sameIfLocated_newClass name c methods) fun _ => located.pure _

theorem tame_evaluators (fuel : Nat) :
    Tame ⟨fuel, operations.evaluate fuel, operations.execute fuel⟩ := by
  induction fuel with
  | zero =>
    constructor
    · intro e
      change Preserves Same (operations.evaluate 0 e)
      rw [Operations.evaluate]
      exact chains_same.throw _
    · intro s
      change Preserves SameInside (operations.execute 0 s)
      rw [Operations.execute]
      exact chains_sameInside.throw _
  | succ fuel ih =>
    constructor
    · intro e
      change Preserves Same (operations.evaluate (fuel + 1) e)
      rw [Operations.evaluate]
      exact ih.evaluateForm e
    · intro s
      change Preserves SameInside (operations.execute (fuel + 1) s)
      rw [Operations.execute]
      exact ih.executeForm s

/-- If the step comes to its end, the names are those of global variables. -/
def Adds (names : List Name) (x : EStateM Halt Lexical α) : Prop :=
  ∀ l a l', l.environment = {} → x l = .ok a l' → l'.environment = {} ∧
    ∀ other, l'.globals.contains other =
      (names.any (·.text == other) || l.globals.contains other)

namespace Adds
variable {x : EStateM Halt Lexical α} {f : α → EStateM Halt Lexical β} {names names' : List Name}

theorem of_same (h : Preserves Same x) : Adds [] x := by
  intro l a l' henvironment hx
  have hsame := h l
  rw [hx] at hsame
  exact ⟨hsame.environment.trans henvironment, hsame.globals⟩

theorem bind (h : Adds names x) (hf : ∀ a, Adds names' (f a)) :
    Adds (names ++ names') (x >>= f) := by
  intro l b l'' henvironment hx
  rcases bind_cases x f l with ⟨a, l', heq, hbind⟩ | ⟨halt, l', -, hbind⟩
  · obtain ⟨hmid, hbetween⟩ := h l a l' henvironment heq
    obtain ⟨hafter, hglobals⟩ := hf a l' b l'' hmid (hbind.symm.trans hx)
    refine ⟨hafter, fun other => ?_⟩
    rw [hglobals, hbetween, List.any_append, ← Bool.or_assoc, Bool.or_comm (names'.any _)]
  · cases hbind.symm.trans hx

theorem pure (a : α) : Adds [] (Pure.pure a) := of_same (chains_same.pure a)

/-- A step that adds nothing may come first or last. -/
theorem after (h : Preserves Same x) (hf : ∀ a, Adds names (f a)) : Adds names (x >>= f) :=
  (of_same h).bind hf

theorem before (h : Adds names x) (hf : ∀ a, Preserves Same (f a)) : Adds names (x >>= f) := by
  have hbind := h.bind fun a => of_same (hf a)
  rwa [List.append_nil] at hbind

theorem declare (name : String) : Adds [] (Lexical.declare name) := by
  intro l a l' henvironment hx
  unfold Lexical.declare at hx
  rw [if_neg (by rw [henvironment]; exact Bool.false_ne_true)] at hx
  cases hx
  exact ⟨henvironment, fun _ => rfl⟩

theorem define (name : Name) (v : Value) : Adds [name] (Lexical.define name.text v) := by
  intro l a l' henvironment hx
  have hnone : l.environment.locations.find? name.text = none := by
    rw [henvironment]
    rfl
  unfold Lexical.define at hx
  rw [hnone] at hx
  cases hx
  refine ⟨henvironment, fun other => ?_⟩
  rw [List.any_cons, List.any_nil, Bool.or_false, Bool.beq_comm]
  exact contains_insert l.globals name.text other v

theorem newClass (name : Name) (superclass : Option ClassId) (methods : List FunctionDecl) :
    Adds [name] (operations.newClass name superclass methods) := by
  intro l a l' henvironment hx
  have htwice : Adds ([name] ++ [name]) (operations.newClass name superclass methods) := by
    refine (define name .nil).bind fun _ => ?_
    refine after (same_methodEnvironment superclass) fun environment => ?_
    exact after (same_makeClass environment name superclass methods) fun c => define name _
  obtain ⟨hafter, hglobals⟩ := htwice l a l' henvironment hx
  refine ⟨hafter, fun other => ?_⟩
  rw [hglobals, List.any_append, Bool.or_self]

theorem loop {x : EStateM Halt Lexical Bool} {y : EStateM Halt Lexical Completion}
    (h : Preserves Same x) (h' : Adds [] y) (limit : Nat) :
    Adds [] (Evaluation.loop x y limit) := by
  induction limit with
  | zero => exact of_same (chains_same.throw _)
  | succ limit ih =>
    refine after h fun holds => ?_
    cases holds with
    | false => exact pure _
    | true =>
      refine h'.bind fun completion => ?_
      cases completion with
      | normal => exact ih
      | returned v => exact pure _

end Adds

/-- A statement adds the names that it declares. -/
theorem adds_executeForm {parts : Parts Lexical} (tame : Tame parts)
    (h : ∀ s : Stmt, s.WellFormed → Adds s.declaredNames (parts.execute s)) (s : Stmt)
    (hs : s.WellFormed) : Adds s.declaredNames (operations.executeForm parts s) := by
  have hbranch (branch : Stmt) (hb : branch.declaredName? = none ∧ branch.WellFormed) :
      Adds [] (parts.execute branch) := by
    have hadds := h branch hb.2
    rwa [branch.declaredNames_eq_nil hb.2 hb.1] at hadds
  match s, hs with
  | .expression e, _ => exact .before (.of_same (tame.evaluate e)) fun _ => chains_same.pure _
  | .print e, _ =>
    refine .after (tame.evaluate e) fun v => .of_same (.withStore fun store => ?_)
    exact chains_same.bind (fun l => ⟨rfl, fun _ => rfl⟩) fun _ => chains_same.pure _
  | .varDecl name initializer, _ =>
    refine (Adds.declare name.text).bind fun _ => ?_
    refine .after (tame.evaluate? initializer) fun v => ?_
    exact .before (.define name v) fun _ => chains_same.pure _
  | .block body, _ =>
    refine .of_same (.withState fun l => ?_)
    exact same_inside rfl (chains_sameInside.runAll tame.execute body)
  | .ifElse condition thenBranch none, hs =>
    rw [Stmt.declaredNames_eq_nil _ hs rfl]
    refine .after (tame.evaluate condition) fun v => ?_
    split
    · exact hbranch thenBranch hs
    · exact .pure _
  | .ifElse condition thenBranch (some elseBranch), hs =>
    rw [Stmt.declaredNames_eq_nil _ hs rfl]
    refine .after (tame.evaluate condition) fun v => ?_
    split
    · exact hbranch thenBranch hs.1
    · exact hbranch elseBranch hs.2
  | .whileLoop condition body, hs =>
    rw [Stmt.declaredNames_eq_nil _ hs rfl]
    exact .loop (chains_same.map (tame.evaluate condition) _) (hbranch body hs) _
  | .funDecl f, _ =>
    refine (Adds.declare f.name.text).bind fun _ => ?_
    refine .after (same_newFunction f) fun id => ?_
    exact .before (.define f.name _) fun _ => chains_same.pure _
  | .returnWith n value, _ =>
    exact .before (.of_same (tame.evaluate? value)) fun _ => chains_same.pure _
  | .classDecl name superclass methods, _ =>
    refine (Adds.declare name.text).bind fun _ => ?_
    refine .after (tame.superclassValue? superclass) fun c => ?_
    exact .before (.newClass name c methods) fun _ => chains_same.pure _

theorem adds_execute (fuel : Nat) (s : Stmt) (hs : s.WellFormed) :
    Adds s.declaredNames (operations.execute fuel s) := by
  induction fuel generalizing s with
  | zero =>
    rw [Operations.execute]
    intro l a l' _ hx
    cases hx
  | succ fuel ih =>
    rw [Operations.execute]
    exact adds_executeForm (tame_evaluators fuel) ih s hs

/-- When a program has come to its end without a return, its environment is the one outside of all
local scopes, and the global variables are those from before and those that the program declares. -/
theorem globals_runAll (fuel : Nat) {body : List Stmt} (hbody : Stmt.AllWellFormed body)
    {l l' : Lexical} (henvironment : l.environment = {})
    (hrun : runAll (operations.execute fuel) body l = .ok .normal l') :
    l'.environment = {} ∧ ∀ other, l'.globals.contains other =
      ((Stmt.declaredByAll body).any (·.text == other) || l.globals.contains other) := by
  induction body generalizing l with
  | nil =>
    cases hrun
    exact ⟨henvironment, fun _ => rfl⟩
  | cons first rest ih =>
    rcases bind_cases (operations.execute fuel first) _ l with
      ⟨completion, mid, heq, hbind⟩ | ⟨halt, mid, -, hbind⟩
    · rw [runAll, hbind] at hrun
      cases completion with
      | normal =>
        obtain ⟨hmid, hbetween⟩ := adds_execute fuel first hbody.1 l _ mid henvironment heq
        obtain ⟨hafter, hglobals⟩ := ih hbody.2 hmid hrun
        refine ⟨hafter, fun other => ?_⟩
        have hnames : Stmt.declaredByAll (first :: rest) =
            first.declaredNames ++ Stmt.declaredByAll rest := List.flatMap_cons
        rw [hglobals, hbetween, hnames, List.any_append, ← Bool.or_assoc,
          Bool.or_comm (List.any first.declaredNames _)]
      | returned v => cases hrun
    · rw [runAll, hbind] at hrun
      cases hrun

end Lox.Evaluation.Lexical
