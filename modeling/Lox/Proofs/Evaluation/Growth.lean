import Lox.Proofs.Evaluation.Control
import Lox.Proofs.Store.Grown

/-!
# The store only grows

From whatever machine an evaluation starts and however it ends, nothing that is in the store gets
lost. If scopes stand inside older ones and functions close over scopes that are there, then this
stays so: a new scope stands inside the running one or inside that over which a function closes.
-/
namespace Lox
open Evaluation

namespace Store
variable {store : Store}

/-- Scopes stand inside older ones, and functions close over scopes that are there. -/
structure Rooted (store : Store) : Prop where
  nested : store.Nested
  closures : ∀ (f : FunctionId) o, store.functions[f]? = some o → o.closure < store.scopes.size

namespace Rooted

theorem define (h : store.Rooted) (scope : ScopeId) (name : String) (v : Value) :
    (store.define scope name v).Rooted := by
  refine ⟨h.nested.define scope name v, fun f o ho => ?_⟩
  exact Nat.lt_of_lt_of_le (h.closures f o ho) (ScopesGrown.define store scope name v).size

theorem newScope (h : store.Rooted) {new : Scope}
    (hnew : ∀ outer, new.enclosing = some outer → outer < store.scopes.size) :
    (store.newScope new).1.Rooted := by
  refine ⟨h.nested.newScope hnew, fun f o ho => ?_⟩
  exact Nat.lt_of_lt_of_le (h.closures f o ho) (ScopesGrown.newScope store new).size

theorem newScope_inside (h : store.Rooted) {outer : ScopeId} (houter : outer < store.scopes.size)
    (bindings : Bindings Value) : (store.newScope ⟨bindings, some outer⟩).1.Rooted :=
  h.newScope fun _ heq => Option.some.inj heq ▸ houter

theorem addFunctions (h : store.Rooted) {functions : Array FunctionObject}
    (hnew : ∀ o ∈ functions, o.closure < store.scopes.size) :
    Rooted { store with functions := store.functions ++ functions } := by
  refine ⟨h.nested, fun f o ho => ?_⟩
  obtain hlt | hle := Nat.lt_or_ge f store.functions.size
  · rw [Array.getElem?_append_left hlt] at ho
    exact h.closures f o ho
  · rw [Array.getElem?_append_right hle] at ho
    exact hnew o (Array.mem_of_getElem? ho)

theorem newFunction (h : store.Rooted) {o : FunctionObject} (ho : o.closure < store.scopes.size) :
    (store.newFunction o).1.Rooted := by
  unfold Store.newFunction
  rw [← Array.append_singleton]
  refine h.addFunctions fun o' ho' => ?_
  obtain rfl := Array.mem_singleton.mp ho'
  exact ho

theorem bindMethod (h : store.Rooted) {o : FunctionObject} (ho : o.closure < store.scopes.size)
    (receiver : InstanceId) : (store.bindMethod o receiver).1.Rooted := by
  refine (h.newScope_inside ho _).newFunction ?_
  exact Nat.lt_of_lt_of_eq (Nat.lt_succ_self _) (Array.size_push ..).symm

end Rooted

theorem Grown.withMethodScope (store : Store) (scope : ScopeId) (superclass : Option ClassId) :
    store.Grown (withMethodScope store scope superclass).1 := by
  cases superclass with
  | none => exact .refl store
  | some c => exact .newScope store _

theorem Grown.withClass (store : Store) (scope : ScopeId) (name : Name)
    (superclass : Option ClassId) (methods : List FunctionDecl) :
    store.Grown (withClass store scope name superclass methods).1 :=
  (((Grown.define store scope name.text .nil).trans (.withMethodScope _ scope superclass)).trans
    (.addFunctions _ _)).trans (.newClass _ _)

/-- The methods of a class close over a scope that is there. -/
theorem Rooted.withMethodScope (h : store.Rooted) {scope : ScopeId}
    (hscope : scope < store.scopes.size) (superclass : Option ClassId) :
    (withMethodScope store scope superclass).1.Rooted ∧
      (Evaluation.withMethodScope store scope superclass).2 <
        (Evaluation.withMethodScope store scope superclass).1.scopes.size := by
  cases superclass with
  | none => exact ⟨h, hscope⟩
  | some c =>
    refine ⟨h.newScope_inside hscope _, ?_⟩
    exact Nat.lt_of_lt_of_eq (Nat.lt_succ_self _) (Array.size_push ..).symm

theorem Rooted.withClass (h : store.Rooted) {scope : ScopeId} (hscope : scope < store.scopes.size)
    (name : Name) (superclass : Option ClassId) (methods : List FunctionDecl) :
    (withClass store scope name superclass methods).1.Rooted := by
  have hdefined := h.define scope name.text .nil
  have hthere := Nat.lt_of_lt_of_le hscope (ScopesGrown.define store scope name.text .nil).size
  obtain ⟨hopened, hclosure⟩ := hdefined.withMethodScope hthere superclass
  have hmethods := @Rooted.addFunctions _ hopened (methodObjects _ methods).toArray fun o ho => by
    obtain ⟨declaration, -, rfl⟩ := List.mem_map.mp (List.mem_toArray.mp ho)
    exact hclosure
  exact ⟨hmethods.nested, hmethods.closures⟩

end Store

namespace Evaluation
open Operations
variable {α β : Type} {m m' m'' : Machine} {x : Eval α}

/-- The running scope is there, too. -/
structure Machine.Rooted (m : Machine) : Prop where
  store : m.store.Rooted
  scope : m.scope < m.store.scopes.size

/-- Nothing was lost from one machine to the other. -/
structure Machine.Enlarged (m m' : Machine) : Prop where
  grown : m.store.Grown m'.store
  rooted : m.Rooted → m'.Rooted

namespace Machine.Enlarged

theorem refl (m : Machine) : m.Enlarged m := ⟨.refl _, id⟩

theorem trans (h : m.Enlarged m') (h' : m'.Enlarged m'') : m.Enlarged m'' :=
  ⟨h.grown.trans h'.grown, fun hm => h'.rooted (h.rooted hm)⟩

/-- Only the store is another one. -/
theorem of_store {store : Store} (hgrown : m.store.Grown store)
    (hrooted : m.Rooted → store.Rooted) : m.Enlarged { m with store } :=
  ⟨hgrown, fun hm => ⟨hrooted hm, Nat.lt_of_lt_of_le hm.scope hgrown.scopes.size⟩⟩

theorem define (m : Machine) (scope : ScopeId) (name : String) (v : Value) :
    m.Enlarged { m with store := m.store.define scope name v } :=
  of_store (.define _ _ _ _) fun hm => hm.store.define scope name v

/-- A scope is added inside one that is there. -/
theorem newScope_inside (m : Machine) {outer : ScopeId}
    (houter : m.Rooted → outer < m.store.scopes.size) (bindings : Bindings Value) :
    m.Enlarged { m with store := (m.store.newScope ⟨bindings, some outer⟩).1 } :=
  of_store (.newScope _ _) fun hm => hm.store.newScope_inside (houter hm) bindings

end Machine.Enlarged

/-- Whatever machine the evaluation starts from, it loses nothing. -/
def Enlarges (x : Eval α) : Prop := ∀ m : Machine, m.Enlarged (stateOf (x m))

/-- From this machine on, whatever follows. -/
theorem Machine.Enlarged.bind {f : α → Eval β} (h : m.Enlarged (stateOf (x m)))
    (hf : ∀ a, Enlarges (f a)) : m.Enlarged (stateOf ((x >>= f) m)) := by
  change m.Enlarged (stateOf (EStateM.bind x f m))
  unfold EStateM.bind
  cases hrun : x m with
  | ok a m' =>
    rw [hrun] at h
    exact h.trans (hf a m')
  | error halt m' =>
    rw [hrun] at h
    exact h

namespace Enlarges

theorem pure (a : α) : Enlarges (Pure.pure a) := fun m => .refl m

theorem throw (halt : Halt) : Enlarges (MonadExcept.throw halt : Eval α) := fun m => .refl m

theorem get : Enlarges MonadState.get := fun m => .refl m

theorem bind {f : α → Eval β} (h : Enlarges x) (hf : ∀ a, Enlarges (f a)) : Enlarges (x >>= f) :=
  fun m => (h m).bind hf

theorem sequential : Sequential @Enlarges := ⟨pure, throw, bind, get⟩

/-- A function that is bound closes over a scope that is there. -/
theorem bindTo (f : FunctionId) (receiver : InstanceId) :
    Enlarges (Evaluation.bindTo f receiver) := by
  intro m
  cases ho : m.store.functions[f]? with
  | none =>
    rw [bindTo_missing m ho]
    exact .refl m
  | some o =>
    rw [bindTo_apply m ho]
    exact .of_store (.bindMethod _ _ _) fun hm =>
      hm.store.bindMethod (hm.store.closures f o ho) receiver

theorem composable : Composable @Enlarges where
  toSequential := sequential
  define scope name v m := .define m scope name v
  bindTo := bindTo

theorem newClass (name : Name) (superclass : Option ClassId) (methods : List FunctionDecl) :
    Enlarges (machine.newClass name superclass methods) := by
  intro m
  rw [newClass_apply]
  refine Machine.Enlarged.trans (.of_store (.withClass _ _ _ _ _) fun hm => ?_)
    (composable.writeFrom m.scope name _ _)
  exact hm.store.withClass hm.scope name superclass methods

/-- Whatever is done in a scope that is there, the scope before is there after it. -/
theorem inScope (h : Enlarges x) {scope : ScopeId}
    (hscope : m.Rooted → scope < m.store.scopes.size) :
    m.Enlarged (stateOf (Evaluation.inScope scope x m)) := by
  have hx := h { m with scope }
  rw [inScope_apply, stateOf_leaving]
  refine ⟨hx.grown, fun hm => ?_⟩
  have hafter := hx.rooted ⟨hm.store, hscope hm⟩
  exact ⟨hafter.store, Nat.lt_of_lt_of_le hm.scope hx.grown.scopes.size⟩

/-- In a new scope inside one that is there. -/
theorem inNewScope (h : Enlarges x) {outer : ScopeId}
    (houter : m.Rooted → outer < m.store.scopes.size) (bindings : Bindings Value) :
    m.Enlarged (stateOf
      ((allocate (·.newScope ⟨bindings, some outer⟩) >>= fun scope => Evaluation.inScope scope x) m)) := by
  refine (Machine.Enlarged.newScope_inside m houter bindings).trans (h.inScope fun _ => ?_)
  exact Nat.lt_of_lt_of_eq (Nat.lt_succ_self _) (Array.size_push ..).symm

theorem asCall (h : Enlarges x) : Enlarges (Evaluation.asCall x) := by
  intro m
  have hx := h { m with callDepth := m.callDepth + 1 }
  rw [asCall_apply, stateOf_leaving]
  refine ⟨hx.grown, fun hm => ?_⟩
  have hafter := hx.rooted ⟨hm.store, hm.scope⟩
  exact ⟨hafter.store, hafter.scope⟩

end Enlarges

/-- No rule loses anything. -/
def enlarging : Congruence Machine Machine where
  Rel x _ := Enlarges x
  pure := .pure
  throw := .throw
  bind := Enlarges.bind

theorem enlarging_steps : enlarging.OfSteps machine machine where
  getStore := Enlarges.get
  printLine _ _ := ⟨.refl _, fun hm => ⟨hm.store, hm.scope⟩⟩
  readVariable := Enlarges.composable.readVariable
  writeVariable := Enlarges.composable.writeVariable
  superMethod := Enlarges.composable.superMethod
  setField _ _ _ _ :=
    .of_store (.setField _ _ _ _) fun hm => ⟨hm.store.nested, hm.store.closures⟩
  newInstance _ _ := .of_store (.newInstance _ _) fun hm => ⟨hm.store.nested, hm.store.closures⟩
  bindTo := Enlarges.bindTo
  declare _ := .pure ()
  define name v m := .define m m.scope name v
  newFunction _ _ := .of_store (.newFunction _ _) fun hm => hm.store.newFunction hm.scope
  newClass := Enlarges.newClass
  receiver _ := Enlarges.get.bind fun _ => .pure _

/-- The body of a function runs inside the scope that the function closes over. -/
theorem Enlarges.callFunction {parts : Parts Machine} (hexecute : ∀ s, Enlarges (parts.execute s))
    (f : FunctionId) (arguments : List Value) :
    Enlarges (machine.callFunction parts f arguments) := by
  intro m
  cases ho : m.store.functions[f]? with
  | none =>
    change m.Enlarged (stateOf ((object m.store.functions[f]? >>= _) m))
    rw [ho]
    exact .refl m
  | some o =>
    have hbody : Enlarges (runAll parts.execute o.declaration.body) :=
      enlarging.runAll (y := parts.execute) hexecute _
    have hcall := hbody.inNewScope (fun hm => hm.store.closures f o ho)
      (bindArguments o.declaration.parameters arguments)
    change m.Enlarged (stateOf ((object m.store.functions[f]? >>= _) m))
    rw [ho]
    refine Machine.Enlarged.bind (x := machine.inCall f o arguments _) hcall fun completion => ?_
    split
    · exact enlarging_steps.receiver o
    · cases completion with
      | returned value => exact .pure _
      | normal => exact .pure _

theorem enlarging_machine : enlarging.OfCalls machine machine where
  toOfSteps := enlarging_steps
  inBlock h m := Enlarges.inNewScope (m := m) h (fun hm => hm.scope) {}
  callFunction hparts := Enlarges.callFunction hparts.execute

theorem enlarging_evaluators (fuel : Nat) :
    enlarging.OfParts ⟨fuel, machine.evaluate fuel, machine.execute fuel⟩
      ⟨fuel, machine.evaluate fuel, machine.execute fuel⟩ :=
  enlarging_machine.evaluators (Enlarges.get.bind fun _ => .pure _) Enlarges.asCall fuel

theorem enlarges_evaluate (fuel : Nat) (e : Expr) : Enlarges (evaluate fuel e) := by
  rw [← machine_evaluate]
  exact (enlarging_evaluators fuel).evaluate e

theorem enlarges_execute (fuel : Nat) (s : Stmt) : Enlarges (execute fuel s) := by
  rw [← (machine_evaluate_execute fuel).2]
  exact (enlarging_evaluators fuel).execute s

theorem enlarges_callValue (fuel : Nat) (callee : Value) (line : Nat) (arguments : List Value) :
    Enlarges (callValue (execute fuel) callee line arguments) := by
  have hcall := enlarging_machine.callValue (enlarging_evaluators fuel)
    (Enlarges.get.bind fun _ => .pure _) Enlarges.asCall callee line arguments
  rw [machine_callValue, (machine_evaluate_execute fuel).2] at hcall
  exact hcall

theorem enlarges_interpret (fuel : Nat) (program : List Stmt) : Enlarges (interpret fuel program) :=
  Enlarges.bind (enlarging.runAll (y := execute fuel) (enlarges_execute fuel) program) fun _ =>
    .pure ()

end Evaluation
end Lox
