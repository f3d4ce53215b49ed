import Lox.Proofs.Evaluation.Composable
import Lox.Proofs.Evaluation.Congruence

/-!
# Scope and call depth

However an evaluation ends, afterwards the machine is in the scope in which it was and at the call
depth at which it was. Blocks and bodies of functions are left for the scope around them, and calls
are counted off again, whether they end with a result, with an error or not at all for lack of fuel.
No evaluation changes the distance of a reference.
-/
namespace Lox.Evaluation
open Operations
variable {α β : Type}

/-- The machines are in the same scope, at the same call depth and in the same session. -/
structure Machine.SameControl (m m' : Machine) : Prop where
  scope : m'.scope = m.scope
  callDepth : m'.callDepth = m.callDepth
  globals : m'.globals = m.globals

/-- Nor do the machines differ in the distances of references. -/
structure Machine.SameFrame (m m' : Machine) : Prop extends m.SameControl m' where
  distances : m'.distances = m.distances

theorem Machine.SameFrame.refl (m : Machine) : m.SameFrame m := ⟨⟨rfl, rfl, rfl⟩, rfl⟩

theorem Machine.SameFrame.trans {m m' m'' : Machine} (h : m.SameFrame m')
    (h' : m'.SameFrame m'') : m.SameFrame m'' :=
  ⟨⟨h'.scope.trans h.scope, h'.callDepth.trans h.callDepth, h'.globals.trans h.globals⟩,
    h'.distances.trans h.distances⟩

/-- The machine that is left is in the scope and at the depth in which it was, and knows the same
distances. -/
def Keeps (x : Eval α) : Prop := ∀ m : Machine, m.SameFrame (stateOf (x m))

namespace Keeps

theorem pure (a : α) : Keeps (Pure.pure a) := fun m => .refl m

theorem throw (halt : Halt) : Keeps (MonadExcept.throw halt : Eval α) := fun m => .refl m

theorem bind {x : Eval α} {f : α → Eval β} (h : Keeps x) (hf : ∀ a, Keeps (f a)) :
    Keeps (x >>= f) := by
  intro m
  have hx := h m
  change m.SameFrame (stateOf (EStateM.bind x f m))
  unfold EStateM.bind
  cases hrun : x m with
  | ok a m' =>
    rw [hrun] at hx
    exact hx.trans (hf a m')
  | error halt m' =>
    rw [hrun] at hx
    exact hx

theorem get : Keeps MonadState.get := fun m => .refl m

theorem getStore : Keeps Evaluation.getStore := fun m => .refl m

theorem modifyStore (f : Store → Store) : Keeps (Evaluation.modifyStore f) :=
  fun _ => ⟨⟨rfl, rfl, rfl⟩, rfl⟩

theorem allocate (make : Store → Store × Nat) : Keeps (Evaluation.allocate make) :=
  fun _ => ⟨⟨rfl, rfl, rfl⟩, rfl⟩

theorem printLine (text : String) : Keeps (Evaluation.printLine text) :=
  fun _ => ⟨⟨rfl, rfl, rfl⟩, rfl⟩

theorem defineHere (name : String) (v : Value) : Keeps (Evaluation.defineHere name v) :=
  fun _ => ⟨⟨rfl, rfl, rfl⟩, rfl⟩

/-- Whatever is done in another scope, the scope before is that after it. -/
theorem inScope {x : Eval α} (h : Keeps x) (scope : ScopeId) : Keeps (Evaluation.inScope scope x) := by
  intro m
  have hx := h { m with scope }
  rw [inScope_apply, stateOf_leaving]
  exact ⟨⟨rfl, hx.callDepth, hx.globals⟩, hx.distances⟩

/-- A call that keeps the depth one deeper is counted off again: the depth before is that after
it. -/
theorem asCall {x : Eval α} (h : Keeps x) : Keeps (Evaluation.asCall x) := by
  intro m
  have hx := h { m with callDepth := m.callDepth + 1 }
  rw [asCall_apply, stateOf_leaving]
  exact ⟨⟨hx.scope, Nat.sub_eq_of_eq_add hx.callDepth, hx.globals⟩, hx.distances⟩

theorem sequential : Sequential @Keeps := ⟨pure, throw, bind, get⟩

theorem composable : Composable @Keeps where
  toSequential := sequential
  define _ _ _ := modifyStore _
  bindTo := sequential.bindTo fun _ _ => allocate _

theorem readVariable (id : NodeId) (name : Name) : Keeps (Evaluation.readVariable id name) :=
  composable.readVariable id name

theorem writeVariable (id : NodeId) (name : Name) (v : Value) :
    Keeps (Evaluation.writeVariable id name v) :=
  composable.writeVariable id name v

theorem bindTo (f : FunctionId) (receiver : InstanceId) : Keeps (Evaluation.bindTo f receiver) :=
  composable.bindTo f receiver

theorem superMethod (id : NodeId) (line : Nat) (method : Name) :
    Keeps (Evaluation.superMethod id line method) :=
  composable.superMethod id line method

theorem makeMethods (closure : ScopeId) (declarations : List FunctionDecl)
    (methods : Bindings FunctionId) : Keeps (Evaluation.makeMethods closure declarations methods) := by
  induction declarations generalizing methods with
  | nil => exact .pure _
  | cons declaration rest ih => exact (allocate _).bind fun f => ih _

theorem newClass (name : Name) (superclass : Option ClassId) (methods : List FunctionDecl) :
    Keeps (machine.newClass name superclass methods) :=
  have hscope := sequential.methodScope (fun _ => allocate _) superclass
  (defineHere _ _).bind fun _ => hscope.bind fun closure =>
    (makeMethods closure methods .empty).bind fun _ => (allocate _).bind fun _ =>
      get.bind fun _ => composable.writeFrom _ name _

end Keeps

/-- All rules keep scope and depth. -/
def keeping : Congruence Machine Machine where
  Rel x _ := Keeps x
  pure := .pure
  throw := .throw
  bind := Keeps.bind

theorem keeping_machine : keeping.OfOperations machine machine where
  getStore := Keeps.getStore
  printLine := Keeps.printLine
  readVariable := Keeps.readVariable
  writeVariable := Keeps.writeVariable
  superMethod := Keeps.superMethod
  setField id name v := Keeps.modifyStore (·.setField id name v)
  newInstance c := Keeps.allocate (·.newInstance c)
  bindTo := Keeps.bindTo
  declare _ := Keeps.pure ()
  define := Keeps.defineHere
  newFunction _ := Keeps.get.bind fun _ => Keeps.allocate _
  newClass := Keeps.newClass
  inBlock h := Keeps.get.bind fun _ => (Keeps.allocate _).bind fun scope => Keeps.inScope h scope
  inCall _ _ _ h := (Keeps.allocate _).bind fun scope => Keeps.inScope h scope
  receiver _ := Keeps.getStore.bind fun _ => Keeps.pure _

theorem keeping_evaluators (fuel : Nat) :
    keeping.OfParts ⟨fuel, machine.evaluate fuel, machine.execute fuel⟩
      ⟨fuel, machine.evaluate fuel, machine.execute fuel⟩ :=
  keeping_machine.ofCalls.evaluators (Keeps.get.bind fun _ => .pure _) Keeps.asCall fuel

theorem Keeps.evaluate (fuel : Nat) (e : Expr) : Keeps (Evaluation.evaluate fuel e) := by
  rw [← machine_evaluate]
  exact (keeping_evaluators fuel).evaluate e

theorem Keeps.execute (fuel : Nat) (s : Stmt) : Keeps (Evaluation.execute fuel s) := by
  rw [← (machine_evaluate_execute fuel).2]
  exact (keeping_evaluators fuel).execute s

theorem Keeps.callValue (fuel : Nat) (callee : Value) (line : Nat) (arguments : List Value) :
    Keeps (machine.callValue ⟨fuel, machine.evaluate fuel, machine.execute fuel⟩ callee line
      arguments) :=
  keeping_machine.ofCalls.callValue (keeping_evaluators fuel) (Keeps.get.bind fun _ => .pure _) Keeps.asCall
    callee line arguments

theorem keeps_interpret (fuel : Nat) (program : List Stmt) : Keeps (interpret fuel program) :=
  Keeps.bind (keeping.runAll (y := execute fuel) (Keeps.execute fuel) program) fun _ => .pure ()

theorem keeps_evaluate (fuel : Nat) (e : Expr) (m : Machine) :
    m.SameControl (stateOf (evaluate fuel e m)) :=
  (Keeps.evaluate fuel e m).toSameControl

theorem keeps_execute (fuel : Nat) (s : Stmt) (m : Machine) :
    m.SameControl (stateOf (execute fuel s m)) :=
  (Keeps.execute fuel s m).toSameControl

/-- A block, or the body of a function. -/
theorem keeps_body (fuel : Nat) (scope : ScopeId) (body : List Stmt) (m : Machine) :
    m.SameControl (stateOf (inScope scope (runAll (execute fuel) body) m)) := by
  have hbody := keeping.runAll (y := execute fuel) (Keeps.execute fuel) body
  exact (Keeps.inScope hbody scope m).toSameControl

theorem keeps_callValue (fuel : Nat) (callee : Value) (line : Nat) (arguments : List Value)
    (m : Machine) : m.SameControl (stateOf (callValue (execute fuel) callee line arguments m)) := by
  have hcall := Keeps.callValue fuel callee line arguments
  rw [machine_callValue, (machine_evaluate_execute fuel).2] at hcall
  exact (hcall m).toSameControl

end Lox.Evaluation
