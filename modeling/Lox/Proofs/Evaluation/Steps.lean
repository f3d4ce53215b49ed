import Lox.Proofs.Evaluation.Simulation
import Lox.Proofs.Store.Extends

/-!
# What the steps of the machine do

For each step of the machine the result and the machine afterwards, as equations.
-/
namespace Lox.Evaluation
variable (m : Machine)

theorem get_bind {ε σ α : Type} (k : σ → EStateM ε σ α) (s : σ) : (get >>= k) s = k s s := rfl

theorem getStore_bind {α : Type} (k : Store → Eval α) : (getStore >>= k) m = k m.store m := rfl

theorem orFault_some_bind {α β : Type} (fault : Fault) (a : α) (k : α → Eval β) :
    orFault fault (some a) >>= k = k a := rfl

theorem readAt_apply (d : Nat) (name : Name) :
    readAt d name m =
      match m.store.ancestor? d m.scope with
      | none => .error (.fault .noSuchScope) m
      | some scope =>
        match m.store.findLocal? scope name.text with
        | some v => .ok v m
        | none => .error (.failure ⟨.undefinedVariable name.text, name.line⟩) m := by
  change (orFault .noSuchScope (m.store.ancestor? d m.scope) >>= _) m = _
  cases m.store.ancestor? d m.scope with
  | none => rfl
  | some scope =>
    dsimp only
    change (match m.store.findLocal? scope name.text with
      | some v => pure v
      | none => fail (.undefinedVariable name.text) name.line : Eval Value) m = _
    cases m.store.findLocal? scope name.text with
    | none => rfl
    | some v => rfl

theorem readGlobal_apply (name : Name) :
    readGlobal name m =
      match m.store.lookup? m.globals name.text with
      | some v => .ok v m
      | none => .error (.failure ⟨.undefinedVariable name.text, name.line⟩) m := by
  change (match m.store.lookup? m.globals name.text with
    | some v => pure v
    | none => fail (.undefinedVariable name.text) name.line : Eval Value) m = _
  cases m.store.lookup? m.globals name.text with
  | none => rfl
  | some v => rfl

theorem readVariable_apply (id : NodeId) (name : Name) :
    readVariable id name m =
      match m.distances.find? id with
      | some d => readAt d name m
      | none => readGlobal name m := by
  change (match m.distances.find? id with
    | some d => readAt d name
    | none => readGlobal name : Eval Value) m = _
  cases m.distances.find? id with
  | none => rfl
  | some d => rfl

theorem writeAt_apply (d : Nat) (name : String) (v : Value) :
    writeAt d name v m =
      match m.store.ancestor? d m.scope with
      | none => .error (.fault .noSuchScope) m
      | some scope => .ok () { m with store := m.store.define scope name v } := by
  change (orFault .noSuchScope (m.store.ancestor? d m.scope) >>= _) m = _
  cases m.store.ancestor? d m.scope with
  | none => rfl
  | some scope => rfl

theorem writeFrom_apply (scope : ScopeId) (name : Name) (v : Value) :
    writeFrom scope name v m =
      match m.store.holder? scope name.text with
      | some holder => .ok () { m with store := m.store.define holder name.text v }
      | none => .error (.failure ⟨.undefinedVariable name.text, name.line⟩) m := by
  change (match m.store.holder? scope name.text with
    | some holder => modifyStore (·.define holder name.text v)
    | none => fail (.undefinedVariable name.text) name.line : Eval Unit) m = _
  cases m.store.holder? scope name.text with
  | none => rfl
  | some holder => rfl

theorem writeVariable_apply (id : NodeId) (name : Name) (v : Value) :
    writeVariable id name v m =
      match m.distances.find? id with
      | some d => writeAt d name.text v m
      | none => writeFrom m.globals name v m := by
  change (match m.distances.find? id with
    | some d => writeAt d name.text v
    | none => writeFrom m.globals name v : Eval Unit) m = _
  cases m.distances.find? id with
  | none => rfl
  | some d => rfl

theorem superclassAt_apply {d : Nat} {scope : ScopeId} {c : ClassId}
    (hscope : m.store.ancestor? d m.scope = some scope)
    (hsuper : m.store.findLocal? scope "super" = some (.classRef c)) :
    superclassAt d m = .ok c m := by
  change (orFault .noSuchScope (m.store.ancestor? d m.scope) >>= _) m = _
  rw [hscope, orFault_some_bind, hsuper]
  rfl

theorem receiverInside_apply {d : Nat} {scope : ScopeId} {i : InstanceId}
    (hscope : m.store.ancestor? d m.scope = some scope)
    (hthis : m.store.findLocal? scope "this" = some (.instanceRef i)) :
    receiverInside (d + 1) m = .ok i m := by
  change (orFault .noSuchScope (m.store.ancestor? d m.scope) >>= _) m = _
  rw [hscope, orFault_some_bind, hthis]
  rfl

theorem bindTo_apply {f : FunctionId} {o : FunctionObject} (ho : m.store.functions[f]? = some o)
    (i : InstanceId) :
    bindTo f i m = .ok (m.store.bindMethod o i).2 { m with store := (m.store.bindMethod o i).1 } := by
  change (orFault .noSuchObject m.store.functions[f]? >>= _) m = _
  rw [ho]
  rfl

theorem bindTo_missing {f : FunctionId} (hf : m.store.functions[f]? = none) (i : InstanceId) :
    bindTo f i m = .error (.fault .noSuchObject) m := by
  change (orFault .noSuchObject m.store.functions[f]? >>= _) m = _
  rw [hf]
  rfl

theorem readProperty_apply (i : InstanceId) (name : Name) :
    readProperty i name m =
      match m.store.field? i name.text with
      | some v => .ok v m
      | none =>
        match m.store.instances[i]? with
        | none => .error (.fault .noSuchObject) m
        | some o =>
          match m.store.findMethod? o.classId name.text with
          | some f => (Value.functionRef <$> bindTo f i) m
          | none => .error (.failure ⟨.undefinedProperty name.text, name.line⟩) m := by
  unfold readProperty
  rw [getStore_bind]
  cases m.store.field? i name.text with
  | some v => rfl
  | none =>
    change (orFault .noSuchObject (m.store.instances[i]?.map (·.classId)) >>= _) m = _
    cases m.store.instances[i]? with
    | none => rfl
    | some o =>
      rw [Option.map_some, orFault_some_bind]
      dsimp only
      cases m.store.findMethod? o.classId name.text with
      | none => rfl
      | some f => rfl

/-- A new instance changes no class. -/
theorem classArity_newInstance {m m' : Machine} {c : ClassId} {i : InstanceId}
    (h : Operations.machine.newInstance c m = .ok i m') :
    m'.store.classArity = m.store.classArity := by
  cases h
  rfl

/-- A bound method takes as many arguments as the method. -/
theorem arity_bindTo {m m' : Machine} {f f' : FunctionId} {i : InstanceId}
    (h : Operations.machine.bindTo f i m = .ok f' m') :
    m'.store.functions[f']?.map (·.declaration.arity) =
      m.store.functions[f]?.map (·.declaration.arity) := by
  change bindTo f i m = .ok f' m' at h
  cases ho : m.store.functions[f]? with
  | none =>
    change (orFault .noSuchObject m.store.functions[f]? >>= _) m = _ at h
    rw [ho] at h
    cases h
  | some o =>
    rw [bindTo_apply m ho] at h
    cases h
    simp [Store.bindMethod, Store.newFunction, Store.newScope]

/-- The functions of the methods of a class. -/
def methodObjects (closure : ScopeId) (methods : List FunctionDecl) : List FunctionObject :=
  methods.map fun declaration => ⟨declaration, closure, declaration.isInitializer⟩

/-- The numbers of methods by name, if the first of them has number `first`. -/
def methodNumbers (first : FunctionId) : List FunctionDecl → Bindings FunctionId →
    Bindings FunctionId
  | [], numbers => numbers
  | declaration :: rest, numbers =>
    methodNumbers (first + 1) rest (numbers.insert declaration.name.text first)

theorem exists_of_find?_methodNumbers {first : FunctionId} {methods : List FunctionDecl}
    {numbers : Bindings FunctionId} {name : String} {f : FunctionId}
    (h : (methodNumbers first methods numbers).find? name = some f) :
    numbers.find? name = some f ∨
      ∃ i declaration, f = first + i ∧ methods[i]? = some declaration ∧
        declaration.name.text = name := by
  induction methods generalizing first numbers with
  | nil => exact .inl h
  | cons declaration rest ih =>
    rcases ih h with hnumbers | ⟨i, method, rfl, hmethod, hname⟩
    · rw [Bindings.find?_insert] at hnumbers
      split at hnumbers
      · next heq =>
        cases hnumbers
        exact .inr ⟨0, declaration, rfl, rfl, heq.symm⟩
      · exact .inl hnumbers
    · exact .inr ⟨i + 1, method, by lia, hmethod, hname⟩

theorem find?_methodNumbers {first : FunctionId} {methods : List FunctionDecl}
    {numbers : Bindings FunctionId} {name : String} {f : FunctionId}
    (h : (methodNumbers first methods numbers).find? name = some f) :
    numbers.find? name = some f ∨ first ≤ f ∧ f < first + methods.length := by
  refine (exists_of_find?_methodNumbers h).imp_right ?_
  rintro ⟨i, declaration, rfl, hmethod, -⟩
  have hlt := (List.getElem?_eq_some_iff.mp hmethod).1
  exact ⟨by lia, by lia⟩

theorem makeMethods_apply (closure : ScopeId) (methods : List FunctionDecl)
    (numbers : Bindings FunctionId) :
    makeMethods closure methods numbers m =
      .ok (methodNumbers m.store.functions.size methods numbers)
        { m with store := { m.store with
            functions := m.store.functions ++ (methodObjects closure methods).toArray } } := by
  induction methods generalizing m numbers with
  | nil =>
    rw [methodObjects, List.map_nil, Array.append_empty]
    rfl
  | cons declaration rest ih =>
    let object : FunctionObject := ⟨declaration, closure, declaration.isInitializer⟩
    change makeMethods closure rest _ { m with store := (m.store.newFunction object).1 } = _
    rw [ih]
    simp [Store.newFunction, methodNumbers, methodObjects, object]

/-- The store and the scope that the methods of a class close over. -/
def withMethodScope (store : Store) (scope : ScopeId) : Option ClassId → Store × ScopeId
  | none => (store, scope)
  | some c =>
    let bindings := Bindings.empty.insert "super" (.classRef c)
    store.newScope { bindings, enclosing := some scope }

theorem methodScope_apply (superclass : Option ClassId) :
    methodScope superclass m =
      .ok (withMethodScope m.store m.scope superclass).2
        { m with store := (withMethodScope m.store m.scope superclass).1 } := by
  cases superclass with
  | none => rfl
  | some c => rfl

/-- The store when a class has been made whose name is not bound to it yet, and the class. -/
def withClass (store : Store) (scope : ScopeId) (name : Name) (superclass : Option ClassId)
    (methods : List FunctionDecl) : Store × ClassId :=
  let (store, closure) := withMethodScope (store.define scope name.text .nil) scope superclass
  let numbers := methodNumbers store.functions.size methods .empty
  let functions := store.functions ++ (methodObjects closure methods).toArray
  Store.newClass { store with functions } ⟨name.text, superclass, numbers⟩

/-- The name of the class is still bound where the class was declared. -/
theorem holder?_withClass {store : Store} {scope : ScopeId} (hscope : scope < store.scopes.size)
    (name : Name) (superclass : Option ClassId) (methods : List FunctionDecl) :
    (withClass store scope name superclass methods).1.holder? scope name.text = some scope := by
  have hdefined : (store.define scope name.text .nil).findLocal? scope name.text = some .nil := by
    rw [Store.findLocal?_define, if_pos ⟨rfl, rfl, hscope⟩]
  have hopened : (withMethodScope (store.define scope name.text .nil) scope superclass).1.findLocal?
      scope name.text = some .nil := by
    cases superclass with
    | none => exact hdefined
    | some c =>
      change (Store.newScope _ _).1.findLocal? scope name.text = _
      rw [Store.findLocal?_newScope, if_neg (Nat.ne_of_lt (Store.lt_of_findLocal? hdefined))]
      exact hdefined
  exact Store.holder?_of_findLocal? hopened

theorem newClass_apply (name : Name) (superclass : Option ClassId) (methods : List FunctionDecl) :
    Operations.machine.newClass name superclass methods m =
      writeFrom m.scope name (.classRef (withClass m.store m.scope name superclass methods).2)
        { m with store := (withClass m.store m.scope name superclass methods).1 } := by
  let defined : Machine := { m with store := m.store.define m.scope name.text .nil }
  change EStateM.bind (methodScope superclass) _ defined = _
  unfold EStateM.bind
  rw [methodScope_apply]
  change EStateM.bind (makeMethods _ methods .empty) _ _ = _
  unfold EStateM.bind
  rw [makeMethods_apply]
  rfl

/-- What `super` leads to, by what is bound to `super` and to `this`. -/
theorem superMethod_cases {id : NodeId} {i : Nat} {inner outer : ScopeId}
    (hdistance : m.distances.find? id = some (i + 1))
    (hinner : m.store.ancestor? i m.scope = some inner)
    (houter : m.store.ancestor? (i + 1) m.scope = some outer) (line : Nat) (method : Name) :
    superMethod id line method m =
      match m.store.findLocal? outer "super", m.store.findLocal? inner "this" with
      | some (.classRef c), some (.instanceRef receiver) =>
        match m.store.findMethod? c method.text with
        | some f => (Value.functionRef <$> bindTo f receiver) m
        | none => .error (.failure ⟨.undefinedProperty method.text, method.line⟩) m
      | some (.classRef _), _ => .error (.fault .noReceiver) m
      | _, _ => .error (.fault .noSuperclass) m := by
  unfold superMethod
  rw [get_bind, hdistance]
  change EStateM.bind (orFault .noSuchScope (m.store.ancestor? (i + 1) m.scope) >>= _) _ m = _
  rw [houter, orFault_some_bind]
  split
  · next c hsuper =>
    change EStateM.bind (orFault .noSuchScope (m.store.ancestor? i m.scope) >>= _) _ m = _
    rw [hinner, orFault_some_bind]
    split
    · next receiver hthis =>
      rw [hsuper, hthis]
      change ((pure receiver : Eval InstanceId) >>= _) m = _
      rw [pure_bind, getStore_bind]
      dsimp only
      cases m.store.findMethod? c method.text with
      | none => rfl
      | some f => rfl
    · next hthis =>
      split
      · next heq => exact absurd heq (hthis _)
      · rfl
      · next hnot _ => exact (hnot c hsuper).elim
  · next hsuper =>
    split
    · next heq _ => exact absurd heq (hsuper _)
    · next heq _ => exact absurd heq (hsuper _)
    · rfl

/-- Looked up on, `super` leads to the nearest method, bound to the receiver. -/
theorem superMethod_apply {id : NodeId} {i : Nat} {inner outer : ScopeId} {c : ClassId}
    {receiver : InstanceId} (hdistance : m.distances.find? id = some (i + 1))
    (hinner : m.store.ancestor? i m.scope = some inner)
    (hthis : m.store.findLocal? inner "this" = some (.instanceRef receiver))
    (houter : m.store.ancestor? (i + 1) m.scope = some outer)
    (hsuper : m.store.findLocal? outer "super" = some (.classRef c)) (line : Nat) (method : Name) :
    superMethod id line method m =
      match m.store.findMethod? c method.text with
      | some f => (Value.functionRef <$> bindTo f receiver) m
      | none => .error (.failure ⟨.undefinedProperty method.text, method.line⟩) m := by
  rw [superMethod_cases m hdistance hinner houter, hsuper, hthis]

theorem find?_bindArguments {parameters : List Name} {arguments : List Value} {name : String}
    {v : Value} (h : (bindArguments parameters arguments).find? name = some v) :
    v ∈ arguments := by
  have hfold (pairs : List (Name × Value)) (b : Bindings Value)
      (h : (pairs.foldl (fun b pair => b.shadow pair.1.text pair.2) b).find? name = some v) :
      b.find? name = some v ∨ ∃ parameter, (parameter, v) ∈ pairs := by
    induction pairs generalizing b with
    | nil => exact .inl h
    | cons pair pairs ih =>
      obtain ⟨parameter, argument⟩ := pair
      rcases ih _ h with hb | ⟨other, hmem⟩
      · rw [Bindings.find?_shadow] at hb
        split at hb
        · cases hb
          exact .inr ⟨parameter, List.mem_cons_self⟩
        · exact .inl hb
      · exact .inr ⟨other, List.mem_cons_of_mem _ hmem⟩
  rcases hfold _ _ h with hempty | ⟨parameter, hmem⟩
  · cases hempty
  · exact (List.of_mem_zip hmem).2

/-- With as many arguments as parameters every parameter is bound. -/
theorem exists_find?_bindArguments {parameters : List Name} {arguments : List Value}
    (hlength : parameters.length = arguments.length) {parameter : Name}
    (hmem : parameter ∈ parameters) :
    ∃ v, (bindArguments parameters arguments).find? parameter.text = some v := by
  have hfold (pairs : List (Name × Value)) (b : Bindings Value)
      (h : (∃ v, b.find? parameter.text = some v) ∨ parameter ∈ pairs.map Prod.fst) :
      ∃ v, (pairs.foldl (fun b pair => b.shadow pair.1.text pair.2) b).find? parameter.text =
        some v := by
    induction pairs generalizing b with
    | nil => exact h.resolve_right List.not_mem_nil
    | cons pair pairs ih =>
      refine ih _ ?_
      rw [Bindings.find?_shadow]
      split
      · exact .inl ⟨_, rfl⟩
      · next hne =>
        rcases h with hb | hpair
        · exact .inl hb
        · refine .inr ((List.mem_cons.mp hpair).resolve_left fun heq => ?_)
          exact hne (congrArg Name.text heq)
  refine hfold _ _ (.inr ?_)
  rw [List.map_fst_zip (Nat.le_of_eq hlength)]
  exact hmem

section
variable {σ : Type} {x : Stmt → EStateM Halt σ Completion} {a b : List Stmt} {s : σ}

/-- Statements in sequence: the second ones run where the first ones have ended; they do not if the
first ones fail. -/
theorem runAll_append : runAll x (a ++ b) s =
    match runAll x a s with
    | .ok .normal s' => runAll x b s'
    | result => result := by
  induction a generalizing s with
  | nil => rfl
  | cons first rest ih =>
    simp only [List.cons_append, runAll, bind, EStateM.bind]
    cases x first s with
    | error halt mid => rfl
    | ok completion mid =>
      cases completion with
      | normal => exact ih
      | returned v => rfl

end

end Lox.Evaluation
