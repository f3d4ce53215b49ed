import Lox.Proofs.Resolution.Occurrences
import Lox.Resolution.Walk

/-!
# What the static pass leaves behind

Whatever scopes are open at a place and whatever is forbidden there, each part of the pass closes the
scopes that it opens and leaves the functions and classes that it enters. All it adds to the scopes
around is that the names which the part declares are ready in the innermost one. So a name whose
initializer is not over was marked like that before.
-/
namespace Lox.Resolution

namespace State

/-- The scopes around the innermost one; the last of them is the global one. -/
def outer (s : State) : List (Bindings Bool) := (s.scopes ++ [s.globals]).tail

/-- In the scope `depth` steps out the initializer of the name is not over. -/
def Pending (s : State) (depth : Nat) (name : String) : Prop :=
  (s.scopes ++ [s.globals])[depth]?.bind (·.find? name) = some false

theorem scopes_append_globals (s : State) : s.scopes ++ [s.globals] = s.innermost :: s.outer := by
  unfold innermost outer
  cases s.scopes <;> rfl

end State

/-- Nothing but these names of the innermost scope is different. -/
structure DiffersIn (names : List String) (before after : State) : Prop where
  functionKind : after.functionKind = before.functionKind
  classKind : after.classKind = before.classKind
  height : after.scopes.length = before.scopes.length
  outer : after.outer = before.outer
  others : ∀ name ∉ names, after.innermost.find? name = before.innermost.find? name

/-- The context is as it was, and these names of the innermost scope are ready. -/
structure Restored (names : List String) (before after : State) : Prop
    extends DiffersIn names before after where
  ready : ∀ name ∈ names, after.innermost.find? name = some true

namespace DiffersIn
variable {names names' : List String} {s t u : State}

theorem mono (h : DiffersIn names s t) (hnames : names ⊆ names') : DiffersIn names' s t :=
  ⟨h.functionKind, h.classKind, h.height, h.outer,
    fun name hname => h.others name fun hmem => hname (hnames hmem)⟩

theorem trans (h : DiffersIn names s t) (h' : DiffersIn names t u) : DiffersIn names s u where
  functionKind := h'.functionKind.trans h.functionKind
  classKind := h'.classKind.trans h.classKind
  height := h'.height.trans h.height
  outer := h'.outer.trans h.outer
  others name hname := (h'.others name hname).trans (h.others name hname)

/-- The names are made ready in the end. -/
theorem restored (h : DiffersIn names s t) (h' : Restored names t u) : Restored names s u :=
  ⟨h.trans h'.toDiffersIn, h'.ready⟩

theorem modifyInnermost (s : State) (name : String) (ready : Bool) :
    DiffersIn [name] s (s.modifyInnermost (·.insert name ready)) := by
  have hothers (b : Bindings Bool) (other : String) (hother : other ∉ [name]) :
      (b.insert name ready).find? other = b.find? other :=
    b.find?_insert_of_ne ready (List.ne_of_not_mem_cons hother)
  unfold State.modifyInnermost
  cases hscopes : s.scopes with
  | nil =>
    refine ⟨rfl, rfl, ?_, ?_, fun other hother => ?_⟩
    · rw [hscopes]
    · unfold State.outer
      rw [hscopes]
      rfl
    · unfold State.innermost
      rw [hscopes]
      exact hothers s.globals other hother
  | cons scope around =>
    refine ⟨rfl, rfl, ?_, ?_, fun other hother => ?_⟩
    · rw [hscopes]
      rfl
    · unfold State.outer
      rw [hscopes]
      rfl
    · unfold State.innermost
      rw [hscopes]
      exact hothers scope other hother

/-- A declaration may change how its own name is marked, or report it. -/
theorem declare (known : String → Bool) (s : State) (name : Name) :
    DiffersIn [name.text] s (s.declare known name) := by
  have hsame : DiffersIn [name.text] s s := ⟨rfl, rfl, rfl, rfl, fun _ _ => rfl⟩
  unfold State.declare
  split
  · split
    · exact hsame
    · exact modifyInnermost s name.text false
  · split
    · exact ⟨rfl, rfl, rfl, rfl, fun _ _ => rfl⟩
    · exact modifyInnermost s name.text false

end DiffersIn

namespace Restored
variable {names names' : List String} {s t u : State}

/-- The same scopes, in the same functions and classes. -/
theorem of_scopes (hscopes : t.scopes = s.scopes) (hglobals : t.globals = s.globals)
    (hfunction : t.functionKind = s.functionKind) (hclass : t.classKind = s.classKind) :
    Restored [] s t := by
  refine ⟨⟨hfunction, hclass, congrArg _ hscopes, ?_, fun name _ => ?_⟩, nofun⟩
  · unfold State.outer
    rw [hscopes, hglobals]
  · unfold State.innermost
    rw [hscopes, hglobals]

theorem refl (s : State) : Restored [] s s := of_scopes rfl rfl rfl rfl

theorem trans (h : Restored names s t) (h' : Restored names' t u) :
    Restored (names ++ names') s u := by
  refine ⟨?_, fun name hname => ?_⟩
  · exact (h.mono (List.subset_append_left _ _)).trans (h'.mono (List.subset_append_right _ _))
  · by_cases hlater : name ∈ names'
    · exact h'.ready name hlater
    · rw [h'.others name hlater]
      exact h.ready name ((List.mem_append.mp hname).resolve_right hlater)

/-- What is marked as not ready was marked so before. -/
theorem pending (h : Restored names s t) {depth : Nat} {name : String} (ht : t.Pending depth name) :
    s.Pending depth name := by
  unfold State.Pending at ht ⊢
  rw [State.scopes_append_globals] at ht ⊢
  cases depth with
  | zero =>
    change t.innermost.find? name = some false at ht
    change s.innermost.find? name = some false
    have hname : name ∉ names := fun hmem => by
      rw [h.ready name hmem] at ht
      cases ht
    rw [← h.others name hname]
    exact ht
  | succ depth =>
    rw [List.getElem?_cons_succ, h.outer] at ht
    exact ht

theorem define (s : State) (name : String) : Restored [name] s (s.define name) := by
  refine ⟨.modifyInnermost s name true, fun other hother => ?_⟩
  obtain rfl := List.mem_singleton.mp hother
  unfold State.define State.modifyInnermost State.innermost
  cases hscopes : s.scopes with
  | nil =>
    dsimp only
    exact Bindings.find?_insert_self _ _ _
  | cons scope around => exact Bindings.find?_insert_self _ _ _

/-- A scope that was opened is closed again, whatever was declared in it. -/
theorem endScope (h : Restored names s.beginScope t) : Restored [] s t.endScope := by
  have hheight := h.height
  have houter := h.outer
  unfold State.outer State.beginScope at houter
  change t.scopes.length = s.scopes.length + 1 at hheight
  obtain ⟨scope, around, hscopes⟩ := List.exists_cons_of_length_eq_add_one hheight
  rw [hscopes] at houter
  obtain ⟨haround, hglobals⟩ := List.append_inj' houter rfl
  refine of_scopes ?_ (List.singleton_inj.mp hglobals) h.functionKind h.classKind
  unfold State.endScope
  rw [hscopes]
  exact haround

end Restored

/-- Wherever the part of the pass starts, it leaves the context as it was, with these names. -/
def Leaves (names : List String) (walk : State → State) : Prop := ∀ s, Restored names s (walk s)

namespace Leaves
variable {names names' : List String} {walk walk' : State → State} {known : String → Bool}

theorem nil : Leaves [] id := .refl

theorem seq (h : Leaves names walk) (h' : Leaves names' walk') :
    Leaves (names ++ names') fun s => walk' (walk s) :=
  fun s => (h s).trans (h' (walk s))

theorem inScope (h : Leaves names walk) : Leaves [] (State.inScope walk) :=
  fun s => (h s.beginScope).endScope

theorem inFunction (h : Leaves [] walk) (kind : FunctionKind) :
    Leaves [] (State.inFunction kind walk) := by
  intro s
  have hbody := h { s with functionKind := some kind }
  exact ⟨⟨rfl, hbody.classKind, hbody.height, hbody.outer, hbody.others⟩, nofun⟩

theorem inClass (h : Leaves [] walk) (kind : ClassKind) : Leaves [] (State.inClass kind walk) := by
  intro s
  have hbody := h { s with classKind := some kind }
  exact ⟨⟨hbody.functionKind, rfl, hbody.height, hbody.outer, hbody.others⟩, nofun⟩

/-- An error changes nothing of the context. -/
theorem report (cause : ResolutionError.Cause) (name : Name) : Leaves [] (·.report cause name) :=
  fun _ => .of_scopes rfl rfl rfl rfl

theorem checkInitialized (name : Name) : Leaves [] (·.checkInitialized name) := by
  intro s
  dsimp only [State.checkInitialized]
  split
  · exact report _ name s
  · exact .refl s

theorem reference (id : NodeId) (name : String) : Leaves [] (·.reference id name) := by
  intro s
  dsimp only [State.reference]
  split
  · exact .of_scopes rfl rfl rfl rfl
  · exact .refl s

theorem introduce (known : String → Bool) (name : Name) :
    Leaves [name.text] (·.introduce known name) :=
  fun s => (DiffersIn.declare known s name).restored (.define _ name.text)

mutual

theorem expr : (e : Expr) → Leaves [] (Resolution.expr e)
  | .literal _ => nil
  | .grouping e | .unary _ _ e | .get e _ => expr e
  | .binary _ _ left right | .logical _ left right => (expr left).seq (expr right)
  | .variable id name => (checkInitialized name).seq (reference id name.text)
  | .assign id name value => (expr value).seq (reference id name.text)
  | .call callee _ arguments => (expr callee).seq (exprs arguments)
  | .set object _ value => (expr value).seq (expr object)
  | .this id line => fun s => by
    unfold Resolution.expr
    split
    · exact report _ _ s
    · exact reference id "this" s
  | .super id line _ => fun s => by
    unfold Resolution.expr
    split
    · exact report _ _ s
    · exact report _ _ s
    · exact reference id "super" s

theorem exprs : (es : List Expr) → Leaves [] (Resolution.expr.exprs es)
  | [] => nil
  | e :: es => (expr e).seq (exprs es)

end

theorem expr? (value : Option Expr) : Leaves [] (Resolution.expr? value) := by
  cases value with
  | none => exact nil
  | some value => exact expr value

theorem checkReturn (line : Nat) (value : Option Expr) :
    Leaves [] (Resolution.checkReturn line value) := by
  intro s
  unfold Resolution.checkReturn
  split
  · exact report _ _ s
  · exact report _ _ s
  · exact .refl s

/-- The name of a variable is not ready in its initializer, and ready after it. -/
theorem varDecl (known : String → Bool) (name : Name) (initializer : Option Expr) :
    Leaves [name.text]
      fun s => (Resolution.expr? initializer (s.declare known name)).define name.text := by
  intro s
  have hvalue := (expr? initializer (s.declare known name)).toDiffersIn
  exact ((DiffersIn.declare known s name).trans (hvalue.mono (List.nil_subset _))).restored
    (.define _ name.text)

theorem parameters (known : String → Bool) (names : List Name) :
    Leaves (names.map Name.text) (Resolution.parameters known names) := by
  induction names with
  | nil => exact nil
  | cons name names ih => exact (introduce known name).seq ih

/-- The scopes of `this` and `super` are closed again. -/
theorem classScopes (name : Name) (superclass : Option Superclass) (h : Leaves [] walk) :
    Leaves [name.text] (Resolution.classScopes known name superclass walk) := by
  have hmethods : Leaves [] (State.inScope fun s => walk (s.define "this")) :=
    (Leaves.seq (fun s => .define s "this") h).inScope
  cases superclass with
  | none => exact (introduce known name).seq (hmethods.inClass .base)
  | some superclass =>
    have hclause : Leaves [] fun s =>
        if superclass.name.text == name.text then s.report .inheritsFromItself superclass.name
        else s := by
      intro s
      dsimp only
      split
      · exact report _ _ s
      · exact .refl s
    have hsuper := (Leaves.seq (fun s => .define s "super") hmethods).inScope
    have hinside := ((expr superclass.toExpr).seq hsuper).inClass .derived
    exact (introduce known name).seq (hclause.seq hinside)

variable (known)

mutual

theorem stmt : (s : Stmt) → Leaves (s.declaredNames.map Name.text) (Resolution.stmt known s)
  | .expression value | .print value => expr value
  | .varDecl name initializer => varDecl known name initializer
  | .block body => (stmts body).inScope
  | .ifElse condition thenBranch none => (expr condition).seq (stmt thenBranch)
  | .ifElse condition thenBranch (some elseBranch) => by
    rw [Stmt.declaredNames, List.map_append]
    exact ((expr condition).seq (stmt thenBranch)).seq (stmt elseBranch)
  | .whileLoop condition body => (expr condition).seq (stmt body)
  | .funDecl function => (introduce known function.name).seq (functionBody .ordinary function)
  | .returnWith line value => (checkReturn line value).seq (expr? value)
  | .classDecl name superclass methods => classScopes name superclass (methodBodies methods)

theorem stmts : (body : List Stmt) →
    Leaves ((Stmt.declaredByAll body).map Name.text) (Resolution.stmts known body)
  | [] => nil
  | first :: rest => by
    rw [Stmt.declaredByAll, List.flatMap_cons, List.map_append]
    exact (stmt first).seq (stmts rest)

theorem functionBody (kind : FunctionKind) :
    (f : FunctionOf Stmt) → Leaves [] (Resolution.functionBody known kind f)
  | ⟨_, names, body⟩ => ((parameters known names).seq (stmts body)).inScope.inFunction kind

theorem methodBodies :
    (methods : List (FunctionOf Stmt)) → Leaves [] (Resolution.methodBodies known methods)
  | [] => nil
  | first :: rest => (functionBody _ first).seq (methodBodies rest)

end

end Leaves

/-- What the pass takes one step for. -/
inductive Part where
  | expression (e : Expr)
  | statement (s : Stmt)
  | classDecl (name : Name) (superclass : Option Superclass) (methods : List FunctionDecl)
  | function (kind : FunctionKind) (f : FunctionDecl)

namespace Part

def resolve (known : String → Bool) : Part → State → State
  | .expression e => expr e
  | .statement s => stmt known s
  | .classDecl name superclass methods =>
    classScopes known name superclass (methodBodies known methods)
  | .function kind f => functionBody known kind f

/-- The names that the part adds to the scope it stands in. -/
def declaredNames : Part → List Name
  | .expression _ | .function _ _ => []
  | .statement s => s.declaredNames
  | .classDecl name _ _ => [name]

theorem leaves (known : String → Bool) :
    (part : Part) → Leaves (part.declaredNames.map Name.text) (part.resolve known)
  | .expression e => .expr e
  | .statement s => .stmt known s
  | .classDecl name superclass methods => .classScopes name superclass (.methodBodies known methods)
  | .function kind f => .functionBody known kind f

end Part

/-- From whatever state, and with whatever errors, a step of the pass gives back its context: as
many scopes, the same function and class around, and no other name of any scope than those that
the part declares there, which are ready. So what is not ready after the step was not before. A
statement of a program declares at most one name. -/
theorem context_restored (known : String → Bool) (part : Part) (s : State) :
    let after := part.resolve known s
    Restored (part.declaredNames.map Name.text) s after ∧
      (∀ depth name, after.Pending depth name → s.Pending depth name) ∧
        ∀ statement, part = .statement statement → statement.WellFormed →
          part.declaredNames = statement.declaredName?.toList := by
  intro after
  have hrestored : Restored (part.declaredNames.map Name.text) s after := part.leaves known s
  refine ⟨hrestored, fun depth name => hrestored.pending, ?_⟩
  rintro statement rfl hstatement
  exact Stmt.declaredNames_eq_toList statement hstatement

/-- A class that is declared twice, inherits from itself and returns a value from its initializer,
inside an initializer of a global variable. -/
theorem context_restored_forbidden :
    let statement : Stmt := .classDecl ⟨"a", 1⟩ (some ⟨0, ⟨"a", 1⟩⟩)
      [⟨⟨"init", 2⟩, [], [.returnWith 3 (some (.this 1 3))]⟩]
    let s : State := { scopes := [⟨[("a", true)]⟩], globals := ⟨[("b", false)]⟩ }
    let after := (Part.statement statement).resolve (fun _ => false) s
    after.errors.toList.map (·.cause) =
        [.declaredTwice, .inheritsFromItself, .valueFromInitializer] ∧
      Restored ["a"] s after ∧ statement.declaredNames = statement.declaredName?.toList := by
  intro statement s after
  obtain ⟨hrestored, -, hdeclared⟩ :=
    context_restored (fun _ => false) (.statement statement) s
  refine ⟨by decide +kernel, hrestored, hdeclared statement rfl ?_⟩
  have hname : Name.Ordinary ⟨"a", 1⟩ := ⟨by decide, by decide⟩
  exact ⟨hname, ⟨nofun, trivial, trivial⟩, trivial⟩

end Lox.Resolution
