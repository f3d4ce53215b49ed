import Lox.Proofs.Resolution.Walks
import Lox.Resolution.Walk

/-!
# The pass over a program

The walk over each form of tree is a walk over its occurrences. From this follows what the pass
over a whole program gives: the expected distance of every reference, and the errors of exactly the
occurrences that are forbidden.
-/
namespace Lox
namespace Resolution
open Stmt
variable {known : String → Bool}

theorem walks_this (site : Site) (id : NodeId) (line : Nat) :
    Walks known site site ((Expr.this id line).occurrences site) (expr (.this id line)) := by
  let r : Reference := ⟨.this, id, ⟨"this", line⟩⟩
  have hthis : site.expected? r = if site.classKind.isSome then site.distance? "this" else none :=
    rfl
  have herror : site.referenceError? r =
      if site.classKind = none then some ⟨.thisOutsideClass, r.name⟩ else none := rfl
  cases hkind : site.classKind with
  | none =>
    rw [hkind] at hthis herror
    refine (Walks.forbidden site r hthis).congr fun s hs => ?_
    rw [expr, hs.classKind, hkind, herror]
    rfl
  | some kind =>
    rw [hkind] at hthis herror
    refine (Walks.reference site site r "this" hthis).congr fun s hs => ?_
    rw [expr, hs.classKind, hkind, herror]
    rfl

theorem walks_super (site : Site) (id : NodeId) (line : Nat) (method : Name) :
    Walks known site site ((Expr.super id line method).occurrences site)
      (expr (.super id line method)) := by
  let r : Reference := ⟨.super, id, ⟨method.text, line⟩⟩
  have hsuper : site.expected? r =
      if site.classKind = some .derived then site.distance? "super" else none := rfl
  cases hkind : site.classKind with
  | none =>
    have herror : site.referenceError? r = some ⟨.superOutsideClass, ⟨"super", line⟩⟩ := by
      simp only [Site.referenceError?, r, hkind]
    rw [hkind] at hsuper
    refine (Walks.forbidden site r hsuper).congr fun s hs => ?_
    rw [expr, hs.classKind, hkind, herror]
    rfl
  | some kind =>
    rw [hkind] at hsuper
    cases kind with
    | base =>
      have herror : site.referenceError? r =
          some ⟨.superWithoutSuperclass, ⟨"super", line⟩⟩ := by
        simp only [Site.referenceError?, r, hkind]
      refine (Walks.forbidden site r hsuper).congr fun s hs => ?_
      rw [expr, hs.classKind, hkind, herror]
      rfl
    | derived =>
      have herror : site.referenceError? r = none := by
        simp only [Site.referenceError?, r, hkind]
      refine (Walks.reference site site r "super" hsuper).congr fun s hs => ?_
      rw [expr, hs.classKind, hkind, herror]
      rfl

/-- A read of the variable in whose initializer the site is. -/
theorem checkInitialized_eq {site : Site} {s : State} (h : Models known site s) (name : Name) :
    s.checkInitialized name =
      if site.opening = some (.initializer name.text) then s.report .readInOwnInitializer name
      else s := by
  unfold State.checkInitialized
  simp only [h.innermost]

theorem walks_variable (site : Site) (id : NodeId) (name : Name)
    (hopening : ∀ other, site.opening ≠ some (.superclass other)) :
    Walks known site site ((Expr.variable id name).occurrences site)
      (expr (.variable id name)) := by
  let r : Reference := ⟨.variable, id, name⟩
  refine (Walks.reference site site r name.text rfl).congr fun s hs => ?_
  have herror : site.referenceError? r =
      if site.opening = some (.initializer name.text) then some ⟨.readInOwnInitializer, name⟩
      else none := by
    simp only [Site.referenceError?, r]
    cases hsite : site.opening with
    | none => rfl
    | some opening =>
      cases opening with
      | initializer other => simp only [Option.some.injEq, Opening.initializer.injEq]
      | superclass other => exact absurd hsite (hopening other)
  rw [expr, checkInitialized_eq hs, herror]
  split
  · rfl
  · rfl

/-- The superclass clause of a class, which must not name the class itself. -/
theorem walks_clause (ctx : Context) (name : Name) (superclass : Superclass) :
    Walks known (ctx.declare name.text) (ctx.declare name.text)
      (Superclass.occurrences? (ctx.superclass name.text) (some superclass))
      fun s => expr superclass.toExpr
        (if superclass.name.text == name.text then s.report .inheritsFromItself superclass.name
          else s) := by
  let around : Site := ctx.declare name.text
  let r : Reference := ⟨.variable, superclass.id, superclass.name⟩
  refine (Walks.reference around (ctx.superclass name.text) r superclass.name.text rfl).congr
    fun s hs => ?_
  have herror : (ctx.superclass name.text).referenceError? r =
      if name.text = superclass.name.text then some ⟨.inheritsFromItself, superclass.name⟩
      else none := rfl
  have hraise : (if superclass.name.text == name.text then
      s.report .inheritsFromItself superclass.name else s) =
      s.raise ((ctx.superclass name.text).referenceError? r) := by
    rw [herror]
    by_cases heq : name.text = superclass.name.text
    · rw [if_pos heq, if_pos (beq_iff_eq.mpr heq.symm)]
      rfl
    · rw [if_neg heq, if_neg fun hbeq => heq (beq_iff_eq.mp hbeq).symm]
      rfl
  have hopening : around.opening ≠ some (.initializer superclass.name.text) := nofun
  rw [hraise, Superclass.toExpr, expr, checkInitialized_eq (hs.raise _), if_neg hopening]

mutual

theorem walks_expr (site : Site) (hopening : ∀ other, site.opening ≠ some (.superclass other)) :
    (e : Expr) → Walks known site site (e.occurrences site) (expr e)
  | .literal _ => .nil site
  | .grouping inner => walks_expr site hopening inner
  | .unary _ _ operand => walks_expr site hopening operand
  | .binary _ _ left right | .logical _ left right => by
    have hright := walks_expr site hopening right
    unfold Expr.occurrences
    rw [Expr.visited, List.map_append]
    exact (walks_expr site hopening left).seq hright
  | .variable id name => walks_variable site id name hopening
  | .assign id name value => by
    have hvalue := walks_expr site hopening value
    unfold Expr.occurrences
    rw [Expr.visited, List.map_append]
    exact hvalue.seq (.reference site site ⟨.assign, id, name⟩ name.text rfl)
  | .call callee _ arguments => by
    have harguments := walks_exprs site hopening arguments
    unfold Expr.occurrences
    rw [Expr.visited, List.map_append]
    exact (walks_expr site hopening callee).seq harguments
  | .get object _ => walks_expr site hopening object
  | .set object _ value => by
    have hobject := walks_expr site hopening object
    unfold Expr.occurrences
    rw [Expr.visited, List.map_append]
    exact (walks_expr site hopening value).seq hobject
  | .this id line => walks_this site id line
  | .super id line method => walks_super site id line method

theorem walks_exprs (site : Site) (hopening : ∀ other, site.opening ≠ some (.superclass other)) :
    (es : List Expr) →
      Walks known site site ((Expr.visited.listVisited es).map fun r => ⟨site, .reference r⟩)
        (expr.exprs es)
  | [] => .nil site
  | e :: es => by
    have hrest := walks_exprs site hopening es
    rw [Expr.visited.listVisited, List.map_append]
    exact (walks_expr site hopening e).seq hrest

end

theorem walks_expr? (site : Site) (hopening : ∀ other, site.opening ≠ some (.superclass other))
    (e : Option Expr) : Walks known site site (Expr.occurrences? site e) (expr? e) := by
  cases e with
  | none => exact .nil site
  | some e => exact walks_expr site hopening e

theorem walks_checkReturn (ctx : Context) (line : Nat) (value : Option Expr) :
    Walks known ctx ctx [⟨ctx, .exit line value.isSome⟩] (checkReturn line value) := by
  have hraise (s : State) (hs : Models known ctx s) : checkReturn line value s =
      s.raise (Occurrence.violation? ⟨ctx, .exit line value.isSome⟩) := by
    unfold checkReturn Occurrence.violation?
    rw [hs.functionKind]
    dsimp only
    cases ctx.functionKind with
    | none => rfl
    | some kind =>
      cases kind with
      | ordinary => rfl
      | initializer =>
        cases value with
        | none => rfl
        | some value => rfl
  apply Walks.raise
  · intro s hs
    rw [hraise s hs]
    exact hs.raise _
  · intro s hs
    rw [hraise s hs]
    exact s.errors_raise _
  · intro s
    unfold checkReturn
    split <;> rfl
  · exact nofun

theorem walks_parameters (ctx : Context) (names : List Name) :
    Walks known ctx (ctx.declareAll names) (parameterOccurrences ctx names)
      (parameters known names) := by
  induction names generalizing ctx with
  | nil => exact .nil ctx
  | cons name names ih => exact (Walks.introduce ctx name).seq (ih _)

/-- The kind of the class does not matter to a variable. -/
theorem expr_variable_classKind (s : State) (kind : Option ClassKind) (id : NodeId) (name : Name) :
    expr (.variable id name) { s with classKind := kind } =
      { expr (.variable id name) s with classKind := kind } := by
  have hreference (s : State) : State.reference { s with classKind := kind } id name.text =
      { s.reference id name.text with classKind := kind } := by
    unfold State.reference
    dsimp only
    split <;> rfl
  have hcheck : State.checkInitialized { s with classKind := kind } name =
      { s.checkInitialized name with classKind := kind } := by
    by_cases hfalse : s.innermost.find? name.text = some false
    · have hpos : s.checkInitialized name = s.report .readInOwnInitializer name := if_pos hfalse
      rw [hpos]
      exact if_pos hfalse
    · have hneg : s.checkInitialized name = s := if_neg hfalse
      rw [hneg]
      exact if_neg hfalse
  rw [expr, hcheck, hreference]
  rfl

theorem inClass_variable (kind : ClassKind) (id : NodeId) (name : Name) (walk : State → State)
    (s : State) : s.inClass kind (fun s => walk (expr (.variable id name) s)) =
      (expr (.variable id name) s).inClass kind walk := by
  have hkind : (expr (.variable id name) s).classKind = s.classKind := by
    have hsame := congrArg State.classKind (expr_variable_classKind s s.classKind id name)
    exact hsame
  unfold State.inClass
  rw [hkind]
  dsimp only
  rw [expr_variable_classKind]

/-- The methods of a class stand in the scopes around them. -/
theorem walks_classScopes {ctx : Context} {name : Name} {superclass : Option Superclass}
    {os : List Occurrence} {walk : State → State}
    (h : Walks known ((ctx.declare name.text).method (kindOf superclass))
      ((ctx.declare name.text).method (kindOf superclass)) os walk) :
    Walks known ctx (ctx.declare name.text)
      (⟨ctx, .declaration name⟩ ::
        (Superclass.occurrences? (ctx.superclass name.text) superclass ++ os))
      (classScopes known name superclass walk) := by
  have hname : Walks known ctx _ _ _ := Walks.introduce ctx name
  cases superclass with
  | none =>
    let around := ctx.declare name.text
    have hdefine : Walks known ((around.inherit .base).enter []) _ [] (·.define "this") :=
      .define _ "this" nofun
    have hmethods : Walks known (around.inherit .base) (around.inherit .base) os _ :=
      (hdefine.seq h).inScope [⟨"this", 0⟩]
    exact hname.seq (hmethods.inClass .base)
  | some superclass =>
    let around := ctx.declare name.text
    let inside : Context := { around with classKind := some .derived }
    have hdefine : Walks known ((around.inherit .derived).enter []) _ [] (·.define "this") :=
      .define _ "this" nofun
    have hmethods : Walks known (around.inherit .derived) (around.inherit .derived) os _ :=
      (hdefine.seq h).inScope [⟨"this", 0⟩]
    have hdefineSuper : Walks known (inside.enter []) _ [] (·.define "super") :=
      .define _ "super" nofun
    have hsuper : Walks known inside inside os _ :=
      (hdefineSuper.seq hmethods).inScope [⟨"super", 0⟩]
    have hclause : Walks known around around _ _ := walks_clause ctx name superclass
    refine (hname.seq (hclause.seq (hsuper.inClass .derived))).congr fun s _ => ?_
    exact inClass_variable .derived superclass.id superclass.name _ _

/-- The walk tells initializers from other methods by their names. -/
theorem methodKind_eq (method : FunctionDecl) : methodKind method = kindOfMethod method := by
  simp [methodKind, kindOfMethod, FunctionOf.isInitializer, FunctionOf.initializerName]

mutual

theorem walks_stmt (ctx : Context) : (s : Stmt) →
    Walks known ctx (ctx.declareAll s.declaredNames : Context) (s.occurrences ctx) (stmt known s)
  | .expression value | .print value => walks_expr ctx nofun value
  | .varDecl name initializer => by
    have hopening (other : String) :
        (ctx.initializer name.text).opening ≠ some (.superclass other) := by
      unfold Context.initializer
      dsimp only
      split <;> exact nofun
    have hvalue : Walks known _ _ _ _ :=
      walks_expr? (ctx.initializer name.text) hopening initializer
    have h := ((Walks.declare ctx name).seq hvalue).seq (.redefine ctx name.text)
    rw [List.append_nil] at h
    exact h
  | .block body => (walks_stmts (ctx.enter []) body).inScope _
  | .ifElse condition thenBranch none =>
    (walks_expr ctx nofun condition).seq (walks_stmt ctx thenBranch)
  | .ifElse condition thenBranch (some elseBranch) => by
    have helse := walks_stmt (ctx.declareAll thenBranch.declaredNames) elseBranch
    have hthen := walks_stmt ctx thenBranch
    rw [declaredNames, Context.declareAll_append]
    exact ((walks_expr ctx nofun condition).seq hthen).seq helse
  | .whileLoop condition body => (walks_expr ctx nofun condition).seq (walks_stmt ctx body)
  | .funDecl function =>
    (Walks.introduce ctx function.name).seq (walks_functionBody .ordinary _ function)
  | .returnWith line value => (walks_checkReturn ctx line value).seq (walks_expr? ctx nofun value)
  | .classDecl _ _ methods => walks_classScopes (walks_methodBodies _ methods)

theorem walks_stmts (ctx : Context) : (body : List Stmt) →
    Walks known ctx (ctx.declareAll (declaredByAll body) : Context) (listOccurrences ctx body)
      (stmts known body)
  | [] => .nil ctx
  | first :: rest => by
    have hrest := walks_stmts (ctx.declareAll first.declaredNames) rest
    rw [declaredByAll, List.flatMap_cons, Context.declareAll_append]
    exact (walks_stmt ctx first).seq hrest

theorem walks_functionBody (kind : FunctionKind) (ctx : Context) : (f : FunctionOf Stmt) →
    Walks known ctx ctx (functionOccurrences (ctx.inFunction kind) f) (functionBody known kind f)
  | ⟨_, names, body⟩ => by
    have hbody := walks_stmts ((ctx.inFunction kind).function names) body
    have hparameters : Walks known _ _ _ _ :=
      walks_parameters ((ctx.inFunction kind).enter []) names
    have hall := hparameters.seq hbody
    unfold Context.function at hall
    rw [← Context.declareAll_append] at hall
    exact (hall.inScope _).inFunction kind

theorem walks_methodBodies (ctx : Context) : (methods : List (FunctionOf Stmt)) →
    Walks known ctx ctx (methodOccurrences ctx methods) (methodBodies known methods)
  | [] => .nil ctx
  | first :: rest => by
    have hrest := walks_methodBodies ctx rest
    rw [methodOccurrences, ← methodKind_eq]
    exact (walks_functionBody _ ctx first).seq hrest

end

section
variable (known) {table : Distances} {program : List Stmt}

/-- Where a program starts, no local name is declared. -/
theorem models_initial (table : Distances) :
    Models known ({ globals := known } : Context) { distances := table } := by
  constructor
  · exact .nil
  · intro name
    change (Bindings.empty : Bindings Bool).contains name = true ∨ _ ↔ _
    simp [Bindings.contains]
  · intro name
    constructor <;> intro h <;> cases h
  · intro b hb
    cases hb
  · rfl
  · rfl

theorem mem_ids_listOccurrences {ctx : Context} {program : List Stmt} {id : NodeId} :
    id ∈ ids (listOccurrences ctx program) ↔ id ∈ (listReferences program).map (·.id) :=
  ((references_listOccurrences ctx program).map _).mem_iff

/-- Every reference gets the distance that follows from its context, whatever errors there are. -/
theorem settled_ofProgram (hnodup : ((listReferences program).map (·.id)).Nodup)
    (hfresh : ∀ r ∈ listReferences program, table.find? r.id = none) :
    ∀ o ∈ listOccurrences { globals := known } program,
      o.Settled (ofProgram known table program).distances := by
  apply (walks_stmts _ program).settled _ (models_initial known table)
  · exact ((references_listOccurrences _ program).map _).nodup_iff.mpr hnodup
  · intro id hid
    obtain ⟨r, hr, rfl⟩ := List.mem_map.mp (mem_ids_listOccurrences.mp hid)
    exact hfresh r hr

/-- The pass leaves the distances of all other references as they are. -/
theorem find?_ofProgram {id : NodeId} (hid : ∀ r ∈ listReferences program, r.id ≠ id) :
    (ofProgram known table program).distances.find? id = table.find? id := by
  apply (walks_stmts _ program).frame _ (models_initial known table)
  intro hmem
  obtain ⟨r, hr, heq⟩ := List.mem_map.mp (mem_ids_listOccurrences.mp hmem)
  exact hid r hr heq

/-- The pass reports what is forbidden and nothing else, in order. -/
theorem errors_ofProgram (table : Distances) (program : List Stmt) :
    (ofProgram known table program).errors =
      (listOccurrences { globals := known } program).filterMap Occurrence.violation? :=
  (walks_stmts _ program).errors _ (models_initial known table)

/-- Without errors there is no forbidden use. -/
theorem clean_ofProgram (herrors : (ofProgram known table program).errors = []) :
    ∀ o ∈ listOccurrences { globals := known } program, o.Clean := by
  rw [errors_ofProgram] at herrors
  exact List.filterMap_eq_nil_iff.mp herrors

end
end Resolution
end Lox
