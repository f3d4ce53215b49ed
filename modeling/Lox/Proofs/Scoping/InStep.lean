import Lox.Proofs.Scoping.Agreement

/-!
# Scopes and locations in step

The operations of the machine, which finds variables by distances, and those of the lexical state,
which has no distances, keep both in agreement and have the same results, where the static pass has
found no errors.
-/
namespace Lox.Evaluation
open Resolution

namespace Lexical
variable {α : Type}

def correspondence (setting : Setting) (globals : ScopeId) : Correspondence Machine Lexical where
  World := Layout
  Position := ScopeId
  Grows := Layout.Grows
  States p w site m l := Agrees setting globals p w m l ∧
    Runs globals p w site.toContext l.environment
  Ended := Agrees setting globals
  ValueOk := Layout.ValueOk setting
  MethodOk := Layout.IsMethod setting
  Closures w _ object object' := ∃ ctx, w.Closes setting object object' ctx
  HaltOk _ _ := True
  Admits := setting.Admits

variable {setting : Setting} {globals p q : ScopeId} {w w' : Layout} {site : Site} {ctx : Context}
  {m m' : Machine}
  {l l' : Lexical} {post : Layout → α → Prop}

theorem lawful (setting : Setting) (globals : ScopeId) :
    (correspondence setting globals).Lawful where
  grows_refl := Layout.Grows.refl
  grows_trans := Layout.Grows.trans
  ended hs := hs.1

/-- A step that makes no slot. -/
theorem sim_ok (hruns : Runs globals p w site.toContext l.environment)
    (h : Layout.Grows p w w' ∧ Agrees setting globals p w' m' l') (hslots : w'.slots = w.slots)
    (henvironment : l'.environment = l.environment) {a : α} (ha : post w' a) :
    (correspondence setting globals).Sim p w site post (.ok a m') (.ok a l') := by
  obtain ⟨hgrows, hagrees⟩ := h
  refine .ok hgrows ⟨hagrees, ?_⟩ ha
  rw [henvironment]
  refine hruns.grows hgrows fun hslot => ?_
  rw [← hslots]
  exact hslot

theorem sim_error (h : Agrees setting globals p w m l) (halt : Halt) {after : Site} :
    (correspondence setting globals).Sim p w after post (.error halt m) (.error halt l) :=
  .error trivial (.refl p w) h

/-- In a strict setting the distance of a name is that of its scope. -/
theorem distance_eq (hstrict : setting.strict) {r : Reference}
    (hr : setting.Admits ⟨site, .reference r⟩) (hkind : r.kind ≠ .super) :
    setting.table.find? r.id = site.distance? r.name.text := by
  have hreference := hr.reference r rfl
  have hproper := hreference.proper
  have hclean := (hr.clean hstrict).inClass
  rcases hreference.distance with hexpected | ⟨hnot, -⟩
  · rw [hexpected]
    unfold Context.expected?
    unfold Reference.Proper at hproper
    split
    · rfl
    · rfl
    · next heq =>
      rw [heq] at hproper
      rw [if_pos (hclean heq), hproper]
    · next heq => exact absurd heq hkind
  · exact absurd hstrict hnot

theorem sim_readVariable (hstrict : setting.strict)
    (hs : (correspondence setting globals).States p w site m l) {r : Reference}
    (hr : setting.Admits ⟨site, .reference r⟩) (hkind : r.kind ≠ .super) :
    (correspondence setting globals).Sim p w site (Layout.ValueOk setting)
      (readVariable r.id r.name m) (read r.name l) := by
  obtain ⟨hagrees, hruns⟩ := hs
  have hdistance := distance_eq hstrict hr hkind
  rw [← hagrees.distances] at hdistance
  rw [readVariable_apply, hdistance]
  unfold read
  cases hd : site.distance? r.name.text with
  | some d =>
    obtain ⟨location, outer, hlocation, houter, hslot⟩ := hruns.sees.found hd
    rw [hagrees.store, ← hagrees.scope] at houter
    have hcell := hagrees.memory.cell hslot
    dsimp only at hcell ⊢
    rw [readAt_apply, houter, hlocation]
    dsimp only
    rw [hcell]
    cases hv : m.store.findLocal? outer r.name.text with
    | none => exact sim_error hagrees _
    | some v =>
      rw [← hagrees.store] at hv
      exact .ok (.refl p w) ⟨hagrees, hruns⟩ (hagrees.holds.values hv)
  | none =>
    have hglobal := hagrees.memory.lookup?_globals r.name.text
    dsimp only
    rw [readGlobal_apply, hagrees.globals, hruns.sees.absent hd, ← hglobal]
    dsimp only
    cases hv : m.store.lookup? globals r.name.text with
    | none => exact sim_error hagrees _
    | some v =>
      rw [← hagrees.store] at hv
      exact .ok (.refl p w) ⟨hagrees, hruns⟩ (hagrees.holds.lookup hv)

theorem sim_writeVariable (hstrict : setting.strict)
    (hs : (correspondence setting globals).States p w site m l) {id : NodeId} {name : Name}
    (hr : setting.Admits ⟨site, .reference ⟨.assign, id, name⟩⟩) {v : Value}
    (hv : w.ValueOk setting v) :
    (correspondence setting globals).Sim p w site (fun _ _ => True) (writeVariable id name v m)
      (write name v l) := by
  obtain ⟨hagrees, hruns⟩ := hs
  obtain rfl := hagrees.globals
  have hdistance := distance_eq hstrict hr nofun
  rw [← hagrees.distances] at hdistance
  dsimp only at hdistance
  rw [writeVariable_apply, hdistance]
  unfold write
  cases hd : site.distance? name.text with
  | some d =>
    obtain ⟨location, outer, hlocation, houter, hslot⟩ := hruns.sees.found hd
    rw [hagrees.store, ← hagrees.scope] at houter
    dsimp only
    rw [writeAt_apply, houter, hlocation]
    refine sim_ok hruns (hagrees.write hslot hv) rfl rfl ?_
    trivial
  | none =>
    dsimp only
    rw [writeFrom_apply, hagrees.memory.holder?_globals, hruns.sees.absent hd]
    dsimp only
    cases l.globals.contains name.text with
    | false => exact sim_error hagrees _
    | true =>
      refine sim_ok hruns (hagrees.writeGlobal name.text hv) rfl rfl ?_
      trivial

theorem sim_declare (hstrict : setting.strict)
    (hs : (correspondence setting globals).States p w ctx m l) {name : Name}
    (hname : name.Ordinary) (hadmits : setting.Admits ⟨ctx, .declaration name⟩) :
    (correspondence setting globals).Sim p w (ctx.initializer name.text) (fun _ _ => True)
      (Operations.machine.declare name.text m) (declare name.text l) := by
  obtain ⟨hagrees, hruns⟩ := hs
  obtain rfl := hagrees.scope
  unfold declare
  rw [hruns.isLocal]
  by_cases hscopes : ctx.scopes = []
  · have hsame : (ctx.declare name.text).scopes = ctx.scopes := by
      rw [Context.declare_scopes_nil hscopes, hscopes]
    have hdeclared := hruns.of_scopes hsame (ctx.declare_classKind name.text)
    rw [hscopes]
    exact .ok (.refl _ w) ⟨hagrees, hdeclared⟩ trivial
  · have hnonempty : (!ctx.scopes.isEmpty) = true := by simpa using hscopes
    rw [hnonempty]
    have hclean := hadmits.clean hstrict
    have hbinds := Store.binds_none (hagrees.unbound hruns hscopes hclean)
    obtain ⟨hgrows, hagrees', hruns'⟩ :=
      hagrees.declared hruns hscopes hname hclean hbinds nofun
    have hmoved := hagrees'.moved m.scope (l.extend l.environment name.text none).1
    exact .ok hgrows ⟨hmoved, hruns'⟩ trivial

/-- Both give a declared variable its first value. -/
theorem exists_define {name : Name}
    (hs : (correspondence setting globals).States p w (ctx.declare name.text) m l) {v : Value}
    (hv : w.ValueOk setting v) :
    ∃ w' l', define name.text v l = .ok () l' ∧ Layout.Grows p w w' ∧
      (correspondence setting globals).States p w' (ctx.declare name.text)
        { m with store := m.store.define m.scope name.text v } l' := by
  obtain ⟨hagrees, hruns⟩ := hs
  obtain rfl := hagrees.scope
  unfold define
  by_cases hscopes : ctx.scopes = []
  · have hnil := Context.declare_scopes_nil hscopes name.text
    have hglobal : m.scope = globals := hruns.outermost.mp hnil
    have habsent : (ctx.declare name.text).distance? name.text = none := by
      unfold Context.distance?
      rw [hnil]
      rfl
    rw [hruns.sees.absent habsent]
    subst hglobal
    obtain ⟨hgrows, hagrees'⟩ := hagrees.writeGlobal name.text hv
    exact ⟨_, _, rfl, hgrows, hagrees', hruns.grows hgrows id⟩
  · have hfound := Context.distance?_declare_self hscopes name.text
    obtain ⟨location, outer, hlocation, houter, hslot⟩ := hruns.sees.found hfound
    cases houter
    rw [hlocation]
    obtain ⟨hgrows, hagrees'⟩ := hagrees.write hslot hv
    exact ⟨_, _, rfl, hgrows, hagrees', hruns.grows hgrows id⟩

theorem sim_define {name : Name}
    (hs : (correspondence setting globals).States p w (ctx.declare name.text) m l) {v : Value}
    (hv : w.ValueOk setting v) :
    (correspondence setting globals).Sim p w (ctx.declare name.text) (fun _ _ => True)
      (Operations.machine.define name.text v m) (define name.text v l) := by
  obtain ⟨w', l', hdefine, hgrows, hstates⟩ := exists_define hs hv
  rw [hdefine]
  exact .ok hgrows hstates trivial

theorem inside_apply {α : Type} (environment : Environment) (x : EStateM Halt Lexical α)
    (l : Lexical) : inside environment x l =
      leaving (fun after => { after with environment := l.environment })
        (x { l with environment }) := by
  unfold inside
  cases x { l with environment } <;> rfl

/-- What runs in a scope and an environment of its own leaves those around it as they are. -/
theorem sim_inside {w₁ : Layout} (hagrees : Agrees setting globals p w₁ m l)
    (hruns : Runs globals p w site.toContext l.environment) (hw : Layout.Grows q w w₁)
    (hq : w.store.scopes.size ≤ q) {inner : Context} {environment : Environment}
    (hinner : Runs globals q w₁ inner environment) {x : Eval Completion}
    {y : EStateM Halt Lexical Completion}
    (h : (correspondence setting globals).Bodies inner x y) :
    (correspondence setting globals).Sim p w site ((correspondence setting globals).CompletionOk inner)
      (inScope q x m) (inside environment y l) := by
  obtain rfl := hagrees.scope
  obtain ⟨after, hsim⟩ := h q w₁ _ _ ⟨hagrees.moved q environment, hinner⟩
  rw [inScope_apply, inside_apply]
  refine (lawful setting globals).leave hsim fun hgrows hended => ?_
  have hall := hw.trans hgrows
  have hback := Agrees.moved hended m.scope l.environment
  exact ⟨hall.anew hq m.scope, hback, hruns.anew hall hq⟩

theorem sim_inBlock (hs : (correspondence setting globals).States p w ctx m l) {x : Eval Completion}
    {y : EStateM Halt Lexical Completion}
    (h : (correspondence setting globals).Bodies (ctx.enter []) x y) :
    (correspondence setting globals).Sim p w ctx ((correspondence setting globals).CompletionOk ctx)
      (Operations.machine.inBlock x m) (operations.inBlock y l) := by
  obtain ⟨hagrees, hruns⟩ := hs
  obtain rfl := hagrees.scope
  have hsize : w.store.scopes.size = m.store.scopes.size := congrArg (·.scopes.size) hagrees.store
  obtain ⟨hgrows, hagrees'⟩ := hagrees.newScope (some m.scope) m.store.scopes.size
  have hinner := hagrees.enter hruns.sees hruns.layered
  exact sim_inside hagrees' hruns hgrows (Nat.le_of_eq hsize) hinner h

theorem environment_bindParameters (l : Lexical) (environment : Environment) (names : List Name)
    (arguments : List Value) :
    (l.bindParameters environment names arguments).2.environment = l.environment := by
  induction names generalizing l environment arguments with
  | nil => rfl
  | cons name names ih => exact ih _ _ _

theorem environmentOf_eq (hagrees : Agrees setting globals p w m l) {object : FunctionObject}
    {environment : Environment} (h : w.environments[object.closure]? = some environment) :
    l.environmentOf object = environment := by
  unfold environmentOf
  rw [← hagrees.environments, h]
  rfl

theorem sim_inCall (hstrict : setting.strict)
    (hs : (correspondence setting globals).States p w site m l) {f : FunctionId}
    {object object' : FunctionObject} {around : Context}
    (hf : w.Closes setting object object' around) (htext : object.text = object'.text)
    {arguments : List Value} (harguments : ∀ v ∈ arguments, w.ValueOk setting v)
    {x : Eval Completion} {y : EStateM Halt Lexical Completion}
    (h : (correspondence setting globals).Bodies
      (around.function object.declaration.parameters) x y) :
    (correspondence setting globals).Sim p w site
      ((correspondence setting globals).CompletionOk
        (around.function object.declaration.parameters))
      (Operations.machine.inCall f object arguments x m)
      (operations.inCall f object' arguments y l) := by
  obtain ⟨hagrees, hruns⟩ := hs
  have hsize : w.store.scopes.size = m.store.scopes.size := congrArg (·.scopes.size) hagrees.store
  have hdeclaration : object.declaration = object'.declaration := congrArg Prod.fst htext
  obtain ⟨environment, henvironment, hsees⟩ := hf.keeps
  let closure : Environment := { environment with isLocal := true }
  obtain ⟨hgrows, hopened⟩ := hagrees.newScope (some object.closure) m.store.scopes.size
  have hstart := hagrees.enter hsees hf.layered
  have harguments' := fun v hv => (harguments v hv).grows hgrows
  obtain ⟨w', hgrows', hbound, hinner⟩ := hopened.parameters hstrict hstart (List.cons_ne_nil _ _)
    hf.within.parameters hf.within.ordinary harguments'
  have hlexical : operations.inCall f object' arguments y l =
      inside (l.bindParameters closure object.declaration.parameters arguments).1 y
        (l.bindParameters closure object.declaration.parameters arguments).2 := by
    rw [hdeclaration]
    have hclosure := environmentOf_eq hagrees henvironment
    subst hclosure
    rfl
  rw [hlexical]
  have hsame := l.environment_bindParameters closure object.declaration.parameters arguments
  rw [← hsame] at hruns
  exact sim_inside hbound hruns (hgrows.trans hgrows') (Nat.le_of_eq hsize) hinner h

theorem sim_asCall (hs : (correspondence setting globals).States p w site m l) {x : Eval Value}
    {y : EStateM Halt Lexical Value}
    (h : ∀ m' l', (correspondence setting globals).States p w site m' l' → m'.store = m.store →
      (correspondence setting globals).Sim p w site (Layout.ValueOk setting) (x m') (y l')) :
    (correspondence setting globals).Sim p w site (Layout.ValueOk setting) (Evaluation.asCall x m)
      (asCall y l) := by
  obtain ⟨hagrees, hruns⟩ := hs
  have hdepth {w' : Layout} {m' : Machine} {l' : Lexical} (h' : Agrees setting globals p w' m' l')
      {depth depth' : Nat} (heq : depth = depth') :
      Agrees setting globals p w' { m' with callDepth := depth } { l' with callDepth := depth' } :=
    ⟨h'.store, h'.objects, h'.environments, h'.alike, h'.holds, h'.memory, h'.globals, h'.scope,
      h'.distances, heq, h'.output⟩
  have hsim := h _ _ ⟨hdepth hagrees (congrArg (· + 1) hagrees.callDepth), hruns⟩ rfl
  unfold Evaluation.asCall asCall
  generalize x { m with callDepth := m.callDepth + 1 } = u at hsim ⊢
  generalize y { l with callDepth := l.callDepth + 1 } = v at hsim ⊢
  cases hsim with
  | ok hgrows hstates hpost =>
    obtain ⟨hafter, hruns'⟩ := hstates
    exact .ok hgrows ⟨hdepth hafter (congrArg (· - 1) hafter.callDepth), hruns'⟩ hpost
  | error hhalt hgrows hended =>
    exact .error hhalt hgrows (hdepth hended (congrArg (· - 1) (Agrees.callDepth hended)))

theorem sim_receiver (hs : (correspondence setting globals).States p w site m l)
    {object object' : FunctionObject} {around : Context}
    (hf : w.Closes setting object object' around) (hinitializer : object.isInitializer = true) :
    (correspondence setting globals).Sim p w site (Layout.ValueOk setting)
      (Operations.machine.receiver object m) (operations.receiver object' l) := by
  obtain ⟨hagrees, hruns⟩ := hs
  obtain ⟨environment, henvironment, hsees⟩ := hf.keeps
  obtain ⟨location, outer, hlocation, houter, hslot⟩ := hsees.found (hf.initializer hinitializer)
  cases houter
  have hvalue : l.valueOf? (l.environmentOf object') "this" =
      m.store.findLocal? object.closure "this" := by
    unfold valueOf?
    rw [environmentOf_eq hagrees henvironment, hlocation]
    exact hagrees.memory.cell hslot
  change (correspondence setting globals).Sim p w site _
    (.ok ((m.store.findLocal? object.closure "this").getD .nil) m)
    (.ok ((l.valueOf? (l.environmentOf object') "this").getD .nil) l)
  rw [hvalue]
  refine .ok (.refl p w) ⟨hagrees, hruns⟩ ?_
  cases hthis : m.store.findLocal? object.closure "this" with
  | none => trivial
  | some v =>
    rw [← hagrees.store] at hthis
    exact hagrees.holds.values hthis

theorem sim_newFunction (hs : (correspondence setting globals).States p w ctx m l)
    {f : FunctionDecl} {kind : FunctionKind}
    (hf : Stmt.FunctionWithin setting.Admits (ctx.inFunction kind) f) :
    (correspondence setting globals).Sim p w ctx (fun w f => w.ValueOk setting (.functionRef f))
      (Operations.machine.newFunction f m) (operations.newFunction f l) := by
  obtain ⟨hagrees, hruns⟩ := hs
  obtain rfl := hagrees.scope
  obtain ⟨hgrows, hagrees', hvalue⟩ := @Agrees.addFunction _ _ _ _ _ _ _
    l.environment hagrees ⟨f, m.scope, false⟩ ⟨f, l.environments.size, false⟩ rfl rfl hf
    (hruns.sees.of_scopes rfl) hruns.layered nofun
  change (correspondence setting globals).Sim _ w ctx _ (.ok m.store.functions.size _)
    (.ok l.objects.functions.size _)
  rw [hagrees.functions_size]
  exact sim_ok hruns ⟨hgrows, hagrees'⟩ rfl rfl hvalue

/-- A method is bound in a lexical state. -/
theorem bindTo_apply {f : FunctionId} {object : FunctionObject}
    (h : l.objects.functions[f]? = some object) (i : InstanceId) :
    let closure : Environment :=
      ⟨(l.environmentOf object).locations.insert "this" l.cells.size, true⟩
    bindTo f i l =
      .ok l.objects.functions.size
        { l with
          objects := (l.objects.newFunction { object with closure := l.environments.size }).1
          environments := l.environments.push closure
          cells := l.cells.push (some (.instanceRef i)) } := by
  intro closure
  change (Operations.object l.objects.functions[f]? >>= _) l = _
  rw [h]
  rfl

theorem sim_bindTo (hs : (correspondence setting globals).States p w site m l) {f : FunctionId}
    (hf : w.IsMethod setting f) (i : InstanceId) :
    (correspondence setting globals).Sim p w site (fun w f => w.ValueOk setting (.functionRef f))
      (Evaluation.bindTo f i m) (bindTo f i l) := by
  obtain ⟨hagrees, hruns⟩ := hs
  obtain ⟨object, object', hobject, hobject', around, kind, hwithin, environment, henvironment,
    hsees⟩ := hf
  have hsize : w.store.scopes.size = m.store.scopes.size := congrArg (·.scopes.size) hagrees.store
  have htext : object.text = object'.text := by
    have h := hagrees.alike.function f
    rw [← hagrees.store, ← hagrees.objects, hobject, hobject'] at h
    exact Option.some.inj h
  rw [hagrees.store] at hobject
  rw [hagrees.objects] at hobject'
  obtain ⟨hgrows, hopened, hsees'⟩ := hagrees.open_ hsees "this" (v := .instanceRef i) trivial
  have hruns' := hruns.anew hgrows (Nat.le_of_eq hsize)
  obtain ⟨hgrows', hagrees', hvalue⟩ := @Agrees.addFunction _ _ _ _ _ _ _
    ⟨environment.locations.insert "this" l.cells.size, true⟩ hopened
    { object with closure := m.store.scopes.size } { object' with closure := l.environments.size }
    htext rfl hwithin (hsees'.of_scopes rfl) (Context.layered_method around kind) fun _ => rfl
  rw [Evaluation.bindTo_apply m hobject, bindTo_apply hobject']
  rw [environmentOf_eq hagrees henvironment, hagrees.functions_size]
  have hbound : (correspondence setting globals).Sim p _ site
      (fun w f => w.ValueOk setting (.functionRef f)) (.ok m.store.functions.size _)
      (.ok m.store.functions.size _) := sim_ok hruns' ⟨hgrows', hagrees'⟩ rfl rfl hvalue
  exact (lawful setting globals).later (hgrows.anew (Nat.le_of_eq hsize) p) hbound

/-- The methods of a class get a scope and an environment around them. -/
theorem exists_methodEnvironment (hagrees : Agrees setting globals p w m l)
    (hruns : Runs globals p w ctx l.environment) (superclass : Option ClassId) :
    let opened := withMethodScope m.store p superclass
    ∃ w' environment l', methodEnvironment superclass l = .ok environment l' ∧
      Layout.Grows p w w' ∧ Agrees setting globals p w' { m with store := opened.1 } l' ∧
      Runs globals p w' ctx l'.environment ∧
      w'.Sees (ctx.inherit (kindOf superclass)) opened.2 environment.locations := by
  cases superclass with
  | none =>
    have hsees : w.Sees (ctx.inherit .base) p l.environment.locations := hruns.sees.of_scopes rfl
    exact ⟨w, l.environment, l, rfl, .refl p w, hagrees, hruns, hsees⟩
  | some c =>
    have hsize : w.store.scopes.size = m.store.scopes.size := congrArg (·.scopes.size) hagrees.store
    obtain ⟨hgrows, hopened, hsees⟩ := hagrees.open_ hruns.sees "super" (v := .classRef c) trivial
    have hruns' := hruns.anew hgrows (Nat.le_of_eq hsize)
    have hinherit : Layout.Sees _ (ctx.inherit .derived) m.store.scopes.size _ := hsees.of_scopes rfl
    exact ⟨_, ⟨l.environment.locations.insert "super" l.cells.size, true⟩, _, rfl,
      hgrows.anew (Nat.le_of_eq hsize) p, hopened, hruns', hinherit⟩

/-- Functions that are made for the methods of a class are methods. -/
theorem isMethod_addFunctions (hagrees : Agrees setting globals p w m l) {closure : ScopeId}
    {environment : Environment} {kind : ClassKind}
    (hsees : w.Sees (ctx.inherit kind) closure environment.locations) {methods : List FunctionDecl}
    (hmethods : Stmt.MethodsWithin setting.Admits (ctx.method kind) methods) :
    let functions := (methodObjects closure methods).toArray
    let functions' := (methodObjects l.environments.size methods).toArray
    let w' : Layout :=
      ⟨{ m.store with functions := m.store.functions ++ functions },
        { l.objects with functions := l.objects.functions ++ functions' },
        l.environments.push environment, w.slots⟩
    Layout.Grows p w w' → ∀ f, m.store.functions.size ≤ f →
      f < m.store.functions.size + methods.length → w'.IsMethod setting f := by
  intro functions functions' w' hgrows f hle hlt
  obtain ⟨i, rfl⟩ := Nat.exists_eq_add_of_le hle
  have hi : i < methods.length := by lia
  let object : FunctionObject := ⟨methods[i], closure, methods[i].isInitializer⟩
  let object' : FunctionObject := ⟨methods[i], l.environments.size, methods[i].isInitializer⟩
  have hobject : functions[i]? = some object := by simp [functions, methodObjects, hi, object]
  have hobject' : functions'[i]? = some object' := by
    simp [functions', methodObjects, hi, object']
  have hkeeps : w'.Keeps (ctx.inherit kind) object object' :=
    ⟨environment, Array.getElem?_push_size, hsees.grows hgrows⟩
  have hwithin := hmethods _ (List.getElem_mem hi)
  exact hagrees.both_addFunctions hobject hobject' ⟨ctx, kind, hwithin, hkeeps⟩

/-- A class is made whose methods keep an environment. -/
theorem exists_makeClass (hagrees : Agrees setting globals p w m l) {closure : ScopeId}
    {environment : Environment} {superclass : Option ClassId}
    (hsees : w.Sees (ctx.inherit (kindOf superclass)) closure environment.locations)
    {methods : List FunctionDecl}
    (hmethods : Stmt.MethodsWithin setting.Admits (ctx.method (kindOf superclass)) methods)
    (name : Name) :
    let numbers := methodNumbers m.store.functions.size methods .empty
    let functions := m.store.functions ++ (methodObjects closure methods).toArray
    let made := Store.newClass { m.store with functions } ⟨name.text, superclass, numbers⟩
    ∃ w' l', makeClass environment name superclass methods l = .ok made.2 l' ∧
      Layout.Grows p w w' ∧ Agrees setting globals p w' { m with store := made.1 } l' ∧
      w'.slots = w.slots ∧ l'.environment = l.environment := by
  intro numbers functions made
  have htext : (methodObjects closure methods).toArray.map FunctionObject.text =
      (methodObjects l.environments.size methods).toArray.map FunctionObject.text := by
    simp [methodObjects, FunctionObject.text]
  obtain ⟨hgrows, hadded⟩ := hagrees.addFunctions htext environment
  have hmethod := isMethod_addFunctions hagrees hsees hmethods hgrows
  obtain ⟨hgrows', hmade⟩ := @Agrees.newClass _ _ _ _ _ _ hadded ⟨name.text, superclass, numbers⟩
    fun {other f} hf => by
      rcases find?_methodNumbers hf with hempty | ⟨hle, hlt⟩
      · cases hempty
      · exact hmethod f hle hlt
  have hid : l.objects.classes.size = m.store.classes.size :=
    congrArg Array.size hagrees.alike.classes.symm
  refine ⟨_, _, ?_, hgrows.trans hgrows', hmade, rfl, rfl⟩
  unfold makeClass
  rw [hagrees.functions_size]
  exact congrArg (EStateM.Result.ok · _) hid

theorem sim_newClass {name : Name}
    (hs : (correspondence setting globals).States p w (ctx.declare name.text) m l)
    {superclass : Option ClassId} {methods : List FunctionDecl}
    (hmethods : Stmt.MethodsWithin setting.Admits
      ((ctx.declare name.text).method (kindOf superclass)) methods) :
    (correspondence setting globals).Sim p w (ctx.declare name.text) (fun _ _ => True)
      (Operations.machine.newClass name superclass methods m)
      (operations.newClass name superclass methods l) := by
  have hscope : m.scope = p := hs.1.scope
  have hknown : m.scope < m.store.scopes.size := by
    rw [hscope, ← hs.1.store]
    exact hs.2.known
  obtain ⟨w₁, l₁, hdefine, hgrows₁, hagrees₁, hruns₁⟩ := exists_define hs (v := .nil) trivial
  obtain ⟨w₂, environment, l₂, hopen, hgrows₂, hagrees₂, hruns₂, hsees⟩ :=
    exists_methodEnvironment hagrees₁ hruns₁ superclass
  obtain ⟨w₃, l₃, hmake, hgrows₃, hagrees₃, hslots, henvironment⟩ :=
    exists_makeClass hagrees₂ hsees hmethods name
  have hruns₃ : Runs globals p w₃ (ctx.declare name.text) l₃.environment := by
    rw [henvironment]
    refine hruns₂.grows hgrows₃ fun hslot => ?_
    rw [← hslots]
    exact hslot
  obtain ⟨w₄, l₄, hdefine', hgrows₄, hstates₄⟩ :=
    exists_define ⟨hagrees₃, hruns₃⟩ (v := .classRef (withClass m.store p name superclass methods).2)
      trivial
  have hlexical : operations.newClass name superclass methods l = .ok () l₄ := by
    change EStateM.bind (define name.text .nil) _ l = _
    unfold EStateM.bind
    rw [hdefine]
    change EStateM.bind (methodEnvironment superclass) _ l₁ = _
    unfold EStateM.bind
    rw [hopen]
    change EStateM.bind (makeClass environment name superclass methods) _ l₂ = _
    unfold EStateM.bind
    rw [hmake]
    subst hscope
    exact hdefine'
  rw [newClass_apply, writeFrom_apply, holder?_withClass hknown, hlexical]
  have hall := hgrows₁.trans (hgrows₂.trans (hgrows₃.trans hgrows₄))
  subst hscope
  exact .ok hall hstates₄ trivial

/-- What `super` leads to in a lexical state, by the values at the locations. -/
theorem superMethod_cases {outer inner : Location}
    (hsuper : l.environment.locations.find? "super" = some outer)
    (hthis : l.environment.locations.find? "this" = some inner) (line : Nat) (method : Name) :
    superMethod line method l =
      match l.cells[outer]?.join, l.cells[inner]?.join with
      | some (.classRef c), some (.instanceRef receiver) =>
        match l.objects.findMethod? c method.text with
        | some f => (Value.functionRef <$> bindTo f receiver) l
        | none => .error (.failure ⟨.undefinedProperty method.text, method.line⟩) l
      | some (.classRef _), _ => .error (.fault .noReceiver) l
      | _, _ => .error (.fault .noSuperclass) l := by
  have hcontains : l.environment.locations.contains "super" = true := by
    unfold Bindings.contains
    rw [hsuper]
    rfl
  have hsuperValue : l.valueOf? l.environment "super" = l.cells[outer]?.join := by
    unfold valueOf?
    rw [hsuper]
    rfl
  have hthisValue : l.valueOf? l.environment "this" = l.cells[inner]?.join := by
    unfold valueOf?
    rw [hthis]
    rfl
  change (if l.environment.locations.contains "super" then _ else _ : EStateM Halt Lexical Value) l =
    _
  rw [if_pos hcontains, hsuperValue, hthisValue]
  generalize l.cells[outer]?.join = superclass
  generalize l.cells[inner]?.join = this
  cases superclass with
  | none => rfl
  | some superclass =>
    cases superclass with
    | classRef c =>
      cases this with
      | none => rfl
      | some this =>
        cases this with
        | instanceRef receiver =>
          dsimp only
          cases l.objects.findMethod? c method.text with
          | none => rfl
          | some f => rfl
        | nil | bool _ | number _ | string _ | functionRef _ | classRef _ => rfl
    | nil | bool _ | number _ | string _ | functionRef _ | instanceRef _ => rfl

theorem sim_superMethod (hstrict : setting.strict)
    (hs : (correspondence setting globals).States p w site m l) {id : NodeId} {line : Nat}
    {method : Name} (hr : setting.Admits ⟨site, .reference ⟨.super, id, ⟨method.text, line⟩⟩⟩) :
    (correspondence setting globals).Sim p w site (Layout.ValueOk setting)
      (Evaluation.superMethod id line method m) (superMethod line method l) := by
  obtain ⟨hagrees, hruns⟩ := hs
  have hkind : site.classKind = some .derived := (hr.clean hstrict).inDerived rfl
  obtain ⟨i, hsuper, hthis⟩ := hruns.layered hkind
  have hdistance : m.distances.find? id = some (i + 1) := by
    rw [hagrees.distances]
    rcases (hr.reference _ rfl).distance with hexpected | ⟨hnot, -⟩
    · rw [hexpected, ← hsuper]
      exact if_pos hkind
    · exact absurd hstrict hnot
  obtain ⟨outer, outerScope, houter, houterScope, houterSlot⟩ := hruns.sees.found hsuper
  obtain ⟨inner, innerScope, hinner, hinnerScope, hinnerSlot⟩ := hruns.sees.found hthis
  rw [hagrees.store, ← hagrees.scope] at houterScope hinnerScope
  have houterCell : l.cells[outer]?.join = m.store.findLocal? outerScope "super" :=
    hagrees.memory.cell houterSlot
  have hinnerCell : l.cells[inner]?.join = m.store.findLocal? innerScope "this" :=
    hagrees.memory.cell hinnerSlot
  rw [Evaluation.superMethod_cases m hdistance hinnerScope houterScope,
    superMethod_cases houter hinner, houterCell, hinnerCell]
  generalize m.store.findLocal? outerScope "super" = superclass
  generalize m.store.findLocal? innerScope "this" = this
  cases superclass with
  | none => exact sim_error hagrees _
  | some superclass =>
    cases superclass with
    | classRef c =>
      cases this with
      | none => exact sim_error hagrees _
      | some this =>
        cases this with
        | instanceRef receiver =>
          dsimp only
          rw [← hagrees.alike.findMethod?]
          cases hmethod : m.store.findMethod? c method.text with
          | none => exact sim_error hagrees _
          | some f =>
            rw [← hagrees.store] at hmethod
            have hbound := sim_bindTo ⟨hagrees, hruns⟩ (hagrees.holds.findMethod hmethod) receiver
            exact (lawful setting globals).map hbound fun _ _ hf => hf
        | nil | bool _ | number _ | string _ | functionRef _ | classRef _ =>
          exact sim_error hagrees _
    | nil | bool _ | number _ | string _ | functionRef _ | instanceRef _ =>
      exact sim_error hagrees _

/-- After a declaration nothing is open any more. -/
theorem states_of_opening {opening : Option Opening}
    (hs : (correspondence setting globals).States p w ⟨ctx, opening⟩ m l) :
    (correspondence setting globals).States p w ctx m l := hs

theorem sim_defineFunction {f : FunctionDecl}
    (hs : (correspondence setting globals).States p w (ctx.declare f.name.text) m l)
    {kind : FunctionKind}
    (hf : Stmt.FunctionWithin setting.Admits ((ctx.declare f.name.text).inFunction kind) f) :
    (correspondence setting globals).Sim p w (ctx.declare f.name.text) (fun _ _ => True)
      ((Operations.machine.newFunction f >>= fun id =>
        Operations.machine.define f.name.text (.functionRef id)) m)
      ((operations.newFunction f >>= fun id =>
        operations.define f.name.text (.functionRef id)) l) := by
  refine (lawful setting globals).bind (sim_newFunction hs hf) fun id w' m l _ hs hid => ?_
  exact sim_define hs hid

/-- Where the static pass has found no errors, the operations of the machine and those of the
lexical state stay in step. -/
theorem simulates (hstrict : setting.strict) (globals : ScopeId) :
    Simulates (correspondence setting globals) Operations.machine operations where
  toLawful := lawful setting globals
  value_grows hw hv := Layout.ValueOk.grows hv hw
  closures_grows := by
    rintro p w w' f o o' hw ⟨ctx, hf⟩
    exact ⟨ctx, hf.grows hw⟩
  halt_failure _ _ _ := trivial
  halt_outOfFuel _ := trivial
  value_plain w v hv := by
    cases v with
    | functionRef _ | classRef _ | instanceRef _ => exact hv.elim
    | nil | bool _ | number _ | string _ => trivial
  alike hs := hs.1.alike
  callDepth hs := hs.1.callDepth
  function _ _ _ := trivial
  closures := by
    rintro p w ctx m l f o o' ⟨hagrees, -⟩ ⟨object, object', hobject, hobject', hf⟩ ho ho'
    rw [hagrees.store] at hobject
    rw [hagrees.objects] at hobject'
    obtain rfl := Option.some.inj (hobject.symm.trans ho)
    obtain rfl := Option.some.inj (hobject'.symm.trans ho')
    exact hf
  instance_ _ _ _ := trivial
  field := by
    rintro p w ctx m l i name v ⟨hagrees, -⟩ hv
    have hfield : m.store.field? i name = some v := hv
    rw [← hagrees.store] at hfield
    exact hagrees.holds.fields hfield
  method := by
    rintro p w ctx m l c name f ⟨hagrees, -⟩ hf
    have hmethod : m.store.findMethod? c name = some f := hf
    rw [← hagrees.store] at hmethod
    exact hagrees.holds.findMethod hmethod
  asCall hs h := sim_asCall hs h
  printLine := by
    rintro p w ctx m l text ⟨hagrees, hruns⟩
    have houtput := congrArg (· ++ text ++ "\n") hagrees.output
    refine .ok (.refl p w) ⟨?_, hruns⟩ trivial
    exact ⟨hagrees.store, hagrees.objects, hagrees.environments, hagrees.alike, hagrees.holds,
      hagrees.memory, hagrees.globals, hagrees.scope, hagrees.distances, hagrees.callDepth, houtput⟩
  readVariable r hs hr hkind := by
    refine sim_readVariable hstrict hs hr fun hsuper => ?_
    rcases hkind with h | h <;> cases h.symm.trans hsuper
  writeVariable id name hs hr hv := sim_writeVariable hstrict hs hr hv
  superMethod id line method hs hr := sim_superMethod hstrict hs hr
  setField name hs _ hv := sim_ok hs.2 (hs.1.setField _ name hv) rfl rfl trivial
  newInstance := by
    rintro p w ctx m l c ⟨hagrees, hruns⟩ -
    have hid : m.store.instances.size = l.objects.instances.size :=
      congrArg Array.size hagrees.alike.instances
    change (correspondence setting globals).Sim p w ctx _ (.ok m.store.instances.size _)
      (.ok l.objects.instances.size _)
    rw [hid]
    exact sim_ok hruns (hagrees.newInstance c) rfl rfl trivial
  newInstance_keeps := classArity_newInstance
  bindTo_keeps := arity_bindTo
  bindTo hs hf _ := sim_bindTo hs hf _
  declare hs hr hname := sim_declare hstrict hs hname hr
  define hs _ hv := sim_define (states_of_opening hs) hv
  defineFunction hs _ hf := sim_defineFunction (states_of_opening hs) hf
  superclass hs := hs
  newClass hs _ _ hmethods := sim_newClass (states_of_opening hs) hmethods
  inBlock hs h := sim_inBlock hs h
  inCall := by
    rintro p w ctx m l f o o' arguments hs ⟨around, hf⟩ htext - harguments
    exact ⟨around, hf.within, fun x y h => sim_inCall hstrict hs hf htext harguments h⟩
  receiver := by
    rintro p w ctx m l f o o' hs ⟨around, hf⟩ hinitializer
    exact sim_receiver hs hf hinitializer

end Lexical
end Lox.Evaluation
