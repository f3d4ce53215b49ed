import Lox.Proofs.Evaluation.Simulation

/-!
# Evaluators that stay in step

If the operations of two evaluators simulate each other, then so do the evaluators: with the same
fuel, and from related states, an expression or statement has the same result in both. The proof
goes rule by rule; the induction is on the fuel.
-/
namespace Lox.Evaluation
open Resolution Operations Correspondence
variable {σ τ α β : Type} {r : Correspondence σ τ} {a : Operations σ} {b : Operations τ}

theorem Correspondence.Sim.weaken {p : r.Position} {w : r.World} {after : Site}
    {post post' : r.World → α → Prop} {x : EStateM.Result Halt σ α} {y : EStateM.Result Halt τ α}
    (h : r.Sim p w after post x y) (hpost : ∀ w a, post w a → post' w a) :
    r.Sim p w after post' x y := by
  cases h with
  | ok hgrows hs ha => exact .ok hgrows hs (hpost _ _ ha)
  | error hh hgrows hs => exact .error hh hgrows hs

/-- Only the kind of the function matters to how a statement may end. -/
theorem Correspondence.completionOk_of_kind {ctx ctx' : Context} {w : r.World}
    {completion : Completion} (hkind : ctx'.functionKind = ctx.functionKind)
    (h : r.CompletionOk ctx' w completion) : r.CompletionOk ctx w completion := by
  cases completion with
  | normal => trivial
  | returned value =>
    obtain ⟨hvalue, site, line, hasValue, hsite, hadmits⟩ := h
    exact ⟨hvalue, site, line, hasValue, hsite.trans hkind, hadmits⟩

/-- Where no `return` is admitted, what ends alike does not return. -/
theorem Correspondence.Sim.ne_returned {p : r.Position} {w : r.World} {after : Site} {ctx : Context}
    {x : EStateM.Result Halt σ Completion} {y : EStateM.Result Halt τ Completion}
    (h : r.Sim p w after (r.CompletionOk ctx) x y) (hreturns : ¬ r.Returns ctx) (v : Value) :
    resultOf y ≠ .ok (.returned v) := by
  intro hreturned
  cases h with
  | ok _ _ hcompletion =>
    cases hreturned
    exact hreturns hcompletion.2
  | error => cases hreturned

/-- What goes alike in one evaluator goes alike in another one with the same result, if the states in
which it ends are related there. -/
theorem Correspondence.Sim.carry {τ' : Type} {r' : Correspondence σ τ'} {p : r.Position}
    {w : r.World} {q : r'.Position} {v : r'.World} {after : Site} {post : r.World → α → Prop}
    {post' : r'.World → α → Prop} {x : EStateM.Result Halt σ α} {y : EStateM.Result Halt τ α}
    {z : EStateM.Result Halt τ' α} (h : r.Sim p w after post x y) (hresult : resultOf z = resultOf x)
    (hok : ∀ {w' a}, r.Grows p w w' → r.States p w' after (stateOf x) (stateOf y) → post w' a →
      ∃ v', r'.Grows q v v' ∧ r'.States q v' after (stateOf x) (stateOf z) ∧ post' v' a)
    (herror : ∀ {w' halt}, r.Grows p w w' → r.Ended p w' (stateOf x) (stateOf y) →
      r.HaltOk w' halt → ∃ v', r'.Grows q v v' ∧ r'.Ended q v' (stateOf x) (stateOf z) ∧
        r'.HaltOk v' halt) :
    r'.Sim q v after post' x z := by
  cases h with
  | ok hgrows hstates hpost =>
    obtain ⟨v', hgrows', hstates', hpost'⟩ := hok hgrows hstates hpost
    cases z with
    | ok a t' =>
      cases hresult
      exact .ok hgrows' hstates' hpost'
    | error halt t' => cases hresult
  | error hhalt hgrows hended =>
    obtain ⟨v', hgrows', hended', hhalt'⟩ := herror hgrows hended hhalt
    cases z with
    | ok a t' => cases hresult
    | error halt t' =>
      cases hresult
      exact .error hhalt' hgrows' hended'

/-- The parts of a tree are evaluated in step. -/
structure Correspondence.Evaluators (r : Correspondence σ τ) (x : Parts σ) (y : Parts τ) :
    Prop where
  limit : x.limit = y.limit
  evaluates : r.Evaluates x.evaluate y.evaluate
  executes : r.Executes x.execute y.execute

namespace Correspondence.Lawful
variable (lawful : r.Lawful) {p : r.Position} {w : r.World} {site mid after : Site} {s : σ} {t : τ}
  {post : r.World → α → Prop}
include lawful

theorem pure (hs : r.States p w site s t) {x : α} (hx : post w x) :
    r.Sim p w site post ((Pure.pure x : EStateM Halt σ α) s) ((Pure.pure x : EStateM Halt τ α) t) :=
  .ok (lawful.grows_refl p w) hs hx

theorem throw (hs : r.States p w site s t) {h : Halt} (hh : r.HaltOk w h) :
    r.Sim p w after post ((MonadExcept.throw h : EStateM Halt σ α) s)
      ((MonadExcept.throw h : EStateM Halt τ α) t) :=
  .error hh (lawful.grows_refl p w) (lawful.ended hs)

/-- A result in a world that has grown meanwhile. -/
theorem later {w' : r.World} (hw : r.Grows p w w') {x : EStateM.Result Halt σ α}
    {y : EStateM.Result Halt τ α} (h : r.Sim p w' site post x y) : r.Sim p w site post x y := by
  cases h with
  | ok hgrows hs ha => exact .ok (lawful.grows_trans hw hgrows) hs ha
  | error hh hgrows hs => exact .error hh (lawful.grows_trans hw hgrows) hs

/-- Steps in sequence, where the first one is known to succeed in a state when the second one
starts. -/
theorem bind_of {x : EStateM Halt σ α} {y : EStateM Halt τ α} {f : α → EStateM Halt σ β}
    {g : α → EStateM Halt τ β} {post' : r.World → β → Prop}
    (h : r.Sim p w mid post (x s) (y t))
    (hk : ∀ a w' s' t', x s = .ok a s' → r.Grows p w w' → r.States p w' mid s' t' → post w' a →
      r.Sim p w' after post' (f a s') (g a t')) :
    r.Sim p w after post' ((x >>= f) s) ((y >>= g) t) := by
  change r.Sim p w after post' (EStateM.bind x f s) (EStateM.bind y g t)
  unfold EStateM.bind
  generalize x s = u at h hk ⊢
  generalize y t = v at h ⊢
  cases h with
  | ok hgrows hs ha => exact lawful.later hgrows (hk _ _ _ _ rfl hgrows hs ha)
  | error hh hgrows hs => exact .error hh hgrows hs

theorem bind {x : EStateM Halt σ α} {y : EStateM Halt τ α} {f : α → EStateM Halt σ β}
    {g : α → EStateM Halt τ β} {post' : r.World → β → Prop}
    (h : r.Sim p w mid post (x s) (y t))
    (hk : ∀ a w' s t, r.Grows p w w' → r.States p w' mid s t → post w' a →
      r.Sim p w' after post' (f a s) (g a t)) :
    r.Sim p w after post' ((x >>= f) s) ((y >>= g) t) :=
  lawful.bind_of h fun a w' s t _ hw hs ha => hk a w' s t hw hs ha

theorem map {x : EStateM Halt σ α} {y : EStateM Halt τ α} {f : α → β} {post' : r.World → β → Prop}
    (h : r.Sim p w after post (x s) (y t)) (hf : ∀ w a, post w a → post' w (f a)) :
    r.Sim p w after post' ((f <$> x) s) ((f <$> y) t) := by
  rw [map_eq_pure_bind, map_eq_pure_bind]
  refine lawful.bind h fun a w' s t _ hs ha => ?_
  exact lawful.pure hs (hf w' a ha)

/-- An evaluation in another place is in step from where it was begun, if the states that it leaves
are related there again. -/
theorem leave {p q : r.Position} {w v : r.World} {inner site : Site} {x : EStateM.Result Halt σ α}
    {y : EStateM.Result Halt τ α} {back : σ → σ} {back' : τ → τ} (h : r.Sim q v inner post x y)
    (hback : ∀ {w' s t}, r.Grows q v w' → r.Ended q w' s t →
      r.Grows p w w' ∧ r.States p w' site (back s) (back' t)) :
    r.Sim p w site post (leaving back x) (leaving back' y) := by
  cases h with
  | ok hgrows hs ha =>
    obtain ⟨hgrows, hstates⟩ := hback hgrows (lawful.ended hs)
    exact .ok hgrows hstates ha
  | error hh hgrows hended =>
    obtain ⟨hgrows, hstates⟩ := hback hgrows hended
    exact .error hh hgrows (lawful.ended hstates)

/-- However two evaluations end that stay in step, they end alike and in related states. -/
theorem ends {x : EStateM.Result Halt σ α} {y : EStateM.Result Halt τ α}
    (h : r.Sim p w after post x y) :
    resultOf x = resultOf y ∧ ∃ w', (∀ halt, resultOf x = .error halt → r.HaltOk w' halt) ∧
      r.Ended p w' (stateOf x) (stateOf y) := by
  cases h with
  | ok hgrows hs ha => exact ⟨rfl, _, nofun, lawful.ended hs⟩
  | error hh hgrows hs =>
    refine ⟨rfl, _, fun halt heq => ?_, hs⟩
    cases heq
    exact hh

end Correspondence.Lawful

namespace Simulates
variable (sim : Simulates r a b) {p : r.Position} {w : r.World} {site mid after : Site}
  {ctx : Context} {s : σ} {t : τ} {post : r.World → α → Prop}
include sim

theorem fail (hs : r.States p w site s t) (cause : RuntimeError.Cause) (line : Nat)
    (hcause : ¬ cause.OfLookup) :
    r.Sim p w after post ((Operations.fail cause line : EStateM Halt σ α) s)
      ((Operations.fail cause line : EStateM Halt τ α) t) :=
  sim.throw hs (sim.halt_failure w hcause)

theorem values_grow {vs : List Value} {w' : r.World} (hw : r.Grows p w w')
    (h : ∀ v ∈ vs, r.ValueOk w v) : ∀ v ∈ vs, r.ValueOk w' v :=
  fun v hv => sim.value_grows hw (h v hv)

theorem runAll {x : Stmt → EStateM Halt σ Completion} {y : Stmt → EStateM Halt τ Completion}
    (h : r.Executes x y) {body : List Stmt} (hbody : Stmt.BodyWithin r.Admits ctx body)
    (hs : r.States p w ctx s t) :
    ∃ names, r.Sim p w (ctx.declareAll names) (r.CompletionOk ctx) (Evaluation.runAll x body s)
      (Evaluation.runAll y body t) := by
  induction body generalizing ctx w s t with
  | nil => exact ⟨[], sim.pure hs trivial⟩
  | cons first rest ih =>
    have hfirst := h first p w ctx s t hbody.head hs
    unfold Evaluation.runAll
    change ∃ names, r.Sim p w _ _ (EStateM.bind (x first) _ s) (EStateM.bind (y first) _ t)
    unfold EStateM.bind
    generalize x first s = u at hfirst ⊢
    generalize y first t = v at hfirst ⊢
    cases hfirst with
    | error hh hgrows hended => exact ⟨[], .error hh hgrows hended⟩
    | @ok completion _ _ w' hgrows hstates hcompletion =>
      cases completion with
      | normal =>
        obtain ⟨names, hrest⟩ := ih hbody.tail hstates
        rw [← Context.declareAll_append] at hrest
        exact ⟨_, sim.later hgrows (hrest.weaken fun _ _ => completionOk_of_kind (by simp))⟩
      | returned value => exact ⟨first.declaredNames, .ok hgrows hstates hcompletion⟩

theorem evaluateAll {x : Expr → EStateM Halt σ Value} {y : Expr → EStateM Halt τ Value}
    (h : r.Evaluates x y) {es : List Expr} {done : List Value}
    (hes : ∀ e ∈ es, e.Within r.Admits site) (hdone : ∀ v ∈ done, r.ValueOk w v)
    (hs : r.States p w site s t) :
    r.Sim p w site (fun w vs => ∀ v ∈ vs, r.ValueOk w v) (Evaluation.evaluateAll x es done s)
      (Evaluation.evaluateAll y es done t) := by
  induction es generalizing w s t done with
  | nil =>
    refine sim.pure hs fun v hv => ?_
    exact hdone v (List.mem_reverse.mp hv)
  | cons e es ih =>
    obtain ⟨he, hes⟩ := List.forall_mem_cons.mp hes
    refine sim.bind (h e p w site s t he hs) fun v w' s t hw hs hv => ?_
    have hdone' := sim.values_grow hw hdone
    exact ih hes (List.forall_mem_cons.mpr ⟨hv, hdone'⟩) hs

/-- What is repeated leaves the context as it is. -/
theorem loop {x : EStateM Halt σ Bool} {y : EStateM Halt τ Bool} {x' : EStateM Halt σ Completion}
    {y' : EStateM Halt τ Completion}
    (hx : ∀ w s t, r.States p w ctx s t → r.Sim p w ctx (fun _ _ => True) (x s) (y t))
    (hx' : ∀ w s t, r.States p w ctx s t → r.Sim p w ctx (r.CompletionOk ctx) (x' s) (y' t))
    (limit : Nat) (hs : r.States p w ctx s t) :
    r.Sim p w ctx (r.CompletionOk ctx) (Evaluation.loop x x' limit s) (Evaluation.loop y y' limit t) := by
  induction limit generalizing w s t with
  | zero => exact sim.throw hs (sim.halt_outOfFuel w)
  | succ limit ih =>
    refine sim.bind (hx w s t hs) fun holds w' s t _ hs _ => ?_
    cases holds with
    | false => exact sim.pure hs trivial
    | true =>
      refine sim.bind (hx' w' s t hs) fun completion w'' s t _ hs hcompletion => ?_
      cases completion with
      | normal => exact ih hs
      | returned value => exact sim.pure hs hcompletion

omit sim in
/-- What is done with the stores as they are now. -/
theorem withStore {x : Store → EStateM Halt σ α} {y : Store → EStateM Halt τ α}
    (h : r.Sim p w after post (x (a.store s) s) (y (b.store t) t)) :
    r.Sim p w after post ((a.getStore >>= x) s) ((b.getStore >>= y) t) := h

omit sim in
theorem object_some_bind {α β σ : Type} (a : α) (k : α → EStateM Halt σ β) :
    object (some a) >>= k = k a := rfl

/-- What is done with a function that a value refers to. -/
theorem withFunction {f : FunctionId} {x : FunctionObject → EStateM Halt σ α}
    {y : FunctionObject → EStateM Halt τ α} (hs : r.States p w site s t)
    (hf : r.ValueOk w (.functionRef f))
    (h : ∀ o o', (a.store s).functions[f]? = some o → o.text = o'.text → r.Closures w f o o' →
      r.Sim p w after post (x o s) (y o' t)) :
    r.Sim p w after post ((a.function f >>= x) s) ((b.function f >>= y) t) := by
  have htext := (sim.alike hs).function f
  change r.Sim p w after post ((object (a.store s).functions[f]? >>= x) s)
    ((object (b.store t).functions[f]? >>= y) t)
  cases ho : (a.store s).functions[f]? with
  | none =>
    have hnone : (b.store t).functions[f]? = none := by
      rw [ho] at htext
      exact Option.map_eq_none_iff.mp htext.symm
    rw [hnone]
    exact .error (sim.function hs hf ho) (sim.grows_refl p w) (sim.ended hs)
  | some o =>
    rw [ho] at htext
    obtain ⟨o', ho', htext'⟩ := Option.map_eq_some_iff.mp htext.symm
    rw [ho']
    exact h o o' ho htext'.symm (sim.closures hs hf ho ho')

section
variable {x : Parts σ} {y : Parts τ} (parts : r.Evaluators x y)
include parts

theorem callFunction {f : FunctionId} {arguments : List Value} (hs : r.States p w site s t)
    (hf : r.ValueOk w (.functionRef f)) (harguments : ∀ v ∈ arguments, r.ValueOk w v)
    (harity : ∀ o, (a.store s).functions[f]? = some o →
      o.declaration.arity = arguments.length) :
    r.Sim p w site r.ValueOk (a.callFunction x f arguments s) (b.callFunction y f arguments t) := by
  refine sim.withFunction hs hf fun o o' ho htext hclosures => ?_
  obtain ⟨around, hwithin, hcall⟩ := sim.inCall hs hclosures htext (harity o ho) harguments
  have hdeclaration : o.declaration = o'.declaration := congrArg Prod.fst htext
  have hinitializer : o.isInitializer = o'.isInitializer := congrArg Prod.snd htext
  have hbody : r.Bodies (around.function o.declaration.parameters)
      (Evaluation.runAll x.execute o.declaration.body)
      (Evaluation.runAll y.execute o'.declaration.body) := by
    intro q v s t hs
    rw [← hdeclaration]
    obtain ⟨names, hrun⟩ := sim.runAll parts.executes hwithin.body hs
    exact ⟨_, hrun⟩
  refine sim.bind (hcall _ _ hbody) fun completion w' s t hw hs hcompletion => ?_
  rw [← hinitializer]
  cases hinit : o.isInitializer with
  | true => exact sim.receiver hs (sim.closures_grows hw hclosures) hinit
  | false =>
    cases completion with
    | normal => exact sim.pure hs (sim.value_plain _ trivial)
    | returned value => exact sim.pure hs hcompletion.1

theorem instantiate {c : ClassId} {arguments : List Value} (hs : r.States p w site s t)
    (hc : r.ValueOk w (.classRef c)) (harguments : ∀ v ∈ arguments, r.ValueOk w v)
    (harity : (a.store s).classArity c = arguments.length) :
    r.Sim p w site r.ValueOk (a.instantiate x c arguments s) (b.instantiate y c arguments t) := by
  refine sim.bind_of (sim.newInstance hs hc) fun id w' s' t hnew hw hs hid => ?_
  have hsame := (sim.alike hs).findMethod? c FunctionOf.initializerName
  rw [← sim.newInstance_keeps hnew] at harity
  apply withStore
  dsimp only
  rw [← hsame]
  cases hinit : (a.store s').findMethod? c FunctionOf.initializerName with
  | none => exact sim.pure hs hid
  | some init =>
    have harity : ((a.store s').functions[init]?.map (·.declaration.arity)).getD 0 =
        arguments.length := by
      unfold Store.classArity at harity
      rw [hinit] at harity
      exact harity
    have harguments := sim.values_grow hw harguments
    refine sim.bind_of (sim.bindTo hs (sim.method hs hinit) hid) fun f w'' s'' t hbind hw hs hf => ?_
    have harguments := sim.values_grow hw harguments
    have hid := sim.value_grows hw hid
    have hbound (o : FunctionObject) (ho : (a.store s'').functions[f]? = some o) :
        o.declaration.arity = arguments.length := by
      have hkept := sim.bindTo_keeps hbind
      rw [ho] at hkept
      rw [← hkept] at harity
      exact harity
    refine sim.bind (sim.callFunction parts hs hf harguments hbound) fun _ w''' s t hw hs _ => ?_
    exact sim.pure hs (sim.value_grows hw hid)

end

theorem checkedCall {arity line : Nat} {arguments : List Value} {x : EStateM Halt σ Value}
    {y : EStateM Halt τ Value} (hs : r.States p w site s t)
    (h : arguments.length = arity → ∀ s' t', r.States p w site s' t' → a.store s' = a.store s →
      r.Sim p w site r.ValueOk (x s') (y t')) :
    r.Sim p w site r.ValueOk (a.checkedCall arity line arguments x s)
      (b.checkedCall arity line arguments y t) := by
  unfold Operations.checkedCall
  split
  · exact sim.fail hs _ _ id
  · next harity =>
    have hdepth := sim.callDepth hs
    change r.Sim p w site r.ValueOk
      ((if maxCallDepth ≤ a.callDepth s then Operations.fail .stackOverflow line else a.asCall x) s)
      ((if maxCallDepth ≤ b.callDepth t then Operations.fail .stackOverflow line else b.asCall y) t)
    rw [← hdepth]
    split
    · exact sim.fail hs _ _ id
    · exact sim.asCall hs (h (Decidable.not_not.mp harity))

section
variable {x : Parts σ} {y : Parts τ} (parts : r.Evaluators x y)
include parts

theorem callValue {callee : Value} {line : Nat} {arguments : List Value}
    (hs : r.States p w site s t) (hcallee : r.ValueOk w callee)
    (harguments : ∀ v ∈ arguments, r.ValueOk w v) :
    r.Sim p w site r.ValueOk (a.callValue x callee line arguments s)
      (b.callValue y callee line arguments t) := by
  cases callee with
  | functionRef f =>
    refine sim.withFunction hs hcallee fun o o' ho htext _ => ?_
    have hdeclaration : o.declaration = o'.declaration := congrArg Prod.fst htext
    rw [← hdeclaration]
    refine sim.checkedCall hs fun harity s' t' hs hstore => ?_
    refine sim.callFunction parts hs hcallee harguments fun object hobject => ?_
    rw [hstore, ho] at hobject
    cases hobject
    exact harity.symm
  | classRef c =>
    apply withStore
    rw [← (sim.alike hs).classArity c]
    refine sim.checkedCall hs fun harity s' t' hs hstore => ?_
    refine sim.instantiate parts hs hcallee harguments ?_
    rw [hstore]
    exact harity.symm
  | nil | bool _ | number _ | string _ | instanceRef _ => exact sim.fail hs _ _ id

end

theorem atLine {line : Nat} {result : Except RuntimeError.Cause Value} (hs : r.States p w site s t)
    (h : ∀ v, result = .ok v → v.IsPlain)
    (hcause : ∀ cause, result = .error cause → ¬ cause.OfLookup) :
    r.Sim p w site r.ValueOk (Operations.atLine line result s) (Operations.atLine line result t) := by
  cases result with
  | ok v => exact sim.pure hs (sim.value_plain w (h v rfl))
  | error cause => exact sim.fail hs _ _ (hcause cause rfl)

theorem readProperty {id : InstanceId} {name : Name} (hs : r.States p w site s t)
    (hid : r.ValueOk w (.instanceRef id)) :
    r.Sim p w site r.ValueOk (a.readProperty id name s) (b.readProperty id name t) := by
  have halike := sim.alike hs
  apply withStore
  rw [← halike.field?]
  cases hfield : (a.store s).field? id name.text with
  | some v => exact sim.pure hs (sim.field hs hfield)
  | none =>
    apply withStore
    change r.Sim p w site r.ValueOk
      ((object ((a.store s).instances[id]?.map (·.classId)) >>= _) s)
      ((object ((b.store t).instances[id]?.map (·.classId)) >>= _) t)
    rw [← halike.instances]
    cases hinstance : (a.store s).instances[id]? with
    | none => exact .error (sim.instance_ hs hid hinstance) (sim.grows_refl p w) (sim.ended hs)
    | some o =>
      simp only [Option.map_some, object_some_bind]
      rw [← halike.findMethod?]
      cases hmethod : (a.store s).findMethod? o.classId name.text with
      | none => exact sim.fail hs _ _ fun h => h
      | some method => exact sim.map (sim.bindTo hs (sim.method hs hmethod) hid) fun _ _ h => h

section
variable {x : Parts σ} {y : Parts τ} (parts : r.Evaluators x y)
include parts

/-- The second evaluator may have a rule for calls of its own. -/
theorem evaluateFormWith {call : Value → (line : Nat) → List Value → EStateM Halt τ Value}
    (hcall : ∀ {p w site s t callee line arguments}, r.States p w site s t → r.ValueOk w callee →
      (∀ v ∈ arguments, r.ValueOk w v) →
        r.Sim p w site r.ValueOk (a.callValue x callee line arguments s)
          (call callee line arguments t)) :
    r.Evaluates (a.evaluateForm x) (b.evaluateFormWith y call) := by
  intro e p w site s t h hs
  have heval := parts.evaluates
  match e, h with
  | .literal value, _ => exact sim.pure hs (sim.value_plain w value.isPlain_value)
  | .grouping e, h => exact heval e p w site s t h hs
  | .unary op line operand, h =>
    refine sim.bind (heval operand p w site s t h hs) fun v w' s t _ hs _ => ?_
    exact sim.atLine hs (fun _ => UnaryOp.isPlain_apply) fun _ => UnaryOp.not_ofLookup
  | .binary op line left right, h =>
    obtain ⟨hleft, hright⟩ := List.forall_mem_append.mp h
    refine sim.bind (heval left p w site s t hleft hs) fun u w' s t _ hs _ => ?_
    refine sim.bind (heval right p w' site s t hright hs) fun v w'' s t _ hs _ => ?_
    exact sim.atLine hs (fun _ => BinaryOp.isPlain_apply) fun _ => BinaryOp.not_ofLookup
  | .logical op left right, h =>
    obtain ⟨hleft, hright⟩ := List.forall_mem_append.mp h
    refine sim.bind (heval left p w site s t hleft hs) fun v w' s t _ hs hv => ?_
    split
    · exact sim.pure hs hv
    · exact heval right p w' site s t hright hs
  | .variable id name, h =>
    have hadmits := h _ (List.mem_singleton_self _)
    exact sim.readVariable ⟨.variable, id, name⟩ hs hadmits (.inl rfl)
  | .assign id name value, h =>
    obtain ⟨hname, hvalue⟩ := List.forall_mem_cons.mp h
    refine sim.bind (heval value p w site s t hvalue hs) fun v w' s t _ hs hv => ?_
    refine sim.bind (sim.writeVariable id name hs hname hv) fun _ w'' s t hw hs _ => ?_
    exact sim.pure hs (sim.value_grows hw hv)
  | .call callee line arguments, h =>
    obtain ⟨hcallee, harguments⟩ := List.forall_mem_append.mp h
    have hall := Expr.within_of_listReferences harguments
    refine sim.bind (heval callee p w site s t hcallee hs) fun v w' s t _ hs hv => ?_
    refine sim.bind (sim.evaluateAll heval hall nofun hs) fun vs w'' s t hw hs hvs => ?_
    exact hcall hs (sim.value_grows hw hv) hvs
  | .get object name, h =>
    refine sim.bind (heval object p w site s t h hs) fun v w' s t _ hs hv => ?_
    cases v with
    | instanceRef id => exact sim.readProperty hs hv
    | nil | bool _ | number _ | string _ | functionRef _ | classRef _ => exact sim.fail hs _ _ id
  | .set object name value, h =>
    obtain ⟨hobject, hvalue⟩ := List.forall_mem_append.mp h
    refine sim.bind (heval object p w site s t hobject hs) fun v w' s t _ hs hid => ?_
    cases v with
    | instanceRef id =>
      refine sim.bind (heval value p w' site s t hvalue hs) fun v w'' s t hw hs hv => ?_
      have hset := sim.setField name.text hs (sim.value_grows hw hid) hv
      refine sim.bind hset fun _ w''' s t hw hs _ => ?_
      exact sim.pure hs (sim.value_grows hw hv)
    | nil | bool _ | number _ | string _ | functionRef _ | classRef _ => exact sim.fail hs _ _ id
  | .this id line, h =>
    have hadmits := h _ (List.mem_singleton_self _)
    exact sim.readVariable ⟨.this, id, ⟨"this", line⟩⟩ hs hadmits (.inr rfl)
  | .super id line method, h =>
    exact sim.superMethod id line method hs (h _ (List.mem_singleton_self _))

theorem evaluateForm : r.Evaluates (a.evaluateForm x) (b.evaluateForm y) := by
  intro e p w site s t h hs
  rw [← b.evaluateFormWith_callValue]
  exact sim.evaluateFormWith parts (sim.callValue parts) e p w site s t h hs

theorem evaluate? {e : Option Expr} (h : ∀ o ∈ Expr.occurrences? site e, r.Admits o)
    (hs : r.States p w site s t) :
    r.Sim p w site r.ValueOk (Operations.evaluate? x e s) (Operations.evaluate? y e t) := by
  cases e with
  | none => exact sim.pure hs (sim.value_plain w trivial)
  | some e => exact parts.evaluates e p w site s t (Expr.within_of_occurrences h) hs

theorem superclassValue? {superclass : Option Superclass}
    (h : ∀ o ∈ Superclass.occurrences? site superclass, r.Admits o) (hs : r.States p w site s t) :
    r.Sim p w site (fun w c => kindOf c = kindOf superclass ∧ ∀ d ∈ c, r.ValueOk w (.classRef d))
      (Operations.superclassValue? x superclass s) (Operations.superclassValue? y superclass t) := by
  cases superclass with
  | none => exact sim.pure hs ⟨rfl, nofun⟩
  | some superclass =>
    have hwithin : superclass.toExpr.Within r.Admits site := Expr.within_of_occurrences h
    have hclass : r.Sim p w site (fun w c => r.ValueOk w (.classRef c))
        (Operations.superclassValue x superclass s) (Operations.superclassValue y superclass t) := by
      refine sim.bind (parts.evaluates _ p w site s t hwithin hs) fun v w' s t _ hs hv => ?_
      cases v with
      | classRef c => exact sim.pure hs hv
      | nil | bool _ | number _ | string _ | functionRef _ | instanceRef _ =>
        exact sim.fail hs _ _ id
    refine sim.map hclass fun w c hc => ⟨rfl, ?_⟩
    rintro _ ⟨⟩
    exact hc

omit sim in
/-- A branch or the body of a loop, which adds no name. -/
theorem branch {stmt : Stmt} (hstmt : stmt.declaredName? = none ∧ stmt.WellFormed)
    (hoccurrences : ∀ o ∈ stmt.occurrences ctx, r.Admits o) (hs : r.States p w ctx s t) :
    r.Sim p w ctx (r.CompletionOk ctx) (x.execute stmt s) (y.execute stmt t) := by
  have h := parts.executes stmt p w ctx s t ⟨hstmt.2, hoccurrences⟩ hs
  rw [stmt.declaredNames_eq_nil hstmt.2 hstmt.1] at h
  exact h

theorem executeForm : r.Executes (a.executeForm x) (b.executeForm y) := by
  intro stmt p w ctx s t h hs
  have heval := parts.evaluates
  have hexec := parts.executes
  have hoccurrences := h.occurrences
  cases stmt with
  | expression e =>
    have he := Expr.within_of_occurrences hoccurrences
    refine sim.bind (heval e p w ctx s t he hs) fun _ w' s t _ hs _ => ?_
    exact sim.pure hs trivial
  | print e =>
    have he := Expr.within_of_occurrences hoccurrences
    refine sim.bind (heval e p w ctx s t he hs) fun v w' s t _ hs _ => ?_
    apply withStore
    rw [← (sim.alike hs).display v]
    refine sim.bind (sim.printLine _ hs) fun _ w'' s t _ hs _ => ?_
    exact sim.pure hs trivial
  | varDecl name initializer =>
    obtain ⟨hname, hvalue⟩ := List.forall_mem_cons.mp hoccurrences
    refine sim.bind (sim.declare hs hname h.wellFormed) fun _ w' s t _ hs _ => ?_
    refine sim.bind (sim.evaluate? parts hvalue hs) fun v w'' s t _ hs hv => ?_
    refine sim.bind (sim.define hs h.wellFormed hv) fun _ w''' s t _ hs _ => ?_
    exact sim.pure hs trivial
  | block body =>
    refine sim.inBlock hs fun q v s t hs => ?_
    obtain ⟨names, hrun⟩ := sim.runAll hexec ⟨h.wellFormed, hoccurrences⟩ hs
    exact ⟨_, hrun⟩
  | ifElse condition thenBranch elseBranch =>
    rw [Stmt.declaredNames_eq_nil _ h.wellFormed rfl]
    cases elseBranch with
    | none =>
      obtain ⟨hcondition, hthen⟩ := List.forall_mem_append.mp hoccurrences
      have hcondition := Expr.within_of_occurrences hcondition
      refine sim.bind (heval condition p w ctx s t hcondition hs) fun v w' s t _ hs _ => ?_
      split
      · exact branch parts h.wellFormed hthen hs
      · exact sim.pure hs trivial
    | some elseBranch =>
      obtain ⟨hwthen, hwelse⟩ := h.wellFormed
      obtain ⟨hbefore, helse⟩ := List.forall_mem_append.mp hoccurrences
      obtain ⟨hcondition, hthen⟩ := List.forall_mem_append.mp hbefore
      have hcondition := Expr.within_of_occurrences hcondition
      rw [thenBranch.declaredNames_eq_nil hwthen.2 hwthen.1] at helse
      refine sim.bind (heval condition p w ctx s t hcondition hs) fun v w' s t _ hs _ => ?_
      split
      · exact branch parts hwthen hthen hs
      · exact branch parts hwelse helse hs
  | whileLoop condition body =>
    rw [Stmt.declaredNames_eq_nil _ h.wellFormed rfl]
    obtain ⟨hcondition, hbody⟩ := List.forall_mem_append.mp hoccurrences
    have hcondition := Expr.within_of_occurrences hcondition
    rw [Operations.executeForm, Operations.executeForm, ← parts.limit]
    refine sim.loop (fun w s t hs => ?_) (fun w s t hs => ?_) x.limit hs
    · exact sim.map (heval condition p w ctx s t hcondition hs) fun _ _ _ => trivial
    · exact branch parts h.wellFormed hbody hs
  | funDecl f =>
    obtain ⟨hname, hfunction⟩ := List.forall_mem_cons.mp hoccurrences
    have hwithin : Stmt.FunctionWithin r.Admits _ f := ⟨h.wellFormed.2, hfunction⟩
    refine sim.bind (sim.declare hs hname h.wellFormed.1) fun _ w' s t _ hs _ => ?_
    rw [← bind_assoc, ← bind_assoc]
    refine sim.bind (sim.defineFunction hs h.wellFormed.1 hwithin) fun _ w'' s t _ hs _ => ?_
    exact sim.pure hs trivial
  | returnWith line value =>
    obtain ⟨hexit, hvalue⟩ := List.forall_mem_cons.mp hoccurrences
    refine sim.bind (sim.evaluate? parts hvalue hs) fun v w' s t _ hs hv => ?_
    exact sim.pure hs ⟨hv, _, line, value.isSome, rfl, hexit⟩
  | classDecl name superclass methods =>
    obtain ⟨hname, hrest⟩ := List.forall_mem_cons.mp hoccurrences
    obtain ⟨hsuperclass, hmethods⟩ := List.forall_mem_append.mp hrest
    have hwithin := Stmt.methodsWithin h.wellFormed.2 hmethods
    refine sim.bind (sim.declare hs hname h.wellFormed.1) fun _ w' s t _ hs _ => ?_
    have hs := sim.superclass hs
    refine sim.bind (sim.superclassValue? parts hsuperclass hs) fun c w'' s t _ hs hc => ?_
    rw [← hc.1] at hwithin
    refine sim.bind (sim.newClass hs h.wellFormed.1 hc.2 hwithin) fun _ w''' s t _ hs _ => ?_
    exact sim.pure hs trivial

end

theorem evaluators (fuel : Nat) :
    r.Evaluators ⟨fuel, a.evaluate fuel, a.execute fuel⟩
      ⟨fuel, b.evaluate fuel, b.execute fuel⟩ := by
  induction fuel with
  | zero =>
    constructor
    · rfl
    · intro e p w site s t _ hs
      change r.Sim p w site _ (a.evaluate 0 e s) (b.evaluate 0 e t)
      rw [Operations.evaluate, Operations.evaluate]
      exact sim.throw hs (sim.halt_outOfFuel w)
    · intro stmt p w ctx s t _ hs
      change r.Sim p w _ _ (a.execute 0 stmt s) (b.execute 0 stmt t)
      rw [Operations.execute, Operations.execute]
      exact sim.throw hs (sim.halt_outOfFuel w)
  | succ fuel ih =>
    constructor
    · rfl
    · intro e p w site s t h hs
      change r.Sim p w site _ (a.evaluate (fuel + 1) e s) (b.evaluate (fuel + 1) e t)
      rw [Operations.evaluate, Operations.evaluate]
      exact sim.evaluateForm ih e p w site s t h hs
    · intro stmt p w ctx s t h hs
      change r.Sim p w _ _ (a.execute (fuel + 1) stmt s) (b.execute (fuel + 1) stmt t)
      rw [Operations.execute, Operations.execute]
      exact sim.executeForm ih stmt p w ctx s t h hs

/-- With the same fuel a program ends alike in both evaluators. -/
theorem interpret (fuel : Nat) {program : List Stmt}
    (h : Stmt.BodyWithin r.Admits ctx program) (hs : r.States p w ctx s t) :
    ∃ names, r.Sim p w (ctx.declareAll names) (fun _ _ => True) (a.interpret fuel program s)
      (b.interpret fuel program t) := by
  obtain ⟨names, hrun⟩ := sim.runAll (sim.evaluators fuel).executes h hs
  refine ⟨names, sim.bind hrun fun _ w' s t _ hs _ => ?_⟩
  exact sim.pure hs trivial

end Simulates

end Lox.Evaluation
