import Lox.Proofs.Record.Sessions

/-!
# Instances and their initializers

Whatever was run before, and whether a program was resolved or not: a call of a class that ends
without an error has made a new instance of the class and has run the closest initializer on it once.
The value of a bound initializer is the instance that it was bound to, whatever its body does. This
rests on what is sound before a call: methods are declared under the names that classes have them
under, and an initializer that can be called closes over a scope in which `this` is an instance,
which nothing changes.
-/
namespace Lox
open Evaluation Resolution

namespace Evaluation

/-- There is no such instance, and nothing that the store holds refers to it. -/
structure Absent (store : Store) (i : InstanceId) : Prop where
  object : store.instances[i]? = none
  scopes : ∀ scope name, store.findLocal? scope name ≠ some (.instanceRef i)
  fields : ∀ j name, store.field? j name ≠ some (.instanceRef i)

/-- The closest method of the class that is declared under the name of initializers. -/
structure InitializerOf (store : Store) (c : ClassId) (method : FunctionObject) : Prop where
  nearest : ∃ f, Nearest store FunctionOf.initializerName c f ∧ store.functions[f]? = some method
  name : method.declaration.name.text = FunctionOf.initializerName
  isInitializer : method.isInitializer = true

namespace Call

/-- A new instance of the class was made for the call. -/
structure Makes (call : Call) (c : ClassId) (i : InstanceId) : Prop where
  absent : Absent call.before.store i
  arguments : .instanceRef i ∉ call.arguments
  instance_ : call.after.store.instances[i]?.map (·.classId) = some c

/-- The only body that was run is that of the initializer of the class, bound to the instance and
with the arguments of the call. -/
structure Initializes (call : Call) (c : ClassId) (i : InstanceId) (body : Body) : Prop where
  bodies : call.bodies = [body]
  method : ∃ method, InitializerOf call.before.store c method ∧
    body.object = { method with closure := body.object.closure }
  arguments : body.arguments = call.arguments
  this : body.before.findLocal? body.object.closure "this" = some (.instanceRef i)

/-- How a call of a class comes out. -/
inductive Constructs (call : Call) (c : ClassId) : Prop where
  | refused {cause : RuntimeError.Cause} :
    Refusal call.callee call.arguments call.before.store cause → call.bodies = [] →
    call.result = .error (.failure ⟨cause, call.line⟩) → Constructs call c
  /-- The class has no initializer. -/
  | made {i : InstanceId} : call.Makes c i →
    (∀ f, ¬ Nearest call.before.store FunctionOf.initializerName c f) → call.bodies = [] →
    call.result = .ok (.instanceRef i) → Constructs call c
  | initialized {i : InstanceId} {body : Body} {completion : Completion} : call.Makes c i →
    call.Initializes c i body → body.ending = .ok completion → call.result = .ok (.instanceRef i) →
    Constructs call c
  | failed {i : InstanceId} {body : Body} {halt : Halt} : call.Makes c i →
    call.Initializes c i body → body.ending = .error halt → call.result = .error halt →
    Constructs call c

/-- How a call of a function comes out whose value is the instance, whatever its body does. -/
inductive Yields (call : Call) (object : FunctionObject) (i : InstanceId) : Prop where
  | refused {cause : RuntimeError.Cause} :
    Refusal call.callee call.arguments call.before.store cause → call.bodies = [] →
    call.result = .error (.failure ⟨cause, call.line⟩) → Yields call object i
  | yielded {body : Body} {completion : Completion} : call.bodies = [body] →
    body.Runs object call.arguments call.before.store → body.ending = .ok completion →
    call.result = .ok (.instanceRef i) → Yields call object i
  | failed {body : Body} {halt : Halt} : call.bodies = [body] →
    body.Runs object call.arguments call.before.store → body.ending = .error halt →
    call.result = .error halt → Yields call object i

end Call

section
variable {setting : Setting} {w : Objects} {c : ClassId} {f : FunctionId} {i : InstanceId}

/-- What does not exist is not referred to. -/
theorem absent_of_sound (h : w.Sound setting) (hi : w.store.instances.size ≤ i) :
    Absent w.store i where
  object := Array.getElem?_eq_none hi
  scopes _ _ hbound := Nat.not_lt_of_le hi (h.holds.values hbound)
  fields _ _ hfield := Nat.not_lt_of_le hi (h.holds.fields hfield)

theorem exists_own_of_nearest {store : Store} {name : String} (h : Nearest store name c f) :
    ∃ d, store.ownMethod? d name = some f := by
  induction h with
  | own hown => exact ⟨_, hown⟩
  | inherited _ _ _ ih => exact ih

/-- What a class has under the name of initializers is one. -/
theorem isInitializer_of_named {store : Store} {method : FunctionObject}
    (h : Objects.Named store FunctionOf.initializerName f)
    (hmethod : store.functions[f]? = some method) :
    method.declaration.name.text = FunctionOf.initializerName ∧ method.isInitializer = true := by
  obtain ⟨object, hobject, hname, hflag⟩ := h
  cases hobject.symm.trans hmethod
  refine ⟨hname, ?_⟩
  rw [hflag]
  exact decide_eq_true hname

theorem initializerOf_of_findMethod? (h : w.Sound setting)
    (hf : w.store.findMethod? c FunctionOf.initializerName = some f) :
    ∃ method, w.store.functions[f]? = some method ∧ InitializerOf w.store c method := by
  have hnearest := Objects.nearest_of_findMethod? hf
  obtain ⟨d, hown⟩ := exists_own_of_nearest hnearest
  have hnamed := h.named hown
  obtain ⟨method, hmethod, -⟩ := id hnamed
  obtain ⟨hname, hflag⟩ := isInitializer_of_named hnamed hmethod
  exact ⟨method, hmethod, ⟨f, hnearest, hmethod⟩, hname, hflag⟩

end

/-- A bound initializer runs in the instance that it was bound to. -/
theorem Call.initializes_of_runs {call : Call} {c : ClassId} {i : InstanceId} {body : Body}
    {method : FunctionObject} {store : Store} (hbodies : call.bodies = [body])
    (hmethod : InitializerOf call.before.store c method)
    (hruns : body.Runs { method with closure := store.scopes.size } call.arguments
      (store.bindMethod method i).1) : call.Initializes c i body := by
  refine ⟨hbodies, ⟨method, hmethod, ?_⟩, hruns.arguments, ?_⟩
  · rw [hruns.object]
  · rw [hruns.before, hruns.object]
    exact store.findLocal?_bindMethod method i

section
variable {call : Call} (hproper : call.Proper) (hsound : call.Sound)
include hproper hsound

/-- The new instance is the one that comes next. -/
theorem Call.Proper.constructs {c : ClassId} (hcallee : call.callee = .classRef c) :
    call.Constructs c := by
  obtain ⟨setting, homes, hobjects, -, harguments⟩ := hsound.objects
  let i := call.before.store.instances.size
  let made := (call.before.store.newInstance c).1
  have habsent : Absent call.before.store i := absent_of_sound hobjects (Nat.le_refl _)
  have hnew : .instanceRef i ∉ call.arguments := fun hmem => Nat.lt_irrefl i (harguments _ hmem)
  have hmade : made.instances[i]?.map (·.classId) = some c :=
    congrArg (Option.map _) Array.getElem?_push_size
  cases hproper.outcome with
  | refused hrefusal hbodies hresult => exact .refused hrefusal hbodies hresult
  | missingFunction hf | invoked hf => cases hcallee.symm.trans hf
  | missingInitializer hc hinit hmissing =>
    cases hcallee.symm.trans hc
    obtain ⟨method, hmethod, -⟩ := initializerOf_of_findMethod? hobjects hinit
    cases hmethod.symm.trans hmissing
  | made hc hnone hbodies hresult hafter =>
    cases hcallee.symm.trans hc
    refine .made ⟨habsent, hnew, ?_⟩ (fun f hnearest => ?_) hbodies hresult
    · rw [hafter]
      exact hmade
    · cases hnone.symm.trans (hobjects.findMethod?_of_nearest hnearest)
  | @initialized _ _ _ body hc hinit hobject hbodies hruns hresult hafter =>
    cases hcallee.symm.trans hc
    obtain ⟨method, hmethod, hinitializer⟩ := initializerOf_of_findMethod? hobjects hinit
    cases hobject.symm.trans hmethod
    have hbody : Preserves body.before body.after :=
      hsound.bodies body (hbodies ▸ List.mem_singleton_self body)
    rw [hruns.before, ← hafter] at hbody
    have hmakes : call.Makes c i :=
      ⟨habsent, hnew, hbody.store.instances ((Store.Extends.bindMethod made _ i).instances hmade)⟩
    have hinitializes : call.Initializes c i body :=
      @Call.initializes_of_runs _ _ _ _ _ made hbodies hinitializer hruns
    cases hending : body.ending with
    | ok completion =>
      rw [hending] at hresult
      exact .initialized hmakes hinitializes hending hresult
    | error halt =>
      rw [hending] at hresult
      exact .failed hmakes hinitializes hending hresult

/-- What `this` is bound to when the body is started, it is still bound to in the end. -/
theorem Call.Proper.yields {f : FunctionId} {object : FunctionObject} {i : InstanceId}
    (hcallee : call.callee = .functionRef f)
    (hobject : call.before.store.functions[f]? = some object)
    (hinitializer : object.isInitializer = true)
    (hthis : call.before.store.findLocal? object.closure "this" = some (.instanceRef i)) :
    call.Yields object i := by
  obtain ⟨cause, hrefusal, hbodies, hresult⟩ | ⟨body, hbodies, hruns, hresult⟩ :=
    hproper.of_function hcallee hobject
  · exact .refused hrefusal hbodies hresult
  have hbody : Preserves body.before body.after :=
    hsound.bodies body (hbodies ▸ List.mem_singleton_self body)
  rw [hruns.before] at hbody
  have hlater : body.after.findLocal? body.object.closure "this" = some (.instanceRef i) := by
    rw [hruns.object]
    exact hbody.special (.inl rfl) hthis
  cases hending : body.ending with
  | ok completion =>
    have hflag : body.object.isInitializer = true := by rw [hruns.object, hinitializer]
    rw [Body.result_of_initializer hending hflag, hlater] at hresult
    exact .yielded hbodies hruns hending hresult
  | error halt =>
    rw [Body.result_of_error hending] at hresult
    exact .failed hbodies hruns hending hresult

end

/-- The step has bound to the instance a method that a class has under the name of initializers; the
bound method has the number. -/
def Step.BindsInitializer (step : Step) (f : FunctionId) (i : InstanceId) : Prop :=
  ∃ c g method, step.before.store.ownMethod? c FunctionOf.initializerName = some g ∧
    step.before.store.functions[g]? = some method ∧ f = step.before.store.functions.size ∧
      step.after.store = (step.before.store.bindMethod method i).1

namespace Recorded
variable {setting : Setting} {start : Store} {p : Observed.Place} {w : Objects} {m : Machine}
variable {t : Recorded}

/-- An initializer that was bound in a step is so ever after. -/
theorem Records.bound_initializer (h : Records setting start p w m t) {step : Step}
    (hstep : step ∈ t.steps) {f : FunctionId} {i : InstanceId} (hbinds : step.BindsInitializer f i) :
    ∃ object, m.store.functions[f]? = some object ∧ object.isInitializer = true ∧
      m.store.findLocal? object.closure "this" = some (.instanceRef i) := by
  obtain ⟨c, g, method, hown, hmethod, rfl, hafter⟩ := hbinds
  obtain ⟨hbefore, hlater⟩ := h.chained.preserves_of_mem hstep
  have hextends := (hbefore.trans hlater).store
  have hlast := hextends.ownMethod? hown
  have hmethod := hextends.functions hmethod
  rw [← h.stands.store] at hlast hmethod
  obtain ⟨-, hflag⟩ := isInitializer_of_named (h.stands.sound.named hlast) hmethod
  rw [hafter] at hlater
  exact ⟨_, hlater.store.functions (Store.getElem?_bindMethod ..), hflag,
    hlater.special (.inl rfl) (Store.findLocal?_bindMethod ..)⟩

end Recorded
end Evaluation

namespace Session

/-- After any uses of sources, and whether a program was resolved before or not, a call of a class in
it comes out as it must: with a new instance of the class, on which the closest initializer was run
once, or with the error of the initializer. A call of an initializer has the instance as its value
that the initializer is bound to, which is the one that it was bound to in whatever step. -/
theorem instances_yielded (fuel : Nat) (uses : List Use) {program : List Stmt} {hi : NodeId}
    (hprogram : Parser.FitsBody ((initial fuel).after uses).next hi program) (resolving : Bool)
    (limit : Nat) :
    let machine := ((initial fuel).after uses).starting resolving program
    let ended := Evaluation.interpret limit program machine
    let recorded := Recorded.interpret limit program { machine }
    (resultOf recorded = resultOf ended ∧ (stateOf recorded).machine = stateOf ended) ∧
      ∀ call ∈ (stateOf recorded).calls,
        (∀ c, call.callee = .classRef c → call.Constructs c) ∧
        ∀ f, call.callee = .functionRef f →
          ∃ object, call.before.store.functions[f]? = some object ∧
            (object.isInitializer = true → ∃ i,
              call.before.store.findLocal? object.closure "this" = some (.instanceRef i) ∧
                call.Yields object i) ∧
            ∀ step ∈ (stateOf recorded).steps, ∀ i, step.BindsInitializer f i →
              call.Yields object i := by
  intro machine ended recorded
  obtain ⟨setting, w, -, hstands, hwithin⟩ := starts_after fuel uses hprogram resolving
  obtain ⟨w', hrecords⟩ := Recorded.records_interpret hstands hwithin limit
  obtain ⟨hresult, hmachine, hproper⟩ := Recorded.proper_interpret limit program machine
  refine ⟨⟨hresult, hmachine⟩, fun call hcall => ?_⟩
  obtain ⟨hsound, hpast⟩ := hrecords.calls call hcall
  have hout := hproper call hcall
  refine ⟨fun c hc => hout.constructs hsound hc, fun f hf => ?_⟩
  obtain ⟨_, homes, -, hcallee, -⟩ := hsound.objects
  rw [hf] at hcallee
  obtain ⟨object, home, ctx, hcloses⟩ := hcallee
  have hobject : call.before.store.functions[f]? = some object := hcloses.function
  refine ⟨object, hobject, fun hflag => ?_, fun step hstep i hbinds => ?_⟩
  · obtain ⟨i, hthis⟩ := hcloses.initializer hflag
    exact ⟨i, hthis, hout.yields hsound hf hobject hflag hthis⟩
  · obtain ⟨bound, hbound, hflag, hthis⟩ := hrecords.bound_initializer hstep hbinds
    cases hbound.symm.trans (hpast.store.functions hobject)
    obtain ⟨j, hj⟩ := hcloses.initializer hflag
    cases hthis.symm.trans (hpast.special (.inl rfl) hj)
    exact hout.yields hsound hf hobject hflag hj

/-- A class whose initializer returns early. -/
def baseSource : String := "class A \x7b init(x) \x7b this.x = x; return; \x7d \x7d"

/-- An initializer that calls the one it overrides; it is called for a new instance, and once more when
it was stored. -/
def derivedSource : String :=
  "class B < A \x7b init(x) \x7b super.init(x); \x7d \x7d" ++
  "var b = B(nil); var stored = b.init; print stored(true) == b;"

/-- The stored initializer has the instance as its value. -/
theorem instances_yielded_stored :
    let session := (initial 20).after [.run baseSource]
    let program := (session.read derivedSource).1.program.statements
    let machine := session.starting true program
    let recorded := Recorded.interpret 20 program { machine }
    let calls := (stateOf recorded).calls
    (resultOf recorded = .ok () ∧ (stateOf recorded).machine.output = "true\n" ∧
      calls.map (fun call => call.bodies.map (·.object.isInitializer)) =
        [[true], [true], [true], [true]]) ∧
      ∀ call ∈ calls, ∀ c, call.callee = .classRef c → call.Constructs c := by
  have hyielded := instances_yielded 20 [.run baseSource]
    (((initial 20).after [.run baseSource]).fits_read derivedSource).2 true 20
  exact ⟨by decide +kernel, fun call hcall => (hyielded.2 call hcall).1⟩

end Session
end Lox
