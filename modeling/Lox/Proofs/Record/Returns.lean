import Lox.Proofs.Record.Sessions

/-!
# Returning from calls

A `return` ends the call whose body executes it, and no other one. Outside of all functions nothing
returns, so that a program executes all its statements up to an error. The first `return` that the
body of a function executes by itself is the last thing that the body does, and it gives the call its
value, unless the function is an initializer.
-/
namespace Lox
open Evaluation Resolution

namespace Evaluation

/-- How a call of a function comes out whose value is what the body returns. -/
inductive Call.Returns (call : Call) (object : FunctionObject) : Prop where
  | refused {cause : RuntimeError.Cause} :
    Refusal call.callee call.arguments call.before.store cause → call.bodies = [] →
    call.result = .error (.failure ⟨cause, call.line⟩) → Returns call object
  /-- The body does nothing after its first `return`. -/
  | returned {body : Body} {value : Value} {earlier : List Event} : call.bodies = [body] →
    body.Runs object call.arguments call.before.store → body.events = .returns value :: earlier →
    Silent earlier → call.result = .ok value → Returns call object
  /-- The body ends without a `return`. -/
  | ended {body : Body} : call.bodies = [body] →
    body.Runs object call.arguments call.before.store → body.ending = .ok .normal →
    Silent body.events → call.result = .ok .nil → Returns call object
  | halted {body : Body} {halt : Halt} : call.bodies = [body] →
    body.Runs object call.arguments call.before.store → body.ending = .error halt →
    Silent body.events → call.result = .error halt → Returns call object

theorem Call.Proper.returns {call : Call} (h : call.Proper) {f : FunctionId}
    {object : FunctionObject} (hcallee : call.callee = .functionRef f)
    (hobject : call.before.store.functions[f]? = some object)
    (hordinary : object.isInitializer = false) : call.Returns object := by
  obtain ⟨cause, hrefusal, hbodies, hresult⟩ | ⟨body, hbodies, hruns, hresult⟩ :=
    h.of_function hcallee hobject
  · exact .refused hrefusal hbodies hresult
  have hends := hruns.ends
  have hflag : body.object.isInitializer = false := by rw [hruns.object, hordinary]
  cases hending : body.ending with
  | error halt =>
    rw [hending] at hends
    rw [Body.result_of_error hending] at hresult
    exact .halted hbodies hruns hending hends hresult
  | ok completion =>
    rw [hending] at hends
    rw [Body.result_of_ordinary hending hflag] at hresult
    cases completion with
    | normal => exact .ended hbodies hruns hending hends hresult
    | returned value =>
      obtain ⟨earlier, hevents, hsilent⟩ := hends
      exact .returned hbodies hruns hevents hsilent hresult

section
variable {fuel : Nat} {program before rest : List Stmt} {s : Stmt} {m m' : Machine}

/-- If a program does not return, then none of its statements does. -/
theorem execute_ne_returned
    (h : ∀ v, resultOf (runAll (execute fuel) program m) ≠ .ok (.returned v))
    (hprogram : program = before ++ s :: rest)
    (hbefore : runAll (execute fuel) before m = .ok .normal m') (v : Value) :
    resultOf (execute fuel s m') ≠ .ok (.returned v) := by
  intro hreturned
  refine h v ?_
  rw [hprogram, runAll_append, hbefore]
  change resultOf (EStateM.bind (execute fuel s) _ m') = _
  unfold EStateM.bind
  generalize execute fuel s m' = result at hreturned
  cases result with
  | error halt m => cases hreturned
  | ok completion m =>
    cases hreturned
    rfl

/-- A program that does not return executes its statements one after another. -/
theorem interpret_eq_forM
    (h : ∀ v, resultOf (runAll (execute fuel) program m) ≠ .ok (.returned v)) :
    interpret fuel program m = (program.forM fun s => discard (execute fuel s)) m := by
  change EStateM.bind (runAll (execute fuel) program) _ m = _
  induction program generalizing m with
  | nil => rfl
  | cons first rest ih =>
    change EStateM.bind (EStateM.bind (execute fuel first) _) _ m =
      EStateM.bind (EStateM.map _ (execute fuel first)) _ m
    simp only [Evaluation.runAll, bind] at h
    unfold EStateM.bind EStateM.map at *
    cases hfirst : execute fuel first m with
    | error halt m' => rfl
    | ok completion m' =>
      rw [hfirst] at h
      cases completion with
      | normal => exact ih h
      | returned v => exact (h v rfl).elim

end
end Evaluation

namespace Session

/-- What is started in a strict setting does not return. -/
theorem Starts.ne_returned {m : Machine} {program : List Stmt} (h : Starts True m program)
    (fuel : Nat) (v : Value) :
    resultOf (Evaluation.runAll (execute fuel) program m) ≠ .ok (.returned v) := by
  obtain ⟨setting, w, hstrict, hstands, hprogram⟩ := h
  have sim := Observed.simulates setting
  obtain ⟨names, hrun⟩ := sim.runAll (sim.evaluators fuel).executes hprogram
    (hstands.states hstands.fits)
  have hresult := hrun.ne_returned (fun ⟨_, _, _, hkind, hadmits⟩ =>
    Setting.not_admits_exit (hstrict.mpr trivial) hkind hadmits) v
  rw [← (sim.ends hrun).1] at hresult
  change resultOf (Evaluation.runAll (Operations.machine.execute fuel) program m) ≠ _ at hresult
  rwa [(Operations.machine_evaluate_execute fuel).2] at hresult

/-- After any sources, no statement of a clean program returns at top level, and the program executes
its statements one after another up to an error. Every function that it calls is there. If that is no
initializer, the call has the value of the first `return` that the body executes by itself, after
which the body does nothing, or else `nil`. After each call the caller is where it was. -/
theorem returns_exact (fuel : Nat) (sources : List String) {program : List Stmt} {hi : NodeId}
    (hprogram : Parser.FitsBody ((initial fuel).runAll sources).2.next hi program)
    (hclean : (((initial fuel).runAll sources).2.resolve program).1 = []) (limit : Nat) :
    let session := ((initial fuel).runAll sources).2
    let machine := (session.resolve program).2.quiet
    let ended := Evaluation.interpret limit program machine
    let recorded := Recorded.interpret limit program { machine }
    ((∀ before s rest m, program = before ++ s :: rest →
        Evaluation.runAll (execute limit) before machine = .ok .normal m →
          ∀ v, resultOf (execute limit s m) ≠ .ok (.returned v)) ∧
      ended = (program.forM fun s => discard (execute limit s)) machine) ∧
    (resultOf recorded = resultOf ended ∧ (stateOf recorded).machine = stateOf ended) ∧
      ∀ call ∈ (stateOf recorded).calls, call.before.SameControl call.after ∧
        ∀ f, call.callee = .functionRef f →
          ∃ object, call.before.store.functions[f]? = some object ∧
            (object.isInitializer = false → call.Returns object) := by
  intro session machine ended recorded
  have hstarts := starts_of_clean fuel sources hprogram hclean
  have hreturns := hstarts.ne_returned limit
  obtain ⟨setting, w, -, hstands, hwithin⟩ := hstarts
  obtain ⟨w', hrecords⟩ := Recorded.records_interpret hstands hwithin limit
  obtain ⟨hresult, hmachine, hproper⟩ := Recorded.proper_interpret limit program machine
  refine ⟨⟨fun before s rest m hsplit hbefore => ?_, ?_⟩, ⟨hresult, hmachine⟩,
    fun call hcall => ⟨(hproper call hcall).control, fun f hf => ?_⟩⟩
  · exact execute_ne_returned hreturns hsplit hbefore
  · exact interpret_eq_forM hreturns
  · obtain ⟨_, homes, -, hcallee, -⟩ := (hrecords.calls call hcall).1.objects
    rw [hf] at hcallee
    obtain ⟨object, home, ctx, hcloses⟩ := hcallee
    have hobject : call.before.store.functions[f]? = some object := hcloses.function
    exact ⟨object, hobject, fun hordinary => (hproper call hcall).returns hf hobject hordinary⟩

/-- A function that returns out of a loop, and one that is called in its condition, in its body and
in the program. -/
def loopingSource : String :=
  "fun yes() \x7b return true; \x7d" ++
  "fun find(x) \x7b while (yes()) \x7b if (x) return yes; x = yes(); \x7d \x7d" ++
  "print find(nil)();"

/-- The condition is evaluated twice; the body of each call returns once, at its end. -/
theorem returns_exact_loop :
    let program := ((initial 20).read loopingSource).1.program.statements
    let machine := ((initial 20).resolve program).2.quiet
    let recorded := Recorded.interpret 20 program { machine }
    let calls := (stateOf recorded).calls
    (resultOf recorded = .ok () ∧ (stateOf recorded).machine.output = "true\n" ∧
      calls.map (fun call => call.bodies.map fun body => body.object.declaration.name.text) =
        [["yes"], ["find"], ["yes"], ["yes"], ["yes"]]) ∧
      ∀ call ∈ calls, ∀ f, call.callee = .functionRef f →
        ∃ object, call.before.store.functions[f]? = some object ∧
          (object.isInitializer = false → call.Returns object) := by
  have hexact := returns_exact 20 [] ((initial 20).fits_read loopingSource).2 (by decide +kernel) 20
  exact ⟨by decide +kernel, fun call hcall => (hexact.2.2 call hcall).2⟩

end Session
end Lox
