import Lox.Proofs.Parser.Preservation

/-!
# What came before does not matter

A step looks at the tokens that are left, and nothing that was read or recorded before has an
influence on it. The token read last is the exception, which is looked at after an error at the end
of the input, but then it is enough that there is one. So from two states with the same tokens left a
step does the same, and it adds the same errors to those that each of the states has.
-/
namespace Lox.Parser
variable {α β : Type}

/-- The same is to be read, and the next reference gets the same number. -/
structure Beside (s t : State) : Prop where
  rest : t.rest = s.rest
  next : t.next = s.next
  ready : Ready s
  ready' : Ready t

/-- The same errors are added on the way from `s` to `s'` and from `t` to `t'`. -/
def SameErrors (s t s' t' : State) : Prop :=
  ∃ added, s'.errors.toList = s.errors.toList ++ added ∧ t'.errors.toList = t.errors.toList ++ added

/-- Two endings of a step: both have the same result or the same error, and neither is a fault. -/
inductive Alike (s t : State) :
    EStateM.Result Stop State α → EStateM.Result Stop State α → Prop
  | ok {a : α} {s' t' : State} : Beside s' t' → SameErrors s t s' t' → Alike s t (.ok a s') (.ok a t')
  | error {error : SyntaxError} {s' t' : State} : Beside s' t' → SameErrors s t s' t' →
      Alike s t (.error (.error error) s') (.error (.error error) t')

/-- The step does the same whatever came before. -/
def Local (step : Parse α) : Prop := ∀ s t, Beside s t → Alike s t (step s) (step t)

theorem SameErrors.refl (s t : State) : SameErrors s t s t := ⟨[], by simp⟩

theorem SameErrors.trans {s t s' t' s'' t'' : State} (h : SameErrors s t s' t')
    (h' : SameErrors s' t' s'' t'') : SameErrors s t s'' t'' := by
  obtain ⟨added, hs, ht⟩ := h
  obtain ⟨added', hs', ht'⟩ := h'
  exact ⟨added ++ added', by rw [hs', hs, List.append_assoc], by rw [ht', ht, List.append_assoc]⟩

theorem Alike.trans {s t s' t' : State} (h : SameErrors s t s' t')
    {x y : EStateM.Result Stop State α} (hxy : Alike s' t' x y) : Alike s t x y := by
  cases hxy with
  | ok hbeside herrors => exact .ok hbeside (h.trans herrors)
  | error hbeside herrors => exact .error hbeside (h.trans herrors)

/-- A step that records nothing and ends beside itself. -/
theorem Alike.ok_same {s t s' t' : State} {a : α} (h : Beside s' t') (hs : s'.errors = s.errors)
    (ht : t'.errors = t.errors) : Alike s t (.ok a s') (.ok a t') :=
  .ok h ⟨[], by rw [hs, List.append_nil], by rw [ht, List.append_nil]⟩

namespace Local

theorem pure (a : α) : Local (pure a : Parse α) := fun s t h => .ok h (.refl s t)

theorem bind {x : Parse α} {f : α → Parse β} (hx : Local x) (hf : ∀ a, Local (f a)) :
    Local (x >>= f) := by
  intro s t h
  have hxy := hx s t h
  simp only [Bind.bind, EStateM.bind]
  generalize x s = before, x t = after at hxy
  cases hxy with
  | ok hbeside herrors => exact (hf _ _ _ hbeside).trans herrors
  | error hbeside herrors => exact .error hbeside herrors

theorem peek : Local peek := by
  intro s t h
  unfold Parser.peek
  rw [h.rest]
  cases hrest : s.rest with
  | nil => exact absurd hrest h.ready.ends.ne_nil
  | cons token rest => exact .ok h (.refl s t)

theorem accept? {f : Token → Option α} (hf : Skips f) : Local (accept? f) := by
  intro s t h
  unfold Parser.accept?
  rw [h.rest]
  cases hrest : s.rest with
  | nil => exact absurd hrest h.ready.ends.ne_nil
  | cons token rest =>
    cases ha : f token with
    | none =>
      simp only [ha]
      exact .ok h (.refl s t)
    | some a =>
      have hready := (follows_read hrest (hf token a ha)).ready h.ready
      have hready' := (follows_read (h.rest.trans hrest) (hf token a ha)).ready h.ready'
      simp only [ha]
      exact .ok_same ⟨rfl, h.next, hready, hready'⟩ rfl rfl

theorem fail (cause : SyntaxError.Cause) : Local (fail cause : Parse α) :=
  peek.bind fun _ s t h => .error h (.refl s t)

theorem freshId : Local freshId := by
  intro s t h
  have hs : Parser.freshId s = .ok s.next { s with next := s.next + 1 } := rfl
  have ht : Parser.freshId t = .ok s.next { t with next := s.next + 1 } := by
    rw [← h.next]
    rfl
  rw [hs, ht]
  exact .ok_same ⟨h.rest, rfl, ⟨h.ready.ends, h.ready.behind⟩, ⟨h.ready'.ends, h.ready'.behind⟩⟩ rfl rfl

theorem record (error : SyntaxError) : Local (record error) := by
  intro s t h
  refine .ok ⟨h.rest, h.next, ⟨h.ready.ends, h.ready.behind⟩, ⟨h.ready'.ends, h.ready'.behind⟩⟩ ?_
  exact ⟨[error], Array.toList_push, Array.toList_push⟩

theorem assignTo (target : Expr) (equals : Token) (value : Expr) :
    Local (assignTo target equals value) := by
  unfold Parser.assignTo
  split
  · exact freshId.bind fun _ => .pure _
  · exact .pure _
  · exact (record _).bind fun _ => .pure _

/-- At the end of the input a token stands before; otherwise that one is not looked at. -/
theorem synchronize : Local synchronize := by
  intro s t h
  unfold Parser.synchronize
  rw [h.rest]
  cases hrest : s.rest with
  | nil => exact absurd hrest h.ready.ends.ne_nil
  | cons token rest =>
    cases hend : token.kind.isEnd with
    | true =>
      have hbehind {u : State} (hu : u.rest = token :: rest) (hready : Ready u) :
          ∃ previous, u.previous? = some previous := by
        obtain hsome | ⟨first, tail, hfirst, hnot⟩ := hready.behind
        · exact Option.isSome_iff_exists.mp hsome
        · rw [hu, List.cons.injEq] at hfirst
          rw [← hfirst.1, hend] at hnot
          exact absurd hnot (by decide)
      obtain ⟨p, hp⟩ := hbehind hrest h.ready
      obtain ⟨q, hq⟩ := hbehind (h.rest.trans hrest) h.ready'
      simp only [hend, ↓reduceIte, hp, hq]
      exact .ok h (.refl s t)
    | false =>
      have hends := h.ready.ends
      rw [hrest] at hends
      obtain ⟨⟨last, tail⟩, hresume⟩ :=
        Option.isSome_iff_exists.mp (@resume_isSome token rest (hends.tail hend))
      have htail := (resume_eq hresume).2 (hends.tail hend)
      have hready {errors : Array SyntaxError} {next : NodeId} : Ready ⟨tail, some last, errors, next⟩ :=
        ⟨htail, .inl rfl⟩
      simp only [hend, Bool.false_eq_true, ↓reduceIte, hresume]
      exact .ok_same ⟨rfl, h.next, hready, hready⟩ rfl rfl

theorem recovering {step : Parse α} (h : Local step) : Local (recovering step) := by
  intro s t hbeside
  have hxy := h s t hbeside
  unfold Parser.recovering
  generalize step s = before, step t = after at hxy
  cases hxy with
  | ok hbeside herrors => exact .ok hbeside herrors
  | @error error s' t' hbeside herrors =>
    have hgo : Local (do Parser.record error; Parser.synchronize; return none : Parse (Option α)) :=
      (record error).bind fun _ => synchronize.bind fun _ => pure none
    exact (hgo s' t' hbeside).trans herrors

end Local

theorem preserved_local : Preserved Local where
  pure := .pure
  bind := .bind
  peek := .peek
  accept? := .accept?
  fail _ := .fail _
  freshId := .freshId
  recordNext _ := Local.peek.bind fun _ => .record _
  assignmentRest depth target h := by
    refine (Local.accept? (skips_only _)).bind fun equals => ?_
    cases equals with
    | some equals => exact h.bind fun value => .assignTo target equals value
    | none => exact .pure _
  recovering := .recovering

/-- All declarations that are left are parsed as if nothing had been read before. -/
theorem declarations_alone {s : State} (hends : EndsInput s.rest) (depth limit : Nat) :
    ∃ statements t u, declarations depth (limit + 1) s = .ok statements t ∧
      declarations depth (limit + 1) { rest := s.rest, next := s.next } = .ok statements u ∧
      t.errors.toList = s.errors.toList ++ u.errors.toList := by
  obtain ⟨token, rest, hrest⟩ := List.exists_cons_of_ne_nil hends.ne_nil
  cases hend : token.kind.isEnd with
  | true =>
    have hrest' : State.rest { rest := s.rest, next := s.next } = token :: rest := hrest
    exact ⟨[], s, _, declarations_of_isEnd hrest hend depth limit,
      declarations_of_isEnd hrest' hend depth limit, (List.append_nil _).symm⟩
  | false =>
    have hmore : ∃ token rest, s.rest = token :: rest ∧ token.kind.isEnd = false :=
      ⟨token, rest, hrest, hend⟩
    have hbeside : Beside s { rest := s.rest, next := s.next } :=
      ⟨rfl, rfl, ⟨hends, .inr hmore⟩, ⟨hends, .inr hmore⟩⟩
    have halike := preserved_local.declarations depth (limit + 1) _ _ hbeside
    obtain ⟨statements, u, hrun, -⟩ := exists_declarations hends s.next depth limit
    rw [hrun] at halike
    generalize hs : declarations depth (limit + 1) s = result at halike
    cases halike with
    | @ok _ t _ _ herrors =>
      obtain ⟨added, ht, hu⟩ := herrors
      exact ⟨statements, t, u, rfl, hrun, by rw [ht, hu]; rfl⟩

end Lox.Parser
