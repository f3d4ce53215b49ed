import Lox.Parser.Statement

/-!
# What every parsing step does

A step reads some tokens from the front, adds errors behind those recorded, and numbers references
upwards. If the tokens end with the end of the input, they still do so after the step, and the step
is no fault. A step that fails stops at the token of its error. A step is `Safe` if all of this
holds of it; sequences of safe steps are safe.
-/
namespace Lox.Parser

section Sequences
variable {ε σ α β : Type} {x : EStateM ε σ α} {f : α → EStateM ε σ β} {s s' : σ}

theorem bind_eq_ok {b : β} :
    (x >>= f) s = .ok b s' ↔ ∃ a t, x s = .ok a t ∧ f a t = .ok b s' := by
  simp only [bind, EStateM.bind]
  cases x s with
  | ok a t => simp only [EStateM.Result.ok.injEq]; grind
  | error stop t => simp

theorem map_eq_ok {g : α → β} {b : β} :
    (g <$> x) s = .ok b s' ↔ ∃ a, x s = .ok a s' ∧ g a = b := by
  simp only [Functor.map, EStateM.map]
  cases x s with
  | ok a t => simp only [EStateM.Result.ok.injEq]; grind
  | error stop t => simp

@[simp] theorem pure_eq_ok {a b : α} :
    (pure a : EStateM ε σ α) s = .ok b s' ↔ a = b ∧ s = s' := by
  simp only [pure, EStateM.pure, EStateM.Result.ok.injEq]

theorem bind_of_ok {a : α} {t : σ} (h : x s = .ok a t) : (x >>= f) s = f a t := by
  simp only [bind, EStateM.bind, h]

theorem map_of_ok {g : α → β} {a : α} {t : σ} (h : x s = .ok a t) :
    (g <$> x) s = .ok (g a) t := by
  simp only [Functor.map, EStateM.map, h]

end Sequences

variable {α β : Type}

/-- The end of the input stands last and nowhere else. -/
def EndsInput (tokens : List Token) : Prop :=
  ∃ front last, tokens = front ++ [last] ∧ last.kind.isEnd = true ∧
    ∀ token ∈ front, token.kind.isEnd = false

/-- The next token can be looked at, and the one before it if the next is the end of the input. -/
structure Ready (s : State) : Prop where
  ends : EndsInput s.rest
  behind : s.previous?.isSome = true ∨ ∃ token rest, s.rest = token :: rest ∧ token.kind.isEnd = false

/-- How the state after a step is related to the one before. -/
structure Follows (s s' : State) : Prop where
  suffix : ∃ used, s.rest = used ++ s'.rest
  errors : ∃ added, s'.errors.toList = s.errors.toList ++ added
  next_le : s.next ≤ s'.next
  ready : Ready s → Ready s'

theorem Follows.refl (s : State) : Follows s s :=
  ⟨⟨[], rfl⟩, ⟨[], by simp⟩, Nat.le_refl _, id⟩

theorem Follows.trans {s t u : State} (h : Follows s t) (h' : Follows t u) : Follows s u := by
  obtain ⟨used, hused⟩ := h.suffix
  obtain ⟨used', hused'⟩ := h'.suffix
  obtain ⟨added, hadded⟩ := h.errors
  obtain ⟨added', hadded'⟩ := h'.errors
  refine ⟨⟨used ++ used', ?_⟩, ⟨added ++ added', ?_⟩, ?_, h'.ready ∘ h.ready⟩
  · rw [hused, hused', List.append_assoc]
  · rw [hadded', hadded, List.append_assoc]
  · exact Nat.le_trans h.next_le h'.next_le

theorem Follows.size_le {s s' : State} (h : Follows s s') : s.errors.size ≤ s'.errors.size := by
  obtain ⟨added, hadded⟩ := h.errors
  have hlength := congrArg List.length hadded
  simp only [List.length_append, Array.length_toList] at hlength
  omega

theorem Follows.length_le {s s' : State} (h : Follows s s') : s'.rest.length ≤ s.rest.length := by
  obtain ⟨used, hused⟩ := h.suffix
  simp [hused]

/-- Tokens that are left were left before. -/
theorem Follows.mem {s s' : State} (h : Follows s s') {token : Token} (ht : token ∈ s'.rest) :
    token ∈ s.rest := by
  obtain ⟨used, hused⟩ := h.suffix
  rw [hused]
  exact List.mem_append_right _ ht

/-- What a step does whether or not it has a result. -/
def Safe (step : Parse α) : Prop :=
  ∀ s,
    match step s with
    | .ok _ s' => Follows s s'
    | .error (.error error) s' => Follows s s' ∧ s'.rest.head? = some error.token
    | .error (.fault _) _ => ¬ Ready s

theorem Safe.ok {step : Parse α} (h : Safe step) {s s' : State} {a : α} (hs : step s = .ok a s') :
    Follows s s' := by
  have hstep := h s
  rw [hs] at hstep
  exact hstep

theorem Safe.error {step : Parse α} (h : Safe step) {s s' : State} {error : SyntaxError}
    (hs : step s = .error (.error error) s') : Follows s s' := by
  have hstep := h s
  rw [hs] at hstep
  exact hstep.1

/-- The token of the error that stops a step is the next one. -/
theorem Safe.located {step : Parse α} (h : Safe step) {s s' : State} {error : SyntaxError}
    (hs : step s = .error (.error error) s') : s'.rest.head? = some error.token := by
  have hstep := h s
  rw [hs] at hstep
  exact hstep.2

theorem Safe.fault {step : Parse α} (h : Safe step) {s s' : State} {fault : Fault}
    (hs : step s = .error (.fault fault) s') : ¬ Ready s := by
  have hstep := h s
  rw [hs] at hstep
  exact hstep

theorem Safe.pure (a : α) : Safe (pure a) := fun s => Follows.refl s

theorem Safe.bind {x : Parse α} {f : α → Parse β} (hx : Safe x) (hf : ∀ a, Safe (f a)) :
    Safe (x >>= f) := by
  intro s
  simp only [Bind.bind, EStateM.bind]
  cases h : x s with
  | ok a t =>
    have hst := hx.ok h
    have htu := hf a t
    dsimp only
    split
    · next b u hu =>
      rw [hu] at htu
      exact hst.trans htu
    · next error u hu =>
      rw [hu] at htu
      exact ⟨hst.trans htu.1, htu.2⟩
    · next fault u hu =>
      rw [hu] at htu
      exact fun hr => htu (hst.ready hr)
  | error stop t =>
    cases stop with
    | error error => exact ⟨hx.error h, hx.located h⟩
    | fault fault => exact hx.fault h

theorem Safe.map {x : Parse α} (g : α → β) (hx : Safe x) : Safe (g <$> x) := by
  intro s
  have h := hx s
  simp only [Functor.map, EStateM.map]
  revert h
  cases x s with
  | ok a t => exact id
  | error stop t => cases stop <;> exact id

theorem Safe.ite {x y : Parse α} (c : Prop) [Decidable c] (hx : Safe x) (hy : Safe y) :
    Safe (if c then x else y) := by
  split
  · exact hx
  · exact hy

/-- The state after the first token is read. -/
def State.read (s : State) (token : Token) (rest : List Token) : State :=
  { s with rest, previous? := some token }

section
variable {s s' : State} {f : Token → Option α} {a : α} {symbol : Symbol} {what : String}

theorem only_eq_some {token t : Token} :
    only symbol token = some t ↔ token.kind = .symbol symbol ∧ t = token := by
  unfold only
  split
  · next other hk =>
    rw [hk]
    split
    · next heq => subst heq; simp [eq_comm]
    · next hne => simp [hne]
  · next hk =>
    simp only [reduceCtorEq, false_iff, not_and]
    exact fun heq => absurd heq (hk symbol)

theorem only_eq_none {token : Token} : only symbol token = none ↔ token.kind ≠ .symbol symbol := by
  rw [Option.eq_none_iff_forall_ne_some]
  simp only [ne_eq, only_eq_some, not_and]
  exact ⟨fun h hk => h token hk rfl, fun h _ hk => absurd hk h⟩

theorem name?_eq_some {token : Token} {name : Name} :
    name? token = some name ↔ token.kind = .identifier ∧ name = ⟨token.lexeme, token.line⟩ := by
  unfold name?
  split
  · next hk => simp [hk, eq_comm]
  · next hk => simpa using fun heq => absurd heq hk

theorem accept?_some (h : accept? f s = .ok (some a) s') :
    ∃ token rest, s.rest = token :: rest ∧ f token = some a ∧ s' = s.read token rest := by
  unfold accept? at h
  split at h
  · exact absurd h (by simp)
  · next token rest hrest =>
    split at h
    · next b hb =>
      simp only [EStateM.Result.ok.injEq, Option.some.injEq] at h
      exact ⟨token, rest, hrest, h.1 ▸ hb, h.2.symm⟩
    · exact absurd h (by simp)

theorem accept?_none (h : accept? f s = .ok none s') :
    s = s' ∧ ∃ token rest, s.rest = token :: rest ∧ f token = none := by
  unfold accept? at h
  split at h
  · exact absurd h (by simp)
  · next token rest hrest =>
    split at h
    · exact absurd h (by simp)
    · next hf =>
      simp only [EStateM.Result.ok.injEq, true_and] at h
      exact ⟨h, token, rest, hrest, hf⟩

theorem accept_true (h : accept symbol s = .ok true s') :
    ∃ token rest, s.rest = token :: rest ∧ token.kind = .symbol symbol ∧ s' = s.read token rest := by
  obtain ⟨o, t, ho, hpure⟩ := bind_eq_ok.mp h
  rw [pure_eq_ok] at hpure
  obtain ⟨hsome, rfl⟩ := hpure
  obtain ⟨b, rfl⟩ := Option.isSome_iff_exists.mp hsome
  obtain ⟨token, rest, hrest, hf, hs⟩ := accept?_some ho
  exact ⟨token, rest, hrest, (only_eq_some.mp hf).1, hs⟩

theorem accept_false (h : accept symbol s = .ok false s') :
    s = s' ∧ ∃ token rest, s.rest = token :: rest ∧ token.kind ≠ .symbol symbol := by
  obtain ⟨o, t, ho, hpure⟩ := bind_eq_ok.mp h
  rw [pure_eq_ok] at hpure
  obtain ⟨hnone, rfl⟩ := hpure
  rw [Option.isSome_eq_false_iff, Option.isNone_iff_eq_none] at hnone
  subst hnone
  obtain ⟨hs, token, rest, hrest, hf⟩ := accept?_none ho
  exact ⟨hs, token, rest, hrest, only_eq_none.mp hf⟩

/-- A choice by whether a symbol comes next: it is read, or the next token is another one. -/
theorem accept_ite_eq_ok {yes no : Parse β} {b : β}
    (h : (do if ← accept symbol then yes else no) s = .ok b s') :
    (∃ token rest, s.rest = token :: rest ∧ token.kind = .symbol symbol ∧
        yes (s.read token rest) = .ok b s') ∨
      (∃ token rest, s.rest = token :: rest ∧ token.kind ≠ .symbol symbol) ∧ no s = .ok b s' := by
  obtain ⟨found, t, hfound, hrun⟩ := bind_eq_ok.mp h
  cases found with
  | true =>
    obtain ⟨token, rest, hrest, hk, rfl⟩ := accept_true hfound
    exact .inl ⟨token, rest, hrest, hk, hrun⟩
  | false =>
    obtain ⟨rfl, hother⟩ := accept_false hfound
    exact .inr ⟨hother, hrun⟩

theorem accept_of_ne {token : Token} {rest : List Token} (h : s.rest = token :: rest)
    (hk : token.kind ≠ .symbol symbol) : accept symbol s = .ok false s := by
  have haccept : accept? (only symbol) s = .ok none s := by
    simp only [accept?, h, only_eq_none.mpr hk]
  rw [accept, bind_of_ok haccept]
  rfl

theorem peek_eq_ok {token : Token} :
    peek s = .ok token s' ↔ s = s' ∧ ∃ rest, s.rest = token :: rest := by
  unfold peek
  split
  · next h => simp [h]
  · next first rest h => simp [h, and_comm]

theorem check_eq_ok {b : Bool} (h : check symbol s = .ok b s') :
    s = s' ∧ ∃ token rest, s.rest = token :: rest ∧ (b = true ↔ token.kind = .symbol symbol) := by
  obtain ⟨token, t, hpeek, hpure⟩ := bind_eq_ok.mp h
  obtain ⟨rfl, rest, hrest⟩ := peek_eq_ok.mp hpeek
  rw [pure_eq_ok] at hpure
  obtain ⟨rfl, rfl⟩ := hpure
  refine ⟨rfl, token, rest, hrest, ?_⟩
  rw [Option.isSome_iff_exists]
  simp only [only_eq_some]
  exact ⟨fun ⟨_, hk, _⟩ => hk, fun hk => ⟨token, hk, rfl⟩⟩

theorem atEnd_eq_ok {b : Bool} (h : atEnd s = .ok b s') :
    s = s' ∧ ∃ token rest, s.rest = token :: rest ∧ token.kind.isEnd = b := by
  obtain ⟨token, t, hpeek, hpure⟩ := bind_eq_ok.mp h
  obtain ⟨rfl, rest, hrest⟩ := peek_eq_ok.mp hpeek
  rw [pure_eq_ok] at hpure
  exact ⟨hpure.2, token, rest, hrest, hpure.1⟩

theorem atEnd_of_rest {token : Token} {rest : List Token} (h : s.rest = token :: rest) :
    atEnd s = .ok token.kind.isEnd s := by
  have hpeek : peek s = .ok token s := peek_eq_ok.mpr ⟨rfl, rest, h⟩
  rw [atEnd, bind_of_ok hpeek]
  rfl

theorem fail_ne_ok {cause : SyntaxError.Cause} : (fail cause : Parse α) s ≠ .ok a s' := by
  intro h
  obtain ⟨token, t, -, hthrow⟩ := bind_eq_ok.mp h
  cases hthrow

theorem require_eq_ok (h : require f what s = .ok a s') :
    ∃ token rest, s.rest = token :: rest ∧ f token = some a ∧ s' = s.read token rest := by
  obtain ⟨o, t, ho, hrest⟩ := bind_eq_ok.mp h
  cases o with
  | some b =>
    rw [pure_eq_ok] at hrest
    obtain ⟨rfl, rfl⟩ := hrest
    exact accept?_some ho
  | none => exact absurd hrest fail_ne_ok

theorem expect_eq_ok {token : Token} (h : expect symbol what s = .ok token s') :
    ∃ rest, s.rest = token :: rest ∧ token.kind = .symbol symbol ∧ s' = s.read token rest := by
  obtain ⟨t, rest, hrest, hf, hs⟩ := require_eq_ok h
  obtain ⟨hk, rfl⟩ := only_eq_some.mp hf
  exact ⟨rest, hrest, hk, hs⟩

theorem expectName_eq_ok {name : Name} (h : expectName what s = .ok name s') :
    ∃ token rest, s.rest = token :: rest ∧ token.kind = .identifier ∧
      name = ⟨token.lexeme, token.line⟩ ∧ s' = s.read token rest := by
  obtain ⟨token, rest, hrest, hf, hs⟩ := require_eq_ok h
  obtain ⟨hk, hname⟩ := name?_eq_some.mp hf
  exact ⟨token, rest, hrest, hk, hname, hs⟩

theorem freshId_eq_ok {id : NodeId} :
    freshId s = .ok id s' ↔ id = s.next ∧ s' = { s with next := s.next + 1 } := by
  have hfresh : freshId s = .ok s.next { s with next := s.next + 1 } := rfl
  rw [hfresh, EStateM.Result.ok.injEq, eq_comm, eq_comm (a := s')]

theorem record_eq_ok {error : SyntaxError} {u : Unit} (h : record error s = .ok u s') :
    s' = { s with errors := s.errors.push error } := by
  cases h
  rfl

end

end Lox.Parser
