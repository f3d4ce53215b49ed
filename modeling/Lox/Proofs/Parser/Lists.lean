import Lox.Proofs.Parser.Locality

/-!
# Lists of any length

What a list in parentheses is without regard to the number of its items is said by reading one item
after another. The parser's own loop gives the same items and goes on beside the state in which that
ends. To the errors found in the items it adds one for each item from the 256th on, in front of
those found in the item.
-/
namespace Lox.Parser
variable {α β : Type}

/-- An item of a list: the token that it starts with, what it is, and the errors found in it. -/
structure Entry (α : Type) where
  first : Token
  value : α
  errors : List SyntaxError

/-- The step reads the item, from one state to the other. -/
structure Entered (item : Parse α) (s : State) (entry : Entry α) (t : State) : Prop where
  result : item s = .ok entry.value t
  first : s.rest.head? = some entry.first
  errors : t.errors.toList = s.errors.toList ++ entry.errors

/-- One item or more, with commas between them. -/
inductive Entries (item : Parse α) : State → List (Entry α) → State → Prop
  | last {s t : State} {entry : Entry α} : Entered item s entry t → Entries item s [entry] t
  | more {s t u : State} {entry : Entry α} {entries : List (Entry α)} {comma : Token}
      {rest : List Token} : Entered item s entry t → t.rest = comma :: rest →
      comma.kind = .symbol .comma → Entries item (t.read comma rest) entries u →
      Entries item s (entry :: entries) u

/-- The items up to the closing parenthesis, which is read as well. -/
inductive Listed (item : Parse α) : State → List (Entry α) → Token → State → Prop
  | none {s : State} {closing : Token} {rest : List Token} : s.rest = closing :: rest →
      closing.kind = .symbol .rightParen → Listed item s [] closing (s.read closing rest)
  | some {s t : State} {entries : List (Entry α)} {closing : Token} {rest : List Token} :
      Entries item s entries t → t.rest = closing :: rest →
      closing.kind = .symbol .rightParen → Listed item s entries closing (t.read closing rest)

/-- The errors of a list: those found in its items, and in front of those of each item after the
first `few` one error at the token that it starts with. -/
def reported (tooMany : SyntaxError.Cause) (few : Nat) (entries : List (Entry α)) :
    List SyntaxError :=
  (entries.take few).flatMap Entry.errors ++
    (entries.drop few).flatMap fun entry => ⟨tooMany, entry.first⟩ :: entry.errors

theorem reported_replicate (tooMany : SyntaxError.Cause) (few : Nat) (first : Token) (value : α)
    (n : Nat) : reported tooMany few (List.replicate n ⟨first, value, []⟩) =
      List.replicate (n - few) ⟨tooMany, first⟩ := by
  simp [reported, List.flatMap_replicate]

/-- What is recorded in front of an item with `count` others before it. -/
def overLimit (tooMany : SyntaxError.Cause) (count : Nat) (first : Token) : List SyntaxError :=
  if maxItems ≤ count then [⟨tooMany, first⟩] else []

theorem reported_cons (tooMany : SyntaxError.Cause) (count : Nat) (entry : Entry α)
    (entries : List (Entry α)) : reported tooMany (255 - count) (entry :: entries) =
      overLimit tooMany count entry.first ++ entry.errors ++
        reported tooMany (255 - (count + 1)) entries := by
  unfold reported overLimit maxItems
  split
  · next hmany =>
    have hzero : 255 - count = 0 ∧ 255 - (count + 1) = 0 := by omega
    simp [hzero]
  · next hfew =>
    have hsucc : 255 - count = 255 - (count + 1) + 1 := by omega
    simp [hsucc]

section
variable {s t s' t' : State} {token : Token} {rest : List Token} {symbol : Symbol} {what : String}

theorem Beside.refl (h : Ready s) : Beside s s := ⟨rfl, rfl, h, h⟩

theorem Beside.report (h : Beside s t) (error : SyntaxError) :
    Beside s { t with errors := t.errors.push error } :=
  ⟨h.rest, h.next, h.ready, h.ready'.ends, h.ready'.behind⟩

theorem Beside.read (h : Beside s t) (hrest : s.rest = token :: rest)
    (hend : token.kind.isEnd = false) : Beside (s.read token rest) (t.read token rest) :=
  ⟨rfl, h.next, (follows_read hrest hend).ready h.ready,
    (follows_read (h.rest.trans hrest) hend).ready h.ready'⟩

/-- A step with a result has the same one beside, and adds the same errors. -/
theorem Local.ok {step : Parse α} (h : Local step) (hbeside : Beside s s') {a : α}
    (hrun : step s = .ok a t) {added : List SyntaxError}
    (hadded : t.errors.toList = s.errors.toList ++ added) :
    ∃ t', step s' = .ok a t' ∧ Beside t t' ∧ t'.errors.toList = s'.errors.toList ++ added := by
  have halike := h s s' hbeside
  rw [hrun] at halike
  generalize hresult : step s' = result at halike
  cases halike with
  | ok hbeside' herrors =>
    obtain ⟨added', hs, ht⟩ := herrors
    obtain rfl : added' = added := List.append_cancel_left (hs.symm.trans hadded)
    exact ⟨_, rfl, hbeside', ht⟩

/-- A result beside is one here as well. -/
theorem Local.back {step : Parse α} (h : Local step) (hbeside : Beside s s') {a : α}
    (hrun : step s' = .ok a t') : ∃ t, step s = .ok a t ∧ Beside t t' ∧
      ∃ added, t.errors.toList = s.errors.toList ++ added := by
  have halike := h s s' hbeside
  rw [hrun] at halike
  generalize hresult : step s = result at halike
  cases halike with
  | ok hbeside' herrors =>
    obtain ⟨added, hs, -⟩ := herrors
    exact ⟨_, rfl, hbeside', added, hs⟩

theorem accept_eq (h : s.rest = token :: rest) (hk : token.kind = .symbol symbol) :
    accept symbol s = .ok true (s.read token rest) := by
  have haccept : accept? (only symbol) s = .ok (some token) (s.read token rest) := by
    simp only [accept?, h, only_eq_some.mpr ⟨hk, rfl⟩]
    rfl
  rw [accept, bind_of_ok haccept]
  rfl

theorem expect_eq (h : s.rest = token :: rest) (hk : token.kind = .symbol symbol) :
    expect symbol what s = .ok token (s.read token rest) := by
  have haccept : accept? (only symbol) s = .ok (some token) (s.read token rest) := by
    simp only [accept?, h, only_eq_some.mpr ⟨hk, rfl⟩]
    rfl
  rw [expect, require, bind_of_ok haccept]
  rfl

theorem expectName_eq (h : s.rest = token :: rest) (hk : token.kind = .identifier) :
    expectName what s = .ok ⟨token.lexeme, token.line⟩ (s.read token rest) := by
  have haccept : accept? name? s = .ok (some ⟨token.lexeme, token.line⟩) (s.read token rest) := by
    simp only [accept?, h, name?_eq_some.mpr ⟨hk, rfl⟩]
    rfl
  rw [expectName, require, bind_of_ok haccept]
  rfl

theorem check_eq (h : s.rest = token :: rest) :
    check symbol s = .ok (only symbol token).isSome s := by
  rw [check, bind_of_ok (peek_eq_ok.mpr ⟨rfl, rest, h⟩)]
  rfl

end

section
variable (tooMany : SyntaxError.Cause) {item : Parse α} {entries : List (Entry α)}
variable {s t s' : State}

/-- The error at an item with `count` others before it, if they are too many. -/
def countItem (tooMany : SyntaxError.Cause) (count : Nat) : Parse Unit :=
  if maxItems ≤ count then (do record ⟨tooMany, ← peek⟩) else pure ()

theorem commaSeparated_succ (item : Parse α) (limit count : Nat) :
    commaSeparated tooMany item (limit + 1) count =
      countItem tooMany count >>= fun _ => item >>= fun first => accept .comma >>= fun more =>
        if more then
          commaSeparated tooMany item limit (count + 1) >>= fun others => pure (first :: others)
        else pure [first] := by
  funext s
  rw [commaSeparated, countItem]
  split
  · exact congrFun (bind_recordNext tooMany _).symm s
  · rfl

theorem countItem_eq {first : Token} (hbeside : Beside s s') (hfirst : s.rest.head? = some first)
    (count : Nat) :
    ∃ u, countItem tooMany count s' = .ok () u ∧ Beside s u ∧
      u.errors.toList = s'.errors.toList ++ overLimit tooMany count first := by
  unfold countItem overLimit
  split
  · obtain ⟨rest, hrest⟩ := List.head?_eq_some_iff.mp hfirst
    have hpeek : peek s' = .ok first s' := peek_eq_ok.mpr ⟨rfl, rest, hbeside.rest.trans hrest⟩
    rw [bind_of_ok hpeek]
    exact ⟨_, rfl, hbeside.report _, Array.toList_push⟩
  · exact ⟨s', rfl, hbeside, (List.append_nil _).symm⟩

/-- An item is read behind any number of others. -/
theorem entered_beside (hlocal : Local item) {entry : Entry α} (h : Entered item s entry t)
    (hbeside : Beside s s') (count : Nat) :
    ∃ u t', countItem tooMany count s' = .ok () u ∧ item u = .ok entry.value t' ∧ Beside t t' ∧
      t'.errors.toList =
        s'.errors.toList ++ (overLimit tooMany count entry.first ++ entry.errors) := by
  obtain ⟨u, hcount, hu, herrors⟩ := countItem_eq tooMany hbeside h.first count
  obtain ⟨t', hitem, ht, hadded⟩ := hlocal.ok hu h.result h.errors
  exact ⟨u, t', hcount, hitem, ht, by rw [hadded, herrors, List.append_assoc]⟩

/-- The loop over the items gives all of them, whatever their number is. -/
theorem commaSeparated_eq (hlocal : Local item) (h : Entries item s entries t)
    (hbeside : Beside s s') {limit : Nat} (hlimit : entries.length ≤ limit)
    (hnext : ∃ token rest, t.rest = token :: rest ∧ token.kind ≠ .symbol .comma) (count : Nat) :
    ∃ t', commaSeparated tooMany item limit count s' = .ok (entries.map Entry.value) t' ∧
      Beside t t' ∧
      t'.errors.toList = s'.errors.toList ++ reported tooMany (255 - count) entries := by
  induction h generalizing s' limit count with
  | @last s t entry hentry =>
    obtain ⟨limit, rfl⟩ : ∃ n, limit = n + 1 := Nat.exists_eq_add_of_le' hlimit
    obtain ⟨u, t', hcount, hitem, ht, herrors⟩ :=
      entered_beside tooMany hlocal hentry hbeside count
    obtain ⟨token, rest, hrest, hcomma⟩ := hnext
    refine ⟨t', ?_, ht, ?_⟩
    · rw [commaSeparated_succ, bind_of_ok hcount, bind_of_ok hitem,
        bind_of_ok (accept_of_ne (ht.rest.trans hrest) hcomma)]
      rfl
    · rw [herrors, reported_cons]
      simp [reported]
  | @more s t u entry entries comma rest hentry hrest hcomma _ ih =>
    obtain ⟨limit, rfl⟩ : ∃ n, limit = n + 1 :=
      Nat.exists_eq_add_of_le' (Nat.le_trans (by simp) hlimit)
    obtain ⟨v, t', hcount, hitem, ht, herrors⟩ :=
      entered_beside tooMany hlocal hentry hbeside count
    have hread := ht.read hrest (by rw [hcomma]; rfl)
    obtain ⟨u', hothers, hu, hmore⟩ :=
      ih hread (Nat.le_of_succ_le_succ hlimit) hnext (count + 1)
    refine ⟨u', ?_, hu, ?_⟩
    · rw [commaSeparated_succ, bind_of_ok hcount, bind_of_ok hitem,
        bind_of_ok (accept_eq (ht.rest.trans hrest) hcomma)]
      simp only [↓reduceIte]
      rw [bind_of_ok hothers]
      rfl
    · rw [hmore, reported_cons]
      simp [State.read, herrors]

/-- There are no more items than tokens. -/
theorem Entries.length_le (hsafe : Safe item) (h : Entries item s entries t) :
    entries.length ≤ s.rest.length := by
  induction h with
  | last hentry =>
    obtain ⟨rest, hrest⟩ := List.head?_eq_some_iff.mp hentry.first
    simp [hrest]
  | more hentry hrest _ _ ih =>
    have hle := (hsafe.ok hentry.result).length_le
    simp only [hrest, State.read, List.length_cons] at hle ih ⊢
    omega

end

/-- The step has no result in front of a closing parenthesis. -/
def NeedsItem (step : Parse α) : Prop :=
  ∀ s token rest, s.rest = token :: rest → token.kind = .symbol .rightParen →
    ∀ a t, step s ≠ .ok a t

namespace NeedsItem

theorem bind {x : Parse α} {f : α → Parse β} (hx : NeedsItem x) : NeedsItem (x >>= f) := by
  intro s token rest hrest hk b t h
  obtain ⟨a, u, ha, -⟩ := bind_eq_ok.mp h
  exact hx s token rest hrest hk a u ha

theorem fail (cause : SyntaxError.Cause) : NeedsItem (fail cause : Parse α) :=
  fun _ _ _ _ _ _ _ => fail_ne_ok

/-- The step first tries to read a token that is no closing parenthesis. -/
theorem accept? {f : Token → Option α} {g : Option α → Parse β}
    (hf : ∀ token, token.kind = .symbol .rightParen → f token = none) (hg : NeedsItem (g none)) :
    NeedsItem (accept? f >>= g) := by
  intro s token rest hrest hk b t h
  have hnone : Parser.accept? f s = .ok none s := by
    simp only [Parser.accept?, hrest, hf token hk]
  rw [bind_of_ok hnone] at h
  exact hg s token rest hrest hk b t h

theorem only {symbol : Symbol} (h : symbol ≠ .rightParen) (token : Token)
    (hk : token.kind = .symbol .rightParen) : only symbol token = none := by
  rw [only_eq_none, hk]
  simpa using h.symm

theorem expectName (what : String) : NeedsItem (expectName what) :=
  .accept? (fun token hk => by simp [name?, hk]) (.fail _)

theorem primary (nested : Parse Expr) : NeedsItem (primary nested) := by
  refine .accept? (fun token hk => by simp [literal?, hk]) ?_
  refine .accept? (only (by decide)) ?_
  refine .accept? (only (by decide)) ?_
  refine .accept? (fun token hk => by simp [name?, hk]) ?_
  intro s token rest hrest hk e t h
  have hne : token.kind ≠ .symbol .leftParen := by simp [hk]
  dsimp only at h
  rw [bind_of_ok (accept_of_ne hrest hne)] at h
  exact fail_ne_ok h

theorem unary {operand : Parse Expr} (h : NeedsItem operand) (limit : Nat) :
    NeedsItem (unary operand limit) := by
  cases limit with
  | zero => exact h
  | succ limit => exact .accept? (fun token hk => by simp [unary?, symbol?, hk, unaryOp]) h

theorem expression (depth : Nat) : NeedsItem (expression depth) := by
  cases depth with
  | zero => exact .fail _
  | succ depth =>
    have hoperand : NeedsItem (Parser.unary (call depth (Parser.expression depth)) depth) :=
      unary (primary _).bind depth
    exact hoperand.bind.bind.bind.bind.bind.bind.bind

end NeedsItem

theorem Entries.ne_rightParen {item : Parse α} {s t : State} {entries : List (Entry α)}
    {token : Token} {rest : List Token} (hitem : NeedsItem item) (h : Entries item s entries t)
    (hrest : s.rest = token :: rest) : token.kind ≠ .symbol .rightParen := by
  intro hk
  cases h with
  | last hentry => exact hitem s token rest hrest hk _ _ hentry.result
  | more hentry _ _ _ => exact hitem s token rest hrest hk _ _ hentry.result

/-- A list is read to its end, and what follows is read beside the state behind it. -/
theorem listItems_eq {item : Parse α} (hsafe : Safe item) (hlocal : Local item)
    (hitem : NeedsItem item) {s t : State} {entries : List (Entry α)} {closing : Token}
    (h : Listed item s entries closing t) (hready : Ready s) {limit : Nat}
    (hlimit : s.rest.length ≤ limit) (tooMany : SyntaxError.Cause) :
    ∃ u rest, listItems tooMany item limit s = .ok (entries.map Entry.value) u ∧
      u.rest = closing :: rest ∧ closing.kind = .symbol .rightParen ∧
      Beside t (u.read closing rest) ∧
      u.errors.toList = s.errors.toList ++ reported tooMany 255 entries := by
  cases h with
  | @none _ rest hrest hcloses =>
    have hend : closing.kind.isEnd = false := by rw [hcloses]; rfl
    refine ⟨s, rest, ?_, hrest, hcloses, .refl ((follows_read hrest hend).ready hready), ?_⟩
    · rw [listItems, bind_of_ok (check_eq hrest)]
      simp [only_eq_some.mpr ⟨hcloses, rfl⟩]
    · simp [reported]
  | @some t _ _ rest hentries hrest hcloses =>
    have hend : closing.kind.isEnd = false := by rw [hcloses]; rfl
    have hnext : ∃ token tail, t.rest = token :: tail ∧ token.kind ≠ .symbol .comma :=
      ⟨closing, rest, hrest, by simp [hcloses]⟩
    obtain ⟨u, hrun, hbeside, herrors⟩ := commaSeparated_eq tooMany hlocal hentries (.refl hready)
      (Nat.le_trans (hentries.length_le hsafe) hlimit) hnext 0
    obtain ⟨token, tail, hfirst⟩ := List.exists_cons_of_ne_nil hready.ends.ne_nil
    have hne := only_eq_none.mpr (hentries.ne_rightParen hitem hfirst)
    refine ⟨u, rest, ?_, hbeside.rest.trans hrest, hcloses, hbeside.read hrest hend, herrors⟩
    rw [listItems, bind_of_ok (check_eq hfirst)]
    simpa [hne] using hrun

/-- What the loop over the items reads are items that are read one after another. -/
theorem entries_of_commaSeparated {item : Parse α} (hsafe : Safe item) (hlocal : Local item)
    {tooMany : SyntaxError.Cause} {limit count : Nat} {s s' u : State} {as : List α}
    (hbeside : Beside s s') (hlimit : s.rest.length ≤ limit)
    (h : commaSeparated tooMany item limit count s' = .ok as u) :
    ∃ entries t, Entries item s entries t ∧ as = entries.map Entry.value ∧ t.rest = u.rest := by
  induction limit generalizing s s' count as with
  | zero =>
    exact absurd (List.length_eq_zero_iff.mp (Nat.le_zero.mp hlimit)) hbeside.ready.ends.ne_nil
  | succ limit ih =>
    obtain ⟨first, tail, hfirst⟩ := List.exists_cons_of_ne_nil hbeside.ready.ends.ne_nil
    obtain ⟨v, hcount, hv, -⟩ :=
      countItem_eq tooMany hbeside (show s.rest.head? = some first by rw [hfirst]; rfl) count
    rw [commaSeparated_succ, bind_of_ok hcount] at h
    obtain ⟨a, t', hitem, h⟩ := bind_eq_ok.mp h
    obtain ⟨more, w, haccept, h⟩ := bind_eq_ok.mp h
    obtain ⟨t, hrun, ht, added, herrors⟩ := hlocal.back hv hitem
    have hentry : Entered item s ⟨first, a, added⟩ t := ⟨hrun, by rw [hfirst]; rfl, herrors⟩
    cases more with
    | false =>
      obtain ⟨rfl, -⟩ := accept_false haccept
      obtain ⟨rfl, rfl⟩ := pure_eq_ok.mp h
      exact ⟨_, t, .last hentry, rfl, ht.rest.symm⟩
    | true =>
      obtain ⟨comma, rest, hrest, hcomma, rfl⟩ := accept_true haccept
      obtain ⟨others, x, hothers, h⟩ := bind_eq_ok.mp h
      obtain ⟨rfl, rfl⟩ := pure_eq_ok.mp h
      have htrest := ht.rest.symm.trans hrest
      have hshorter := (hsafe.ok hrun).length_le
      rw [htrest, List.length_cons] at hshorter
      have hread := ht.read htrest (by rw [hcomma]; rfl)
      obtain ⟨entries, y, hentries, rfl, hy⟩ :=
        ih hread (show rest.length ≤ limit by omega) hothers
      exact ⟨_, y, .more hentry htrest hcomma hentries, rfl, hy⟩

/-- Every list in parentheses is read item by item. -/
theorem listed_of_listItems {item : Parse α} (hsafe : Safe item) (hlocal : Local item)
    {tooMany : SyntaxError.Cause} {limit : Nat} {s u : State} {as : List α} {closing : Token}
    {rest : List Token} (hready : Ready s) (hlimit : s.rest.length ≤ limit)
    (h : listItems tooMany item limit s = .ok as u) (hrest : u.rest = closing :: rest)
    (hcloses : closing.kind = .symbol .rightParen) :
    ∃ entries t, Listed item s entries closing t ∧ as = entries.map Entry.value := by
  obtain ⟨closed, t, hcheck, h⟩ := bind_eq_ok.mp h
  obtain ⟨rfl, -⟩ := check_eq_ok hcheck
  cases closed with
  | true =>
    obtain ⟨rfl, rfl⟩ := pure_eq_ok.mp h
    exact ⟨[], _, .none hrest hcloses, rfl⟩
  | false =>
    obtain ⟨entries, t, hentries, rfl, ht⟩ :=
      entries_of_commaSeparated hsafe hlocal (.refl hready) hlimit h
    exact ⟨entries, _, .some hentries (ht.trans hrest) hcloses, rfl⟩

/-- A call keeps all of its arguments. -/
theorem callSuffixes_eq {depth limit bound : Nat} {s t : State} {opening closing : Token}
    {rest : List Token} {entries : List (Entry Expr)} (hrest : s.rest = opening :: rest)
    (hopens : opening.kind = .symbol .leftParen)
    (h : Listed (expression depth) (s.read opening rest) entries closing t) (hready : Ready s)
    (hlimit : rest.length ≤ limit) (callee : Expr) :
    ∃ u, callSuffixes limit (expression depth) (bound + 1) callee s =
        callSuffixes limit (expression depth) bound
          (.call callee closing.line (entries.map Entry.value)) u ∧ Beside t u ∧
      u.errors.toList = s.errors.toList ++ reported .tooManyArguments 255 entries := by
  have hbehind := (follows_read hrest (by rw [hopens]; rfl)).ready hready
  obtain ⟨u, tail, hrun, hclosing, hcloses, hbeside, herrors⟩ :=
    listItems_eq (safe_expression depth) (preserved_local.expression depth)
      (.expression depth) h hbehind hlimit .tooManyArguments
  have hcall : finishCall limit (expression depth) callee (s.read opening rest) =
      .ok (.call callee closing.line (entries.map Entry.value)) (u.read closing tail) := by
    rw [finishCall, bind_of_ok hrun, bind_of_ok (expect_eq hclosing hcloses)]
    rfl
  refine ⟨u.read closing tail, ?_, hbeside, herrors⟩
  rw [callSuffixes, bind_of_ok (accept_eq hrest hopens)]
  simp only [↓reduceIte]
  rw [bind_of_ok hcall]

/-- The rest of a function or method, behind its parameters. -/
def functionBody (inner : Inner) (kind : String) (name : Name) (parameters : List Name) :
    Parse FunctionDecl := do
  let _ ← expect .leftBrace ("'\x7b' before " ++ kind ++ " body")
  return { name, parameters, body := ← block inner }

theorem local_functionBody (depth : Nat) (kind : String) (name : Name) (parameters : List Name) :
    Local (functionBody (innerAt depth) kind name parameters) := by
  have hbody := preserved_local.untilRightBrace (preserved_local.innerAt depth).2 depth
  exact (preserved_local.expect _ _).bind fun _ => (preserved_local.block hbody).bind fun _ => .pure _

/-- A function or method keeps all of its parameters. -/
theorem function_eq {depth : Nat} {kind : String} {s t : State} {name opening closing : Token}
    {rest : List Token} {entries : List (Entry Name)} (hrest : s.rest = name :: opening :: rest)
    (hname : name.kind = .identifier) (hopens : opening.kind = .symbol .leftParen)
    (h : Listed (expectName "parameter name") ((s.read name (opening :: rest)).read opening rest)
      entries closing t) (hready : Ready s) (hlimit : rest.length ≤ depth) :
    ∃ u, function (innerAt depth) kind s =
        functionBody (innerAt depth) kind ⟨name.lexeme, name.line⟩ (entries.map Entry.value) u ∧
      Beside t u ∧
      u.errors.toList = s.errors.toList ++ reported .tooManyParameters 255 entries := by
  have hbehind : Ready ((s.read name (opening :: rest)).read opening rest) := by
    refine (follows_read rfl (by rw [hopens]; rfl)).ready ?_
    exact (follows_read hrest (by rw [hname]; rfl)).ready hready
  obtain ⟨u, tail, hrun, hclosing, hcloses, hbeside, herrors⟩ :=
    listItems_eq (safe_expectName _) (preserved_local.expectName _) (.expectName _) h hbehind
      (show rest.length ≤ (innerAt depth).limit from hlimit) .tooManyParameters
  refine ⟨u.read closing tail, ?_, hbeside, herrors⟩
  rw [function, bind_of_ok (expectName_eq hrest hname), bind_of_ok (expect_eq rfl hopens),
    bind_of_ok hrun, bind_of_ok (expect_eq hclosing hcloses)]
  rfl

end Lox.Parser
