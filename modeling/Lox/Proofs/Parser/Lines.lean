import Lox.Proofs.Parser.Safety
import Lox.Proofs.Syntax.Lines
import Mathlib.Data.List.Forall2
import Mathlib.Data.Option.Basic

/-!
# Parsing tokens on other lines

A parsing step looks at the kinds and the texts of tokens only. It copies their lines into trees and
errors, and it copies the next number into trees. So on tokens on other lines, and with other
numbers to give out, every step does the same: the results are the same text on the other lines, and
so are the errors.
-/
namespace Lox
variable (line : Nat → Nat)

def SyntaxError.onLine (error : SyntaxError) : SyntaxError :=
  { error with token := error.token.onLine line }

/-- The same text on other lines, with whatever numbers. -/
def Expr.Moved (a b : Expr) : Prop := b.onLines id = a.onLines line

def Stmt.Moved (a b : Stmt) : Prop := b.onLines id = a.onLines line

def FunctionOf.Moved (a b : FunctionDecl) : Prop :=
  Stmt.functionOnLines id b = Stmt.functionOnLines line a

def Superclass.Moved (a b : Superclass) : Prop := b.name = a.name.onLine line

def Name.Moved (a b : Name) : Prop := b = a.onLine line

def Token.Moved (a b : Token) : Prop := b = a.onLine line

namespace Parser

def Stop.onLine : Stop → Stop
  | .error e => .error (e.onLine line)
  | .fault f => .fault f

structure State.Moved (s t : State) : Prop where
  rest : t.rest = s.rest.map (Token.onLine line)
  previous? : t.previous? = s.previous?.map (Token.onLine line)
  errors : t.errors = s.errors.map (SyntaxError.onLine line)

variable {α β : Type}

/-- Two endings of a step: both have a result, and these are related, or both fail alike. -/
inductive Ended (r : α → α → Prop) : EStateM.Result Stop State α → EStateM.Result Stop State α → Prop
  | ok {a b : α} {s t : State} : r a b → s.Moved line t → Ended r (.ok a s) (.ok b t)
  | error {stop : Stop} {s t : State} : s.Moved line t →
      Ended r (.error stop s) (.error (stop.onLine line) t)

/-- Two steps do the same on tokens on other lines, up to the relation of the results. -/
def Moves (r : α → α → Prop) (x y : Parse α) : Prop :=
  ∀ s t, s.Moved line t → Ended line r (x s) (y t)

variable {line} {r : α → α → Prop} {q : β → β → Prop}

theorem Moves.pure {a b : α} (h : r a b) : Moves line r (pure a) (pure b) :=
  fun _ _ hst => .ok h hst

theorem Moves.bind {x y : Parse α} {f g : α → Parse β} (hx : Moves line r x y)
    (hf : ∀ a b, r a b → Moves line q (f a) (g b)) : Moves line q (x >>= f) (y >>= g) := by
  intro s t hst
  have hxy := hx s t hst
  simp only [Bind.bind, EStateM.bind]
  generalize x s = before, y t = after at hxy
  cases hxy with
  | ok hab hst => exact hf _ _ hab _ _ hst
  | error hst => exact .error hst

theorem Moves.map {x y : Parse α} {f g : α → β} (hx : Moves line r x y)
    (hf : ∀ a b, r a b → q (f a) (g b)) : Moves line q (f <$> x) (g <$> y) := by
  intro s t hst
  have hxy := hx s t hst
  simp only [Functor.map, EStateM.map]
  generalize x s = before, y t = after at hxy
  cases hxy with
  | ok hab hst => exact .ok (hf _ _ hab) hst
  | error hst => exact .error hst

/-- A branch on the same answer. -/
theorem Moves.ite {a b : Bool} (hab : a = b) {x y x' y' : Parse α} (hx : Moves line r x y)
    (hx' : Moves line r x' y') :
    Moves line r (if a = true then x else x') (if b = true then y else y') := by
  subst hab
  cases a
  · exact hx'
  · exact hx

theorem moves_peek : Moves line (Token.Moved line) peek peek := by
  intro s t hst
  unfold peek
  rw [hst.rest]
  cases s.rest with
  | nil => exact .error hst
  | cons token rest => exact .ok rfl hst

/-- What is read from a token does not depend on its line, up to the relation. -/
def ReadsAlike (line : Nat → Nat) (r : α → α → Prop) (f g : Token → Option α) : Prop :=
  ∀ token, Option.Rel r (f token) (g (token.onLine line))

theorem moves_accept? {f g : Token → Option α} (h : ReadsAlike line r f g) :
    Moves line (Option.Rel r) (accept? f) (accept? g) := by
  intro s t hst
  unfold accept?
  rw [hst.rest]
  cases hrest : s.rest with
  | nil => exact .error hst
  | cons token rest =>
    have hread := h token
    simp only [List.map_cons]
    generalize f token = before, g (token.onLine line) = after at hread
    cases hread with
    | some hab => exact .ok (.some hab) ⟨rfl, rfl, hst.errors⟩
    | none => exact .ok .none hst

theorem reads_only (symbol : Symbol) : ReadsAlike line (Token.Moved line) (only symbol) (only symbol) := by
  intro token
  have hkind : (token.onLine line).kind = token.kind := rfl
  unfold only
  rw [hkind]
  split
  · split
    · exact .some rfl
    · exact .none
  · exact .none

theorem reads_name? : ReadsAlike line (Name.Moved line) name? name? := by
  intro token
  have hkind : (token.onLine line).kind = token.kind := rfl
  unfold name?
  rw [hkind]
  split
  · exact .some rfl
  · exact .none

theorem rel_refl (o : Option α) : Option.Rel (· = ·) o o := by
  cases o with
  | none => exact .none
  | some a => exact .some rfl

theorem reads_literal? : ReadsAlike line (· = ·) literal? literal? := fun token =>
  rel_refl (literal? token)

theorem moves_accept (symbol : Symbol) : Moves line (· = ·) (accept symbol) (accept symbol) := by
  refine (moves_accept? (reads_only symbol)).bind fun a b hab => .pure ?_
  cases hab <;> rfl

theorem moves_check (symbol : Symbol) : Moves line (· = ·) (check symbol) (check symbol) := by
  refine moves_peek.bind fun token _ htoken => .pure ?_
  subst htoken
  have hread := @reads_only line symbol token
  generalize only symbol token = before, only symbol (token.onLine line) = after at hread
  cases hread <;> rfl

theorem moves_atEnd : Moves line (· = ·) atEnd atEnd := by
  refine moves_peek.bind fun token _ htoken => .pure ?_
  subst htoken
  rfl

theorem moves_fail (cause : SyntaxError.Cause) : Moves line r (fail cause) (fail cause) := by
  refine moves_peek.bind fun token _ htoken => ?_
  subst htoken
  exact fun s t hst => .error hst

theorem moves_record (error : SyntaxError) :
    Moves line (· = ·) (record error) (record (error.onLine line)) := by
  intro s t hst
  refine .ok rfl ⟨hst.rest, hst.previous?, ?_⟩
  simp [hst.errors]

theorem moves_require {f g : Token → Option α} (h : ReadsAlike line r f g) (what : String) :
    Moves line r (require f what) (require g what) := by
  refine (moves_accept? h).bind fun a b hab => ?_
  cases hab with
  | some hab => exact .pure hab
  | none => exact moves_fail _

theorem moves_expect (symbol : Symbol) (what : String) :
    Moves line (Token.Moved line) (expect symbol what) (expect symbol what) :=
  moves_require (reads_only symbol) what

theorem moves_expectName (what : String) :
    Moves line (Name.Moved line) (expectName what) (expectName what) :=
  moves_require reads_name? what

/-- The numbers that are given out may be any. -/
theorem moves_freshId : Moves line (fun _ _ => True) freshId freshId :=
  fun _ _ hst => .ok trivial ⟨hst.rest, hst.previous?, hst.errors⟩

theorem moves_commaSeparated (tooMany : SyntaxError.Cause) {x y : Parse α} (h : Moves line r x y)
    (limit count : Nat) :
    Moves line (List.Forall₂ r) (commaSeparated tooMany x limit count)
      (commaSeparated tooMany y limit count) := by
  induction limit generalizing count with
  | zero => exact .pure .nil
  | succ limit ih =>
    unfold commaSeparated
    have hrest : Moves line (List.Forall₂ r)
        (do
          let first ← x
          if ← accept .comma then
            return first :: (← commaSeparated tooMany x limit (count + 1))
          else
            return [first])
        (do
          let first ← y
          if ← accept .comma then
            return first :: (← commaSeparated tooMany y limit (count + 1))
          else
            return [first]) := by
      refine h.bind fun _ _ hfirst => (moves_accept .comma).bind fun _ _ hmore => .ite hmore ?_ ?_
      · exact (ih (count + 1)).bind fun _ _ hothers => .pure (.cons hfirst hothers)
      · exact .pure (.cons hfirst .nil)
    split
    · refine moves_peek.bind fun token _ htoken => ?_
      subst htoken
      exact (moves_record ⟨tooMany, token⟩).bind fun _ _ _ => hrest
    · exact hrest

theorem moves_listItems (tooMany : SyntaxError.Cause) {x y : Parse α} (h : Moves line r x y)
    (limit : Nat) :
    Moves line (List.Forall₂ r) (listItems tooMany x limit) (listItems tooMany y limit) :=
  (moves_check .rightParen).bind fun _ _ hclosed =>
    .ite hclosed (.pure .nil) (moves_commaSeparated tooMany h limit 0)

theorem moves_untilRightBrace {x y : Parse α} (h : Moves line r x y) (limit : Nat) :
    Moves line (List.Forall₂ r) (untilRightBrace x limit) (untilRightBrace y limit) := by
  induction limit with
  | zero => exact .pure .nil
  | succ limit ih =>
    refine (moves_check .rightBrace).bind fun _ _ hclosed => moves_atEnd.bind fun _ _ hended => ?_
    refine .ite (by rw [hclosed, hended]) (.pure .nil) ?_
    exact h.bind fun _ _ hfirst => ih.bind fun _ _ hothers => .pure (.cons hfirst hothers)

theorem map_eq_map {γ : Type} {f g : α → γ} {as bs : List α}
    (h : List.Forall₂ (fun a b => g b = f a) as bs) : bs.map g = as.map f := by
  induction h with
  | nil => rfl
  | cons hfirst _ ih => rw [List.map_cons, List.map_cons, hfirst, ih]

theorem map_eq_map_option {γ : Type} {f g : α → γ} {a b : Option α}
    (h : Option.Rel (fun a b => g b = f a) a b) : b.map g = a.map f := by
  cases h with
  | some h => exact congrArg some h
  | none => rfl

theorem moves_superclassMethod {a b : Token} (h : a.Moved line b) :
    Moves line (Expr.Moved line) (superclassMethod a) (superclassMethod b) := by
  subst h
  refine (moves_expect .dot _).bind fun _ _ _ => (moves_expectName _).bind fun _ _ hmethod => ?_
  subst hmethod
  exact moves_freshId.bind fun _ _ _ => .pure rfl

section
variable {x y : Parse Expr} (h : Moves line (Expr.Moved line) x y)
include h

theorem moves_primary : Moves line (Expr.Moved line) (primary x) (primary y) := by
  unfold primary
  refine (moves_accept? reads_literal?).bind fun _ _ hvalue => ?_
  cases hvalue with
  | some hvalue =>
    subst hvalue
    exact .pure rfl
  | none =>
  refine (moves_accept? (reads_only _)).bind fun _ _ hkeyword => ?_
  cases hkeyword with
  | some hkeyword => exact moves_superclassMethod hkeyword
  | none =>
  refine (moves_accept? (reads_only _)).bind fun _ _ hkeyword => ?_
  cases hkeyword with
  | some hkeyword =>
    subst hkeyword
    exact moves_freshId.bind fun _ _ _ => .pure rfl
  | none =>
  refine (moves_accept? reads_name?).bind fun _ _ hname => ?_
  cases hname with
  | some hname =>
    subst hname
    exact moves_freshId.bind fun _ _ _ => .pure rfl
  | none =>
  refine (moves_accept _).bind fun _ _ hparen => .ite hparen ?_ (moves_fail _)
  exact h.bind fun _ _ hinner => (moves_expect _ _).bind fun _ _ _ =>
    .pure (congrArg Expr.grouping hinner)

theorem moves_finishCall (limit : Nat) {a b : Expr} (hcallee : a.Moved line b) :
    Moves line (Expr.Moved line) (finishCall limit x a) (finishCall limit y b) := by
  refine (moves_listItems _ h limit).bind fun _ _ harguments =>
    (moves_expect _ _).bind fun _ _ hparen => .pure ?_
  subst hparen
  have hlist := map_eq_map harguments
  rw [← Expr.listOnLines_eq_map, ← Expr.listOnLines_eq_map] at hlist
  exact congrArg₂ (Expr.call · _ ·) hcallee hlist

theorem moves_callSuffixes (bound limit : Nat) {a b : Expr} (hcallee : a.Moved line b) :
    Moves line (Expr.Moved line) (callSuffixes bound x limit a) (callSuffixes bound y limit b) := by
  induction limit generalizing a b with
  | zero => exact .pure hcallee
  | succ limit ih =>
    refine (moves_accept _).bind fun _ _ hparen => .ite hparen ?_ ?_
    · exact (moves_finishCall h bound hcallee).bind fun _ _ hcalled => ih hcalled
    · refine (moves_accept _).bind fun _ _ hdot => .ite hdot ?_ (.pure hcallee)
      refine (moves_expectName _).bind fun _ _ hname => ih ?_
      subst hname
      exact congrArg (Expr.get · _) hcallee

theorem moves_call (limit : Nat) : Moves line (Expr.Moved line) (call limit x) (call limit y) :=
  (moves_primary h).bind fun _ _ hcallee => moves_callSuffixes h limit limit hcallee

end

/-- Two ways to build an expression from a moved one. -/
def Builds (line : Nat → Nat) (f g : Expr → Expr) : Prop :=
  ∀ a b, a.Moved line b → (f a).Moved line (g b)

def Combines (line : Nat → Nat) (f g : Combine) : Prop :=
  ∀ a b, a.Moved line b → Builds line (f a) (g b)

theorem rel_map {γ : Type} {a : Option γ} {f g : γ → α} (h : ∀ c, r (f c) (g c)) :
    Option.Rel r (a.map f) (a.map g) := by
  cases a with
  | none => exact .none
  | some c => exact .some (h c)

theorem reads_unary? : ReadsAlike line (Builds line) unary? unary? := by
  intro token
  have hsymbol : symbol? (token.onLine line) = symbol? token := rfl
  unfold unary?
  rw [hsymbol]
  cases symbol? token with
  | none => exact .none
  | some symbol => exact rel_map fun op _ _ hab => congrArg (Expr.unary op _) hab

theorem reads_binary? (ops : Symbol → Option BinaryOp) :
    ReadsAlike line (Combines line) (binary? ops) (binary? ops) := by
  intro token
  have hsymbol : symbol? (token.onLine line) = symbol? token := rfl
  unfold binary?
  rw [hsymbol]
  cases symbol? token with
  | none => exact .none
  | some symbol =>
    exact rel_map fun op _ _ hleft _ _ hright => congrArg₂ (Expr.binary op _) hleft hright

theorem reads_logical? (symbol : Symbol) (op : LogicalOp) :
    ReadsAlike line (Combines line) (logical? symbol op) (logical? symbol op) := by
  intro token
  have hread := @reads_only line symbol token
  unfold logical?
  generalize only symbol token = before, only symbol (token.onLine line) = after at hread
  cases hread with
  | none => exact .none
  | some _ => exact .some fun _ _ hleft _ _ hright => congrArg₂ (Expr.logical op) hleft hright

theorem moves_unary {x y : Parse Expr} (h : Moves line (Expr.Moved line) x y) (limit : Nat) :
    Moves line (Expr.Moved line) (unary x limit) (unary y limit) := by
  induction limit with
  | zero => exact h
  | succ limit ih =>
    refine (moves_accept? reads_unary?).bind fun _ _ hbuild => ?_
    cases hbuild with
    | some hbuild => exact ih.bind fun _ _ hoperand => .pure (hbuild _ _ hoperand)
    | none => exact h

section
variable {operator? : Token → Option Combine} {x y : Parse Expr}
variable (hoperator : ReadsAlike line (Combines line) operator? operator?)
variable (h : Moves line (Expr.Moved line) x y)
include hoperator h

theorem moves_operations (limit : Nat) {a b : Expr} (hleft : a.Moved line b) :
    Moves line (Expr.Moved line) (operations operator? x limit a)
      (operations operator? y limit b) := by
  induction limit generalizing a b with
  | zero => exact .pure hleft
  | succ limit ih =>
    refine (moves_accept? hoperator).bind fun _ _ hcombine => ?_
    cases hcombine with
    | some hcombine => exact h.bind fun _ _ hright => ih (hcombine _ _ hleft _ _ hright)
    | none => exact .pure hleft

theorem moves_leftAssociative (limit : Nat) :
    Moves line (Expr.Moved line) (leftAssociative operator? x limit)
      (leftAssociative operator? y limit) :=
  h.bind fun _ _ hleft => moves_operations hoperator h limit hleft

end

section
variable {x y : Parse Expr} (h : Moves line (Expr.Moved line) x y) (limit : Nat)
include h

theorem moves_factor : Moves line (Expr.Moved line) (factor limit x) (factor limit y) :=
  moves_leftAssociative (reads_binary? _) (moves_unary (moves_call h limit) limit) limit

theorem moves_term : Moves line (Expr.Moved line) (term limit x) (term limit y) :=
  moves_leftAssociative (reads_binary? _) (moves_factor h limit) limit

theorem moves_comparison : Moves line (Expr.Moved line) (comparison limit x) (comparison limit y) :=
  moves_leftAssociative (reads_binary? _) (moves_term h limit) limit

theorem moves_equality : Moves line (Expr.Moved line) (equality limit x) (equality limit y) :=
  moves_leftAssociative (reads_binary? _) (moves_comparison h limit) limit

theorem moves_conjunction :
    Moves line (Expr.Moved line) (conjunction limit x) (conjunction limit y) :=
  moves_leftAssociative (reads_logical? _ _) (moves_equality h limit) limit

theorem moves_disjunction :
    Moves line (Expr.Moved line) (disjunction limit x) (disjunction limit y) :=
  moves_leftAssociative (reads_logical? _ _) (moves_conjunction h limit) limit

end

/-- A target is moved together with the name or property that is assigned to. -/
theorem moves_assignTo {a b value value' : Expr} (htarget : a.Moved line b) (equals : Token)
    (hvalue : value.Moved line value') :
    Moves line (Expr.Moved line) (assignTo a equals value)
      (assignTo b (equals.onLine line) value') := by
  have hother : Moves line (Expr.Moved line)
      (do record ⟨.invalidAssignmentTarget, equals⟩; return a)
      (do record ⟨.invalidAssignmentTarget, equals.onLine line⟩; return b) :=
    (moves_record ⟨.invalidAssignmentTarget, equals⟩).bind fun _ _ _ => .pure htarget
  -- Trees that are moved into each other have the same form.
  cases a <;> cases b <;> first
    | exact hother
    | cases htarget
    | skip
  case variable.variable _ name _ name' =>
    have hname : name'.onLine id = name.onLine line := (Expr.variable.inj htarget).2
    refine moves_freshId.bind fun _ _ _ => .pure ?_
    exact congrArg₂ (Expr.assign 0) hname hvalue
  case get.get object name object' name' =>
    obtain ⟨hobject, hname⟩ := Expr.get.inj htarget
    unfold Expr.Moved at hvalue
    exact .pure (by simp [Expr.Moved, Expr.onLines, hobject, hname, hvalue])

theorem moves_assignment {x y : Parse Expr} (h : Moves line (Expr.Moved line) x y) (limit : Nat) :
    Moves line (Expr.Moved line) (assignment limit x) (assignment limit y) := by
  refine (moves_disjunction h limit).bind fun _ _ htarget => ?_
  refine (moves_accept? (reads_only _)).bind fun _ _ hequals => ?_
  cases hequals with
  | some hequals =>
    subst hequals
    exact h.bind fun _ _ hvalue => moves_assignTo htarget _ hvalue
  | none => exact .pure htarget

theorem moves_expression (depth : Nat) :
    Moves line (Expr.Moved line) (expression depth) (expression depth) := by
  induction depth with
  | zero => exact moves_fail _
  | succ depth ih => exact moves_assignment ih depth

theorem rel_reduceOption {as bs : List (Option α)} (h : List.Forall₂ (Option.Rel r) as bs) :
    List.Forall₂ r as.reduceOption bs.reduceOption := by
  induction h with
  | nil => exact .nil
  | cons hfirst _ ih =>
    cases hfirst with
    | some hfirst => exact .cons hfirst ih
    | none => exact ih

theorem moved_listOnLines {as bs : List Stmt} (h : List.Forall₂ (Stmt.Moved line) as bs) :
    Stmt.listOnLines id bs = Stmt.listOnLines line as := by
  rw [Stmt.listOnLines_eq_map, Stmt.listOnLines_eq_map]
  exact map_eq_map h

theorem moved_methodsOnLines {as bs : List FunctionDecl}
    (h : List.Forall₂ (FunctionOf.Moved line) as bs) :
    Stmt.methodsOnLines id bs = Stmt.methodsOnLines line as := by
  rw [Stmt.methodsOnLines_eq_map, Stmt.methodsOnLines_eq_map]
  exact map_eq_map h

/-- The parts of a statement are read by steps that do the same. -/
structure Inner.Moves (line : Nat → Nat) (a b : Inner) : Prop where
  limit : b.limit = a.limit
  statement : Parser.Moves line (Stmt.Moved line) a.statement b.statement
  declaration : Parser.Moves line (Option.Rel (Stmt.Moved line)) a.declaration b.declaration

section
variable {a b : Inner} (h : a.Moves line b)
include h

theorem moves_innerExpression : Moves line (Expr.Moved line) a.expression b.expression := by
  unfold Inner.expression
  rw [h.limit]
  exact moves_expression _

theorem moves_block : Moves line (List.Forall₂ (Stmt.Moved line)) (block a) (block b) := by
  unfold block
  rw [h.limit]
  exact (moves_untilRightBrace h.declaration _).bind fun _ _ hbody =>
    (moves_expect _ _).bind fun _ _ _ => .pure (rel_reduceOption hbody)

theorem moves_function (kind : String) :
    Moves line (FunctionOf.Moved line) (function a kind) (function b kind) := by
  unfold function
  rw [h.limit]
  refine (moves_expectName _).bind fun _ _ hname => (moves_expect _ _).bind fun _ _ _ =>
    (moves_listItems _ (moves_expectName _) _).bind fun _ _ hparameters =>
      (moves_expect _ _).bind fun _ _ _ => (moves_expect _ _).bind fun _ _ _ =>
        (moves_block h).bind fun _ _ hbody => .pure ?_
  subst hname
  have hmap : List.map (Name.onLine id) _ = List.map (Name.onLine line) _ := map_eq_map hparameters
  simp only [FunctionOf.Moved, Stmt.functionOnLines, hmap, moved_listOnLines hbody]
  rfl

end

theorem moves_superclass? :
    Moves line (Option.Rel (Superclass.Moved line)) superclass? superclass? :=
  (moves_accept _).bind fun _ _ hless => .ite hless
    ((moves_expectName _).bind fun _ _ hname => moves_freshId.bind fun _ _ _ =>
      .pure (.some hname))
    (.pure .none)

section
variable {a b : Inner} (h : a.Moves line b)
include h

theorem moves_classDeclaration :
    Moves line (Stmt.Moved line) (classDeclaration a) (classDeclaration b) := by
  unfold classDeclaration
  rw [h.limit]
  refine (moves_expectName _).bind fun _ _ hname => moves_superclass?.bind fun _ _ hsuperclass =>
    (moves_expect _ _).bind fun _ _ _ =>
      (moves_untilRightBrace (moves_function h _) _).bind fun _ _ hmethods =>
        (moves_expect _ _).bind fun _ _ _ => .pure ?_
  subst hname
  have hmethods := moved_methodsOnLines hmethods
  cases hsuperclass with
  | none => exact congrArg (Stmt.classDecl _ none) hmethods
  | some hsame =>
    exact congrArg₂ (Stmt.classDecl _) (congrArg (some ∘ Superclass.mk 0) hsame) hmethods

theorem moves_varDeclaration :
    Moves line (Stmt.Moved line) (varDeclaration a) (varDeclaration b) := by
  refine (moves_expectName _).bind fun name _ hname => (moves_accept _).bind fun _ _ hequal => ?_
  subst hname
  have hrest (value value' : Option Expr) (hvalue : Option.Rel (Expr.Moved line) value value') :
      Moves line (Stmt.Moved line)
        (do
          let _ ← expect .semicolon "';' after variable declaration"
          return Stmt.varDecl name value)
        (do
          let _ ← expect .semicolon "';' after variable declaration"
          return Stmt.varDecl (name.onLine line) value') := by
    refine (moves_expect _ _).bind fun _ _ _ => .pure ?_
    exact congrArg (Stmt.varDecl (name.onLine line)) (map_eq_map_option hvalue)
  refine .ite hequal ?_ ?_
  · exact ((moves_innerExpression h).map fun _ _ hvalue => .some hvalue).bind hrest
  · exact (Moves.pure .none).bind hrest

theorem moves_expressionStatement :
    Moves line (Stmt.Moved line) (expressionStatement a) (expressionStatement b) :=
  (moves_innerExpression h).bind fun _ _ hvalue => (moves_expect _ _).bind fun _ _ _ =>
    .pure (congrArg Stmt.expression hvalue)

theorem moves_forInitializer :
    Moves line (Option.Rel (Stmt.Moved line)) (forInitializer a) (forInitializer b) :=
  (moves_accept _).bind fun _ _ hnone => .ite hnone (.pure .none) <|
    (moves_accept _).bind fun _ _ hvar => .ite hvar
      ((moves_varDeclaration h).bind fun _ _ hstmt => .pure (.some hstmt))
      ((moves_expressionStatement h).bind fun _ _ hstmt => .pure (.some hstmt))

theorem moves_unlessNext (closing : Symbol) :
    Moves line (Option.Rel (Expr.Moved line)) (unlessNext a closing) (unlessNext b closing) :=
  (moves_check _).bind fun _ _ hclosed => .ite hclosed (.pure .none)
    ((moves_innerExpression h).bind fun _ _ hvalue => .pure (.some hvalue))

omit h in
theorem moved_forLoop {initializer initializer' : Option Stmt} {condition condition' : Option Expr}
    {increment increment' : Option Expr} {body body' : Stmt}
    (hinitializer : Option.Rel (Stmt.Moved line) initializer initializer')
    (hcondition : Option.Rel (Expr.Moved line) condition condition')
    (hincrement : Option.Rel (Expr.Moved line) increment increment')
    (hbody : body.Moved line body') :
    (forLoop initializer condition increment body).Moved line
      (forLoop initializer' condition' increment' body') := by
  have hcondition : Expr.onLines id (condition'.getD (.literal (.bool true))) =
      Expr.onLines line (condition.getD (.literal (.bool true))) := by
    cases hcondition with
    | some h => exact h
    | none => rfl
  have hbody : Stmt.onLines id body' = Stmt.onLines line body := hbody
  cases hincrement with
  | some hincrement =>
    have hincrement : Expr.onLines id _ = Expr.onLines line _ := hincrement
    cases hinitializer with
    | some hinitializer =>
      have hinitializer : Stmt.onLines id _ = Stmt.onLines line _ := hinitializer
      simp only [forLoop, Stmt.Moved, Stmt.onLines, Stmt.listOnLines, hcondition, hbody,
        hincrement, hinitializer]
    | none =>
      simp only [forLoop, Stmt.Moved, Stmt.onLines, Stmt.listOnLines, hcondition, hbody,
        hincrement]
  | none =>
    cases hinitializer with
    | some hinitializer =>
      have hinitializer : Stmt.onLines id _ = Stmt.onLines line _ := hinitializer
      simp only [forLoop, Stmt.Moved, Stmt.onLines, Stmt.listOnLines, hcondition, hbody,
        hinitializer]
    | none => simp only [forLoop, Stmt.Moved, Stmt.onLines, hcondition, hbody]

theorem moves_forStatement : Moves line (Stmt.Moved line) (forStatement a) (forStatement b) :=
  (moves_expect _ _).bind fun _ _ _ => (moves_forInitializer h).bind fun _ _ hinitializer =>
    (moves_unlessNext h _).bind fun _ _ hcondition => (moves_expect _ _).bind fun _ _ _ =>
      (moves_unlessNext h _).bind fun _ _ hincrement => (moves_expect _ _).bind fun _ _ _ =>
        h.statement.bind fun _ _ hbody =>
          .pure (moved_forLoop hinitializer hcondition hincrement hbody)

theorem moves_ifStatement : Moves line (Stmt.Moved line) (ifStatement a) (ifStatement b) := by
  refine (moves_expect _ _).bind fun _ _ _ => (moves_innerExpression h).bind fun c c' hcondition =>
    (moves_expect _ _).bind fun _ _ _ => h.statement.bind fun t t' hthen =>
      (moves_accept _).bind fun _ _ helse => ?_
  have hrest (e e' : Option Stmt) (hbranch : Option.Rel (Stmt.Moved line) e e') :
      Moves line (Stmt.Moved line) (pure (Stmt.ifElse c t e)) (pure (Stmt.ifElse c' t' e')) := by
    refine .pure ?_
    cases hbranch with
    | none => exact congrArg₂ (Stmt.ifElse · · none) hcondition hthen
    | some hbranch =>
      simp only [Expr.Moved, Stmt.Moved, Stmt.onLines] at hcondition hthen hbranch ⊢
      rw [hcondition, hthen, hbranch]
  refine .ite helse ?_ ?_
  · exact (h.statement.map fun _ _ hbranch => .some hbranch).bind hrest
  · exact (Moves.pure .none).bind hrest

theorem moves_printStatement : Moves line (Stmt.Moved line) (printStatement a) (printStatement b) :=
  (moves_innerExpression h).bind fun _ _ hvalue => (moves_expect _ _).bind fun _ _ _ =>
    .pure (congrArg Stmt.print hvalue)

theorem moves_returnStatement (keyword : Token) :
    Moves line (Stmt.Moved line) (returnStatement a keyword)
      (returnStatement b (keyword.onLine line)) :=
  (moves_unlessNext h _).bind fun _ _ hvalue => (moves_expect _ _).bind fun _ _ _ =>
    .pure (congrArg (Stmt.returnWith _) (map_eq_map_option hvalue))

theorem moves_whileStatement : Moves line (Stmt.Moved line) (whileStatement a) (whileStatement b) :=
  (moves_expect _ _).bind fun _ _ _ => (moves_innerExpression h).bind fun _ _ hcondition =>
    (moves_expect _ _).bind fun _ _ _ => h.statement.bind fun _ _ hbody =>
      .pure (congrArg₂ Stmt.whileLoop hcondition hbody)

theorem moves_anyStatement : Moves line (Stmt.Moved line) (anyStatement a) (anyStatement b) := by
  refine (moves_accept _).bind fun _ _ hfound => .ite hfound (moves_forStatement h) ?_
  refine (moves_accept _).bind fun _ _ hfound => .ite hfound (moves_ifStatement h) ?_
  refine (moves_accept _).bind fun _ _ hfound => .ite hfound (moves_printStatement h) ?_
  refine (moves_accept? (reads_only _)).bind fun _ _ hkeyword => ?_
  cases hkeyword with
  | some hkeyword =>
    subst hkeyword
    exact moves_returnStatement h _
  | none =>
  refine (moves_accept _).bind fun _ _ hfound => .ite hfound (moves_whileStatement h) ?_
  refine (moves_accept _).bind fun _ _ hfound => .ite hfound ?_ (moves_expressionStatement h)
  exact (moves_block h).bind fun _ _ hbody =>
    .pure (congrArg Stmt.block (moved_listOnLines hbody))

end

theorem isEnd_onLine (token : Token) : (token.onLine line).kind.isEnd = token.kind.isEnd := rfl

theorem isSome_only_onLine (symbol : Symbol) (token : Token) :
    (only symbol (token.onLine line)).isSome = (only symbol token).isSome := by
  have hread := @reads_only line symbol token
  generalize only symbol token = before, only symbol (token.onLine line) = after at hread
  cases hread <;> rfl

theorem resume_onLine (previous : Token) (tokens : List Token) :
    resume (previous.onLine line) (tokens.map (Token.onLine line)) =
      (resume previous tokens).map fun (token, rest) =>
        (token.onLine line, rest.map (Token.onLine line)) := by
  induction tokens generalizing previous with
  | nil => rfl
  | cons token rest ih =>
    have hstarts : (token.onLine line).kind.startsStatement = token.kind.startsStatement := rfl
    simp only [List.map_cons, resume, isEnd_onLine, isSome_only_onLine, hstarts, ih]
    split <;> rfl

theorem moves_synchronize : Moves line (fun _ _ => True) synchronize synchronize := by
  intro s t hst
  unfold synchronize
  rw [hst.rest, hst.previous?]
  cases s.rest with
  | nil => exact .error hst
  | cons token rest =>
    simp only [List.map_cons, isEnd_onLine, resume_onLine]
    split
    · cases s.previous? with
      | some previous => exact .ok trivial hst
      | none => exact .error hst
    · cases resume token rest with
      | some result => exact .ok trivial ⟨rfl, rfl, hst.errors⟩
      | none => exact .error hst

theorem moves_recovering {x y : Parse α} (h : Moves line r x y) :
    Moves line (Option.Rel r) (recovering x) (recovering y) := by
  intro s t hst
  have hxy := h s t hst
  unfold recovering
  generalize x s = before, y t = after at hxy
  cases hxy with
  | ok hab hst => exact .ok (.some hab) hst
  | @error stop s t hst =>
    cases stop with
    | error error =>
      have hgo : Moves line (Option.Rel r) (do record error; synchronize; return none)
          (do record (error.onLine line); synchronize; return none) :=
        (moves_record error).bind fun _ _ _ => moves_synchronize.bind fun _ _ _ => .pure .none
      exact hgo s t hst
    | fault fault => exact .error hst

theorem moves_anyDeclaration {a b : Inner} (h : a.Moves line b) :
    Moves line (Option.Rel (Stmt.Moved line)) (anyDeclaration a) (anyDeclaration b) := by
  refine moves_recovering ?_
  refine (moves_accept _).bind fun _ _ hfound => .ite hfound (moves_classDeclaration h) ?_
  refine (moves_accept _).bind fun _ _ hfound => .ite hfound ?_ ?_
  · exact (moves_function h _).bind fun _ _ hfunction => .pure (congrArg Stmt.funDecl hfunction)
  · exact (moves_accept _).bind fun _ _ hfound =>
      .ite hfound (moves_varDeclaration h) (moves_anyStatement h)

theorem moves_innerAt (depth : Nat) : (innerAt depth).Moves line (innerAt depth) := by
  induction depth with
  | zero => exact ⟨rfl, moves_fail _, moves_recovering (moves_fail _)⟩
  | succ depth ih => exact ⟨rfl, moves_anyStatement ih, moves_anyDeclaration ih⟩

theorem moves_declarations (depth limit : Nat) :
    Moves line (List.Forall₂ (Stmt.Moved line)) (declarations depth limit)
      (declarations depth limit) := by
  induction limit with
  | zero => exact .pure .nil
  | succ limit ih =>
    refine moves_atEnd.bind fun _ _ hended => .ite hended (.pure .nil) ?_
    refine (moves_innerAt depth).declaration.bind fun _ _ hfirst => ih.bind fun _ _ hrest =>
      .pure ?_
    cases hfirst with
    | some hfirst => exact .cons hfirst hrest
    | none => exact hrest

end Parser

/-- Tokens on other lines give the same program on the other lines, whatever the numbers of the
references, and the same errors at the tokens on the other lines. -/
theorem Program.ofTokens_onLine {tokens : List Token} (first second : NodeId) :
    Stmt.listOnLines id (ofTokens (tokens.map (Token.onLine line)) second).statements =
        Stmt.listOnLines line (ofTokens tokens first).statements ∧
      (ofTokens (tokens.map (Token.onLine line)) second).errors =
        (ofTokens tokens first).errors.map (SyntaxError.onLine line) ∧
      (ofTokens (tokens.map (Token.onLine line)) second).fault? =
        (ofTokens tokens first).fault? := by
  have hmoves := @Parser.moves_declarations line tokens.length (tokens.length + 1)
    { rest := tokens, next := first } { rest := tokens.map (Token.onLine line), next := second }
    ⟨rfl, rfl, by simp⟩
  simp only [ofTokens, List.length_map]
  generalize Parser.declarations tokens.length (tokens.length + 1)
    { rest := tokens, next := first } = before at hmoves
  generalize Parser.declarations tokens.length (tokens.length + 1)
    { rest := tokens.map (Token.onLine line), next := second } = after at hmoves
  cases hmoves with
  | ok hbody hst =>
    refine ⟨Parser.moved_listOnLines hbody, ?_, rfl⟩
    simp [hst.errors]
  | @error stop s t hst =>
    cases stop with
    | error error =>
      refine ⟨rfl, ?_, rfl⟩
      simp [Parser.Stop.onLine, hst.errors]
    | fault fault =>
      refine ⟨rfl, ?_, rfl⟩
      simp [Parser.Stop.onLine, hst.errors]

/-- The numbers that references get have no influence on anything else. -/
theorem Program.ofTokens_unnumbered (tokens : List Token) (first second : NodeId) :
    Stmt.listUnnumbered (ofTokens tokens second).statements =
        Stmt.listUnnumbered (ofTokens tokens first).statements ∧
      (ofTokens tokens second).errors = (ofTokens tokens first).errors := by
  have htokens : tokens.map (Token.onLine id) = tokens := List.map_id tokens
  obtain ⟨hstatements, herrors, -⟩ := @ofTokens_onLine id tokens first second
  rw [htokens] at hstatements herrors
  rw [Stmt.listOnLines_id, Stmt.listOnLines_id] at hstatements
  exact ⟨hstatements, herrors.trans (List.map_id _)⟩

end Lox
