import Lox.Proofs.Grammar.Rules

/-!
# The nearest `if`

Whatever tokens are derivable at all are derivable with each `else` as that of the nearest `if`
that has none. An `else` that was that of an outer `if` is moved inwards, which changes the tree
and leaves the tokens as they are.
-/
namespace Lox.Grammar

/-- An `else` behind an open statement is that of an `if` in it. -/
theorem Statement.attach {tokens elses : List Token} {stmt elseBranch : Stmt} {isOpen otherOpen : Bool}
    {otherwise : Token} (h : Statement true isOpen tokens stmt) (hopen : isOpen = true)
    (isElse : otherwise.kind = .symbol .kwElse) (other : Statement true otherOpen elses elseBranch) :
    ∃ isOpen' stmt', Statement true isOpen' (tokens ++ otherwise :: elses) stmt' := by
  match h with
  | @ifThen _ _ _ _ _ _ _ _ true isIf opens test closes branch =>
    obtain ⟨_, stmt', hstmt'⟩ := branch.attach rfl isElse other
    exact ⟨_, _, by simpa using Statement.ifThen isIf opens test closes hstmt'⟩
  | @ifThen _ _ _ _ _ _ _ _ false isIf opens test closes branch =>
    exact ⟨_, _, by
      simpa using Statement.ifElse isIf opens test closes branch (fun _ => rfl) isElse other⟩
  | .ifElse isIf opens test closes branch isNearest isElse' other' =>
    obtain ⟨_, stmt', hstmt'⟩ := other'.attach hopen isElse other
    exact ⟨_, _, by
      simpa using Statement.ifElse isIf opens test closes branch isNearest isElse' hstmt'⟩
  | .whileLoop isWhile opens test closes repeats =>
    obtain ⟨_, stmt', hstmt'⟩ := repeats.attach hopen isElse other
    exact ⟨_, _, by simpa using Statement.whileLoop isWhile opens test closes hstmt'⟩
  | .forLoop isFor opens start test ends step closes repeats =>
    obtain ⟨_, stmt', hstmt'⟩ := repeats.attach hopen isElse other
    exact ⟨_, _, by simpa using Statement.forLoop isFor opens start test ends step closes hstmt'⟩
  | .evaluated _ | .print _ _ _ | .returnWith _ _ _ | .block _ _ _ => exact nomatch hopen

mutual

/-- The same tokens as a statement in which each `else` is that of the nearest `if`. -/
theorem Statement.toNearest {nearest isOpen : Bool} {tokens : List Token} {stmt : Stmt}
    (h : Statement nearest isOpen tokens stmt) :
    ∃ isOpen' stmt', Statement true isOpen' tokens stmt' := by
  match h with
  | .evaluated statement => exact ⟨_, _, .evaluated statement⟩
  | .print isPrint value ends => exact ⟨_, _, .print isPrint value ends⟩
  | .returnWith isReturn result ends => exact ⟨_, _, .returnWith isReturn result ends⟩
  | .block opens declarations closes =>
    obtain ⟨body, hbody⟩ := many_toNearest declarations
    exact ⟨_, _, .block opens hbody closes⟩
  | .ifThen isIf opens test closes branch =>
    obtain ⟨_, _, hbranch⟩ := branch.toNearest
    exact ⟨_, _, .ifThen isIf opens test closes hbranch⟩
  | .ifElse isIf opens test closes branch _ isElse other =>
    obtain ⟨thenOpen, _, hbranch⟩ := branch.toNearest
    obtain ⟨_, _, hother⟩ := other.toNearest
    cases thenOpen with
    | false => exact ⟨_, _, .ifElse isIf opens test closes hbranch (fun _ => rfl) isElse hother⟩
    | true =>
      obtain ⟨_, _, hboth⟩ := hbranch.attach rfl isElse hother
      exact ⟨_, _, .ifThen isIf opens test closes hboth⟩
  | .whileLoop isWhile opens test closes repeats =>
    obtain ⟨_, _, hrepeats⟩ := repeats.toNearest
    exact ⟨_, _, .whileLoop isWhile opens test closes hrepeats⟩
  | .forLoop isFor opens start test ends step closes repeats =>
    obtain ⟨_, _, hrepeats⟩ := repeats.toNearest
    exact ⟨_, _, .forLoop isFor opens start test ends step closes hrepeats⟩

theorem Declaration.toNearest {nearest : Bool} {tokens : List Token} {stmt : Stmt}
    (h : Declaration nearest tokens stmt) : ∃ stmt', Declaration true tokens stmt' := by
  match h with
  | .varDecl declaration => exact ⟨_, .varDecl declaration⟩
  | .funDecl isFun declaration =>
    obtain ⟨_, hdeclaration⟩ := declaration.toNearest
    exact ⟨_, .funDecl isFun hdeclaration⟩
  | .classDecl isClass isName inherits opens declarations closes =>
    obtain ⟨_, hmethods⟩ := manyFunctions_toNearest declarations
    exact ⟨_, .classDecl isClass isName inherits opens hmethods closes⟩
  | .statement statement =>
    obtain ⟨_, _, hstatement⟩ := statement.toNearest
    exact ⟨_, .statement hstatement⟩

theorem Function.toNearest {nearest : Bool} {tokens : List Token} {f : FunctionDecl}
    (h : Function nearest tokens f) : ∃ f', Function true tokens f' := by
  match h with
  | .mk isName opens items closes begins declarations ends =>
    obtain ⟨_, hbody⟩ := many_toNearest declarations
    exact ⟨_, .mk isName opens items closes begins hbody ends⟩

theorem many_toNearest {nearest : Bool} {tokens : List Token} {body : List Stmt}
    (h : Many (Declaration nearest) tokens body) :
    ∃ body', Many (Declaration true) tokens body' := by
  match h with
  | .nil => exact ⟨_, .nil⟩
  | .cons first others =>
    obtain ⟨_, hfirst⟩ := first.toNearest
    obtain ⟨_, hothers⟩ := many_toNearest others
    exact ⟨_, .cons hfirst hothers⟩

theorem manyFunctions_toNearest {nearest : Bool} {tokens : List Token} {methods : List FunctionDecl}
    (h : Many (Function nearest) tokens methods) :
    ∃ methods', Many (Function true) tokens methods' := by
  match h with
  | .nil => exact ⟨_, .nil⟩
  | .cons first others =>
    obtain ⟨_, hfirst⟩ := first.toNearest
    obtain ⟨_, hothers⟩ := manyFunctions_toNearest others
    exact ⟨_, .cons hfirst hothers⟩

end

mutual

/-- A statement in which each `else` is that of the nearest `if` is a statement. -/
theorem Statement.ofNearest {isOpen : Bool} {tokens : List Token} {stmt : Stmt} (nearest : Bool)
    (h : Statement true isOpen tokens stmt) : Statement nearest isOpen tokens stmt := by
  match h with
  | .evaluated statement => exact .evaluated statement
  | .print isPrint value ends => exact .print isPrint value ends
  | .returnWith isReturn result ends => exact .returnWith isReturn result ends
  | .block opens declarations closes =>
    exact .block opens (many_ofNearest nearest declarations) closes
  | .ifThen isIf opens test closes branch =>
    exact .ifThen isIf opens test closes (branch.ofNearest nearest)
  | .ifElse isIf opens test closes branch isNearest isElse other =>
    exact .ifElse isIf opens test closes (branch.ofNearest nearest) (fun _ => isNearest rfl) isElse
      (other.ofNearest nearest)
  | .whileLoop isWhile opens test closes repeats =>
    exact .whileLoop isWhile opens test closes (repeats.ofNearest nearest)
  | .forLoop isFor opens start test ends step closes repeats =>
    exact .forLoop isFor opens start test ends step closes (repeats.ofNearest nearest)

theorem Declaration.ofNearest {tokens : List Token} {stmt : Stmt} (nearest : Bool)
    (h : Declaration true tokens stmt) : Declaration nearest tokens stmt := by
  match h with
  | .varDecl declaration => exact .varDecl declaration
  | .funDecl isFun declaration => exact .funDecl isFun (declaration.ofNearest nearest)
  | .classDecl isClass isName inherits opens declarations closes =>
    exact .classDecl isClass isName inherits opens (manyFunctions_ofNearest nearest declarations) closes
  | .statement statement => exact .statement (statement.ofNearest nearest)

theorem Function.ofNearest {tokens : List Token} {f : FunctionDecl} (nearest : Bool)
    (h : Function true tokens f) : Function nearest tokens f := by
  match h with
  | .mk isName opens items closes begins declarations ends =>
    exact .mk isName opens items closes begins (many_ofNearest nearest declarations) ends

theorem many_ofNearest {tokens : List Token} {body : List Stmt} (nearest : Bool)
    (h : Many (Declaration true) tokens body) : Many (Declaration nearest) tokens body := by
  match h with
  | .nil => exact .nil
  | .cons first others => exact .cons (first.ofNearest nearest) (many_ofNearest nearest others)

theorem manyFunctions_ofNearest {tokens : List Token} {methods : List FunctionDecl} (nearest : Bool)
    (h : Many (Function true) tokens methods) : Many (Function nearest) tokens methods := by
  match h with
  | .nil => exact .nil
  | .cons first others =>
    exact .cons (first.ofNearest nearest) (manyFunctions_ofNearest nearest others)

end

end Lox.Grammar
