import Lox.Proofs.Token.Joining
import Lox.Proofs.Token.MaximalMunch

/-!
# Scanning the tokens again

White space ends a token and adds none. So the lexemes of a source with white space between them are
a source with the same tokens, whatever white space it is. Only their lines are other ones.
-/
namespace Lox

/-- Lexemes one after the other, with a separator between each two. -/
def spaced : (lexemes separators : List String) → String
  | [], _ => ""
  | [lexeme], _ => lexeme
  | lexeme :: lexemes, separators =>
    lexeme ++ separators.headD "" ++ spaced lexemes separators.tail

theorem spaced_cons (lexeme separator : String) {lexemes : List String} (h : lexemes ≠ [])
    (separators : List String) :
    spaced (lexeme :: lexemes) (separator :: separators) =
      lexeme ++ separator ++ spaced lexemes separators := by
  obtain ⟨next, lexemes, rfl⟩ := List.exists_cons_of_ne_nil h
  rfl

theorem lineBreaks_append (first second : String) :
    lineBreaks (first ++ second) = lineBreaks first + lineBreaks second := by
  simp [lineBreaks]

namespace Lexer
variable {c : Char} {cs rest : List Char}

/-- There is nothing, or white space comes first. -/
def Parted (rest : List Char) : Prop := ∀ b ∈ rest.head?, isBlank b = true

/-- A token is cut off whole in front of white space. -/
theorem pieces_token {span : List Char} {kind : Kind} (h : Lexeme span (.token kind))
    (hrest : Parted rest) : pieces (span ++ rest) = ⟨span, .token kind⟩ :: pieces rest := by
  obtain ⟨c, cs, rfl⟩ := List.exists_cons_of_ne_nil h.ne_nil
  have hself := h.next_eq
  have hnext : next c (cs ++ rest) = ⟨c :: cs, .token kind⟩ := by
    cases rest with
    | nil => rw [List.append_nil, hself]
    | cons b rest =>
      rw [next_break rest (hrest b rfl), hself]
      · rw [hself]
        exact fun cause hcause => by cases hcause
      · rw [hself]
        exact .inr fun hblank => by cases hblank
  rw [List.cons_append, pieces_cons, hnext]
  simp

theorem pieces_blank (c : Char) (h : isBlank c = true) (rest : List Char) :
    pieces (c :: rest) = ⟨[c], .blank⟩ :: pieces rest := by
  have hnext : next c rest = ⟨[c], .blank⟩ := by
    unfold next
    rw [if_pos h]
  rw [pieces_cons, hnext]
  rfl

/-- White space moves the lines and has no items. -/
theorem itemsFrom_blank (line : Nat) {blank : List Char} (h : ∀ c ∈ blank, isBlank c = true)
    (rest : List Char) :
    itemsFrom line (pieces (blank ++ rest)) = itemsFrom (line + blank.count '\n') (pieces rest) := by
  induction blank generalizing line with
  | nil => rfl
  | cons c blank ih =>
    rw [List.forall_mem_cons] at h
    rw [List.cons_append, pieces_blank c h.1, itemsFrom, ih _ h.2, Nat.add_assoc,
      ← List.count_append]
    rfl

theorem itemsFrom_token (line : Nat) {token : Token}
    (h : Lexeme token.lexeme.toList (.token token.kind)) (hrest : Parted rest) :
    itemsFrom line (pieces (token.lexeme.toList ++ rest)) =
      .ok (token.onLine fun _ => line + lineBreaks token.lexeme) ::
        itemsFrom (line + lineBreaks token.lexeme) (pieces rest) := by
  rw [pieces_token h hrest, itemsFrom]
  simp [Piece.item?, lineBreaks, Token.onLine]

/-- What follows a token begins with its separator, or it is the end. -/
theorem parted_separator {separator : String} {separators lexemes : List String}
    (hblank : ∀ c ∈ separator.toList, isBlank c = true)
    (hsome : ∀ s ∈ (separator :: separators).dropLast, s ≠ "")
    (hlength : separators.length + 1 = lexemes.length) (hlast : lexemes.getLast? = some "") :
    Parted (separator.toList ++ (spaced lexemes separators).toList) := by
  intro b hb
  cases hseparator : separator.toList with
  | cons d ds =>
    rw [hseparator] at hb
    obtain rfl : d = b := by simpa using hb
    exact hblank d (by rw [hseparator]; exact List.mem_cons_self)
  | nil =>
    cases separators with
    | cons other separators =>
      exact absurd (String.toList_eq_nil_iff.mp hseparator) (hsome separator (by simp))
    | nil =>
      obtain ⟨lexeme, rfl⟩ := List.length_eq_one_iff.mp hlength.symm
      obtain rfl : lexeme = "" := by simpa using hlast
      rw [hseparator] at hb
      cases hb

/-- The items of tokens with white space between them: the tokens, each on the line on which it
ends. -/
theorem items_spaced (line last : Nat) {front : List Token} {separators : List String}
    (hfront : ∀ token ∈ front, Lexeme token.lexeme.toList (.token token.kind))
    (hlength : separators.length = front.length)
    (hblank : ∀ s ∈ separators, ∀ c ∈ s.toList, isBlank c = true)
    (hsome : ∀ s ∈ separators.dropLast, s ≠ "") :
    let all := front ++ [.endOfInput last]
    let lexemes := all.map Token.lexeme
    ∃ again : List Token,
      itemsFrom line (pieces (spaced lexemes separators).toList) = again.map .ok ∧
        ∀ i : Nat, again[i]? = all[i]?.map
          (Token.onLine fun _ => line + lineBreaks (spaced (lexemes.take (i + 1)) separators)) := by
  induction front generalizing line separators with
  | nil =>
    refine ⟨[.endOfInput line], rfl, fun i => ?_⟩
    cases i with
    | zero => rfl
    | succ i => rfl
  | cons token front ih =>
    obtain ⟨separator, separators, rfl⟩ := List.exists_cons_of_length_eq_add_one hlength
    rw [List.forall_mem_cons] at hfront hblank
    have hlater : ∀ s ∈ separators.dropLast, s ≠ "" := by
      intro s hs
      refine hsome s ?_
      rw [List.dropLast_cons_of_ne_nil fun hnil => by simp [hnil] at hs]
      exact List.mem_cons_of_mem _ hs
    obtain ⟨again, hitems, hagain⟩ :=
      ih (line + lineBreaks token.lexeme + lineBreaks separator) hfront.2 (Nat.succ.inj hlength)
        hblank.2 hlater
    intro all lexemes
    let later : List String := (front ++ [Token.endOfInput last]).map Token.lexeme
    have hlexemes : lexemes = token.lexeme :: later := rfl
    have hparted : Parted (separator.toList ++ (spaced later separators).toList) := by
      refine parted_separator hblank.1 hsome ?_ ?_
      · simpa [later] using hlength
      · simp [later, Token.endOfInput]
    refine ⟨token.onLine (fun _ => line + lineBreaks token.lexeme) :: again, ?_, fun i => ?_⟩
    · rw [hlexemes, spaced_cons _ _ (by simp [later]), String.toList_append, String.toList_append,
        List.append_assoc, itemsFrom_token line hfront.1 hparted, itemsFrom_blank _ hblank.1]
      exact congrArg _ hitems
    · cases i with
      | zero => rfl
      | succ i =>
        have htake : lexemes.take (i + 2) = token.lexeme :: later.take (i + 1) := rfl
        rw [htake, spaced_cons _ _ (by simp [later]), lineBreaks_append, lineBreaks_append,
          ← Nat.add_assoc, ← Nat.add_assoc]
        exact hagain i

/-- The lexemes of a source with white space between each two of them are a source without lexical
errors that has the same tokens, each on the line on which it ends there. In front of the end of the
input the white space may be missing. -/
theorem tokens_rescanned (source : String) {separators : List String}
    (hlength : separators.length + 1 = (tokens (items source)).length)
    (hblank : ∀ s ∈ separators, ∀ c ∈ s.toList, isBlank c = true)
    (hsome : ∀ s ∈ separators.dropLast, s ≠ "") :
    let lexemes := (tokens (items source)).map Token.lexeme
    let text := spaced lexemes separators
    errors (items text) = [] ∧ ∀ i : Nat, (tokens (items text))[i]? = (tokens (items source))[i]?.map
      fun token => { token with
        line := 1 + lineBreaks (spaced (lexemes.take (i + 1)) separators) } := by
  obtain ⟨front, last, htokens, hregular⟩ := tokens_items source
  have hfront : ∀ token ∈ front, Lexeme token.lexeme.toList (.token token.kind) := by
    intro token htoken
    have hmem : token ∈ tokens (items source) := by
      rw [htokens]
      exact List.mem_append_left _ htoken
    obtain ⟨hend, -⟩ | hlexeme := lexeme_of_mem_tokens hmem
    · have hnot := (hregular token htoken).1
      rw [hend] at hnot
      cases hnot
    · exact hlexeme
  rw [htokens] at hlength ⊢
  rw [List.length_append] at hlength
  obtain ⟨again, hitems, hagain⟩ :=
    items_spaced 1 last hfront (Nat.succ.inj hlength) hblank hsome
  intro lexemes text
  have hscanned : items text = again.map .ok := hitems
  rw [hscanned]
  constructor
  · simp [errors, List.filterMap_map]
  · have hself : tokens (again.map .ok) = again := by
      simp [tokens, List.filterMap_map, Except.toOption, Function.comp_def]
    rw [hself]
    exact hagain

/-- Tokens of which several would be others without anything between them. -/
def touchingSource : String := "a/**/1 .5/ /\"//*\"!= ="

/-- Their lines are counted anew. -/
theorem tokens_rescanned_touching :
    let lexemes := (tokens (items touchingSource)).map Token.lexeme
    let separators := ["\n", "\n", " ", "\t", " ", " ", "\r\n", "  ", ""]
    let text := spaced lexemes separators
    (separators.length + 1 = (tokens (items touchingSource)).length ∧
      (∀ s ∈ separators, ∀ c ∈ s.toList, isBlank c = true) ∧
      ∀ s ∈ separators.dropLast, s ≠ "") ∧
    errors (items text) = [] ∧
    (tokens (items text))[7]?.map (fun token => (token.lexeme, token.line)) = some ("!=", 4) := by
  intro lexemes separators text
  have hlength : separators.length + 1 = (tokens (items touchingSource)).length := by
    decide +kernel
  have hblank : ∀ s ∈ separators, ∀ c ∈ s.toList, isBlank c = true := by
    simp [separators, isBlank]
  have hsome : ∀ s ∈ separators.dropLast, s ≠ "" := by decide
  obtain ⟨herrors, htokens⟩ := tokens_rescanned touchingSource hlength hblank hsome
  refine ⟨⟨hlength, hblank, hsome⟩, herrors, ?_⟩
  rw [htokens 7]
  decide +kernel

end Lexer
end Lox
