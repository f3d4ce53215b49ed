import Lox.Proofs.Token.Pieces
import Mathlib.Data.List.TakeWhile

/-!
# The lexical grammar

What the lexemes of the language are, without a word on how they are found: white space, comments,
the symbols, strings, numbers and identifiers, each with what it stands for. Strings and block
comments can also be opened and not be closed. `Munch` says which piece is cut off the characters
that are left: all of them where something is not closed, else the longest of the lexemes at their
start, else one character that no lexeme starts with. `next` cuts off that piece and no other. So
the text of a token tells its kind.
-/
namespace Lox.Lexer

/-- What follows the opener of a block comment, up to and with the closer that belongs to it. -/
inductive Inside : List Char → Prop
  | closer : Inside ['*', '/']
  | plain {c : Char} {cs : List Char} : ¬ ['/', '*'] <+: c :: cs → ¬ ['*', '/'] <+: c :: cs →
      Inside cs → Inside (c :: cs)
  | nested {inner cs : List Char} : Inside inner → Inside cs →
      Inside ('/' :: '*' :: (inner ++ cs))

/-- The lexemes of the language. -/
inductive Lexeme : List Char → Content → Prop
  | white {c : Char} : c ∈ [' ', '\r', '\t', '\n'] → Lexeme [c] .blank
  | lineComment {text : List Char} : '\n' ∉ text → Lexeme ('/' :: '/' :: text) .blank
  | blockComment {inner : List Char} : Inside inner → Lexeme ('/' :: '*' :: inner) .blank
  /-- Operators, punctuation and reserved words. -/
  | symbol (symbol : Symbol) : Lexeme symbol.lexeme.toList (.token (.symbol symbol))
  | string {text : List Char} : '"' ∉ text →
      Lexeme ('"' :: (text ++ ['"'])) (.token (.string (String.ofList text)))
  | integer {whole : List Char} : whole ≠ [] → (∀ d ∈ whole, d.isDigit = true) →
      Lexeme whole (.token (.number (Number.ofLiteral whole [])))
  | decimal {whole fraction : List Char} : whole ≠ [] → (∀ d ∈ whole, d.isDigit = true) →
      fraction ≠ [] → (∀ d ∈ fraction, d.isDigit = true) →
      Lexeme (whole ++ '.' :: fraction) (.token (.number (Number.ofLiteral whole fraction)))
  | identifier {c : Char} {cs : List Char} : isWordStart c = true →
      (∀ d ∈ cs, isWordPart d = true) →
      (∀ symbol ∈ Symbol.reservedWords, (c :: cs) ≠ symbol.lexeme.toList) →
      Lexeme (c :: cs) (.token .identifier)

/-- What is opened at the start of the characters and not closed in them. -/
inductive Unclosed : List Char → LexError.Cause → Prop
  | string {text : List Char} : '"' ∉ text → Unclosed ('"' :: text) .unterminatedString
  | comment {text : List Char} : (∀ inner, Inside inner → ¬ inner <+: text) →
      Unclosed ('/' :: '*' :: text) .unterminatedComment

/-- The piece to be cut off the characters that are left. -/
inductive Munch : List Char → Piece → Prop
  | lexeme {rest : List Char} {piece : Piece} : (∀ cause, ¬ Unclosed rest cause) →
      Lexeme piece.span piece.content → piece.span <+: rest →
      (∀ span content, Lexeme span content → span <+: rest → span.length ≤ piece.span.length) →
      Munch rest piece
  | unclosed {rest : List Char} {cause : LexError.Cause} : Unclosed rest cause →
      Munch rest ⟨rest, .error cause⟩
  | unexpected {c : Char} {cs : List Char} : (∀ cause, ¬ Unclosed (c :: cs) cause) →
      (∀ span content, Lexeme span content → ¬ span <+: c :: cs) →
      Munch (c :: cs) ⟨[c], .error .unexpectedCharacter⟩

variable {c : Char} {cs : List Char}

theorem Inside.ne_nil {inner : List Char} (h : Inside inner) : inner ≠ [] := by
  cases h <;> simp

/-- Two characters are at the start of a longer row if they are at the start of a row of two. -/
theorem pair_prefix_append {a b : Char} {rest : List Char} (h : cs ≠ []) :
    [a, b] <+: c :: (cs ++ rest) ↔ [a, b] <+: c :: cs := by
  obtain ⟨d, cs, rfl⟩ := List.exists_cons_of_ne_nil h
  simp [List.cons_prefix_cons]

theorem commentRest?_plain {depth : Nat} (hopens : ¬ ['/', '*'] <+: c :: cs)
    (hcloses : ¬ ['*', '/'] <+: c :: cs) :
    commentRest? (depth + 1) (c :: cs) = (commentRest? (depth + 1) cs).map (c :: ·) := by
  rw [commentRest?]
  · rintro rest rfl rfl
    exact hopens (by simp)
  · rintro rest rfl rfl
    exact hcloses (by simp)

/-- Once a comment has been closed, what encloses it goes on. -/
theorem commentRest?_inside {inner : List Char} (h : Inside inner) (depth : Nat)
    (rest : List Char) :
    commentRest? (depth + 1) (inner ++ rest) = (commentRest? depth rest).map (inner ++ ·) := by
  induction h generalizing depth rest with
  | closer => rfl
  | plain hopens hcloses hinside ih =>
    rw [List.cons_append, commentRest?_plain, ih, Option.map_map]
    · rfl
    · rwa [pair_prefix_append hinside.ne_nil]
    · rwa [pair_prefix_append hinside.ne_nil]
  | nested _ _ ihinner ih =>
    rw [List.cons_append, List.cons_append, List.append_assoc, commentRest?, ihinner, ih,
      Option.map_map, Option.map_map]
    congr 1
    funext more
    simp

/-- What is left inside some openers closes one after the other. -/
theorem exists_inside_of_commentRest? {depth : Nat} {rest : List Char}
    (h : commentRest? depth cs = some rest) :
    ∃ parts : List (List Char), parts.length = depth ∧ (∀ part ∈ parts, Inside part) ∧
      parts.flatten = rest := by
  fun_induction commentRest? depth cs generalizing rest with
  | case1 =>
    obtain rfl : [] = rest := by simpa using h
    exact ⟨[], rfl, by simp, rfl⟩
  | case2 => simp at h
  | case3 depth cs ih =>
    obtain ⟨more, hmore, rfl⟩ := Option.map_eq_some_iff.mp h
    obtain ⟨parts, hlength, hinside, rfl⟩ := ih hmore
    obtain ⟨inner, parts, rfl⟩ := List.exists_cons_of_length_eq_add_one hlength
    obtain ⟨outer, parts, rfl⟩ := List.exists_cons_of_length_eq_add_one (Nat.succ.inj hlength)
    simp only [List.forall_mem_cons] at hinside
    refine ⟨('/' :: '*' :: (inner ++ outer)) :: parts, by simpa using hlength, ?_, by simp⟩
    exact List.forall_mem_cons.mpr ⟨.nested hinside.1 hinside.2.1, hinside.2.2⟩
  | case4 depth cs ih =>
    obtain ⟨more, hmore, rfl⟩ := Option.map_eq_some_iff.mp h
    obtain ⟨parts, hlength, hinside, rfl⟩ := ih hmore
    exact ⟨['*', '/'] :: parts, by simp [hlength], List.forall_mem_cons.mpr ⟨.closer, hinside⟩, rfl⟩
  | case5 depth c cs hopens hcloses ih =>
    obtain ⟨more, hmore, rfl⟩ := Option.map_eq_some_iff.mp h
    obtain ⟨parts, hlength, hinside, rfl⟩ := ih hmore
    obtain ⟨part, parts, rfl⟩ := List.exists_cons_of_length_eq_add_one hlength
    rw [List.forall_mem_cons] at hinside
    obtain ⟨after, rfl⟩ := prefix_of_commentRest? hmore
    have hpart : part ≠ [] := hinside.1.ne_nil
    refine ⟨(c :: part) :: parts, hlength, List.forall_mem_cons.mpr ⟨?_, hinside.2⟩, rfl⟩
    rw [List.flatten_cons, List.append_assoc] at hopens hcloses
    refine .plain ?_ ?_ hinside.1
    · rw [← pair_prefix_append hpart]
      rintro ⟨rest, hrest⟩
      exact hopens rest (List.cons.inj hrest).1.symm (List.cons.inj hrest).2.symm
    · rw [← pair_prefix_append hpart]
      rintro ⟨rest, hrest⟩
      exact hcloses rest (List.cons.inj hrest).1.symm (List.cons.inj hrest).2.symm

/-- A comment that has just been opened goes up to the closer that belongs to it. -/
theorem commentRest?_one {inner : List Char} :
    commentRest? 1 cs = some inner ↔ Inside inner ∧ inner <+: cs := by
  constructor
  · intro h
    refine ⟨?_, prefix_of_commentRest? h⟩
    obtain ⟨parts, hlength, hinside, rfl⟩ := exists_inside_of_commentRest? h
    obtain ⟨part, rfl⟩ := List.length_eq_one_iff.mp hlength
    simpa using hinside part (List.mem_singleton_self part)
  · rintro ⟨hinside, rest, rfl⟩
    rw [commentRest?_inside hinside]
    simp [commentRest?]

theorem prefix_takeWhile {p : Char → Bool} {front : List Char} (hfront : ∀ d ∈ front, p d = true)
    (h : front <+: cs) : front <+: cs.takeWhile p := by
  obtain ⟨rest, rfl⟩ := h
  rw [List.takeWhile_append_of_pos hfront]
  exact List.prefix_append ..

/-- A row of characters of one kind that goes up to one of another kind. -/
theorem takeWhile_append_cons {p : Char → Bool} {front : List Char}
    (hfront : ∀ d ∈ front, p d = true) (hc : p c = false) :
    (front ++ c :: cs).takeWhile p = front := by
  rw [List.takeWhile_append_of_pos hfront, List.takeWhile_cons_of_neg (by simp [hc]),
    List.append_nil]

theorem dropWhile_append_cons {p : Char → Bool} {front : List Char}
    (hfront : ∀ d ∈ front, p d = true) (hc : p c = false) :
    (front ++ c :: cs).dropWhile p = c :: cs := by
  rw [List.dropWhile_append_of_pos hfront, List.dropWhile_cons_of_neg (by simp [hc])]

theorem next_slash : next '/' cs =
    (comment? cs).getD ((symbol? '/' cs).getD ⟨['/'], .error .unexpectedCharacter⟩) := by
  simp only [next]
  cases comment? cs <;> rfl

theorem next_digit (h : c.isDigit = true) : next c cs = number (c :: cs) := by
  have hblank : isBlank c = false := isBlank_eq_false_of (by decide) h
  have hquote : c ≠ '"' := by
    rintro rfl
    exact absurd h (by decide)
  simp [next, hblank, hquote, h]

theorem isDigit_of_isWordStart (h : isWordStart c = true) : c.isDigit = false := by
  rw [Bool.eq_false_iff]
  intro hdigit
  have halpha : c.isAlpha = true ∨ c = '_' := by simpa [isWordStart] using h
  obtain halpha | rfl := halpha
  · unfold Char.isAlpha Char.isUpper Char.isLower at halpha
    simp only [Char.isDigit, Bool.or_eq_true, Bool.and_eq_true, decide_eq_true_eq, ge_iff_le,
      UInt32.le_iff_toNat_le] at hdigit halpha
    simp at hdigit halpha
    omega
  · exact absurd hdigit (by decide)

theorem next_wordStart (h : isWordStart c = true) : next c cs = word (c :: cs) := by
  have hblank : isBlank c = false := isBlank_eq_false_of (by decide) h
  have hquote : c ≠ '"' := by
    rintro rfl
    exact absurd h (by decide)
  simp [next, hblank, hquote, isDigit_of_isWordStart h, h]

theorem next_mark {symbol : Symbol} (h : single? c = some symbol) (hslash : c ≠ '/') :
    symbol? c cs = some (next c cs) := by
  have hsome : ∃ piece, symbol? c cs = some piece := by
    unfold symbol?
    split
    · exact ⟨_, rfl⟩
    · exact ⟨_, by rw [h]; rfl⟩
  obtain ⟨piece, hpiece⟩ := hsome
  have hnext : next c cs = (symbol? c cs).getD ⟨[c], .error .unexpectedCharacter⟩ := by
    unfold single? at h
    split at h <;> first | rfl | exact absurd rfl hslash | cases h
  rw [hnext, hpiece, Option.getD_some]

theorem string_of_not_mem (h : '"' ∉ cs) :
    string cs = ⟨'"' :: cs, .error .unterminatedString⟩ := by
  have hself : cs.takeWhile (· != '"') = cs := by
    rw [List.takeWhile_eq_self_iff]
    rintro d hd
    simpa using ne_of_mem_of_not_mem hd h
  simp [string, hself]

theorem string_append {text : List Char} (h : '"' ∉ text) (rest : List Char) :
    string (text ++ '"' :: rest) =
      ⟨'"' :: (text ++ ['"']), .token (.string (String.ofList text))⟩ := by
  have htext : (text ++ '"' :: rest).takeWhile (· != '"') = text :=
    takeWhile_append_cons (fun d hd => by simpa using ne_of_mem_of_not_mem hd h) (by simp)
  simp [string, htext]

theorem number_cases (cs : List Char) :
    number cs = ⟨cs.takeWhile Char.isDigit,
        .token (.number (Number.ofLiteral (cs.takeWhile Char.isDigit) []))⟩ ∨
      ∃ fraction, fraction ≠ [] ∧ (∀ d ∈ fraction, d.isDigit = true) ∧
        number cs = ⟨cs.takeWhile Char.isDigit ++ '.' :: fraction,
          .token (.number (Number.ofLiteral (cs.takeWhile Char.isDigit) fraction))⟩ := by
  unfold number
  dsimp only
  split
  · next d rest _ =>
    split
    · next hd =>
      refine .inr ⟨d :: rest.takeWhile Char.isDigit, by simp, ?_, rfl⟩
      exact List.forall_mem_cons.mpr ⟨hd, fun _ => List.mem_takeWhile_imp⟩
    · exact .inl rfl
  · exact .inl rfl

theorem number_decimal {whole fraction : List Char} (hwhole : ∀ d ∈ whole, d.isDigit = true)
    (hnonempty : fraction ≠ []) (hfraction : ∀ d ∈ fraction, d.isDigit = true)
    (rest : List Char) :
    number (whole ++ '.' :: (fraction ++ rest)) =
      ⟨whole ++ '.' :: (fraction ++ rest.takeWhile Char.isDigit),
        .token (.number (Number.ofLiteral whole (fraction ++ rest.takeWhile Char.isDigit)))⟩ := by
  obtain ⟨d, fraction, rfl⟩ := List.exists_cons_of_ne_nil hnonempty
  rw [List.forall_mem_cons] at hfraction
  simp [number, takeWhile_append_cons hwhole, dropWhile_append_cons hwhole, hfraction.1,
    List.takeWhile_append_of_pos hfraction.2]

theorem word_span (cs : List Char) : (word cs).span = cs.takeWhile isWordPart := by
  unfold word
  dsimp only
  split <;> rfl

theorem reservedWord?_lexeme {symbol : Symbol} (h : symbol ∈ Symbol.reservedWords) :
    Symbol.reservedWord? symbol.lexeme = some symbol := by
  have hall : ∀ symbol ∈ Symbol.reservedWords,
      Symbol.reservedWord? symbol.lexeme = some symbol := by decide
  exact hall symbol h

theorem reservedWord?_eq_none {text : List Char} :
    Symbol.reservedWord? (String.ofList text) = none ↔
      ∀ symbol ∈ Symbol.reservedWords, text ≠ symbol.lexeme.toList := by
  rw [Symbol.reservedWord?, List.find?_eq_none]
  refine forall₂_congr fun symbol _ => ?_
  rw [beq_iff_eq, ← String.toList_inj, String.toList_ofList]
  exact ne_comm

theorem wordLike_of_reserved {symbol : Symbol} (h : symbol ∈ Symbol.reservedWords) :
    (∃ c cs, symbol.lexeme.toList = c :: cs ∧ isWordStart c = true) ∧
      ∀ d ∈ symbol.lexeme.toList, isWordPart d = true := by
  have hall : ∀ symbol ∈ Symbol.reservedWords, symbol.lexeme.toList.head?.any isWordStart = true ∧
      symbol.lexeme.toList.all isWordPart = true := by decide
  obtain ⟨hstart, hparts⟩ := hall symbol h
  refine ⟨?_, List.all_eq_true.mp hparts⟩
  cases hlexeme : symbol.lexeme.toList with
  | nil => simp [hlexeme] at hstart
  | cons c cs => exact ⟨c, cs, rfl, by simpa [hlexeme] using hstart⟩

/-- A symbol is a reserved word, one character, or one character and an equals sign. -/
theorem symbol_cases (symbol : Symbol) :
    symbol ∈ Symbol.reservedWords ∨
      (∃ c, single? c = some symbol ∧ symbol.lexeme.toList = [c]) ∨
      ∃ c, withEqual? c = some symbol ∧ symbol.lexeme.toList = [c, '='] := by
  cases symbol <;> first
    | exact .inl (by decide)
    | exact .inr (.inl ⟨_, rfl, rfl⟩)
    | exact .inr (.inr ⟨_, rfl, rfl⟩)

theorem lexeme_of_single? {symbol : Symbol} (h : single? c = some symbol) :
    symbol.lexeme.toList = [c] := by
  unfold single? at h
  split at h <;> cases h <;> rfl

theorem lexeme_of_withEqual? {symbol : Symbol} (h : withEqual? c = some symbol) :
    symbol.lexeme.toList = [c, '='] := by
  unfold withEqual? at h
  split at h <;> cases h <;> rfl

theorem single?_of_withEqual? {symbol : Symbol} (h : withEqual? c = some symbol) :
    c ≠ '/' ∧ ∃ short, single? c = some short := by
  unfold withEqual? at h
  split at h <;> cases h <;> exact ⟨by decide, _, rfl⟩

theorem symbol?_cases {symbol : Symbol} (h : single? c = some symbol) (cs : List Char) :
    symbol? c cs = some ⟨[c], .token (.symbol symbol)⟩ ∨
      ∃ long rest, withEqual? c = some long ∧ cs = '=' :: rest ∧
        symbol? c cs = some ⟨[c, '='], .token (.symbol long)⟩ := by
  unfold symbol?
  split
  · next rest long hlong => exact .inr ⟨long, rest, hlong, rfl, rfl⟩
  · exact .inl (by rw [h]; rfl)

theorem comment?_length {piece : Piece} (h : comment? cs = some piece) : 1 < piece.span.length := by
  unfold comment? at h
  split at h
  · cases h
    simp
  · split at h <;>
    · cases h
      simp
  · cases h

/-- A symbol of one character is cut off, or something longer that starts with it. -/
theorem next_eq_or_lt_of_mark {symbol : Symbol} (h : single? c = some symbol) :
    next c cs = ⟨[c], .token (.symbol symbol)⟩ ∨ [c].length < (next c cs).span.length := by
  by_cases hslash : c = '/'
  · subst hslash
    obtain rfl : .slash = symbol := Option.some.inj h
    rw [next_slash]
    cases hcomment : comment? cs with
    | some piece => exact .inr (comment?_length hcomment)
    | none =>
      refine .inl ?_
      obtain hsymbol | ⟨long, -, hlong, -, -⟩ := symbol?_cases h cs
      · rw [hsymbol]
        rfl
      · cases hlong
  · obtain hsymbol | ⟨long, rest, -, -, hsymbol⟩ := symbol?_cases h cs
    · rw [next_mark h hslash, Option.some.injEq] at hsymbol
      exact .inl hsymbol
    · rw [next_mark h hslash, Option.some.injEq] at hsymbol
      exact .inr (by simp [hsymbol])

/-- Reserved words and identifiers are words. -/
theorem next_eq_or_lt_of_word {front : List Char} {content : Content}
    (hstart : ∃ d rest, front = d :: rest ∧ isWordStart d = true)
    (hparts : ∀ d ∈ front, isWordPart d = true) (hbegins : front <+: c :: cs)
    (hcontent : content = match Symbol.reservedWord? (String.ofList front) with
      | some symbol => .token (.symbol symbol)
      | none => .token .identifier) :
    next c cs = ⟨front, content⟩ ∨ front.length < (next c cs).span.length := by
  obtain ⟨d, rest, rfl, hd⟩ := hstart
  obtain ⟨rfl, -⟩ := List.cons_prefix_cons.mp hbegins
  rw [next_wordStart hd]
  have htake := prefix_takeWhile hparts hbegins
  obtain hlt | heq := htake.length_le.lt_or_eq
  · exact .inr (by rwa [word_span])
  · refine .inl ?_
    rw [hcontent]
    unfold word
    dsimp only
    rw [← htake.eq_of_length heq]
    cases Symbol.reservedWord? (String.ofList (d :: rest)) <;> rfl

/-- The piece that is cut off is as long as any lexeme at the start, and if it is no longer, it is
that lexeme. -/
theorem next_eq_or_lt {span : List Char} {content : Content} (hlexeme : Lexeme span content)
    (hbegins : span <+: c :: cs) :
    next c cs = ⟨span, content⟩ ∨ span.length < (next c cs).span.length := by
  cases hlexeme with
  | @white d hwhite =>
    obtain ⟨rfl, -⟩ := List.cons_prefix_cons.mp hbegins
    exact .inl (by simp [next, isBlank_iff.mpr hwhite])
  | @lineComment text htext =>
    obtain ⟨rfl, htail⟩ := List.cons_prefix_cons.mp hbegins
    obtain ⟨rest, rfl⟩ : ∃ rest, cs = '/' :: rest := by
      obtain ⟨rest, rfl⟩ := htail
      exact ⟨_, rfl⟩
    have hline : ∀ d ∈ '/' :: text, (d != '\n') = true := by
      refine List.forall_mem_cons.mpr ⟨by decide, fun d hd => ?_⟩
      simpa using ne_of_mem_of_not_mem hd htext
    have htake := prefix_takeWhile hline htail
    rw [next_slash, comment?, Option.getD_some]
    obtain hlt | heq := htake.length_le.lt_or_eq
    · exact .inr (by simpa using hlt)
    · exact .inl (by rw [← htake.eq_of_length heq])
  | blockComment hinside =>
    obtain ⟨rfl, rest, rfl⟩ := List.cons_prefix_cons.mp hbegins
    refine .inl ?_
    rw [next_slash, List.cons_append, comment?,
      commentRest?_one.mpr ⟨hinside, List.prefix_append ..⟩]
    rfl
  | symbol symbol =>
    obtain hword | ⟨d, hsingle, hd⟩ | ⟨d, hequal, hd⟩ := symbol_cases symbol
    · obtain ⟨hstart, hparts⟩ := wordLike_of_reserved hword
      refine next_eq_or_lt_of_word hstart hparts hbegins ?_
      rw [String.ofList_toList, reservedWord?_lexeme hword]
    · rw [hd] at hbegins ⊢
      obtain ⟨rfl, -⟩ := List.cons_prefix_cons.mp hbegins
      exact next_eq_or_lt_of_mark hsingle
    · obtain ⟨hslash, short, hshort⟩ := single?_of_withEqual? hequal
      rw [hd] at hbegins ⊢
      obtain ⟨rfl, rest, rfl⟩ := List.cons_prefix_cons.mp hbegins
      refine .inl (Option.some.inj ?_)
      rw [← next_mark hshort hslash, List.cons_append, symbol?]
      simp [hequal]
  | @string text htext =>
    obtain ⟨rfl, rest, rfl⟩ := List.cons_prefix_cons.mp hbegins
    refine .inl ?_
    rw [List.append_assoc]
    exact string_append htext rest
  | integer hnonempty hwhole =>
    obtain ⟨d, whole, rfl⟩ := List.exists_cons_of_ne_nil hnonempty
    obtain ⟨rfl, -⟩ := List.cons_prefix_cons.mp hbegins
    rw [next_digit (hwhole _ (List.mem_cons_self ..))]
    have htake := prefix_takeWhile hwhole hbegins
    obtain heq | ⟨fraction, -, -, heq⟩ := number_cases (d :: cs)
    · rw [heq]
      obtain hlt | hlength := htake.length_le.lt_or_eq
      · exact .inr hlt
      · exact .inl (by rw [← htake.eq_of_length hlength])
    · rw [heq]
      have := htake.length_le
      exact .inr (by simp only [List.length_append, List.length_cons] at this ⊢; omega)
  | @decimal whole fraction hnonempty hwhole hsome hfraction =>
    obtain ⟨d, whole, rfl⟩ := List.exists_cons_of_ne_nil hnonempty
    obtain ⟨rfl, rest, rfl⟩ := List.cons_prefix_cons.mp hbegins
    have hnumber := number_decimal hwhole hsome hfraction rest
    rw [next_digit (hwhole _ (List.mem_cons_self ..))]
    simp only [List.cons_append, List.append_eq, List.append_assoc] at hnumber ⊢
    rw [hnumber]
    cases rest.takeWhile Char.isDigit with
    | nil => exact .inl (by simp)
    | cons d more => exact .inr (by simp)
  | @identifier d rest hstart hparts hreserved =>
    refine next_eq_or_lt_of_word ⟨d, rest, rfl, hstart⟩
      (List.forall_mem_cons.mpr ⟨isWordPart_of_isWordStart hstart, hparts⟩) hbegins ?_
    rw [reservedWord?_eq_none.mpr hreserved]

theorem next_of_unclosed {cause : LexError.Cause} (h : Unclosed (c :: cs) cause) :
    next c cs = ⟨c :: cs, .error cause⟩ := by
  cases h with
  | string htext => exact string_of_not_mem htext
  | @comment text htext =>
    have hnone : commentRest? 1 text = none := by
      rw [Option.eq_none_iff_forall_ne_some]
      intro inner hinner
      obtain ⟨hinside, hbegins⟩ := commentRest?_one.mp hinner
      exact htext inner hinside hbegins
    rw [next_slash, comment?, hnone]
    rfl

theorem lexeme_number (hc : c.isDigit = true) :
    Lexeme (number (c :: cs)).span (number (c :: cs)).content := by
  have hnonempty : (c :: cs).takeWhile Char.isDigit ≠ [] := by simp [hc]
  have hdigits : ∀ d ∈ (c :: cs).takeWhile Char.isDigit, d.isDigit = true :=
    fun _ => List.mem_takeWhile_imp
  obtain heq | ⟨fraction, hsome, hfraction, heq⟩ := number_cases (c :: cs)
  · rw [heq]
    exact .integer hnonempty hdigits
  · rw [heq]
    exact .decimal hnonempty hdigits hsome hfraction

theorem lexeme_word (hc : isWordStart c = true) :
    Lexeme (word (c :: cs)).span (word (c :: cs)).content := by
  have hspan : (c :: cs).takeWhile isWordPart = c :: cs.takeWhile isWordPart := by
    simp [isWordPart_of_isWordStart hc]
  unfold word
  dsimp only
  rw [hspan]
  split
  · next symbol hsymbol =>
    have hlexeme := List.find?_some hsymbol
    rw [beq_iff_eq, ← String.toList_inj, String.toList_ofList] at hlexeme
    rw [← hlexeme]
    exact .symbol symbol
  · next hnone =>
    exact .identifier hc (fun _ => List.mem_takeWhile_imp) (reservedWord?_eq_none.mp hnone)

theorem lexeme_symbol? {piece : Piece} (h : symbol? c cs = some piece) :
    Lexeme piece.span piece.content := by
  unfold symbol? at h
  split at h
  · next symbol hsymbol =>
    cases h
    rw [← lexeme_of_withEqual? hsymbol]
    exact .symbol symbol
  · obtain ⟨symbol, hsymbol, rfl⟩ := Option.map_eq_some_iff.mp h
    rw [← lexeme_of_single? hsymbol]
    exact .symbol symbol

theorem lexeme_or_unclosed_comment? {piece : Piece} (h : comment? cs = some piece) :
    Lexeme piece.span piece.content ∨ ∃ cause, Unclosed ('/' :: cs) cause := by
  unfold comment? at h
  split at h
  · cases h
    refine .inl ?_
    rw [List.takeWhile_cons_of_pos (by decide)]
    exact .lineComment fun hmem => by simpa using List.mem_takeWhile_imp hmem
  · split at h
    · next hinner =>
      cases h
      exact .inl (.blockComment (commentRest?_one.mp hinner).1)
    · next hnone =>
      refine .inr ⟨_, .comment fun inner hinside hbegins => ?_⟩
      rw [commentRest?_one.mpr ⟨hinside, hbegins⟩] at hnone
      cases hnone
  · cases h

/-- The piece that is cut off is a lexeme, or nothing closes what is opened, or it is one character
that starts nothing. -/
theorem next_cases (c : Char) (cs : List Char) :
    Lexeme (next c cs).span (next c cs).content ∨ (∃ cause, Unclosed (c :: cs) cause) ∨
      next c cs = ⟨[c], .error .unexpectedCharacter⟩ := by
  unfold next
  split
  · next hblank => exact .inl (.white (isBlank_iff.mp hblank))
  split
  · next hquote =>
    subst hquote
    by_cases hmem : '"' ∈ cs
    · obtain ⟨text, rest, rfl, htext⟩ := List.eq_append_cons_of_mem hmem
      rw [string_append htext]
      exact .inl (.string htext)
    · exact .inr (.inl ⟨_, .string hmem⟩)
  split
  · next hdigit => exact .inl (lexeme_number hdigit)
  split
  · next hword => exact .inl (lexeme_word hword)
  split
  · next piece hpiece =>
    split at hpiece
    · next hslash =>
      subst hslash
      obtain hlexeme | hunclosed := lexeme_or_unclosed_comment? hpiece
      · exact .inl hlexeme
      · exact .inr (.inl hunclosed)
    · cases hpiece
  · cases h : symbol? c cs with
    | some piece => exact .inl (lexeme_symbol? h)
    | none => exact .inr (.inr rfl)

theorem Lexeme.not_error {span : List Char} {content : Content} (h : Lexeme span content)
    (cause : LexError.Cause) : content ≠ .error cause := by
  cases h <;> simp

theorem Lexeme.ne_nil {span : List Char} {content : Content} (h : Lexeme span content) :
    span ≠ [] := by
  cases h with
  | symbol symbol => cases symbol <;> decide
  | integer hnonempty _ => exact hnonempty
  | _ => simp

/-- `next` cuts off the piece that the grammar says. -/
theorem munch_next (c : Char) (cs : List Char) : Munch (c :: cs) (next c cs) := by
  by_cases hclosed : ∃ cause, Unclosed (c :: cs) cause
  · obtain ⟨cause, hcause⟩ := hclosed
    rw [next_of_unclosed hcause]
    exact .unclosed hcause
  · have hnone := not_exists.mp hclosed
    obtain hlexeme | hunclosed | hnext := next_cases c cs
    · refine .lexeme hnone hlexeme (starts_next c cs).starts fun span content hother hbegins => ?_
      obtain heq | hlt := next_eq_or_lt hother hbegins
      · rw [heq]
      · exact hlt.le
    · exact absurd hunclosed hclosed
    · rw [hnext]
      refine .unexpected hnone fun span content hother hbegins => ?_
      obtain heq | hlt := next_eq_or_lt hother hbegins
      · exact hother.not_error .unexpectedCharacter (congrArg Piece.content (heq.symm.trans hnext))
      · rw [hnext] at hlt
        exact hother.ne_nil (List.length_eq_zero_iff.mp (by simpa using hlt))

/-- The grammar says one piece only. -/
theorem Munch.eq_next {piece : Piece} (h : Munch (c :: cs) piece) : piece = next c cs := by
  cases h with
  | lexeme hnone hlexeme hbegins hlongest =>
    obtain heq | hlt := next_eq_or_lt hlexeme hbegins
    · exact heq.symm
    · obtain hnext | hunclosed | hnext := next_cases c cs
      · exact absurd (hlongest _ _ hnext (starts_next c cs).starts) (not_le.mpr hlt)
      · exact absurd hunclosed (not_exists.mpr hnone)
      · rw [hnext] at hlt
        exact absurd (List.length_eq_zero_iff.mp (by simpa using hlt)) hlexeme.ne_nil
  | unclosed hcause => exact (next_of_unclosed hcause).symm
  | unexpected hnone hnot =>
    obtain hnext | hunclosed | hnext := next_cases c cs
    · exact absurd (starts_next c cs).starts (hnot _ _ hnext)
    · exact absurd hunclosed (not_exists.mpr hnone)
    · exact hnext.symm

/-- A lexeme by itself is one piece. -/
theorem Lexeme.next_eq {content : Content} (h : Lexeme (c :: cs) content) :
    next c cs = ⟨c :: cs, content⟩ := by
  obtain heq | hlt := next_eq_or_lt h List.prefix_rfl
  · exact heq
  · exact absurd (starts_next c cs).starts.length_le (not_le.mpr hlt)

/-- A lexeme stands for one thing only. -/
theorem Lexeme.content_unique {span : List Char} {content content' : Content}
    (h : Lexeme span content) (h' : Lexeme span content') : content = content' := by
  obtain ⟨c, cs, rfl⟩ := List.exists_cons_of_ne_nil h.ne_nil
  exact congrArg Piece.content (h.next_eq.symm.trans h'.next_eq)

theorem lexeme_of_mem {skip : Nat} {cs : List Char} {piece : Piece} {kind : Kind}
    (h : piece ∈ piecesFrom skip cs) (hkind : piece.content = .token kind) :
    Lexeme piece.span (.token kind) := by
  induction cs generalizing skip with
  | nil => exact absurd h (by simp [piecesFrom])
  | cons c cs ih =>
    cases skip with
    | succ skip => exact ih h
    | zero =>
      obtain rfl | h := List.mem_cons.mp h
      · obtain hlexeme | ⟨cause, hunclosed⟩ | hunexpected := next_cases c cs
        · exact hkind ▸ hlexeme
        · rw [next_of_unclosed hunclosed] at hkind
          cases hkind
        · rw [hunexpected] at hkind
          cases hkind
      · exact ih h

theorem mem_tokens_itemsFrom {line : Nat} {pieces : List Piece} {token : Token}
    (h : token ∈ tokens (itemsFrom line pieces)) :
    token.kind = .endOfInput ∧ token.lexeme = "" ∨
      ∃ piece ∈ pieces, piece.content = .token token.kind ∧
        token.lexeme = String.ofList piece.span := by
  induction pieces generalizing line with
  | nil =>
    obtain rfl : token = .endOfInput line := by simpa [tokens, itemsFrom, Except.toOption] using h
    exact .inl ⟨rfl, rfl⟩
  | cons piece pieces ih =>
    rw [itemsFrom, tokens, List.filterMap_append, List.mem_append] at h
    obtain hpiece | hrest := h
    · refine .inr ⟨piece, List.mem_cons_self, ?_⟩
      unfold Piece.item? at hpiece
      cases hcontent : piece.content with
      | blank => simp [hcontent] at hpiece
      | error cause => simp [hcontent, Except.toOption] at hpiece
      | token kind =>
        simp only [hcontent, Option.toList_some, List.filterMap_cons, List.filterMap_nil,
          Except.toOption, List.mem_singleton] at hpiece
        subst hpiece
        exact ⟨rfl, rfl⟩
    · obtain hend | ⟨other, hother, heq⟩ := ih hrest
      · exact .inl hend
      · exact .inr ⟨other, List.mem_cons_of_mem _ hother, heq⟩

/-- A token is the end of the input or is written as a lexeme of its kind. -/
theorem lexeme_of_mem_tokens {source : String} {token : Token} (h : token ∈ tokens (items source)) :
    token.kind = .endOfInput ∧ token.lexeme = "" ∨
      Lexeme token.lexeme.toList (.token token.kind) := by
  obtain hend | ⟨piece, hpiece, hcontent, hspan⟩ := mem_tokens_itemsFrom h
  · exact .inl hend
  · rw [hspan, String.toList_ofList]
    exact .inr (lexeme_of_mem hpiece hcontent)

/-- The text of a token tells its kind, together with the value of a literal. -/
theorem kind_eq_of_lexeme {source source' : String} {token token' : Token}
    (h : token ∈ tokens (items source)) (h' : token' ∈ tokens (items source'))
    (hlexeme : token.lexeme = token'.lexeme) : token.kind = token'.kind := by
  obtain ⟨hend, hempty⟩ | hknown := lexeme_of_mem_tokens h
  · obtain ⟨hend', -⟩ | hknown' := lexeme_of_mem_tokens h'
    · rw [hend, hend']
    · rw [← hlexeme, hempty] at hknown'
      exact absurd rfl hknown'.ne_nil
  · obtain ⟨-, hempty'⟩ | hknown' := lexeme_of_mem_tokens h'
    · rw [hlexeme, hempty'] at hknown
      exact absurd rfl hknown.ne_nil
    · rw [← hlexeme] at hknown'
      exact Content.token.inj (hknown.content_unique hknown')

end Lox.Lexer
