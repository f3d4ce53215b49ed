import Lox.Proofs.Token.MaximalMunch
import Lox.Proofs.Token.Octets

/-!
# The stretch at the cursor

What the bytes at the cursor are taken for is the piece that is cut off the characters there. The
cursor passes over this piece at once, and afterwards it is behind its last byte and has counted its
line breaks.
-/
namespace Lox.Cursor
open Lexer
variable {source : String} {position : Nat} {c : Char} {cs front rest : List Char}
  {p : Char → Bool} {cursor : Cursor}

/-- The place behind some characters that the cursor is in front of. -/
def past (cursor : Cursor) (front : List Char) : Cursor :=
  ⟨cursor.position + (octets front).length, cursor.line + front.count '\n'⟩

@[simp] theorem past_nil (cursor : Cursor) : cursor.past [] = cursor := rfl

theorem past_append (cursor : Cursor) (first second : List Char) :
    cursor.past (first ++ second) = (cursor.past first).past second := by
  simp [past, octets_append, Nat.add_assoc]

/-- Behind an ASCII character. -/
theorem past_ascii (cursor : Cursor) (h : c.toNat < 128) :
    cursor.past [c] = ⟨cursor.position + 1, if c = '\n' then cursor.line + 1 else cursor.line⟩ := by
  rw [past, octets_ascii h, List.count_singleton]
  simp only [List.length_singleton, beq_iff_eq]
  split <;> rfl

/-- Behind characters without a line break. -/
theorem past_of_not_mem (cursor : Cursor) (h : '\n' ∉ front) :
    cursor.past front = ⟨cursor.position + (octets front).length, cursor.line⟩ := by
  rw [past, List.count_eq_zero.mpr h]
  rfl

/-- Behind one ASCII character and others. -/
theorem past_mark (cursor : Cursor) (h : c.toNat < 128) (hne : c ≠ '\n') (front : List Char) :
    cursor.past (c :: front) = (⟨cursor.position + 1, cursor.line⟩ : Cursor).past front := by
  rw [← List.singleton_append, past_append, past_ascii cursor h, if_neg hne]

/-- Behind two ASCII characters and others. -/
theorem past_marks (cursor : Cursor) {second : Char} (hc : c.toNat < 128) (hne : c ≠ '\n')
    (hsecond : second.toNat < 128) (hother : second ≠ '\n') (front : List Char) :
    cursor.past (c :: second :: front) =
      (⟨cursor.position + 2, cursor.line⟩ : Cursor).past front := by
  rw [past_mark cursor hc hne, past_mark _ hsecond hother]

theorem drop_of_byte? (h : byte? source position = some c) :
    (octets source.toList).drop position = c :: (octets source.toList).drop (position + 1) := by
  rw [byte?_eq] at h
  obtain ⟨hlt, rfl⟩ := List.getElem?_eq_some_iff.mp h
  exact List.drop_eq_getElem_cons hlt

theorem drop_of_byte?_none (h : byte? source position = none) :
    (octets source.toList).drop position = [] := by
  rw [byte?_eq] at h
  exact List.drop_eq_nil_of_le (List.getElem?_eq_none_iff.mp h)

theorem skipWhile_eq (source : String) (p : Char → Bool) (position : Nat) :
    skipWhile source p position =
      position + (((octets source.toList).drop position).takeWhile p).length := by
  fun_induction skipWhile source p position with
  | case1 position c h hp ih =>
    rw [ih, drop_of_byte? h, List.takeWhile_cons_of_pos hp, List.length_cons]
    omega
  | case2 position c h hp => rw [drop_of_byte? h, List.takeWhile_cons_of_neg hp]; rfl
  | case3 position h => rw [drop_of_byte?_none h]; rfl

theorem toQuote_eq (source : String) (cursor : Cursor) :
    let row := ((octets source.toList).drop cursor.position).takeWhile (· != '"')
    toQuote source cursor = ⟨cursor.position + row.length, cursor.line + row.count '\n'⟩ := by
  dsimp only
  fun_induction toQuote source cursor with
  | case1 cursor h => rw [drop_of_byte? h]; rfl
  | case2 cursor c h hc ih =>
    rw [ih, drop_of_byte? h, List.takeWhile_cons_of_pos (by simpa using hc), List.length_cons,
      List.count_cons]
    simp only [advance, beq_iff_eq, mk.injEq]
    constructor
    · omega
    · split <;> omega
  | case3 cursor h => rw [drop_of_byte?_none h]; rfl

theorem Faces.skipWhile (h : Faces source position cs) (hp : Blunt p) :
    Cursor.skipWhile source p position = position + (octets (cs.takeWhile p)).length := by
  rw [skipWhile_eq, h.bytes, takeWhile_octets hp]

theorem Faces.toQuote (cursor : Cursor) (h : Faces source cursor.position cs) :
    Cursor.toQuote source cursor = cursor.past (cs.takeWhile (· != '"')) := by
  rw [toQuote_eq, h.bytes, takeWhile_octets (blunt_ne (by decide)), count_octets (by decide)]
  rfl

theorem comment_byte (depth : Nat) (h : byte? source cursor.position = some c) :
    comment source (depth + 1) cursor =
      let second := byte? source (cursor.position + 1)
      if c = '\n' then comment source (depth + 1) ⟨cursor.position + 1, cursor.line + 1⟩
      else if c = '/' ∧ second = some '*' then
        comment source (depth + 2) ⟨cursor.position + 2, cursor.line⟩
      else if c = '*' ∧ second = some '/' then
        comment source depth ⟨cursor.position + 2, cursor.line⟩
      else comment source (depth + 1) ⟨cursor.position + 1, cursor.line⟩ := by
  rw [comment]
  split
  · next hnone =>
    rw [h] at hnone
    cases hnone
  · next d hd =>
    rw [h] at hd
    cases hd
    rfl

/-- The bytes of a character that is not ASCII are passed over one by one. -/
theorem comment_wide (cursor : Cursor) (depth : Nat) {row more : List Char}
    (hrow : ∀ d ∈ row, 128 ≤ d.toNat)
    (h : (octets source.toList).drop cursor.position = row ++ more) :
    comment source (depth + 1) cursor =
      comment source (depth + 1) ⟨cursor.position + row.length, cursor.line⟩ := by
  induction row generalizing cursor with
  | nil => rfl
  | cons d row ih =>
    rw [List.forall_mem_cons] at hrow
    have hbyte : byte? source cursor.position = some d := by
      rw [byte?_eq, ← List.head?_drop, h]
      rfl
    have hrest : (octets source.toList).drop (cursor.position + 1) = row ++ more := by
      rw [← List.drop_drop, h]
      rfl
    rw [comment_byte depth hbyte]
    dsimp only
    rw [if_neg (ne_of_wide hrow.1 (by decide)), if_neg fun hd => ne_of_wide hrow.1 (by decide) hd.1,
      if_neg fun hd => ne_of_wide hrow.1 (by decide) hd.1]
    have hskipped := ih ⟨cursor.position + 1, cursor.line⟩ hrow.2 hrest
    rw [hskipped, List.length_cons, Nat.add_comm row.length, ← Nat.add_assoc]

/-- What a block comment in front of the cursor comes to, given what is left of it. -/
def closing (cursor : Cursor) (cs : List Char) : Option (List Char) → Content × Cursor
  | some inner => (.blank, cursor.past inner)
  | none => (.error .unterminatedComment, cursor.past cs)

theorem closing_append (cursor : Cursor) (front cs : List Char) (inner? : Option (List Char)) :
    closing cursor (front ++ cs) (inner?.map (front ++ ·)) =
      closing (cursor.past front) cs inner? := by
  cases inner? with
  | none => rw [Option.map_none, closing, closing, past_append]
  | some inner => rw [Option.map_some, closing, closing, past_append]

/-- The bytes of a comment lead to where its characters end, at the same depth all the way. -/
theorem Faces.comment (cursor : Cursor) (h : Faces source cursor.position cs) (depth : Nat) :
    Cursor.comment source depth cursor = closing cursor cs (commentRest? depth cs) := by
  fun_induction commentRest? depth cs generalizing cursor with
  | case1 cs =>
    rw [Cursor.comment]
    rfl
  | case2 depth =>
    rw [Cursor.comment]
    split
    · rfl
    · next c hc =>
      rw [h.byte?] at hc
      cases hc
  | case3 depth cs ih =>
    obtain ⟨hfirst, hrest⟩ := h.ascii (by decide)
    obtain ⟨hsecond, hinner⟩ := hrest.ascii (by decide)
    rw [comment_byte depth hfirst]
    dsimp only
    rw [if_neg (by decide), if_pos ⟨rfl, hsecond⟩]
    refine (ih ⟨cursor.position + 2, cursor.line⟩ hinner).trans ?_
    exact (closing_append cursor ['/', '*'] cs _).symm
  | case4 depth cs ih =>
    obtain ⟨hfirst, hrest⟩ := h.ascii (by decide)
    obtain ⟨hsecond, hinner⟩ := hrest.ascii (by decide)
    rw [comment_byte depth hfirst]
    dsimp only
    rw [if_neg (by decide), if_neg fun hslash => absurd hslash.1 (by decide),
      if_pos ⟨rfl, hsecond⟩]
    refine (ih ⟨cursor.position + 2, cursor.line⟩ hinner).trans ?_
    exact (closing_append cursor ['*', '/'] cs _).symm
  | case5 depth c cs hopens hcloses ih =>
    have hnext := ih (cursor.past [c]) h.move
    rw [← closing_append cursor [c] cs] at hnext
    refine Eq.trans ?_ hnext
    -- The second byte of an opener or a closer is ASCII, so it is there as a character as well.
    by_cases hascii : c.toNat < 128
    · obtain ⟨hfirst, hrest⟩ := h.ascii hascii
      have hstarts {d : Char} (hd : d.toNat < 128)
          (hsecond : Cursor.byte? source (cursor.position + 1) = some d) :
          ∃ more, cs = d :: more := by
        rw [hrest.byte?_eq_some hd, List.head?_eq_some_iff] at hsecond
        exact hsecond
      have hopening : ¬ (c = '/' ∧ Cursor.byte? source (cursor.position + 1) = some '*') := by
        rintro ⟨rfl, hstar⟩
        obtain ⟨more, rfl⟩ := hstarts (by decide) hstar
        exact hopens more rfl rfl
      have hclosing : ¬ (c = '*' ∧ Cursor.byte? source (cursor.position + 1) = some '/') := by
        rintro ⟨rfl, hslash⟩
        obtain ⟨more, rfl⟩ := hstarts (by decide) hslash
        exact hcloses more rfl rfl
      rw [comment_byte depth hfirst, past_ascii cursor hascii]
      dsimp only
      rw [if_neg hopening, if_neg hclosing]
      split <;> rfl
    · have hwide := Nat.le_of_not_lt hascii
      have hother : c ≠ '\n' := ne_of_wide hwide (by decide)
      rw [comment_wide cursor depth (fun d => le_toNat_of_mem_octets hwide)
        (h.bytes.trans (octets_cons c cs))]
      simp [past, hother]

theorem Faces.string? (h : Faces source cursor.position ('"' :: cs)) :
    Cursor.string? source cursor =
      some ((Lexer.string cs).content, cursor.past (Lexer.string cs).span) := by
  obtain ⟨-, hinside⟩ := h.ascii (by decide)
  have hquote := Faces.toQuote ⟨cursor.position + 1, cursor.line⟩ hinside
  unfold Cursor.string?
  rw [hquote]
  by_cases hmem : '"' ∈ cs
  · obtain ⟨text, rest, rfl, htext⟩ := List.eq_append_cons_of_mem hmem
    have htake : (text ++ '"' :: rest).takeWhile (· != '"') = text :=
      takeWhile_append_cons (fun d hd => by simpa using ne_of_mem_of_not_mem hd htext) (by simp)
    have hslice := hinside.slice?
    rw [htake, string_append htext]
    dsimp only [past] at hslice ⊢
    rw [(hinside.move.ascii (by decide)).1]
    dsimp only
    rw [hslice, Option.map_some, ← past, past_mark cursor (by decide) (by decide), past_append,
      past_ascii _ (by decide)]
    rfl
  · have htake : cs.takeWhile (· != '"') = cs :=
      List.takeWhile_eq_self_iff.mpr fun d hd => by simpa using ne_of_mem_of_not_mem hd hmem
    have hend : Faces source (cursor.position + 1 + (octets cs).length) [] :=
      Faces.move (by rwa [List.append_nil])
    have hnone : Cursor.byte? source (cursor.position + 1 + (octets cs).length) = none := hend.byte?
    rw [htake, string_of_not_mem hmem]
    dsimp only
    rw [past_mark cursor (by decide) (by decide)]
    dsimp only [past]
    rw [hnone]

/-- A number literal goes on behind the point if a digit follows. -/
theorem number_eq (cs : List Char) :
    let whole := cs.takeWhile Char.isDigit
    let left := cs.dropWhile Char.isDigit
    let fraction := left.tail.takeWhile Char.isDigit
    number cs =
      if left.head? = some '.' ∧ left.tail.head?.any Char.isDigit then
        ⟨whole ++ '.' :: fraction, .token (.number (Number.ofLiteral whole fraction))⟩
      else ⟨whole, .token (.number (Number.ofLiteral whole []))⟩ := by
  intro whole left fraction
  unfold number
  dsimp only
  split
  · next d rest hrest =>
    have hleft : left = '.' :: d :: rest := hrest
    by_cases hd : d.isDigit = true
    · rw [if_pos hd, if_pos (by simp [hleft, hd])]
      simp [fraction, hleft, hd, whole]
    · rw [if_neg hd, if_neg (by simp [hleft, hd])]
  · next hnone =>
    rw [if_neg]
    rintro ⟨hpoint, hdigit⟩
    obtain ⟨tail, hleft⟩ := List.head?_eq_some_iff.mp hpoint
    cases tail with
    | nil => simp [hleft] at hdigit
    | cons d rest => exact hnone d rest hleft

theorem number_span_cons (hc : c.isDigit = true) :
    (number (c :: cs)).span = c :: (number cs).span := by
  rw [number_eq, number_eq, List.takeWhile_cons_of_pos hc, List.dropWhile_cons_of_pos hc]
  split <;> rfl

/-- The texts of number literals are decimals. -/
theorem ofDecimal?_of_lexeme {value : Float} (h : Lexeme front (.token (.number value))) :
    Number.ofDecimal? front = some value := by
  unfold Number.ofDecimal?
  cases h with
  | integer hsome hwhole =>
    rw [List.takeWhile_eq_self_iff.mpr hwhole, List.dropWhile_eq_nil_iff.mpr hwhole]
    exact if_neg hsome
  | decimal hsome hwhole _ hfraction =>
    rw [takeWhile_append_cons hwhole (by decide), dropWhile_append_cons hwhole (by decide)]
    exact if_pos ⟨by simp [hsome], List.all_eq_true.mpr hfraction⟩

theorem Faces.numberEnd (h : Faces source position cs) :
    Cursor.numberEnd source position = position + (octets (number cs).span).length := by
  have hsplit := List.takeWhile_append_dropWhile (p := Char.isDigit) (l := cs)
  have hleft : Faces source (position + (octets (cs.takeWhile Char.isDigit)).length)
      (cs.dropWhile Char.isDigit) := Faces.move (by rwa [hsplit])
  unfold Cursor.numberEnd
  dsimp only
  simp only [h.skipWhile blunt_isDigit, number_eq, hleft.byte?_eq_some (a := '.') (by decide)]
  by_cases hpoint : (cs.dropWhile Char.isDigit).head? = some '.'
  · obtain ⟨tail, htail⟩ := List.head?_eq_some_iff.mp hpoint
    rw [htail] at hleft ⊢
    have hfraction := (hleft.ascii (by decide)).2
    rw [hfraction.byte?, any_octets blunt_isDigit, hfraction.skipWhile blunt_isDigit,
      List.tail_cons]
    by_cases hdigit : ('.' :: tail).head? = some '.' ∧ tail.head?.any Char.isDigit
    · rw [if_pos hdigit, if_pos hdigit, octets_append, octets_cons '.', octets_ascii (by decide)]
      simp only [List.length_append, List.length_singleton]
      omega
    · rw [if_neg hdigit, if_neg hdigit]
  · rw [if_neg fun hboth => hpoint hboth.1, if_neg fun hboth => hpoint hboth.1]

theorem not_mem_number_span (cs : List Char) : '\n' ∉ (number cs).span := by
  have hrow : ∀ row : List Char, '\n' ∉ row.takeWhile Char.isDigit :=
    fun row hmem => absurd (List.mem_takeWhile_imp hmem) (by decide)
  rw [number_eq]
  split
  · simp [hrow]
  · exact hrow cs

theorem Faces.number? (h : Faces source cursor.position (c :: cs)) (hc : c.isDigit = true) :
    Cursor.number? source cursor =
      some ((number (c :: cs)).content, cursor.past (number (c :: cs)).span) := by
  have hascii := ascii_of_isDigit hc
  obtain ⟨rest, hrest⟩ : (number (c :: cs)).span <+: c :: cs := (starts_number hc).starts
  have hlexeme : Lexeme (number (c :: cs)).span (number (c :: cs)).content := lexeme_number hc
  obtain ⟨value, hcontent⟩ :
      ∃ value, (number (c :: cs)).content = .token (.number value) := by
    rw [number_eq]
    split <;> exact ⟨_, rfl⟩
  rw [hcontent] at hlexeme
  have hstop : Cursor.numberEnd source (cursor.position + 1) =
      cursor.position + (octets (number (c :: cs)).span).length := by
    rw [(h.ascii hascii).2.numberEnd, number_span_cons hc, octets_cons, octets_ascii hascii,
      List.length_append, Nat.add_assoc]
    rfl
  have hslice := (show Faces source cursor.position ((number (c :: cs)).span ++ rest) by
    rwa [hrest]).slice?
  unfold Cursor.number?
  dsimp only
  rw [hstop, hslice, Option.map_some, String.toList_ofList, ofDecimal?_of_lexeme hlexeme, hcontent,
    past_of_not_mem cursor (not_mem_number_span _), Option.getD_some]

theorem not_mem_word_span (cs : List Char) : '\n' ∉ (Lexer.word cs).span := by
  rw [word_span]
  exact fun hmem => absurd (List.mem_takeWhile_imp hmem) (by decide)

theorem word_content (cs : List Char) :
    (Lexer.word cs).content =
      match Symbol.reservedWord? (String.ofList (cs.takeWhile isWordPart)) with
      | some symbol => .token (.symbol symbol)
      | none => .token .identifier := by
  unfold Lexer.word
  dsimp only
  cases Symbol.reservedWord? (String.ofList (cs.takeWhile isWordPart)) <;> rfl

theorem Faces.word (h : Faces source cursor.position (c :: cs)) (hc : isWordStart c = true) :
    Cursor.word source cursor =
      ((Lexer.word (c :: cs)).content, cursor.past (Lexer.word (c :: cs)).span) := by
  have hascii := ascii_of_isWordStart hc
  have hpart := isWordPart_of_isWordStart hc
  obtain ⟨rest, hrest⟩ : (Lexer.word (c :: cs)).span <+: c :: cs := (starts_word hc).starts
  have hstop : Cursor.skipWhile source isWordPart (cursor.position + 1) =
      cursor.position + (octets (Lexer.word (c :: cs)).span).length := by
    rw [(h.ascii hascii).2.skipWhile blunt_isWordPart, word_span, List.takeWhile_cons_of_pos hpart,
      octets_cons, octets_ascii hascii, List.length_append, Nat.add_assoc]
    rfl
  have hbytes := (show Faces source cursor.position ((Lexer.word (c :: cs)).span ++ rest) by
    rwa [hrest]).extract
  unfold Cursor.word
  dsimp only
  rw [hstop, hbytes, past_of_not_mem cursor (not_mem_word_span _)]
  have hword : (Symbol.reservedWords.find? fun symbol => symbol.lexeme.toByteArray.data ==
      (String.ofList (Lexer.word (c :: cs)).span).toByteArray.data) =
        Symbol.reservedWord? (String.ofList ((c :: cs).takeWhile isWordPart)) := by
    rw [word_span, Symbol.reservedWord?]
    congr 1
    funext symbol
    rw [Bool.eq_iff_iff, beq_iff_eq, beq_iff_eq, ← ByteArray.ext_iff, String.toByteArray_inj]
  rw [hword, word_content]
  cases Symbol.reservedWord? (String.ofList ((c :: cs).takeWhile isWordPart)) <;> rfl

theorem Faces.unexpected? (h : Faces source cursor.position (c :: cs)) :
    Cursor.unexpected? source cursor =
      some (.error .unexpectedCharacter, ⟨cursor.position + (octets [c]).length, cursor.line⟩) := by
  unfold Cursor.unexpected?
  rw [h.size, h.slice?_rest, Option.map_some, String.toList_ofList, length_octets_singleton]
  rfl

theorem Faces.mark? (h : Faces source cursor.position (c :: cs)) (hascii : c.toNat < 128)
    (hbreak : c ≠ '\n') :
    let piece := (symbol? c cs).getD ⟨[c], .error .unexpectedCharacter⟩
    Cursor.mark? source c cursor = some (piece.content, cursor.past piece.span) := by
  have hrest := (h.ascii hascii).2
  have hone : cursor.past [c] = ⟨cursor.position + 1, cursor.line⟩ := by
    rw [past_ascii cursor hascii, if_neg hbreak]
  unfold Cursor.mark?
  split
  · next symbol hsymbol hequal =>
    rw [hrest.byte?_eq_some (by decide), List.head?_eq_some_iff] at hequal
    obtain ⟨rest, rfl⟩ := hequal
    have hlong : symbol? c ('=' :: rest) = some ⟨[c, '='], .token (.symbol symbol)⟩ := by
      simp [symbol?, hsymbol]
    rw [hlong]
    dsimp only [Option.getD_some]
    rw [past_mark cursor hascii hbreak, past_ascii _ (by decide)]
    rfl
  · next hother =>
    have hshort : symbol? c cs = (single? c).map fun symbol => ⟨[c], .token (.symbol symbol)⟩ := by
      unfold symbol?
      split
      · next rest symbol hsymbol =>
        exact (hother symbol hsymbol ((hrest.byte?_eq_some (by decide)).mpr rfl)).elim
      · rfl
    rw [hshort]
    cases single? c with
    | some symbol => simp [hone]
    | none => simp [h.unexpected?, hone, octets_ascii hascii]

theorem next_wide (h : 128 ≤ c.toNat) : next c cs = ⟨[c], .error .unexpectedCharacter⟩ := by
  have hnone := meaningless_of_wide h
  have hquote : c ≠ '"' := ne_of_wide h (by decide)
  have hslash : c ≠ '/' := ne_of_wide h (by decide)
  simp [next, symbol?, hnone.blank, hnone.digit, hnone.wordStart, hnone.withEqual, hnone.single,
    hquote, hslash]

/-- The line break behind a line comment is left. -/
theorem Faces.lineComment (h : Faces source cursor.position ('/' :: '/' :: rest)) :
    let piece := next '/' ('/' :: rest)
    (Content.blank,
        Cursor.mk (Cursor.skipWhile source (· != '\n') (cursor.position + 2)) cursor.line) =
      (piece.content, cursor.past piece.span) := by
  have hbody := ((h.ascii (by decide)).2.ascii (by decide)).2
  have hnext : next '/' ('/' :: rest) = ⟨'/' :: '/' :: rest.takeWhile (· != '\n'), .blank⟩ := by
    rw [next_slash]
    rfl
  have hrow : '\n' ∉ rest.takeWhile (· != '\n') :=
    fun hmem => absurd (List.mem_takeWhile_imp hmem) (by decide)
  rw [hnext, hbody.skipWhile (blunt_ne (by decide))]
  dsimp only
  rw [past_marks cursor (by decide) (by decide) (by decide) (by decide), past_of_not_mem _ hrow]

theorem Faces.blockComment (h : Faces source cursor.position ('/' :: '*' :: rest)) :
    let piece := next '/' ('*' :: rest)
    Cursor.comment source 1 ⟨cursor.position + 2, cursor.line⟩ =
      (piece.content, cursor.past piece.span) := by
  have hbody := ((h.ascii (by decide)).2.ascii (by decide)).2
  have hcomment := Faces.comment ⟨cursor.position + 2, cursor.line⟩ hbody 1
  rw [hcomment, next_slash, comment?]
  cases commentRest? 1 rest with
  | some inner =>
    dsimp only [closing, Option.getD_some]
    rw [past_marks cursor (by decide) (by decide) (by decide) (by decide)]
  | none =>
    dsimp only [closing, Option.getD_some]
    rw [past_marks cursor (by decide) (by decide) (by decide) (by decide)]

/-- The first byte of such a character means nothing either. -/
theorem Faces.scan?_wide (h : Faces source cursor.position (c :: cs)) (hc : 128 ≤ c.toNat) :
    Cursor.scan? source cursor = Cursor.unexpected? source cursor := by
  obtain ⟨d, hbyte, hd⟩ := h.wide hc
  have hnone := meaningless_of_wide hd
  have hbreak : d ≠ '\n' := ne_of_wide hd (by decide)
  have hquote : d ≠ '"' := ne_of_wide hd (by decide)
  have hslash : d ≠ '/' := ne_of_wide hd (by decide)
  simp [Cursor.scan?, Cursor.mark?, hbyte, hnone.blank, hnone.digit, hnone.wordStart,
    hnone.withEqual, hnone.single, hbreak, hquote, hslash]

theorem Faces.scan?_ascii (h : Faces source cursor.position (c :: cs)) (hc : c.toNat < 128) :
    Cursor.scan? source cursor = some ((next c cs).content, cursor.past (next c cs).span) := by
  obtain ⟨hbyte, hrest⟩ := h.ascii hc
  unfold Cursor.scan?
  rw [hbyte]
  dsimp only
  split
  · next hbreak =>
    subst hbreak
    rw [next, if_pos (by decide), past_ascii cursor (by decide)]
    rfl
  next hbreak =>
  split
  · next hblank => rw [next, if_pos hblank, past_ascii cursor hc, if_neg hbreak]
  next hblank =>
  split
  · next hquote =>
    subst hquote
    exact h.string?
  next hquote =>
  split
  · next hdigit => rw [h.number? hdigit, next_digit hdigit]
  next hdigit =>
  split
  · next hstart => rw [h.word hstart, next_wordStart hstart]
  next hstart =>
  split
  · next hline =>
    obtain ⟨rfl, hslash⟩ := hline
    rw [hrest.byte?_eq_some (by decide), List.head?_eq_some_iff] at hslash
    obtain ⟨rest, rfl⟩ := hslash
    exact congrArg some h.lineComment
  split
  · next hblock =>
    obtain ⟨rfl, hstar⟩ := hblock
    rw [hrest.byte?_eq_some (by decide), List.head?_eq_some_iff] at hstar
    obtain ⟨body, rfl⟩ := hstar
    exact congrArg some h.blockComment
  · next hline hblock =>
    have hcomment : (if c = '/' then comment? cs else none) = none := by
      split
      · next hslash =>
        unfold comment?
        split
        · exact absurd ⟨hslash, (hrest.byte?_eq_some (by decide)).mpr rfl⟩ hline
        · exact absurd ⟨hslash, (hrest.byte?_eq_some (by decide)).mpr rfl⟩ hblock
        · rfl
      · rfl
    rw [h.mark? hc hbreak, next, if_neg hblank, if_neg hquote, if_neg hdigit, if_neg hstart,
      hcomment]

theorem Faces.scan? (h : Faces source cursor.position (c :: cs)) :
    Cursor.scan? source cursor = some ((next c cs).content, cursor.past (next c cs).span) := by
  by_cases hascii : c.toNat < 128
  · exact h.scan?_ascii hascii
  · have hwide := Nat.le_of_not_lt hascii
    have hbreak : '\n' ∉ [c] := by
      rw [List.mem_singleton]
      exact (ne_of_wide hwide (by decide)).symm
    rw [h.scan?_wide hwide, h.unexpected?, next_wide hwide, past_of_not_mem cursor hbreak]

/-- The stretch of a piece that the cursor is in front of. -/
def Stretch.ofPiece (cursor : Cursor) (piece : Piece) : Stretch :=
  let next := cursor.past piece.span
  ⟨cursor.position, next.position, piece.content, piece.item? next.line⟩

theorem Faces.stretch? (h : Faces source cursor.position (c :: cs)) :
    Cursor.stretch? source cursor =
      some (.ofPiece cursor (next c cs), cursor.past (next c cs).span) := by
  have hsplit := (span_append_drop c cs).1
  have hslice := Faces.slice? (by rwa [hsplit] : Faces source cursor.position
    ((next c cs).span ++ cs.drop ((next c cs).span.length - 1)))
  unfold Cursor.stretch?
  rw [h.scan?]
  dsimp only [Stretch.ofPiece, Piece.item?]
  cases (next c cs).content with
  | blank => rfl
  | token kind => exact congrArg (Option.map _) hslice
  | error cause => rfl

end Lox.Cursor
