import Lox.Proofs.Token.Joining
import Lox.Proofs.Token.MaximalMunch

/-!
# Nested block comments

What stands between the delimiters of a block comment: texts in which nothing is opened and nothing
closed, and between two of them a comment of the same kind, to any depth. Delimiters may overlap, as
in `/*/` and `**/`, so a text also must not make a delimiter with what stands next to it. A comment
whose delimiters enclose such a body hides itself and nothing else; openers without closers hide
what is left of the source.
-/
namespace Lox.Lexer

/-- A text between delimiters in which nothing is opened and nothing is closed. A slash at its end
would open something with the star of a closer behind it. -/
structure Fragment (text : List Char) : Prop where
  noOpener : ¬ ['/', '*'] <:+: text
  noCloser : ¬ ['*', '/'] <:+: text
  noSlash : text.getLast? ≠ some '/'

/-- Fragments with one nested comment between each two of them; where two delimiters follow on each
other the fragment between them is empty. In front of an opener a fragment does not end in a star,
with which the slash would close something. -/
inductive Body : List Char → Prop
  | text {text : List Char} : Fragment text → Body text
  | nested {text inner rest : List Char} : Fragment text → text.getLast? ≠ some '*' → Body inner →
      Body rest → Body (text ++ '/' :: '*' :: (inner ++ '*' :: '/' :: rest))

/-- Comments that are opened one inside the other, and none of them closed. -/
def openings (bodies : List (List Char)) : List Char :=
  bodies.flatMap fun body => '/' :: '*' :: body

variable {text body : List Char}

theorem Fragment.nil : Fragment [] := ⟨by simp, by simp, by simp⟩

theorem Fragment.tail {c : Char} (h : Fragment (c :: text)) : Fragment text where
  noOpener := fun hpart => h.noOpener (hpart.trans (List.suffix_cons c text).isInfix)
  noCloser := fun hpart => h.noCloser (hpart.trans (List.suffix_cons c text).isInfix)
  noSlash := fun hlast => h.noSlash (by simp [List.getLast?_cons, hlast])

/-- A star at the end and a slash behind it would be a closer. -/
def Apart (front rest : List Char) : Prop := front.getLast? = some '*' → rest.head? ≠ some '/'

theorem Apart.of_ne {front rest : List Char} (h : front.getLast? ≠ some '*') : Apart front rest :=
  fun hlast => absurd hlast h

theorem Apart.of_append (front : List Char) {back rest : List Char}
    (h : Apart (front ++ back) rest) : Apart back rest := fun hlast => h (by simp [List.getLast?_append, hlast])

/-- The depth is the same behind a fragment as in front of it. -/
theorem Fragment.commentRest? (h : Fragment text) {rest : List Char} (hapart : Apart text rest)
    (depth : Nat) : commentRest? (depth + 1) (text ++ rest) =
      (commentRest? (depth + 1) rest).map (text ++ ·) := by
  induction text with
  | nil => simp
  | cons c text ih =>
    have hopens : ¬ ['/', '*'] <+: c :: (text ++ rest) := by
      cases text with
      | nil =>
        have hslash : c ≠ '/' := by simpa using h.noSlash
        simp [List.cons_prefix_cons, hslash.symm]
      | cons d text =>
        rw [pair_prefix_append (by simp)]
        exact fun hprefix => h.noOpener hprefix.isInfix
    have hcloses : ¬ ['*', '/'] <+: c :: (text ++ rest) := by
      cases text with
      | nil =>
        rintro ⟨after, hafter⟩
        obtain ⟨rfl, rfl⟩ := List.cons.inj hafter
        exact hapart rfl rfl
      | cons d text =>
        rw [pair_prefix_append (by simp)]
        exact fun hprefix => h.noCloser hprefix.isInfix
    rw [List.cons_append, commentRest?_plain hopens hcloses,
      ih h.tail (hapart.of_append [c]), Option.map_map]
    rfl

/-- The depth is the same behind a body as in front of it: each opener in it has its closer. -/
theorem Body.commentRest? (h : Body body) {rest : List Char} (hapart : Apart body rest)
    (depth : Nat) : commentRest? (depth + 1) (body ++ rest) =
      (commentRest? (depth + 1) rest).map (body ++ ·) := by
  induction h generalizing rest depth with
  | text htext => exact htext.commentRest? hapart depth
  | @nested text inner more htext hstar _ _ ihinner ihmore =>
    have hmore : Apart more rest :=
      Apart.of_append (text ++ '/' :: '*' :: (inner ++ ['*', '/'])) (by simpa using hapart)
    rw [List.append_assoc, htext.commentRest? (.of_ne hstar), List.cons_append, List.cons_append,
      Lexer.commentRest?, List.append_assoc, ihinner (fun _ => by simp), List.cons_append,
      List.cons_append, Lexer.commentRest?, ihmore hmore]
    simp [Function.comp_def]

theorem Body.commentRest?_closed (h : Body body) (rest : List Char) :
    Lexer.commentRest? 1 (body ++ '*' :: '/' :: rest) = some (body ++ ['*', '/']) := by
  rw [h.commentRest? (fun _ => by simp), Lexer.commentRest?, Lexer.commentRest?]
  rfl

/-- Nothing closes the comments that are opened, however deep they are nested already. -/
theorem commentRest?_openings {bodies : List (List Char)} (hbody : ∀ b ∈ body :: bodies, Body b)
    (hstar : ∀ b ∈ (body :: bodies).dropLast, b.getLast? ≠ some '*') (depth : Nat) :
    commentRest? (depth + 1) (body ++ openings bodies) = none := by
  induction bodies generalizing body depth with
  | nil =>
    rw [(hbody body List.mem_cons_self).commentRest? (fun _ => by simp [openings])]
    rfl
  | cons inner bodies ih =>
    rw [List.forall_mem_cons] at hbody
    rw [List.dropLast_cons_of_ne_nil (by simp), List.forall_mem_cons] at hstar
    have hopen : openings (inner :: bodies) = '/' :: '*' :: (inner ++ openings bodies) := by
      simp [openings]
    rw [hbody.1.commentRest? (.of_ne hstar.1), hopen, commentRest?, ih hbody.2 hstar.2]
    rfl

theorem pieces_blockComment (h : Body body) (rest : List Char) :
    pieces ('/' :: '*' :: (body ++ '*' :: '/' :: rest)) =
      ⟨'/' :: '*' :: (body ++ ['*', '/']), .blank⟩ :: pieces rest := by
  rw [pieces_cons, next_slash, comment?, h.commentRest?_closed]
  simp

theorem pieces_openings {bodies : List (List Char)} (h : bodies ≠ [])
    (hbody : ∀ body ∈ bodies, Body body)
    (hstar : ∀ body ∈ bodies.dropLast, body.getLast? ≠ some '*') :
    pieces (openings bodies) = [⟨openings bodies, .error .unterminatedComment⟩] := by
  obtain ⟨body, bodies, rfl⟩ := List.exists_cons_of_ne_nil h
  have hopen : openings (body :: bodies) = '/' :: '*' :: (body ++ openings bodies) := by
    simp [openings]
  rw [hopen, pieces_cons, next_slash, comment?, commentRest?_openings hbody hstar]
  simp [pieces, piecesFrom]

/-- Block comments nest to any depth. A comment with a body between its delimiters has no items, and
those of what follows it are as many lines further down as it has line breaks. Comments that are
opened one inside the other and not closed are one error, on the last line, and the source ends
there. -/
theorem comments_nest :
    (∀ body rest : String, Body body.toList →
      items ("/*" ++ body ++ "*/" ++ rest) =
        (items rest).map (Item.onLine (· + lineBreaks ("/*" ++ body ++ "*/")))) ∧
    ∀ bodies : List (List Char), bodies ≠ [] → (∀ body ∈ bodies, Body body) →
      (∀ body ∈ bodies.dropLast, body.getLast? ≠ some '*') →
      ∀ source : String, source.toList = openings bodies →
        items source = [.error ⟨.unterminatedComment, 1 + lineBreaks source⟩,
          .ok (.endOfInput (1 + lineBreaks source))] := by
  constructor
  · intro body rest hbody
    have hsource : ("/*" ++ body ++ "*/" ++ rest).toList =
        '/' :: '*' :: (body.toList ++ '*' :: '/' :: rest.toList) := by simp
    have hlines : lineBreaks ("/*" ++ body ++ "*/") =
        ('/' :: '*' :: (body.toList ++ ['*', '/'])).count '\n' := by simp [lineBreaks]
    rw [items, hsource, pieces_blockComment hbody, itemsFrom, hlines]
    exact itemsFrom_add 1 _ _
  · intro bodies hsome hbody hstar source hsource
    rw [items, lineBreaks, hsource, pieces_openings hsome hbody hstar]
    rfl

/-- Delimiters that overlap with their neighbours, in the comment `/**a` … `/*/x*/**/` and in the
two openers `/*a` … `/*/b*`. -/
theorem comments_nest_overlapping :
    items "/**a\n/*/x*/**/y" = [.ok ⟨.identifier, "y", 2⟩, .ok (.endOfInput 2)] ∧
      items "/*a\n/*/b*" = [.error ⟨.unterminatedComment, 2⟩, .ok (.endOfInput 2)] := by
  have hfragment : Fragment "*a\n".toList ∧ Fragment "/x".toList ∧ Fragment "*".toList ∧
      Fragment "a\n".toList ∧ Fragment "/b*".toList := by
    refine ⟨?_, ?_, ?_, ?_, ?_⟩ <;> exact ⟨by decide, by decide, by decide⟩
  obtain ⟨hstart, hnested, hend, houter, hinner⟩ := hfragment
  constructor
  · have hbody : Body "*a\n/*/x*/*".toList :=
      .nested hstart (by decide) (.text hnested) (.text hend)
    exact (comments_nest.1 "*a\n/*/x*/*" "y" hbody).trans rfl
  · have hbodies : ∀ body ∈ ["a\n".toList, "/b*".toList], Body body := by
      simpa using And.intro (Body.text houter) (Body.text hinner)
    exact (comments_nest.2 _ (by decide) hbodies (by decide) "/*a\n/*/b*" (by decide)).trans rfl

end Lox.Lexer
