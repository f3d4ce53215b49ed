import Lox.Proofs.Number.Texts

/-!
# Forms

The prefix form of a tree is a word, a number, or a list in parentheses that starts with a word.
Its text can be cut into these parts in one way only, also in front of other text, as long as words
have no spaces and parentheses and do not look like numbers.
-/
namespace Lox

/-- What a prefix form is made of. -/
inductive Form where
  | word (text : String)
  | number (value : Float)
  /-- Items in parentheses, after a word that says what they are. -/
  | list (head : String) (items : List Form)
  /-- The name of a function, with the names of its parameters in parentheses. -/
  | heading (name : String) (parameters : List String)
  deriving Inhabited

namespace Form

def text : Form → String
  | word text => text
  | number value => Literal.numberStyle.write value
  | list head items => parenthesized (head :: texts items)
  | heading name parameters => name ++ parenthesized parameters
where
  texts : List Form → List String
    | [] => []
    | f :: fs => f.text :: texts fs

theorem texts_eq_map (items : List Form) : text.texts items = items.map text := by
  induction items with
  | nil => rfl
  | cons f fs ih => rw [text.texts, ih, List.map_cons]

/-- A character that neither ends a word nor opens a list. -/
def IsPlain (c : Char) : Prop := c ≠ ' ' ∧ c ≠ '(' ∧ c ≠ ')'
  deriving Decidable

/-- A character that texts of numbers may start with. -/
def IsNumeric (c : Char) : Prop := c.isDigit = true ∨ c = '.' ∨ c = '-'
  deriving Decidable

/-- The text does not go on with a plain character or with a list. -/
def Ends (rest : List Char) : Prop := ∀ c ∈ rest.head?, c = ' ' ∨ c = ')'

/-- The text has plain characters only, and does not start like a number. -/
structure IsWord (text : String) : Prop where
  ne_nil : text.toList ≠ []
  plain : ∀ c ∈ text.toList, IsPlain c
  start : ∀ c ∈ text.toList.head?, ¬ IsNumeric c

/-- The plain characters of a given text are found by a test. -/
theorem plain_of_all {text : String} (h : (text.toList.all fun c => IsPlain c) = true) :
    ∀ c ∈ text.toList, IsPlain c := fun c hc => of_decide_eq_true (List.all_eq_true.mp h c hc)

theorem isWord_of_all {text : String} (hplain : (text.toList.all fun c => IsPlain c) = true)
    (hstart : (text.toList.head?.any fun c => ¬ IsNumeric c) = true) : IsWord text := by
  obtain ⟨c, hc, hnumeric⟩ := (Option.any_eq_true _ _).mp hstart
  refine ⟨fun hnil => ?_, plain_of_all hplain, fun d hd => ?_⟩
  · rw [hnil] at hc
    exact absurd hc (by simp)
  · obtain rfl := Option.some.inj (hc.symm.trans hd)
    exact of_decide_eq_true hnumeric

mutual

/-- Words are words, and numbers are finite. -/
def Spelled : Form → Prop
  | word text => IsWord text
  | number value => Number.IsFinite value
  | list head items => (∀ c ∈ head.toList, IsPlain c) ∧ AllSpelled items
  | heading name parameters => IsWord name ∧ ∀ p ∈ parameters, IsWord p

def AllSpelled : List Form → Prop
  | [] => True
  | f :: fs => f.Spelled ∧ AllSpelled fs

end

theorem allSpelled_iff {items : List Form} : AllSpelled items ↔ ∀ f ∈ items, f.Spelled := by
  induction items with
  | nil => simp [AllSpelled]
  | cons f fs ih => rw [AllSpelled, ih, List.forall_mem_cons]

/-- The plain characters that the form starts with. -/
def lead : Form → List Char
  | word text => text.toList
  | number value => (Literal.numberStyle.write value).toList
  | list _ _ => []
  | heading name _ => name.toList

/-- The items of a list, each after a space. -/
def spaced (items : List Form) : List Char := items.flatMap fun f => ' ' :: f.text.toList

/-- The words with spaces between them. -/
def joined : List String → List Char
  | [] => []
  | p :: ps => p.toList ++ spaced (ps.map word)

/-- What follows the plain characters at the start. -/
def body : Form → List Char
  | word _ | number _ => []
  | list head items => '(' :: (head.toList ++ (spaced items ++ [')']))
  | heading _ parameters => '(' :: (joined parameters ++ [')'])

theorem toList_parenthesized (first : String) (rest : List Form) :
    (parenthesized (first :: rest.map text)).toList =
      '(' :: (first.toList ++ (spaced rest ++ [')'])) := by
  have hspaces : ([' '] : List Char).intercalate (first.toList :: rest.map (·.text.toList)) =
      first.toList ++ spaced rest := by
    induction rest generalizing first with
    | nil => simp [spaced]
    | cons f fs ih =>
      have ih := ih f.text
      rw [List.map_cons, List.intercalate_cons_cons, ih]
      simp [spaced]
  unfold parenthesized
  rw [String.toList_append, String.toList_append, String.toList_intercalate, List.map_cons,
    List.map_map]
  show '(' :: (([' '] : List Char).intercalate (first.toList :: rest.map (·.text.toList)) ++ [')']) =
    _
  rw [hspaces, List.append_assoc]

theorem toList_text (f : Form) : f.text.toList = f.lead ++ f.body := by
  cases f with
  | word t => simp [text, lead, body]
  | number value => simp [text, lead, body]
  | list head items =>
    rw [text, texts_eq_map, toList_parenthesized]
    rfl
  | heading name parameters =>
    rw [text, String.toList_append]
    cases parameters with
    | nil => rfl
    | cons p ps =>
      have htexts : (ps.map word).map text = ps := by simp [Function.comp_def, text]
      have hlist := toList_parenthesized p (ps.map word)
      rw [htexts] at hlist
      rw [hlist, body, joined, List.append_assoc]
      rfl

theorem plain_append_inj {a b r s : List Char} (ha : ∀ c ∈ a, IsPlain c) (hb : ∀ c ∈ b, IsPlain c)
    (hr : ∀ c ∈ r.head?, ¬ IsPlain c) (hs : ∀ c ∈ s.head?, ¬ IsPlain c) (h : a ++ r = b ++ s) :
    a = b ∧ r = s := by
  induction a generalizing b with
  | nil =>
    cases b with
    | nil => exact ⟨rfl, h⟩
    | cons c cs =>
      subst h
      exact absurd (hb c List.mem_cons_self) (hr c rfl)
  | cons c cs ih =>
    cases b with
    | nil =>
      subst h
      exact absurd (ha c List.mem_cons_self) (hs c rfl)
    | cons d ds =>
      rw [List.cons_append, List.cons_append, List.cons.injEq] at h
      obtain ⟨rfl, h⟩ := h
      obtain ⟨rfl, hrest⟩ :=
        ih (fun c hc => ha c (.tail _ hc)) (fun c hc => hb c (.tail _ hc)) h
      exact ⟨rfl, hrest⟩

theorem plain_of_isNumeric {c : Char} (h : IsNumeric c) : IsPlain c := by
  refine ⟨?_, ?_, ?_⟩ <;> rintro rfl <;> exact absurd h (by decide)

theorem Ends.not_plain {r : List Char} (h : Ends r) : ∀ c ∈ r.head?, ¬ IsPlain c := by
  intro c hc hplain
  obtain rfl | rfl := h c hc
  · exact hplain.1 rfl
  · exact hplain.2.2 rfl

theorem Ends.ne_open {r : List Char} (h : Ends r) (rest : List Char) : r ≠ '(' :: rest := by
  rintro rfl
  exact absurd (h '(' rfl) (by decide)

theorem ends_spaced (items : List Form) (r : List Char) : Ends (spaced items ++ ')' :: r) := by
  intro c hc
  cases items with
  | nil => exact .inr (Option.some.inj hc).symm
  | cons f fs => exact .inl (Option.some.inj hc).symm

theorem IsWord.ne_number {text : String} {value : Float} (h : IsWord text)
    (hvalue : Number.IsFinite value) :
    text.toList ≠ (Literal.numberStyle.write value).toList := by
  intro heq
  obtain ⟨c, cs, hcs⟩ := List.exists_cons_of_ne_nil h.ne_nil
  refine h.start c (by simp [hcs]) (Literal.mem_write hvalue ?_)
  simp [← heq, hcs]

section
variable {f g : Form} {r s : List Char}

theorem plain_lead (hf : f.Spelled) : ∀ c ∈ f.lead, IsPlain c := by
  cases f with
  | word t => exact hf.plain
  | number value => exact fun c hc => plain_of_isNumeric (Literal.mem_write hf hc)
  | list _ _ => exact nofun
  | heading name _ => exact hf.1.plain

theorem not_plain_body (f : Form) (hr : Ends r) : ∀ c ∈ (f.body ++ r).head?, ¬ IsPlain c := by
  have hopen (c : Char) (hc : c ∈ some '(') : ¬ IsPlain c := by
    obtain rfl := Option.some.inj hc
    exact fun hplain => hplain.2.1 rfl
  cases f with
  | word _ | number _ => exact hr.not_plain
  | list _ _ | heading _ _ => exact hopen

/-- Two texts that are the same have the same plain characters at the start. -/
theorem lead_eq (hf : f.Spelled) (hg : g.Spelled) (hr : Ends r) (hs : Ends s)
    (h : f.text.toList ++ r = g.text.toList ++ s) :
    f.lead = g.lead ∧ f.body ++ r = g.body ++ s := by
  rw [toList_text, toList_text, List.append_assoc, List.append_assoc] at h
  exact plain_append_inj (plain_lead hf) (plain_lead hg) (f.not_plain_body hr)
    (g.not_plain_body hs) h

end

/-- In front of whatever a form may stand in front of, its text is that of no other form. -/
def Decodes (f : Form) : Prop :=
  ∀ g r s, g.Spelled → Ends r → Ends s → f.text.toList ++ r = g.text.toList ++ s → f = g ∧ r = s

theorem decodes_word {text : String} (h : IsWord text) : (word text).Decodes := by
  intro g r s hg hr hs heq
  obtain ⟨hlead, hbody⟩ := lead_eq (f := word text) h hg hr hs heq
  cases g with
  | word text' => exact ⟨congrArg word (String.toList_inj.mp hlead), hbody⟩
  | number value => exact absurd hlead (h.ne_number hg)
  | list _ _ => exact absurd hlead h.ne_nil
  | heading _ _ => exact absurd hbody (hr.ne_open _)

theorem decodes_number {value : Float} (h : Number.IsFinite value) :
    (number value).Decodes := by
  intro g r s hg hr hs heq
  obtain ⟨hlead, hbody⟩ := lead_eq (f := number value) h hg hr hs heq
  cases g with
  | word text => exact absurd hlead.symm (IsWord.ne_number hg h)
  | number value' =>
    exact ⟨congrArg number (Literal.write_injective h hg (String.toList_inj.mp hlead)), hbody⟩
  | list _ _ => exact absurd hlead (Literal.write_ne_nil h)
  | heading _ _ => exact absurd hlead.symm (hg.1.ne_number h)

/-- A list of items up to the closing parenthesis, item after item. -/
theorem eq_of_spaced {fs gs : List Form} {r s : List Char} (hfs : ∀ f ∈ fs, f.Decodes)
    (hgs : ∀ g ∈ gs, g.Spelled) (h : spaced fs ++ ')' :: r = spaced gs ++ ')' :: s) :
    fs = gs ∧ r = s := by
  induction fs generalizing gs with
  | nil =>
    cases gs with
    | nil => exact ⟨rfl, (List.cons.inj h).2⟩
    | cons g gs => exact absurd (List.cons.inj h).1 (by decide)
  | cons f fs ih =>
    cases gs with
    | nil => exact absurd (List.cons.inj h).1 (by decide)
    | cons g gs =>
      simp only [spaced, List.flatMap_cons, List.cons_append, List.append_assoc,
        List.cons.injEq, true_and] at h
      obtain ⟨rfl, hitems⟩ := hfs f List.mem_cons_self g _ _ (hgs g List.mem_cons_self)
        (ends_spaced fs r) (ends_spaced gs s) h
      obtain ⟨rfl, hrest⟩ :=
        ih (fun f hf => hfs f (.tail _ hf)) (fun g hg => hgs g (.tail _ hg)) hitems
      exact ⟨rfl, hrest⟩

theorem decodes_list {head : String} {items : List Form} (hhead : ∀ c ∈ head.toList, IsPlain c)
    (hspelled : AllSpelled items) (hitems : ∀ f ∈ items, f.Decodes) :
    (list head items).Decodes := by
  intro g r s hg hr hs heq
  obtain ⟨hlead, hbody⟩ := lead_eq (f := list head items) ⟨hhead, hspelled⟩ hg hr hs heq
  cases g with
  | word _ => exact absurd hlead.symm hg.ne_nil
  | number _ => exact absurd hlead.symm (Literal.write_ne_nil hg)
  | list head' items' =>
    simp only [body, List.cons_append, List.append_assoc, List.cons.injEq, true_and,
      List.nil_append] at hbody
    obtain ⟨hheads, hbody⟩ := plain_append_inj hhead hg.1 (ends_spaced _ _).not_plain
      (ends_spaced _ _).not_plain hbody
    obtain ⟨rfl, hrest⟩ := eq_of_spaced hitems (allSpelled_iff.mp hg.2) hbody
    rw [String.toList_inj.mp hheads]
    exact ⟨rfl, hrest⟩
  | heading _ _ => exact absurd hlead.symm hg.1.ne_nil

/-- The names between the parentheses of a heading. -/
theorem eq_of_joined {ps qs : List String} {r s : List Char} (hps : ∀ p ∈ ps, IsWord p)
    (hqs : ∀ q ∈ qs, IsWord q) (h : joined ps ++ ')' :: r = joined qs ++ ')' :: s) :
    ps = qs ∧ r = s := by
  have hclose (r : List Char) : Ends (')' :: r) := ends_spaced [] r
  have hfirst (p : String) (ps : List String) (r s : List Char) (hp : IsWord p)
      (h : ')' :: s = joined (p :: ps) ++ ')' :: r) : False := by
    rw [joined, List.append_assoc] at h
    have hnil := plain_append_inj (a := []) nofun hp.plain (hclose s).not_plain
      (ends_spaced _ r).not_plain h
    exact hp.ne_nil hnil.1.symm
  cases ps with
  | nil =>
    cases qs with
    | nil => exact ⟨rfl, (List.cons.inj h).2⟩
    | cons q qs => exact (hfirst q qs s r (hqs q List.mem_cons_self) h).elim
  | cons p ps =>
    cases qs with
    | nil => exact (hfirst p ps r s (hps p List.mem_cons_self) h.symm).elim
    | cons q qs =>
      rw [joined, joined, List.append_assoc, List.append_assoc] at h
      obtain ⟨hpq, h⟩ := plain_append_inj (hps p List.mem_cons_self).plain
        (hqs q List.mem_cons_self).plain (ends_spaced _ r).not_plain (ends_spaced _ s).not_plain h
      have hwords : ∀ f ∈ ps.map word, f.Decodes := by
        simp only [List.forall_mem_map]
        exact fun p hp => decodes_word (hps p (.tail _ hp))
      have hspelled : ∀ g ∈ qs.map word, g.Spelled := by
        simp only [List.forall_mem_map]
        exact fun q hq => hqs q (.tail _ hq)
      obtain ⟨hmap, hrest⟩ := eq_of_spaced hwords hspelled h
      have hinj : Function.Injective word := fun a b h => word.inj h
      rw [String.toList_inj.mp hpq, List.map_injective_iff.mpr hinj hmap]
      exact ⟨rfl, hrest⟩

theorem decodes_heading {name : String} {parameters : List String} (hname : IsWord name)
    (hparameters : ∀ p ∈ parameters, IsWord p) : (heading name parameters).Decodes := by
  intro g r s hg hr hs heq
  obtain ⟨hlead, hbody⟩ :=
    lead_eq (f := heading name parameters) ⟨hname, hparameters⟩ hg hr hs heq
  cases g with
  | word _ => exact absurd hbody.symm (hs.ne_open _)
  | number _ => exact absurd hlead (hname.ne_number hg)
  | list _ _ => exact absurd hlead hname.ne_nil
  | heading name' parameters' =>
    simp only [body, List.cons_append, List.append_assoc, List.cons.injEq, true_and,
      List.nil_append] at hbody
    obtain ⟨rfl, hrest⟩ := eq_of_joined hparameters hg.2 hbody
    rw [String.toList_inj.mp hlead]
    exact ⟨rfl, hrest⟩

mutual

theorem decodes : (f : Form) → f.Spelled → f.Decodes
  | word _, h => decodes_word h
  | number _, h => decodes_number h
  | list _ items, h => decodes_list h.1 h.2 (allDecode items h.2)
  | heading _ _, h => decodes_heading h.1 h.2

theorem allDecode : (items : List Form) → AllSpelled items → ∀ f ∈ items, f.Decodes
  | [], _ => nofun
  | f :: fs, h => List.forall_mem_cons.mpr ⟨decodes f h.1, allDecode fs h.2⟩

end

/-- The text settles the form. -/
theorem eq_of_text {f g : Form} (hf : f.Spelled) (hg : g.Spelled) (h : f.text = g.text) : f = g := by
  have hends : Ends [] := nofun
  exact (decodes f hf g [] [] hg hends hends (by rw [h])).1

end Form
end Lox
