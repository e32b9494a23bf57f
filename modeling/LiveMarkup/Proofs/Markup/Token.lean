import Mathlib.Data.List.Chain
import LiveMarkup.Proofs.Markup.Entity
import LiveMarkup.Surface.Html

/-!
# Tokens read back

What the tags, attributes and comments of a markup text can hold, and that each is read back from
its spelling in front of any text.

* `IsTagName`, `IsAttributeName`, `IsCommentBody`: what names and comments can be.
* **`readAttributes_spelled`**, **`openingTag_spelled`**, `closingTag_spelled`: the parts of a tag
  read back.
* **`Token.next_opening`**, …, **`Token.next_text`**: a token read back.
* **`Token.proper_of_next`**: every token that is read is of this form.
-/

namespace LiveMarkup.Markup

variable {c mark : Char} {cs name rest body raw : List Char} {t : Token} {ts : List Token}

/-! ## What tags and comments hold -/

/-- A text that can be the name of a tag. -/
def IsTagName (name : List Char) : Prop :=
  (∃ c cs, name = c :: cs ∧ isLetter c) ∧ ∀ c ∈ name, isNameChar c

/-- A text that can be the name of an attribute. -/
def IsAttributeName (name : List Char) : Prop := name ≠ [] ∧ ∀ c ∈ name, endsAttributeName c = false

/-- A text that can be the content of a comment: its end mark is found right behind it. -/
def IsCommentBody (body : List Char) : Prop :=
  ∀ rest, commentBody (body ++ '-' :: '-' :: '>' :: rest) = some (body, rest)

/-- A text behind a text token: it starts with a tag or a comment, or is empty. -/
def EndsText (rest : List Char) : Prop := rest = [] ∨ startsTag rest

/-! ## Lists -/

theorem takeWhile_append {p : Char → Bool} (all : ∀ c ∈ name, p c) (stops : p c = false) :
    (name ++ c :: rest).takeWhile p = name := by
  rw [List.takeWhile_append_of_pos all, List.takeWhile_cons_of_neg (by simp [stops]), List.append_nil]

theorem dropWhile_append {p : Char → Bool} (all : ∀ c ∈ name, p c) (stops : p c = false) :
    (name ++ c :: rest).dropWhile p = c :: rest := by
  rw [List.dropWhile_append_of_pos all, List.dropWhile_cons_of_neg (by simp [stops])]

/-! ## Attributes -/

theorem not_isSpace (h : endsAttributeName c = false) : isSpace c = false := by
  simp only [endsAttributeName, Bool.or_eq_false_iff] at h
  exact h.1.1.1.1.1

theorem ne_angle (h : endsAttributeName c = false) : c ≠ '>' := by
  rintro rfl
  cases h

/-- The name of an attribute, read up to the equals sign. -/
theorem attributeName_spelled (h : ∀ c ∈ name, endsAttributeName c = false) (rest : List Char) :
    attributeName (name ++ '=' :: rest) = (name, '=' :: rest) := by
  induction name with
  | nil => rfl
  | cons c name ih =>
    obtain ⟨hc, hname⟩ := List.forall_mem_cons.1 h
    have hslash : (c == '/' && (name ++ '=' :: rest).head? == some '>') = false := by
      cases name with
      | nil => exact Bool.and_false _
      | cons d name =>
        simp [ne_angle (hname d List.mem_cons_self)]
    rw [List.cons_append, attributeName, hc, hslash, ih hname]
    rfl

theorem upTo_append (h : mark ∉ cs) (rest : List Char) :
    upTo mark (cs ++ mark :: rest) = some (cs, rest) := by
  induction cs with
  | nil => rw [List.nil_append, upTo, if_pos rfl]
  | cons c cs ih =>
    obtain ⟨hc, hcs⟩ := not_or.1 (mt List.mem_cons.2 h)
    rw [List.cons_append, upTo, if_neg (Ne.symm hc), ih hcs]
    rfl

/-- A value in quotes is read up to the second of them. -/
theorem assignedValue_quoted (h : '\x22' ∉ cs) (rest : List Char) :
    assignedValue ('=' :: '\x22' :: (cs ++ '\x22' :: rest)) = (cs, rest) := by
  show (upTo '\x22' (cs ++ '\x22' :: rest)).getD _ = _
  rw [upTo_append h]
  rfl

/-- An attribute is read back. -/
theorem readAttribute_spelled {e : String × String} (h : IsAttributeName e.1.toList) (rest : List Char) :
    readAttribute (Surface.attributeHtml e ++ rest) = some (e, rest) := by
  obtain ⟨c, cs, hname⟩ := List.exists_cons_of_ne_nil h.1
  have hspace : isSpace c = false := not_isSpace (h.2 c (hname ▸ List.mem_cons_self))
  let after := '=' :: '\x22' :: (Entity.escape .quoted e.2.toList ++ '\x22' :: rest)
  have hhtml : Surface.attributeHtml e ++ rest = ' ' :: (e.1.toList ++ after) := by
    simp [Surface.attributeHtml, after]
  have hskip : skipSpace (' ' :: (e.1.toList ++ after)) = e.1.toList ++ after := by
    rw [hname, skipSpace, List.dropWhile_cons_of_pos rfl, List.cons_append,
      List.dropWhile_cons_of_neg (by simp [hspace])]
  have hblank : (' ' :: (e.1.toList ++ after)).head?.any isSpace = true := rfl
  rw [hhtml, readAttribute, if_pos hblank, hskip, attributeName_spelled h.2]
  split
  · next he => exact absurd (Prod.mk.inj he).1 h.1
  · next he =>
    obtain ⟨rfl, rfl⟩ := Prod.mk.inj he
    rw [assignedValue_quoted (Entity.quote_not_mem_escape _)]
    simp [Entity.decode_escape]

theorem readAttributes_cons {cs rest : List Char} {a : String × String}
    (h : readAttribute cs = some (a, rest)) :
    readAttributes cs = (a :: (readAttributes rest).1, (readAttributes rest).2) := by
  rw [readAttributes]
  split
  · next h' =>
    obtain ⟨rfl, rfl⟩ := Prod.mk.inj (Option.some.inj (h'.symm.trans h))
    rfl
  · next h' =>
    rw [h] at h'
    cases h'

theorem readAttributes_none (h : readAttribute cs = none) : readAttributes cs = ([], cs) := by
  rw [readAttributes]
  split
  · next h' =>
    rw [h] at h'
    cases h'
  · rfl

/-- The attributes of a tag are read back. -/
theorem readAttributes_spelled {es : List (String × String)}
    (h : ∀ e ∈ es, IsAttributeName e.1.toList) (rest : List Char) :
    readAttributes (es.flatMap Surface.attributeHtml ++ '>' :: rest) = (es, '>' :: rest) := by
  induction es with
  | nil => exact readAttributes_none rfl
  | cons e es ih =>
    obtain ⟨he, hes⟩ := List.forall_mem_cons.1 h
    rw [List.flatMap_cons, List.append_assoc, readAttributes_cons (readAttribute_spelled he _), ih hes]

/-! ## Tags -/

theorem isNameChar_of_isLetter (h : isLetter c) : isNameChar c := by
  simp [isNameChar, h]

/-- An opening tag is read back. -/
theorem openingTag_spelled {tag : String} {es : List (String × String)} (htag : IsTagName tag.toList)
    (hes : ∀ e ∈ es, IsAttributeName e.1.toList) (rest : List Char) :
    openingTag (tag.toList ++ (es.flatMap Surface.attributeHtml ++ '>' :: rest)) =
      some (.opening tag es false, rest) := by
  have hstop : ∃ c cs, es.flatMap Surface.attributeHtml ++ '>' :: rest = c :: cs ∧
      isNameChar c = false := by
    cases es with
    | nil => exact ⟨'>', rest, rfl, rfl⟩
    | cons e es => exact ⟨' ', _, rfl, rfl⟩
  have hread := readAttributes_spelled hes rest
  obtain ⟨c, cs, hcs, hc⟩ := hstop
  rw [hcs] at hread ⊢
  rw [openingTag, takeWhile_append htag.2 hc, dropWhile_append htag.2 hc, hread]
  simp [skipSpace, isSpace, tagEnd]

/-- A closing tag is read back. -/
theorem closingTag_spelled {tag : String} (htag : IsTagName tag.toList) (rest : List Char) :
    closingTag (tag.toList ++ '>' :: rest) = some (.closing tag, rest) := by
  have hc : isNameChar '>' = false := rfl
  rw [closingTag, takeWhile_append htag.2 hc, dropWhile_append htag.2 hc]
  simp [skipSpace, isSpace]

/-! ## Tokens -/

namespace Token

theorem next_tag (hc : isLetter c) (cs : List Char) : next ('<' :: c :: cs) = openingTag (c :: cs) := by
  have hstarts : startsTag ('<' :: c :: cs) := by simp [startsTag, hc]
  have hbang : c ≠ '!' := by
    rintro rfl
    cases hc
  have hslash : c ≠ '/' := by
    rintro rfl
    cases hc
  unfold next
  rw [if_pos hstarts]
  split
  · next he => exact absurd (List.cons.inj (List.cons.inj he).2).1 hbang
  · next he => exact absurd (List.cons.inj (List.cons.inj he).2).1 hbang
  · next he => exact absurd (List.cons.inj (List.cons.inj he).2).1 hslash
  · next he => rw [(List.cons.inj he).2]
  · next he => cases he

theorem next_opening {tag : String} {es : List (String × String)} (htag : IsTagName tag.toList)
    (hes : ∀ e ∈ es, IsAttributeName e.1.toList) (rest : List Char) :
    next ('<' :: (tag.toList ++ (es.flatMap Surface.attributeHtml ++ '>' :: rest))) =
      some (.opening tag es false, rest) := by
  obtain ⟨⟨c, cs, hname, hc⟩, -⟩ := id htag
  have hread := openingTag_spelled htag hes rest
  rw [hname, List.cons_append] at hread ⊢
  exact (next_tag hc _).trans hread

theorem next_closing {tag : String} (htag : IsTagName tag.toList) (rest : List Char) :
    next ('<' :: '/' :: (tag.toList ++ '>' :: rest)) = some (.closing tag, rest) :=
  closingTag_spelled htag rest

theorem next_comment {content : String} (h : IsCommentBody content.toList) (rest : List Char) :
    next ('<' :: '!' :: '-' :: '-' :: (content.toList ++ '-' :: '-' :: '>' :: rest)) =
      some (.comment content, rest) := by
  show (commentBody _).map _ = _
  rw [h rest]
  simp

theorem textRun_append (h : '<' ∉ raw) (hrest : EndsText rest) :
    textRun (raw ++ rest) = (raw, rest) := by
  induction raw with
  | nil =>
    rcases hrest with rfl | hrest
    · rfl
    · cases rest with
      | nil => rfl
      | cons c rest => rw [List.nil_append, textRun, if_pos hrest]
  | cons c raw ih =>
    obtain ⟨hc, hraw⟩ := not_or.1 (mt List.mem_cons.2 h)
    have hstarts : ¬ startsTag (c :: (raw ++ rest)) := by
      unfold startsTag
      split
      · next he => exact absurd (List.cons.inj he).1.symm hc
      · exact Bool.false_ne_true
    rw [List.cons_append, textRun, if_neg hstarts, ih hraw]

theorem next_text (hne : raw ≠ []) (h : '<' ∉ raw) (hrest : EndsText rest) :
    next (raw ++ rest) = some (.text raw, rest) := by
  have hstarts : ¬ startsTag (raw ++ rest) := by
    cases raw with
    | nil => exact absurd rfl hne
    | cons c raw =>
      unfold startsTag
      split
      · next he => exact absurd ((List.cons.inj he).1 ▸ List.mem_cons_self) h
      · exact Bool.false_ne_true
  unfold next
  rw [if_neg hstarts, textRun_append h hrest]

theorem scan_of_next (hcs : cs ≠ []) (h : next cs = some (t, rest)) :
    scan cs = (scan rest).map (t :: ·) := by
  cases cs with
  | nil => exact absurd rfl hcs
  | cons c cs =>
    rw [scan]
    split
    · next h' =>
      obtain ⟨rfl, rfl⟩ := Prod.mk.inj (Option.some.inj (h'.symm.trans h))
      rfl
    · next h' =>
      rw [h] at h'
      cases h'

@[simp] theorem scan_nil : scan [] = some [] := by
  rw [scan]

/-! ## What tokens hold -/

def isText : Token → Bool
  | .text _ => true
  | _ => false

/-- What a token of a text holds. -/
def Proper : Token → Prop
  | .opening name attributes _ =>
    IsTagName name.toList ∧ ∀ e ∈ attributes, IsAttributeName e.1.toList
  | .closing _ => True
  | .comment content => IsCommentBody content.toList
  | .text raw => raw ≠ []

end Token

theorem isAttributeName_attributeName (cs : List Char) :
    ∀ c ∈ (attributeName cs).1, endsAttributeName c = false := by
  induction cs with
  | nil => exact fun _ h => absurd h List.not_mem_nil
  | cons c cs ih =>
    rw [attributeName]
    split
    · exact fun _ h => absurd h List.not_mem_nil
    · next hends =>
      refine List.forall_mem_cons.2 ⟨?_, ih⟩
      simp only [Bool.or_eq_true, not_or] at hends
      exact Bool.eq_false_iff.2 hends.1

theorem isAttributeName_of_readAttribute {a : String × String} (h : readAttribute cs = some (a, rest)) :
    IsAttributeName a.1.toList := by
  unfold readAttribute at h
  split at h
  · split at h
    · cases h
    · next name rest' hne hname =>
      obtain ⟨rfl, -⟩ := Prod.mk.inj (Option.some.inj h)
      have hread := isAttributeName_attributeName (skipSpace cs)
      rw [hname] at hread
      rw [String.toList_ofList]
      exact ⟨hne, hread⟩
  · cases h

theorem isAttributeName_readAttributes (cs : List Char) :
    ∀ a ∈ (readAttributes cs).1, IsAttributeName a.1.toList := by
  fun_induction readAttributes cs with
  | case1 cs a rest h hlt as rest' heq ih =>
    rw [heq] at ih
    exact List.forall_mem_cons.2 ⟨isAttributeName_of_readAttribute h, ih⟩
  | case2 => exact fun _ h => absurd h List.not_mem_nil

theorem commentBody_cons (h : ∀ r, c :: cs ≠ '-' :: '-' :: '>' :: r) :
    commentBody (c :: cs) = (commentBody cs).map fun (a, b) => (c :: a, b) := by
  rw [commentBody]
  rintro r rfl rfl
  exact h r rfl

theorem commentBody_eq (h : commentBody cs = some (body, rest)) :
    cs = body ++ '-' :: '-' :: '>' :: rest := by
  fun_induction commentBody cs generalizing body with
  | case1 rest =>
    cases h
    rfl
  | case2 c cs _ ih =>
    obtain ⟨⟨body', rest'⟩, h', e⟩ := Option.map_eq_some_iff.1 h
    cases e
    rw [ih h']
    rfl
  | case3 => cases h

/-- The end mark that is found in a text is found behind the same body in front of any other text. -/
theorem isCommentBody_of_commentBody (h : commentBody cs = some (body, rest)) : IsCommentBody body := by
  fun_induction commentBody cs generalizing body with
  | case1 rest =>
    cases h
    exact fun rest => rfl
  | case2 c cs hno ih =>
    obtain ⟨⟨body', rest'⟩, h', e⟩ := Option.map_eq_some_iff.1 h
    cases e
    intro r
    -- The mark is three characters long, so the body decides whether one starts at its front.
    have hfront : ∀ r', c :: (body' ++ '-' :: '-' :: '>' :: r) ≠ '-' :: '-' :: '>' :: r' := by
      intro r' he
      rw [commentBody_eq h'] at hno
      rcases body' with _ | ⟨d, _ | ⟨e, body'⟩⟩
      · cases he
      · cases he
      · cases he
        exact hno _ rfl rfl
    rw [List.cons_append, commentBody_cons hfront, ih h' r]
    rfl
  | case3 => cases h

/-! ## What tokens follow each other -/

/-- Two texts never follow each other. -/
def Token.Apart (t u : Token) : Prop := (t.isText && u.isText) = false

theorem endsText_textRun (cs : List Char) : EndsText (textRun cs).2 := by
  induction cs with
  | nil => exact .inl rfl
  | cons c cs ih =>
    rw [textRun]
    split
    · next h => exact .inr h
    · exact ih

theorem openingTag_proper (hc : isLetter c) (h : openingTag (c :: cs) = some (t, rest)) :
    t.Proper ∧ t.isText = false := by
  unfold openingTag at h
  obtain ⟨⟨selfClosing, rest'⟩, -, he⟩ := Option.bind_eq_some_iff.1 h
  cases he
  refine ⟨⟨?_, isAttributeName_readAttributes _⟩, rfl⟩
  rw [String.toList_ofList]
  refine ⟨⟨c, cs.takeWhile isNameChar, ?_, hc⟩, List.all_eq_true.1 List.all_takeWhile⟩
  rw [List.takeWhile_cons_of_pos (isNameChar_of_isLetter hc)]

/-- **A token that is read is proper.** What follows a text starts with a tag or a comment. -/
theorem Token.proper_of_next (hcs : cs ≠ []) (h : next cs = some (t, rest)) :
    t.Proper ∧ (t.isText → EndsText rest) ∧ (startsTag cs → t.isText = false) := by
  unfold next at h
  split at h
  · next hstarts =>
    suffices t.Proper ∧ t.isText = false from
      ⟨this.1, fun ht => absurd (this.2.symm.trans ht) Bool.false_ne_true, fun _ => this.2⟩
    split at h
    · obtain ⟨⟨body, rest'⟩, h', e⟩ := Option.map_eq_some_iff.1 h
      cases e
      refine ⟨?_, rfl⟩
      show IsCommentBody _
      rw [String.toList_ofList]
      exact isCommentBody_of_commentBody h'
    · cases h
    · unfold closingTag at h
      dsimp only at h
      split at h
      · cases h
        exact ⟨trivial, rfl⟩
      · cases h
    · next d rest' hcomment hbang hslash =>
      obtain ⟨c, cs, rfl, hc⟩ : ∃ c cs, rest' = c :: cs ∧ isLetter c := by
        unfold startsTag at hstarts
        split at hstarts
        · next c cs he =>
          cases he
          simp only [Bool.or_eq_true, beq_iff_eq] at hstarts
          rcases hstarts with (hc | rfl) | rfl
          · exact ⟨c, cs, rfl, hc⟩
          · exact (hslash cs rfl rfl).elim
          · exact (hbang cs rfl rfl).elim
        · cases hstarts
      exact openingTag_proper hc h
    · cases h
  · next hstarts =>
    cases cs with
    | nil => exact absurd rfl hcs
    | cons c cs =>
      have hends := endsText_textRun (c :: cs)
      have hrun : (textRun (c :: cs)).1 ≠ [] := by
        rw [textRun, if_neg hstarts]
        exact List.cons_ne_nil _ _
      cases h
      exact ⟨hrun, fun _ => hends, fun hs => absurd hs hstarts⟩

/-- **The tokens of a text are proper**, and no two texts among them follow each other. -/
theorem Token.proper_of_scan (h : scan cs = some ts) :
    (∀ t ∈ ts, t.Proper) ∧ ts.IsChain Apart ∧ (startsTag cs → ∀ t ∈ ts.head?, t.isText = false) := by
  fun_induction scan cs generalizing ts with
  | case1 =>
    cases h
    exact ⟨fun _ h => absurd h List.not_mem_nil, .nil, fun hs => nomatch hs⟩
  | case2 c cs t rest hnext hlt ih =>
    obtain ⟨ts', hts, rfl⟩ := Option.map_eq_some_iff.1 h
    obtain ⟨hproper, hends, hstarts⟩ := Token.proper_of_next (List.cons_ne_nil c cs) hnext
    obtain ⟨hall, hchain, hfirst⟩ := ih hts
    refine ⟨List.forall_mem_cons.2 ⟨hproper, hall⟩, List.isChain_cons.2 ⟨fun u hu => ?_, hchain⟩, ?_⟩
    · cases ht : t.isText with
      | false => exact congrArg (· && u.isText) ht
      | true =>
        rcases hends ht with rfl | hs
        · rw [scan_nil] at hts
          cases hts
          cases hu
        · exact (congrArg (t.isText && ·) (hfirst hs u hu)).trans (Bool.and_false _)
    · intro hs u hu
      cases hu
      exact hstarts hs
  | case3 => cases h

end LiveMarkup.Markup
