import LiveMarkup.Markup.Forest
import LiveMarkup.Proofs.Markup.Token
import LiveMarkup.Proofs.Table

/-!
# Standard spelling of source nodes

* `Source.spellAll`: the markup text of a forest in standard spelling.
* `Source.merged`: a source node with repeated attributes merged.
* `Source.Regular`: what the nodes of a markup text are like.
* **`Source.regular_of_parse`**: the forest of every markup text is regular.
* **`Source.parse_spellAll`**: the standard spelling of a regular forest gives the forest back, with
  repeated attributes merged.
-/

namespace LiveMarkup

open Markup

variable {opened : List OpenElement} {done forest xs : List Source} {x : Source} {ts : List Token}
  {rest : List Char}

namespace Source

/-! ## Spelling -/

mutual

/-- A source node in standard spelling. -/
def spell : Source → List Char
  | element name attributes children =>
    if children.isEmpty && isVoid name then Surface.openingHtml name (Table.ofList attributes)
    else
      Surface.openingHtml name (Table.ofList attributes) ++ spellAll children ++
        Surface.closingHtml name
  | text content => Entity.escape .content content.toList
  | comment content => ['<', '!', '-', '-'] ++ content.toList ++ ['-', '-', '>']

def spellAll : List Source → List Char
  | [] => []
  | x :: xs => x.spell ++ spellAll xs

end

mutual

/-- A source node in which the last value of a repeated attribute stands at its first position. -/
def merged : Source → Source
  | element name attributes children =>
    element name (Table.ofList attributes).entries (mergedAll children)
  | text content => text content
  | comment content => comment content

def mergedAll : List Source → List Source
  | [] => []
  | x :: xs => x.merged :: mergedAll xs

end

mutual

/-- The tokens of the standard spelling. -/
def tokens : Source → List Token
  | element name attributes children =>
    if children.isEmpty && isVoid name then
      [.opening name (Table.ofList attributes).entries false]
    else
      .opening name (Table.ofList attributes).entries false :: (tokensAll children ++ [.closing name])
  | text content => [.text (Entity.escape .content content.toList)]
  | comment content => [.comment content]

def tokensAll : List Source → List Token
  | [] => []
  | x :: xs => x.tokens ++ tokensAll xs

end

theorem isEmpty_mergedAll (xs : List Source) : (mergedAll xs).isEmpty = xs.isEmpty := by
  cases xs <;> rfl

mutual

theorem spell_merged (x : Source) : x.merged.spell = x.spell := by
  cases x with
  | element name attributes children =>
    rw [merged, spell, spell, Table.ofList_entries, isEmpty_mergedAll, spellAll_mergedAll children]
  | text content => rfl
  | comment content => rfl

/-- Merging attributes does not change the standard spelling. -/
theorem spellAll_mergedAll (xs : List Source) : spellAll (mergedAll xs) = spellAll xs := by
  cases xs with
  | nil => rfl
  | cons x xs => rw [mergedAll, spellAll, spellAll, spell_merged x, spellAll_mergedAll xs]

end

/-! ## Regular nodes -/

def isText (s : Source) : Bool := s.text?.isSome

/-- Two texts never stand side by side. -/
def Apart (x y : Source) : Prop := (x.isText && y.isText) = false

theorem Apart.symm {x y : Source} (h : Apart x y) : Apart y x := by
  rw [Apart, Bool.and_comm]
  exact h

/-- What the nodes of a markup text are like. -/
inductive Regular : Source → Prop where
  | element (name : String) (attributes : List (String × String)) (children : List Source)
      (tag : IsTagName name.toList) (named : ∀ e ∈ attributes, IsAttributeName e.1.toList)
      (childless : isVoid name → children = []) (each : ∀ c ∈ children, Regular c)
      (apart : children.IsChain Apart) : Regular (.element name attributes children)
  | text (content : String) (nonempty : content ≠ "") : Regular (.text content)
  | comment (content : String) (body : IsCommentBody content.toList) : Regular (.comment content)

/-- What the forest of a markup text is like. -/
structure RegularAll (xs : List Source) : Prop where
  each : ∀ x ∈ xs, x.Regular
  apart : xs.IsChain Apart

theorem Regular.names {name : String} {attributes : List (String × String)}
    (h : (Source.element name attributes xs).Regular) :
    IsTagName name.toList ∧ ∀ e ∈ attributes, IsAttributeName e.1.toList := by
  cases h with
  | element _ _ _ tag named => exact ⟨tag, named⟩

theorem Regular.of_element {name : String} {attributes : List (String × String)}
    (h : (Source.element name attributes xs).Regular) :
    (¬ (xs.isEmpty && isVoid name) → isVoid name = false) ∧ RegularAll xs := by
  cases h with
  | element _ _ _ tag named childless each apart =>
    refine ⟨fun hvoid => Bool.eq_false_iff.2 fun hv => hvoid ?_, each, apart⟩
    rw [hv, childless hv]
    rfl

theorem RegularAll.nil : RegularAll [] := ⟨fun _ h => absurd h List.not_mem_nil, .nil⟩

theorem RegularAll.reverse (h : RegularAll xs) : RegularAll xs.reverse :=
  ⟨fun x hx => h.each x (List.mem_reverse.1 hx),
    List.isChain_reverse.2 (h.apart.imp fun _ _ => Apart.symm)⟩

theorem RegularAll.cons (hx : x.Regular) (h : RegularAll xs) (fits : ∀ y ∈ xs.head?, Apart x y) :
    RegularAll (x :: xs) :=
  ⟨List.forall_mem_cons.2 ⟨hx, h.each⟩, List.isChain_cons.2 ⟨fits, h.apart⟩⟩

theorem RegularAll.cons_of_not_text (hx : x.Regular) (h : RegularAll xs) (ht : x.isText = false) :
    RegularAll (x :: xs) :=
  h.cons hx fun y _ => congrArg (· && y.isText) ht

theorem RegularAll.tail (h : RegularAll (x :: xs)) : RegularAll xs :=
  ⟨(List.forall_mem_cons.1 h.each).2, h.apart.tail⟩

end Source

namespace Markup

open Source (Regular RegularAll Apart)

/-- An element that is still open, in a regular forest. -/
structure OpenElement.Regular (e : OpenElement) : Prop where
  tag : IsTagName e.name.toList
  named : ∀ a ∈ e.attributes, IsAttributeName a.1.toList
  childful : isVoid e.name = false
  before : RegularAll e.before

/-- **Proper tokens build a regular forest.** -/
theorem regular_of_build (h : build opened done ts = some forest) (hopened : ∀ e ∈ opened, e.Regular)
    (hdone : RegularAll done) (proper : ∀ t ∈ ts, t.Proper) (apart : ts.IsChain Token.Apart)
    (fits : ∀ t ∈ ts.head?, t.isText → ∀ x ∈ done.head?, x.isText = false) : RegularAll forest := by
  fun_induction build opened done ts with
  | case1 opened done hempty =>
    cases h
    exact hdone.reverse
  | case2 => cases h
  | case3 opened done raw ts ih =>
    obtain ⟨hraw, hts⟩ := List.forall_mem_cons.1 proper
    obtain ⟨hnext, hchain⟩ := List.isChain_cons.1 apart
    have hcontent : String.ofList (Entity.decode raw) ≠ "" := fun he => by
      have hnil := congrArg String.toList he
      rw [String.toList_ofList] at hnil
      exact Entity.decode_ne_nil hraw hnil
    refine ih h hopened (hdone.cons (.text _ hcontent) fun y hy => ?_) hts hchain fun u hu htext => ?_
    · exact (congrArg (_ && ·) (fits _ rfl rfl y hy)).trans (Bool.and_false _)
    · have hboth := hnext u hu
      rw [Token.Apart, htext] at hboth
      cases hboth
  | case4 opened done content ts ih =>
    obtain ⟨hbody, hts⟩ := List.forall_mem_cons.1 proper
    refine ih h hopened (hdone.cons_of_not_text (.comment _ hbody) rfl) hts apart.tail ?_
    rintro _ - - _ ⟨⟩
    rfl
  | case5 opened done name attributes selfClosing ts hclosed ih =>
    obtain ⟨⟨htag, hnamed⟩, hts⟩ := List.forall_mem_cons.1 proper
    have helement : Regular (.element name attributes []) :=
      .element name attributes [] htag hnamed (fun _ => rfl) (fun _ h => absurd h List.not_mem_nil) .nil
    refine ih h hopened (hdone.cons_of_not_text helement rfl) hts apart.tail ?_
    rintro _ - - _ ⟨⟩
    rfl
  | case6 opened done name attributes selfClosing ts hopen ih =>
    obtain ⟨⟨htag, hnamed⟩, hts⟩ := List.forall_mem_cons.1 proper
    simp only [Bool.or_eq_true, not_or, Bool.not_eq_true] at hopen
    refine ih h (List.forall_mem_cons.2 ⟨⟨htag, hnamed, hopen.2, hdone⟩, hopened⟩) .nil hts apart.tail ?_
    rintro _ - - _ ⟨⟩
  | case7 => cases h
  | case8 done ts e outer ih =>
    obtain ⟨-, hts⟩ := List.forall_mem_cons.1 proper
    obtain ⟨he, houter⟩ := List.forall_mem_cons.1 hopened
    have hchildren := hdone.reverse
    have helement : Regular (.element e.name e.attributes done.reverse) :=
      .element _ _ _ he.tag he.named (fun hv => absurd (he.childful.symm.trans hv) Bool.false_ne_true)
        hchildren.each hchildren.apart
    refine ih h houter (he.before.cons_of_not_text helement rfl) hts apart.tail ?_
    rintro _ - - _ ⟨⟩
    rfl
  | case9 => cases h

end Markup

namespace Source

/-- **The forest of a markup text is regular.** -/
theorem regular_of_parse {markup : String} (h : parse markup = .ok forest) : RegularAll forest := by
  unfold parse at h
  split at h
  · next forest' hbuild =>
    obtain rfl := Except.ok.inj h
    obtain ⟨ts, hscan, hbuild⟩ := Option.bind_eq_some_iff.1 hbuild
    obtain ⟨proper, apart, -⟩ := Token.proper_of_scan hscan
    refine regular_of_build hbuild (fun _ h => absurd h List.not_mem_nil) .nil proper apart ?_
    rintro _ - - _ ⟨⟩
  · cases h

/-! ## Reading the standard spelling -/

mutual

theorem build_tokens (x : Source) (h : x.Regular) (opened : List OpenElement) (done : List Source)
    (ts : List Token) : build opened done (x.tokens ++ ts) = build opened (x.merged :: done) ts := by
  cases x with
  | element name attributes children =>
    obtain ⟨hfull, hchildren⟩ := h.of_element
    rw [tokens]
    split
    · next hvoid =>
      obtain ⟨hempty, hname⟩ := Bool.and_eq_true_iff.1 hvoid
      obtain rfl := List.isEmpty_iff.1 hempty
      rw [List.singleton_append, build, if_pos (by simp [hname])]
      rfl
    · next hvoid =>
      rw [List.cons_append, List.append_assoc, build, if_neg (by simp [hfull hvoid]),
        build_tokensAll children hchildren, List.append_nil, List.singleton_append, build, if_pos rfl,
        List.reverse_reverse]
      rfl
  | text content =>
    rw [tokens, List.singleton_append, build, Entity.decode_escape, String.ofList_toList]
    rfl
  | comment content => rfl

/-- The tokens of a regular forest build the forest, with attributes merged. -/
theorem build_tokensAll (xs : List Source) (h : RegularAll xs) (opened : List OpenElement)
    (done : List Source) (ts : List Token) :
    build opened done (tokensAll xs ++ ts) = build opened ((mergedAll xs).reverse ++ done) ts := by
  cases xs with
  | nil => rfl
  | cons x xs =>
    rw [tokensAll, List.append_assoc, build_tokens x (h.each x List.mem_cons_self),
      build_tokensAll xs h.tail, mergedAll, List.reverse_cons, List.append_assoc]
    rfl

end

theorem openingHtml_append (name : String) (attributes : Attributes) (rest : List Char) :
    Surface.openingHtml name attributes ++ rest =
      '<' :: (name.toList ++ (attributes.entries.flatMap Surface.attributeHtml ++ '>' :: rest)) := by
  simp [Surface.openingHtml]

/-- The spelling of a regular node that is not a text starts with a tag or a comment. -/
theorem startsTag_spell {x : Source} (h : x.Regular) (ht : x.isText = false) (rest : List Char) :
    startsTag (x.spell ++ rest) := by
  cases h with
  | element name attributes children tag named childless each apart =>
    obtain ⟨⟨c, cs, hname, hc⟩, -⟩ := tag
    rw [spell]
    split
    · rw [openingHtml_append, hname]
      simp [startsTag, hc]
    · rw [List.append_assoc, List.append_assoc, openingHtml_append, hname]
      simp [startsTag, hc]
  | text content nonempty => cases ht
  | comment content body => rfl

theorem endsText_spellAll {xs : List Source} {rest : List Char} (h : RegularAll xs)
    (fits : ∀ x ∈ xs.head?, x.isText = false) (hrest : EndsText rest) :
    EndsText (spellAll xs ++ rest) := by
  cases xs with
  | nil => exact hrest
  | cons x xs =>
    rw [spellAll, List.append_assoc]
    exact .inr (startsTag_spell (h.each x List.mem_cons_self) (fits x rfl) _)

theorem scan_opening {name : String} {attributes : Attributes} (tag : IsTagName name.toList)
    (named : ∀ e ∈ attributes.entries, IsAttributeName e.1.toList) (rest : List Char) :
    Token.scan (Surface.openingHtml name attributes ++ rest) =
      (Token.scan rest).map (.opening name attributes.entries false :: ·) := by
  rw [openingHtml_append]
  exact Token.scan_of_next (List.cons_ne_nil _ _) (Token.next_opening tag named rest)

mutual

theorem scan_spell (x : Source) (h : x.Regular) (rest : List Char) (hrest : x.isText → EndsText rest) :
    Token.scan (x.spell ++ rest) = (Token.scan rest).map (x.tokens ++ ·) := by
  cases x with
  | element name attributes children =>
    obtain ⟨-, hchildren⟩ := h.of_element
    obtain ⟨tag, named⟩ := h.names
    have hentries : ∀ e ∈ (Table.ofList attributes).entries, IsAttributeName e.1.toList :=
      fun e he => named e (Table.mem_of_mem_ofList he)
    rw [spell, tokens]
    split
    · exact scan_opening tag hentries rest
    · have hclosing : Token.scan (Surface.closingHtml name ++ rest) =
          (Token.scan rest).map (.closing name :: ·) := by
        rw [show Surface.closingHtml name ++ rest = '<' :: '/' :: (name.toList ++ '>' :: rest) by
          simp [Surface.closingHtml]]
        exact Token.scan_of_next (List.cons_ne_nil _ _) (Token.next_closing tag rest)
      rw [List.append_assoc, List.append_assoc, scan_opening tag hentries,
        scan_spellAll children hchildren _ (.inr rfl), hclosing, Option.map_map, Option.map_map]
      simp [Function.comp_def]
  | text content =>
    cases h with
    | text _ nonempty =>
      have hcontent : content.toList ≠ [] := fun he => nonempty (String.toList_inj.1 he)
      have hraw := Entity.escape_ne_nil .content hcontent
      exact Token.scan_of_next (List.append_ne_nil_of_left_ne_nil hraw _)
        (Token.next_text hraw (Entity.angle_not_mem_escape _ _) (hrest rfl))
  | comment content =>
    cases h with
    | comment _ body =>
      rw [spell, List.append_assoc, List.append_assoc]
      exact Token.scan_of_next (List.cons_ne_nil _ _) (Token.next_comment body rest)

/-- The standard spelling of a regular forest is scanned into its tokens. -/
theorem scan_spellAll (xs : List Source) (h : RegularAll xs) (rest : List Char)
    (hrest : EndsText rest) :
    Token.scan (spellAll xs ++ rest) = (Token.scan rest).map (tokensAll xs ++ ·) := by
  cases xs with
  | nil => simp [spellAll, tokensAll]
  | cons x xs =>
    have hfits : x.isText → EndsText (spellAll xs ++ rest) := fun ht =>
      endsText_spellAll h.tail (fun y hy => by
        have hapart := (List.isChain_cons.1 h.apart).1 y hy
        rwa [Apart, ht, Bool.true_and] at hapart) hrest
    rw [spellAll, List.append_assoc, scan_spell x (h.each x List.mem_cons_self) _ hfits,
      scan_spellAll xs h.tail rest hrest, Option.map_map]
    simp [Function.comp_def, tokensAll]

end

/-- **The standard spelling of a regular forest** gives the forest back, with repeated attributes
merged. -/
theorem parse_spellAll (h : RegularAll forest) :
    parse (String.ofList (spellAll forest)) = .ok (mergedAll forest) := by
  have hscan := scan_spellAll forest h [] (.inl rfl)
  have hbuild := build_tokensAll forest h [] [] []
  rw [List.append_nil, Token.scan_nil, Option.map_some, List.append_nil] at hscan
  rw [List.append_nil, List.append_nil] at hbuild
  rw [parse, String.toList_ofList, hscan, Option.bind_some, ofTokens, hbuild, build,
    List.reverse_reverse]
  rfl

end Source

end LiveMarkup
