import LiveMarkup.Proofs.Markup.Spelling

/-!
# Texts that run together

In the spelling of a forest a text that is empty is lost, and texts that stand side by side run together.
Whatever the texts are, nothing else of the forest is affected by reading its spelling back.

* `Source.Formed`: a source node with any texts.
* `Source.joinedAll`: a forest with such texts joined.
* `Source.strippedAll`: a forest without its texts.
* **`Source.parse_spellAll_joined`**: what the spelling of a forest with any texts reads back as.
-/

namespace LiveMarkup.Source

open Markup

variable {x : Source} {xs : List Source} {forest : List Source}

/-! ## Forests with any texts -/

/-- A source node that can be spelled, apart from what its texts are. -/
inductive Formed : Source → Prop where
  | element (name : String) (attributes : List (String × String)) (children : List Source)
      (tag : IsTagName name.toList) (named : ∀ e ∈ attributes, IsAttributeName e.1.toList)
      (childless : isVoid name → children = []) (each : ∀ c ∈ children, Formed c) :
      Formed (.element name attributes children)
  | text (content : String) : Formed (.text content)
  | comment (content : String) (body : IsCommentBody content.toList) : Formed (.comment content)

/-- The nodes of a markup text are formed. -/
theorem Regular.formed (h : x.Regular) : x.Formed := by
  induction h with
  | element name attributes children tag named childless each apart ih =>
    exact .element name attributes children tag named childless ih
  | text content nonempty => exact .text content
  | comment content body => exact .comment content body

/-! ## Joining texts -/

/-- A forest with a text in front of it, which is joined to the text that it starts with. -/
def joinText (content : String) (xs : List Source) : List Source :=
  if content = "" then xs
  else
    match xs with
    | text more :: xs => text (content ++ more) :: xs
    | xs => text content :: xs

mutual

/-- A source node whose texts are joined. -/
def joined : Source → Source
  | element name attributes children => element name attributes (joinedAll children)
  | text content => text content
  | comment content => comment content

/-- A forest whose texts are joined where they stand side by side, and left out where they are empty. -/
def joinedAll : List Source → List Source
  | [] => []
  | text content :: xs => joinText content (joinedAll xs)
  | element name attributes children :: xs =>
    (element name attributes children).joined :: joinedAll xs
  | comment content :: xs => comment content :: joinedAll xs

end

theorem joinedAll_cons (hx : x.isText = false) (xs : List Source) :
    joinedAll (x :: xs) = x.joined :: joinedAll xs := by
  cases x with
  | text content => cases hx
  | element name attributes children => rw [joinedAll]
  | comment content => rw [joinedAll, joined]

theorem spellAll_joinText (content : String) (xs : List Source) :
    spellAll (joinText content xs) = Entity.escape .content content.toList ++ spellAll xs := by
  unfold joinText
  split
  · next h => subst h; rfl
  · split
    · next more xs =>
      simp only [spellAll, spell, Entity.escape, String.toList_append, List.flatMap_append,
        List.append_assoc]
    · rw [spellAll, spell]

mutual

theorem spell_joined (x : Source) (h : x.Formed) : x.joined.spell = x.spell := by
  cases x with
  | element name attributes children =>
    cases h with
    | element _ _ _ tag named childless each =>
      have hvoid : ((joinedAll children).isEmpty && isVoid name) = (children.isEmpty && isVoid name) := by
        by_cases hv : isVoid name
        · rw [childless hv, joinedAll]
        · rw [Bool.eq_false_iff.2 hv, Bool.and_false, Bool.and_false]
      rw [joined, spell, spell, hvoid, spellAll_joinedAll children each]
  | text content => rfl
  | comment content => rfl

/-- Joining texts does not change the spelling. -/
theorem spellAll_joinedAll (xs : List Source) (h : ∀ x ∈ xs, x.Formed) :
    spellAll (joinedAll xs) = spellAll xs := by
  cases xs with
  | nil => rfl
  | cons x xs =>
    obtain ⟨hx, hxs⟩ := List.forall_mem_cons.1 h
    cases hx with
    | text content => rw [joinedAll, spellAll_joinText, spellAll_joinedAll xs hxs, spellAll, spell]
    | comment content body =>
      rw [joinedAll_cons rfl, spellAll, spellAll, joined, spellAll_joinedAll xs hxs]
    | element name attributes children tag named childless each =>
      rw [joinedAll_cons rfl, spellAll, spellAll, spellAll_joinedAll xs hxs,
        spell_joined _ (.element name attributes children tag named childless each)]

end

theorem RegularAll.joinText (h : RegularAll xs) (content : String) :
    RegularAll (joinText content xs) := by
  unfold Source.joinText
  split
  · exact h
  · next hne =>
    split
    · next more xs =>
      have hmore : content ++ more ≠ "" := fun he => hne (String.append_eq_empty_iff.1 he).1
      exact h.tail.cons (.text _ hmore) (List.isChain_cons.1 h.apart).1
    · next xs hstart =>
      refine h.cons (.text _ hne) fun y hy => ?_
      cases y with
      | text more =>
        obtain ⟨ys, rfl⟩ := List.head?_eq_some_iff.1 hy
        exact absurd rfl (hstart more ys)
      | element name attributes children => rfl
      | comment more => rfl

mutual

theorem regular_joined (x : Source) (h : x.Formed) (hx : x.isText = false) : x.joined.Regular := by
  cases x with
  | element name attributes children =>
    cases h with
    | element _ _ _ tag named childless each =>
      obtain ⟨heach, hapart⟩ := regular_joinedAll children each
      exact .element name attributes _ tag named (fun hv => by rw [childless hv, joinedAll]) heach hapart
  | text content => cases hx
  | comment content =>
    cases h with
    | comment _ body => exact .comment content body

/-- A forest whose texts are joined is like that of a markup text. -/
theorem regular_joinedAll (xs : List Source) (h : ∀ x ∈ xs, x.Formed) : RegularAll (joinedAll xs) := by
  cases xs with
  | nil => exact .nil
  | cons x xs =>
    obtain ⟨hx, hxs⟩ := List.forall_mem_cons.1 h
    have hrest := regular_joinedAll xs hxs
    cases x with
    | text content => exact hrest.joinText content
    | element name attributes children =>
      rw [joinedAll_cons rfl]
      exact hrest.cons_of_not_text (regular_joined _ hx rfl) rfl
    | comment content =>
      rw [joinedAll_cons rfl]
      exact hrest.cons_of_not_text (regular_joined _ hx rfl) rfl

end

/-! ## Forests without their texts -/

mutual

/-- A source node with no texts below it. -/
def stripped : Source → Source
  | element name attributes children => element name attributes (strippedAll children)
  | text content => text content
  | comment content => comment content

/-- A forest with all texts deleted, at every depth. -/
def strippedAll : List Source → List Source
  | [] => []
  | text _ :: xs => strippedAll xs
  | element name attributes children :: xs =>
    (element name attributes children).stripped :: strippedAll xs
  | comment content :: xs => comment content :: strippedAll xs

end

theorem strippedAll_text (content : String) (xs : List Source) :
    strippedAll (text content :: xs) = strippedAll xs := by rw [strippedAll]

theorem strippedAll_cons (hx : x.isText = false) (xs : List Source) :
    strippedAll (x :: xs) = x.stripped :: strippedAll xs := by
  cases x with
  | text content => cases hx
  | element name attributes children => rw [strippedAll]
  | comment content => rw [strippedAll, stripped]

theorem strippedAll_append (xs ys : List Source) :
    strippedAll (xs ++ ys) = strippedAll xs ++ strippedAll ys := by
  induction xs with
  | nil => rfl
  | cons x xs ih =>
    cases x with
    | text content => rw [List.cons_append, strippedAll_text, strippedAll_text, ih]
    | element name attributes children =>
      rw [List.cons_append, strippedAll_cons rfl, strippedAll_cons rfl, ih, List.cons_append]
    | comment content =>
      rw [List.cons_append, strippedAll_cons rfl, strippedAll_cons rfl, ih, List.cons_append]

theorem strippedAll_joinText (content : String) (xs : List Source) :
    strippedAll (joinText content xs) = strippedAll xs := by
  unfold joinText
  split
  · rfl
  · split
    · rw [strippedAll_text, strippedAll_text]
    · rw [strippedAll_text]

mutual

theorem stripped_joined (x : Source) : x.joined.stripped = x.stripped := by
  cases x with
  | element name attributes children => rw [joined, stripped, stripped, strippedAll_joinedAll children]
  | text content => rfl
  | comment content => rfl

/-- Joining texts does not change what is left without them. -/
theorem strippedAll_joinedAll (xs : List Source) : strippedAll (joinedAll xs) = strippedAll xs := by
  cases xs with
  | nil => rfl
  | cons x xs =>
    cases x with
    | text content =>
      rw [joinedAll, strippedAll_joinText, strippedAll_joinedAll xs, strippedAll_text]
    | element name attributes children =>
      rw [joinedAll_cons rfl, strippedAll_cons rfl, strippedAll_cons rfl, stripped_joined,
        strippedAll_joinedAll xs]
    | comment content =>
      rw [joinedAll_cons rfl, strippedAll_cons rfl, strippedAll_cons rfl, stripped_joined,
        strippedAll_joinedAll xs]

end

mutual

theorem stripped_merged (x : Source) : x.merged.stripped = x.stripped.merged := by
  cases x with
  | element name attributes children =>
    rw [merged, stripped, stripped, merged, strippedAll_mergedAll children]
  | text content => rfl
  | comment content => rfl

theorem strippedAll_mergedAll (xs : List Source) :
    strippedAll (mergedAll xs) = mergedAll (strippedAll xs) := by
  cases xs with
  | nil => rfl
  | cons x xs =>
    cases x with
    | text content => rw [mergedAll, merged, strippedAll_text, strippedAll_text, strippedAll_mergedAll xs]
    | element name attributes children =>
      rw [mergedAll, strippedAll_cons rfl, strippedAll_cons rfl, stripped_merged, strippedAll_mergedAll xs,
        mergedAll]
    | comment content =>
      rw [mergedAll, strippedAll_cons rfl, strippedAll_cons rfl, stripped_merged, strippedAll_mergedAll xs,
        mergedAll]

end

/-- **The spelling of a forest with any texts** can be read, and reads back as the forest but for its
texts. -/
theorem parse_spellAll_joined (h : ∀ x ∈ forest, x.Formed) :
    ∃ read, parse (String.ofList (spellAll forest)) = .ok read ∧
      strippedAll read = mergedAll (strippedAll forest) := by
  refine ⟨mergedAll (joinedAll forest), ?_, ?_⟩
  · rw [← spellAll_joinedAll forest h]
    exact parse_spellAll (regular_joinedAll forest h)
  · rw [strippedAll_mergedAll, strippedAll_joinedAll]

end LiveMarkup.Source
