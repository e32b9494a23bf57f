import LiveMarkup.Template.Placeholder

/-!
# Where placeholders stand

A placeholder may stand at several places of a text, and end in several ways where it stands. The
search finds the leftmost one and there the shortest, and a text is cut into pieces by searching again
behind each placeholder that was found.

* `Span.In`, `Bare`: a placeholder stands in a text, or none does.
* **`Span.next?_eq_some_iff`**, **`Span.next?_eq_none_iff`**: what the search finds.
* `Cut`: a text and its pieces, said without the search.
* **`cut_iff`**: the pieces of a text are those of its only cut.
-/

namespace LiveMarkup.Template

variable {c : Char} {cs e e' rest rest' : List Char} {x y : Span} {ps : List Piece}

/-! ## Expressions -/

/-- What may stand between the braces: some characters, none of them a line break. -/
def IsExpression (e : List Char) : Prop := e ≠ [] ∧ ∀ c ∈ e, isLineBreak c = false

theorem IsExpression.tail (h : IsExpression (c :: e)) (hne : e ≠ []) : IsExpression e :=
  ⟨hne, fun d hd => h.2 d (List.mem_cons_of_mem c hd)⟩

theorem IsExpression.cons (hc : isLineBreak c = false) (h : ∀ d ∈ e, isLineBreak d = false) :
    IsExpression (c :: e) :=
  ⟨List.cons_ne_nil c e, List.forall_mem_cons.2 ⟨hc, h⟩⟩

/-- The search for the end of an expression looks at one character and at the two behind it. -/
theorem expression_cons (c : Char) (cs : List Char) :
    expression (c :: cs) =
      if isLineBreak c then none
      else if ['\x7d', '\x7d'] <+: cs then some ([c], cs.drop 2)
      else (expression cs).map fun found => (c :: found.1, found.2) := by
  rw [expression.eq_def]
  by_cases hc : isLineBreak c
  · simp only [hc, if_true]
  · simp only [if_neg hc]
    by_cases hcs : ['\x7d', '\x7d'] <+: cs
    · obtain ⟨rest, rfl⟩ := hcs
      rw [if_pos (List.prefix_append _ _)]
      rfl
    · rw [if_neg hcs]
      split
      · next rest => exact absurd (List.prefix_append _ rest) hcs
      · rfl

/-- An expression that two closing braces follow, and no shorter one. -/
theorem expression_sound (h : expression cs = some (e, rest)) :
    cs = e ++ '\x7d' :: '\x7d' :: rest ∧ IsExpression e ∧
      ∀ e' rest', cs = e' ++ '\x7d' :: '\x7d' :: rest' → IsExpression e' → e.length ≤ e'.length := by
  induction cs generalizing e with
  | nil => cases h
  | cons c cs ih =>
    rw [expression_cons] at h
    split at h
    · cases h
    · next hc =>
      have hc := Bool.eq_false_iff.2 hc
      split at h
      · next hcs =>
        obtain ⟨rest, rfl⟩ := hcs
        cases h
        refine ⟨rfl, .cons hc nofun, fun e' rest' _ he' => ?_⟩
        exact List.length_pos_iff.2 he'.1
      · next hcs =>
        obtain ⟨⟨e, rest⟩, hfound, eq⟩ := Option.map_eq_some_iff.1 h
        cases eq
        obtain ⟨htext, he, hshort⟩ := ih hfound
        refine ⟨by rw [htext]; rfl, .cons hc he.2, fun e' rest' htext' he' => ?_⟩
        -- A shorter one would be the character alone, but no closing braces follow that.
        cases e' with
        | nil => exact absurd rfl he'.1
        | cons d e' =>
          obtain ⟨-, htext'⟩ := List.cons.inj htext'
          cases e' with
          | nil => exact absurd ⟨rest', htext'.symm⟩ hcs
          | cons d' e' =>
            exact Nat.succ_le_succ (hshort _ rest' htext' (he'.tail (List.cons_ne_nil d' e')))

/-- Where an expression and two closing braces stand, the search ends. -/
theorem expression_ne_none (he : IsExpression e) (rest : List Char) :
    expression (e ++ '\x7d' :: '\x7d' :: rest) ≠ none := by
  induction e with
  | nil => exact absurd rfl he.1
  | cons c e ih =>
    rw [List.cons_append, expression_cons, if_neg (Bool.eq_false_iff.1 (he.2 c List.mem_cons_self))]
    split
    · nofun
    · next hcs =>
      have hne : e ≠ [] := by
        rintro rfl
        exact hcs ⟨rest, rfl⟩
      exact mt Option.map_eq_none_iff.1 (ih (he.tail hne))

/-! ## Placeholders -/

/-- The text of a placeholder. -/
def enclosed (e : List Char) : List Char := '\x7b' :: '\x7b' :: (e ++ ['\x7d', '\x7d'])

theorem enclosed_append (e rest : List Char) :
    enclosed e ++ rest = '\x7b' :: '\x7b' :: (e ++ '\x7d' :: '\x7d' :: rest) := by
  simp [enclosed]

/-- Without two opening braces at its front no text starts with a placeholder. -/
theorem placeholderAt_eq_none (hopen : ¬ ['\x7b', '\x7b'] <+: cs) : placeholderAt cs = none := by
  unfold placeholderAt
  split
  · next body => exact absurd (List.prefix_append _ body) hopen
  · rfl

theorem placeholderAt_sound (h : placeholderAt cs = some (e, rest)) :
    cs = enclosed e ++ rest ∧ IsExpression e ∧
      ∀ e' rest', cs = enclosed e' ++ rest' → IsExpression e' → e.length ≤ e'.length := by
  unfold placeholderAt at h
  split at h
  · next body =>
    obtain ⟨htext, he, hshort⟩ := expression_sound h
    refine ⟨by rw [enclosed_append, htext], he, fun e' rest' htext' he' => hshort e' rest' ?_ he'⟩
    rw [enclosed_append] at htext'
    exact (List.cons.inj (List.cons.inj htext').2).2
  · cases h

theorem placeholderAt_ne_none (he : IsExpression e) (rest : List Char) :
    placeholderAt (enclosed e ++ rest) ≠ none := by
  rw [enclosed_append]
  exact expression_ne_none he rest

/-- A placeholder stands in a text, with something before and something after it. -/
structure Span.In (x : Span) (cs : List Char) : Prop where
  text : cs = x.before ++ (enclosed x.expression ++ x.after)
  proper : IsExpression x.expression

/-- A placeholder in a text that none stands to the left of, nor ends earlier than where it stands. -/
structure Span.First (x : Span) (cs : List Char) : Prop where
  here : x.In cs
  leftmost : ∀ y : Span, y.In cs → x.before.length ≤ y.before.length
  shortest : ∀ y : Span, y.In cs → y.before = x.before → x.expression.length ≤ y.expression.length

/-- A text in which no placeholder stands. -/
def Bare (cs : List Char) : Prop := ∀ x : Span, ¬ x.In cs

namespace Span

/-- The texts before two placeholders of one text, of which one is no longer than the other. -/
theorem In.within (hx : x.In cs) (hy : y.In cs) (hle : x.before.length ≤ y.before.length) :
    x.before <+: y.before :=
  List.prefix_of_prefix_length_le ⟨_, hx.text.symm⟩ ⟨_, hy.text.symm⟩ hle

theorem First.eq (hx : x.First cs) (hy : y.First cs) : x = y := by
  have hbefore : x.before = y.before :=
    (hx.here.within hy.here (hx.leftmost y hy.here)).eq_of_length_le (hy.leftmost x hx.here)
  obtain ⟨before, e, after⟩ := x
  obtain ⟨before', e', after'⟩ := y
  cases hbefore
  have hlength : e.length = e'.length :=
    Nat.le_antisymm (hx.shortest _ hy.here rfl) (hy.shortest _ hx.here rfl)
  have htext := List.append_cancel_left (hx.here.text.symm.trans hy.here.text)
  simp only [enclosed_append, List.cons.injEq, true_and] at htext
  obtain ⟨rfl, hafter⟩ := List.append_inj htext hlength
  simp only [List.cons.injEq, true_and] at hafter
  rw [hafter]

theorem bare_nil : Bare [] := by
  rintro x ⟨htext, -⟩
  simp [enclosed_append] at htext

/-- A placeholder in a text stands at its front or in what follows the first character. -/
theorem In.cases (h : x.In (c :: cs)) :
    (x.before = [] ∧ c :: cs = enclosed x.expression ++ x.after) ∨
      ∃ before, x.before = c :: before ∧ (Span.mk before x.expression x.after).In cs := by
  obtain ⟨before, e, after⟩ := x
  obtain ⟨htext, he⟩ := h
  cases before with
  | nil => exact .inl ⟨rfl, htext⟩
  | cons d before =>
    obtain ⟨rfl, htext⟩ := List.cons.inj htext
    exact .inr ⟨before, rfl, htext, he⟩

theorem In.cons (h : x.In cs) (c : Char) : ({ x with before := c :: x.before } : Span).In (c :: cs) :=
  ⟨congrArg (c :: ·) h.text, h.proper⟩

/-- A search that finds nothing has passed by no placeholder. -/
theorem bare_of_next? (h : next? cs = none) : Bare cs := by
  induction cs with
  | nil => exact bare_nil
  | cons c cs ih =>
    unfold next? at h
    split at h
    · cases h
    · next hat =>
      intro x hx
      obtain ⟨-, htext⟩ | ⟨before, -, hin⟩ := hx.cases
      · exact placeholderAt_ne_none hx.proper x.after (htext ▸ hat)
      · exact ih (Option.map_eq_none_iff.1 h) _ hin

/-- A search that finds a placeholder has passed by none, and by no earlier end of this one. -/
theorem first_of_next? (h : next? cs = some x) : x.First cs := by
  induction cs generalizing x with
  | nil => cases h
  | cons c cs ih =>
    unfold next? at h
    split at h
    · next e rest hat =>
      cases h
      obtain ⟨htext, he, hshort⟩ := placeholderAt_sound hat
      refine ⟨⟨htext, he⟩, fun y _ => Nat.zero_le _, fun y hy hbefore => ?_⟩
      refine hshort y.expression y.after ?_ hy.proper
      rw [hy.text, hbefore]
      rfl
    · next hat =>
      obtain ⟨x, hfound, eq⟩ := Option.map_eq_some_iff.1 h
      cases eq
      have hx := ih hfound
      have hrest : ∀ y : Span, y.In (c :: cs) →
          ∃ before, y.before = c :: before ∧ (Span.mk before y.expression y.after).In cs := by
        intro y hy
        obtain ⟨-, htext⟩ | hy := hy.cases
        · exact absurd (htext ▸ hat) (placeholderAt_ne_none hy.proper y.after)
        · exact hy
      refine ⟨hx.here.cons c, fun y hy => ?_, fun y hy hbefore => ?_⟩
      · obtain ⟨before, hbefore, hin⟩ := hrest y hy
        rw [hbefore]
        exact Nat.succ_le_succ (hx.leftmost _ hin)
      · obtain ⟨before, hbefore', hin⟩ := hrest y hy
        exact hx.shortest ⟨before, y.expression, y.after⟩ hin (List.cons.inj (hbefore'.symm.trans hbefore)).2

/-- **The search finds nothing exactly where no placeholder stands.** -/
theorem next?_eq_none_iff : next? cs = none ↔ Bare cs := by
  refine ⟨bare_of_next?, fun hnone => ?_⟩
  cases hfound : next? cs with
  | none => rfl
  | some x => exact absurd (first_of_next? hfound).here (hnone x)

/-- **The search finds the leftmost placeholder, and there the shortest.** -/
theorem next?_eq_some_iff : next? cs = some x ↔ x.First cs := by
  refine ⟨first_of_next?, fun hx => ?_⟩
  cases hfound : next? cs with
  | none => exact absurd hx.here (next?_eq_none_iff.1 hfound x)
  | some y => rw [(first_of_next? hfound).eq hx]

/-- Where a character stands before the first placeholder of a text, none starts at that character. -/
theorem First.tail {l : List Char} (hx : (Span.mk (c :: l) e rest).First cs) :
    ∃ cs', cs = c :: cs' ∧ placeholderAt cs = none ∧ (Span.mk l e rest).First cs' := by
  have hfound := next?_eq_some_iff.2 hx
  refine ⟨l ++ (enclosed e ++ rest), hx.here.text, ?_⟩
  rw [hx.here.text, List.cons_append] at hfound ⊢
  rw [next?] at hfound
  split at hfound
  · cases hfound
  · next hat =>
    obtain ⟨x, hfound, heq⟩ := Option.map_eq_some_iff.1 hfound
    cases heq
    exact ⟨hat, first_of_next? hfound⟩

end Span

/-! ## Pieces -/

/-- The text that a piece was cut from. -/
def Piece.spell : Piece → List Char
  | literal cs => cs
  | placeholder e => enclosed e

/-- A text cut at its first placeholder, and what follows that cut in the same way. -/
inductive Cut : List Char → List Piece → Prop where
  | rest (cs : List Char) (bare : Bare cs) : Cut cs [.literal cs]
  | span (cs : List Char) (x : Span) (ps : List Piece) (first : x.First cs) (after : Cut x.after ps) :
    Cut cs (.literal x.before :: .placeholder x.expression :: ps)

theorem ofText_of_next?_none (h : Span.next? cs = none) : Piece.ofText cs = [.literal cs] := by
  rw [Piece.ofText]
  split
  · next x hx => rw [h] at hx; cases hx
  · rfl

theorem ofText_of_next? (h : Span.next? cs = some x) :
    Piece.ofText cs = .literal x.before :: .placeholder x.expression :: Piece.ofText x.after := by
  rw [Piece.ofText]
  split
  · next y hy => rw [h] at hy; cases hy; rfl
  · next hnone => rw [h] at hnone; cases hnone

theorem cut_ofText (cs : List Char) : Cut cs (Piece.ofText cs) := by
  fun_induction Piece.ofText cs with
  | case1 cs x hx _ ih => exact .span cs x _ (Span.next?_eq_some_iff.1 hx) ih
  | case2 cs hnone => exact .rest cs (Span.next?_eq_none_iff.1 hnone)

/-- **A text has one cut, and its pieces are those.** -/
theorem cut_iff : Cut cs ps ↔ Piece.ofText cs = ps := by
  refine ⟨fun h => ?_, fun h => h ▸ cut_ofText cs⟩
  induction h with
  | rest cs bare => exact ofText_of_next?_none (Span.next?_eq_none_iff.2 bare)
  | span cs x ps first after ih => rw [ofText_of_next? (Span.next?_eq_some_iff.2 first), ih]

/-- Nothing is lost when a text is cut. -/
theorem Cut.spelled (h : Cut cs ps) : ps.flatMap Piece.spell = cs := by
  induction h with
  | rest cs bare => simp [Piece.spell]
  | span cs x ps first after ih =>
    rw [List.flatMap_cons, List.flatMap_cons, ih, Piece.spell, Piece.spell, ← first.here.text]

end LiveMarkup.Template
