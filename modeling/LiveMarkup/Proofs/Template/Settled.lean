import Mathlib.Data.List.Permutation
import LiveMarkup.Proofs.Template.Foretold

/-!
# Bound texts are settled

A text that was bound to data holds no placeholder any more, unless a value brought an opening brace
into it. What is left of the text between its placeholders gives rise to none, whatever comes to stand
next to it: two opening braces that are left over are barred by a line break behind them.

* **`Bare.before`**: what stands before the first placeholder of a text is bare in front of any bare text.
* `Bare.value`: so is a text without opening braces.
* **`interpolate_settles`**: a bound text is bare, and binding it again gives itself.
-/

namespace LiveMarkup.Template

variable {c : Char} {cs l v w z : List Char} {x : Span} {ps : List Piece} {h : Heap}
  {data : ObjectId} {text out : String}

/-! ## Expressions that are barred -/

/-- No expression ends in a text that starts with a line break, nor in one where neither closing
braces nor an expression follow the first character. -/
theorem expression_cons_eq_none_iff :
    expression (c :: cs) = none ↔
      isLineBreak c ∨ ¬ ['\x7d', '\x7d'] <+: cs ∧ expression cs = none := by
  rw [expression_cons]
  by_cases hc : isLineBreak c
  · simp [hc]
  · by_cases hcs : ['\x7d', '\x7d'] <+: cs
    · simp [hc, hcs]
    · simp [hc, hcs]

/-- Where no expression ends although one would in a later part, the line break that prevents it stands
before that part. So none ends if another text comes in place of that part. -/
theorem expression_append_eq_none (hw : expression w ≠ none) (hl : expression (l ++ w) = none)
    (z : List Char) : expression (l ++ z) = none := by
  induction l with
  | nil => exact absurd hl hw
  | cons c l ih =>
    rw [List.cons_append] at hl ⊢
    refine expression_cons_eq_none_iff.2 ((expression_cons_eq_none_iff.1 hl).imp id ?_)
    rintro ⟨hopen, hnone⟩
    refine ⟨fun hclosed => ?_, ih hnone⟩
    match l with
    | [] => exact hw hnone
    | [d] =>
      -- A closing brace is no line break, so the later part would end the expression.
      obtain ⟨rfl, -⟩ := List.cons_prefix_cons.1 hclosed
      obtain hbreak | ⟨-, hnone⟩ := expression_cons_eq_none_iff.1 hnone
      · exact absurd hbreak (by decide)
      · exact hw hnone
    | d :: d' :: l =>
      obtain ⟨hd, hclosed⟩ := List.cons_prefix_cons.1 hclosed
      obtain ⟨hd', -⟩ := List.cons_prefix_cons.1 hclosed
      subst hd hd'
      exact hopen (List.prefix_append ['\x7d', '\x7d'] (l ++ w))

/-! ## Bare texts -/

theorem bare_cons_iff : Bare (c :: cs) ↔ placeholderAt (c :: cs) = none ∧ Bare cs := by
  rw [← Span.next?_eq_none_iff, ← Span.next?_eq_none_iff, Span.next?]
  cases placeholderAt (c :: cs) with
  | none => simp
  | some found => simp

/-- A text without opening braces leaves a bare text bare. -/
theorem Bare.value (hz : Bare z) (hv : '\x7b' ∉ v) : Bare (v ++ z) := by
  induction v with
  | nil => exact hz
  | cons c v ih =>
    obtain ⟨hc, hv⟩ := not_or.1 (mt List.mem_cons.2 hv)
    refine bare_cons_iff.2 ⟨placeholderAt_eq_none fun hopen => ?_, ih hv⟩
    exact hc (List.cons_prefix_cons.1 hopen).1

/-- **What stands before the first placeholder of a text leaves a bare text bare.** -/
theorem Bare.before (hz : Bare z) (hx : x.First cs) : Bare (x.before ++ z) := by
  obtain ⟨l, e, rest⟩ := x
  induction l generalizing cs with
  | nil => exact hz
  | cons c l ih =>
    obtain ⟨cs, rfl, hat, hx⟩ := hx.tail
    obtain ⟨rfl, he⟩ := hx.here
    refine bare_cons_iff.2 ⟨?_, ih hx⟩
    by_cases hopen : ['\x7b', '\x7b'] <+: c :: (l ++ z)
    · obtain ⟨rfl, hnext⟩ := List.cons_prefix_cons.1 hopen
      have hlonger : IsExpression ('\x7b' :: e) := .cons (by decide) he.2
      cases l with
      | nil =>
        -- With one opening brace more the placeholder would start earlier.
        rw [List.nil_append, enclosed_append] at hat
        exact absurd hat (expression_ne_none hlonger rest)
      | cons d l =>
        obtain ⟨rfl, -⟩ := List.cons_prefix_cons.1 hnext
        refine expression_append_eq_none ?_ hat z
        rw [enclosed_append]
        exact expression_ne_none (.cons (by decide) hlonger.2) rest
    · exact placeholderAt_eq_none hopen

/-- A text that is filled in without opening braces is bare. -/
theorem Cut.bare {shown : List String} (hcut : Cut cs ps)
    (hshown : List.Forall₂ (Piece.Shows h data) ps shown)
    (plain : ∀ e, .placeholder e ∈ ps → ∀ v, (resolve h data (String.ofList e)).result = .ok v →
      '\x7b' ∉ (h.display v).toList) :
    Bare (String.join shown).toList := by
  induction hcut generalizing shown with
  | rest cs bare =>
    cases hshown with
    | cons hliteral hnone =>
      cases hliteral
      cases hnone
      simpa using bare
  | span cs x ps first after ih =>
    cases hshown with
    | cons hliteral hshown =>
      cases hshown with
      | cons hvalue hshown =>
        cases hliteral
        obtain ⟨v, hv, rfl⟩ := hvalue
        have hrest := ih hshown fun e he =>
          plain e (List.mem_cons_of_mem _ (List.mem_cons_of_mem _ he))
        have hbrace := plain x.expression (List.mem_cons_of_mem _ List.mem_cons_self) v hv
        rw [String.join_cons, String.join_cons, String.toList_append, String.toList_append,
          String.toList_ofList]
        exact (hrest.value hbrace).before first

/-- **A bound text is settled.** If no value that was filled in shows an opening brace, it holds no
placeholders, and binding it again, to whatever data, reads nothing and gives the same text. -/
theorem interpolate_settles (ok : (interpolate h data text).result = .ok out)
    (plain : ∀ e ∈ placeholders text, ∀ v, (resolve h data e).result = .ok v →
      '\x7b' ∉ (h.display v).toList) :
    placeholders out = [] ∧
      ∀ (h' : Heap) (data' : ObjectId), interpolate h' data' out = ⟨[], .ok out⟩ := by
  obtain ⟨ps, shown, hcut, hshown, rfl⟩ := filled_interpolate ok
  have hbare : Bare (String.join shown).toList := by
    refine hcut.bare hshown fun e he v hv => plain (Text.trim (String.ofList e)) ?_ v ?_
    · rw [placeholders, cut_iff.1 hcut]
      refine List.mem_filterMap.2 ⟨_, he, ?_⟩
      rw [Piece.expression?, Text.trim, String.toList_ofList]
    · rw [resolve_trim, hv]
  have hpieces := ofText_of_next?_none (Span.next?_eq_none_iff.2 hbare)
  refine ⟨?_, fun h' data' => ?_⟩
  · rw [placeholders, hpieces]
    rfl
  · rw [interpolate, hpieces]
    simp only [bindPieces, Except.map, String.ofList_toList, String.append_empty]

/-- An object with an empty text, and a text of closing braces. -/
def bracedHeap : Heap :=
  (Heap.empty.buildObject
    [("none", .value (.string "")), ("ends", .value (.string "\x7d\x7d"))]).2

/-- A text in which two opening braces are barred by a line break, one stands before the empty text,
and two stand open at the end. -/
def bracedText : String :=
  "\x7b\x7b\n\x7b\x7bnone\x7d\x7d\x7b \x7b\x7b ends \x7d\x7d\x7d \x7b\x7b\x7d"

theorem resolve_braced :
    (resolve bracedHeap ⟨0⟩ "none").result = .ok (.string "") ∧
      (resolve bracedHeap ⟨0⟩ "ends").result = .ok (.string "\x7d\x7d") := by
  have hnone : (descend bracedHeap (.object ⟨0⟩) ["none"]).result = .ok (.string "") := by cbv
  have hends : (descend bracedHeap (.object ⟨0⟩) ["ends"]).result = .ok (.string "\x7d\x7d") := by cbv
  constructor
  · rw [resolve_of_trim (by cbv : Text.trim "none" = "none") (by decide) (by cbv : _ = ["none"]), hnone]
    rfl
  · rw [resolve_of_trim (by cbv : Text.trim "ends" = "ends") (by decide) (by cbv : _ = ["ends"]), hends]
    rfl

theorem display_braced (s : String) : bracedHeap.display (.string s) = s := by
  rw [Heap.display, Heap.displayIn]

theorem interpolate_braced :
    (interpolate bracedHeap ⟨0⟩ bracedText).result =
      .ok "\x7b\x7b\n\x7b \x7d\x7d\x7d \x7b\x7b\x7d" := by
  have hpieces : Piece.ofText bracedText.toList =
      [.literal ['\x7b', '\x7b', '\n'], .placeholder ['n', 'o', 'n', 'e'], .literal ['\x7b', ' '],
        .placeholder [' ', 'e', 'n', 'd', 's', ' '], .literal ['\x7d', ' ', '\x7b', '\x7b', '\x7d']] := by
    cbv
  have hnone : (resolve bracedHeap ⟨0⟩ (String.ofList ['n', 'o', 'n', 'e'])).result = .ok (.string "") :=
    resolve_braced.1
  have hends : (resolve bracedHeap ⟨0⟩ (String.ofList [' ', 'e', 'n', 'd', 's', ' '])).result =
      .ok (.string "\x7d\x7d") := by
    have htrim : Text.trim (String.ofList [' ', 'e', 'n', 'd', 's', ' ']) = "ends" := by cbv
    rw [← resolve_trim, htrim, resolve_braced.2]
  rw [interpolate, hpieces]
  simp only [bindPieces, hnone, hends, display_braced, Except.map]
  rfl

/-- Filled in, the text still has opening braces with closing ones behind them, and no placeholder. -/
theorem interpolate_settles_braced :
    (interpolate bracedHeap ⟨0⟩ bracedText).result =
        .ok "\x7b\x7b\n\x7b \x7d\x7d\x7d \x7b\x7b\x7d" ∧
      placeholders bracedText = ["none", "ends"] ∧
      placeholders "\x7b\x7b\n\x7b \x7d\x7d\x7d \x7b\x7b\x7d" = [] := by
  have hlist : placeholders bracedText = ["none", "ends"] := by cbv
  refine ⟨interpolate_braced, hlist, (interpolate_settles interpolate_braced fun e he v hv => ?_).1⟩
  rw [hlist, List.mem_pair] at he
  obtain rfl | rfl := he
  · rw [resolve_braced.1] at hv
    cases hv
    rw [display_braced]
    decide
  · rw [resolve_braced.2] at hv
    cases hv
    rw [display_braced]
    decide

end LiveMarkup.Template
