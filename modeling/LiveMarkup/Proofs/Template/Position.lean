import LiveMarkup.Template.Bind
import LiveMarkup.Template.Position
import LiveMarkup.Proofs.Template.Spans
import Mathlib.Data.String.Basic

/-!
# The search by position

The search that counts bytes cuts a text only behind its characters, so it does not fail, and it finds
what the search over characters finds. What that is can be said by positions alone.

* `Text.between_eq_ok_iff`: what stands between two positions of a text.
* `Placeholder.next?_eq`, `Placeholder.pieces_eq`: the two searches agree.
* `Spans`, `Placeholder.First`: where placeholders stand, by their positions.
* **`Placeholder.found_first`**: the first placeholder is found, and the pieces are the whole text.
-/

namespace LiveMarkup

/-! ## Cutting at a position -/

namespace Text

variable {text front rest : String} {position : Nat}

theorem cut_eq_ok_iff :
    cut text position = .ok (front, rest) ↔ text = front ++ rest ∧ front.utf8ByteSize = position := by
  refine ⟨cut_sound, ?_⟩
  rintro ⟨htext, rfl⟩
  have hvalid : String.Pos.Raw.IsValid text ⟨front.utf8ByteSize⟩ :=
    String.Pos.Raw.isValid_iff_exists_append.2 ⟨front, rest, htext, rfl⟩
  have hsplits : (text.pos _ hvalid).Splits front rest := ⟨htext, rfl⟩
  obtain ⟨hfront, hrest⟩ := (text.pos _ hvalid).splits.eq hsplits
  rw [cut, dif_pos hvalid]
  exact congrArg Except.ok (Prod.ext hfront hrest)

theorem before_eq_ok_iff :
    before text position = .ok front ↔ ∃ rest, text = front ++ rest ∧ front.utf8ByteSize = position := by
  refine ⟨fun h => ?_, ?_⟩
  · obtain ⟨front, rest, htext, hsize, rfl⟩ := map_cut_sound h
    exact ⟨rest, htext, hsize⟩
  · rintro ⟨rest, h⟩
    rw [before, cut_eq_ok_iff.2 h]
    rfl

theorem behind_eq_ok_iff :
    behind text position = .ok rest ↔ ∃ front, text = front ++ rest ∧ front.utf8ByteSize = position := by
  refine ⟨fun h => ?_, ?_⟩
  · obtain ⟨front, rest, htext, hsize, rfl⟩ := map_cut_sound h
    exact ⟨front, htext, hsize⟩
  · rintro ⟨front, h⟩
    rw [behind, cut_eq_ok_iff.2 h]
    rfl

/-- What stands between two positions is what a text has there. -/
theorem between_eq_ok_iff {mid : String} {start stop : Nat} :
    between text start stop = .ok mid ↔
      ∃ front rest, text = front ++ mid ++ rest ∧ front.utf8ByteSize = start ∧
        (front ++ mid).utf8ByteSize = stop := by
  constructor
  · intro h
    unfold between at h
    cases hbefore : before text stop with
    | error err => rw [hbefore] at h; cases h
    | ok upto =>
      rw [hbefore] at h
      obtain ⟨rest, rfl, hstop⟩ := before_eq_ok_iff.1 hbefore
      obtain ⟨front, rfl, hstart⟩ := behind_eq_ok_iff.1 h
      exact ⟨front, rest, rfl, hstart, hstop⟩
  · rintro ⟨front, rest, htext, hstart, hstop⟩
    rw [between, before_eq_ok_iff.2 ⟨rest, htext, hstop⟩]
    exact behind_eq_ok_iff.2 ⟨front, rfl, hstart⟩

/-- A text can be cut behind any of its characters. -/
theorem cut_of_toList {done todo : List Char} (h : text.toList = done ++ todo) :
    cut text (String.utf8Len done) = .ok (String.ofList done, String.ofList todo) :=
  cut_eq_ok_iff.2 ⟨by rw [← String.ofList_append, ← h, String.ofList_toList],
    String.utf8ByteSize_ofList done⟩

theorem before_of_toList {done todo : List Char} (h : text.toList = done ++ todo) :
    before text (String.utf8Len done) = .ok (String.ofList done) := by
  rw [before, cut_of_toList h]
  rfl

theorem behind_of_toList {done todo : List Char} (h : text.toList = done ++ todo) :
    behind text (String.utf8Len done) = .ok (String.ofList todo) := by
  rw [behind, cut_of_toList h]
  rfl

theorem toList_of_behind {done todo : List Char} (h : text.toList = done ++ todo)
    (hbehind : behind text (String.utf8Len done) = .ok rest) : rest.toList = todo := by
  cases (behind_of_toList h).symm.trans hbehind
  exact String.toList_ofList

end Text

namespace Template

theorem utf8Len_enclosed (e : List Char) :
    String.utf8Len (enclosed e) = 2 + String.utf8Len e + 2 := by
  simp only [enclosed, String.utf8Len_cons, String.utf8Len_append, String.utf8Len_nil]
  rw [show Char.utf8Size '\x7b' = 1 from rfl, show Char.utf8Size '\x7d' = 1 from rfl]
  omega

/-- A placeholder by its position. -/
def Span.located (x : Span) : Placeholder where
  start := String.utf8Len x.before
  stop := String.utf8Len (x.before ++ enclosed x.expression)
  expression := String.ofList x.expression
  proper := by rw [String.utf8Len_append, utf8Len_enclosed]; omega

/-- A placeholder of a text, where more text stands to the left. -/
def Span.shift (front : List Char) (x : Span) : Span := { x with before := front ++ x.before }

/-- A search passes by a character that no placeholder starts at. -/
theorem Span.next?_cons {c : Char} {cs : List Char} (h : placeholderAt (c :: cs) = none) :
    next? (c :: cs) = (next? cs).map (shift [c]) := by
  rw [next?, h]
  rfl

namespace Placeholder

variable {text body : String} {front rest done todo cs : List Char}

theorem closesAt_of_toList (h : body.toList = done ++ todo) :
    closesAt body (String.utf8Len done) = .ok (decide (done ≠ [] ∧ ['\x7d', '\x7d'] <+: todo)) := by
  rw [closesAt, Text.behind_of_toList h]
  by_cases hdone : done = []
  · rw [if_pos (String.utf8Len_eq_zero.2 hdone)]
    simp [hdone]
  · rw [if_neg (mt String.utf8Len_eq_zero.1 hdone)]
    simp only [Except.map, String.toList_ofList, Except.ok.injEq]
    rw [Bool.eq_iff_iff, List.isPrefixOf_iff_prefix, decide_eq_true_eq]
    exact (and_iff_right hdone).symm

/-- The search for the end of an expression looks at one character and at what stands behind its
position. -/
theorem closer?_cons {c : Char} (h : body.toList = done ++ c :: cs) :
    closer? body (String.utf8Len done) (c :: cs) =
      if done ≠ [] ∧ ['\x7d', '\x7d'] <+: c :: cs then .ok (some (String.utf8Len done))
      else if isLineBreak c then .ok none
      else closer? body (String.utf8Len (done ++ [c])) cs := by
  have hsize : String.utf8Len (done ++ [c]) = String.utf8Len done + c.utf8Size := by simp
  rw [closer?, closesAt_of_toList h, hsize]
  by_cases hcloses : done ≠ [] ∧ ['\x7d', '\x7d'] <+: c :: cs
  · rw [if_pos hcloses, decide_eq_true hcloses]
    rfl
  · rw [if_neg hcloses, decide_eq_false hcloses]
    rfl

/-- The closing braces that are found end the shortest expression. -/
theorem closer?_of_toList (h : body.toList = done ++ todo) :
    closer? body (String.utf8Len done) todo =
      .ok (if done ≠ [] ∧ ['\x7d', '\x7d'] <+: todo then some (String.utf8Len done)
        else (Template.expression todo).map fun found => String.utf8Len (done ++ found.1)) := by
  induction todo generalizing done with
  | nil =>
    have hcloses : ¬ (done ≠ [] ∧ ['\x7d', '\x7d'] <+: ([] : List Char)) := by simp
    rw [if_neg hcloses]
    rfl
  | cons c cs ih =>
    rw [closer?_cons h]
    split
    · rfl
    rw [expression_cons]
    split
    · rfl
    have hrest : body.toList = (done ++ [c]) ++ cs := by rw [h]; simp
    rw [ih hrest]
    by_cases hcs : ['\x7d', '\x7d'] <+: cs
    · rw [if_pos hcs, if_pos ⟨by simp, hcs⟩]
      rfl
    · rw [if_neg hcs, if_neg fun h => hcs h.2, Option.map_map]
      simp only [Function.comp_def, List.append_assoc, List.singleton_append]

/-- Where two braces open, the search by position finds what the search over characters finds. -/
theorem at?_of_toList {body : List Char} (h : text.toList = front ++ '\x7b' :: '\x7b' :: body) :
    at? text (String.utf8Len front) =
      .ok ((Template.expression body).map fun found => (Span.mk front found.1 found.2).located) := by
  have hbody : Text.behind text (String.utf8Len front + 2) = .ok (String.ofList body) := by
    have hsize : String.utf8Len (front ++ ['\x7b', '\x7b']) = String.utf8Len front + 2 := by
      rw [String.utf8Len_append]; rfl
    rw [← hsize, Text.behind_of_toList (by simpa using h)]
  have hcloser : closer? (String.ofList body) 0 body =
      .ok ((Template.expression body).map fun found => String.utf8Len found.1) := by
    have htext : (String.ofList body).toList = [] ++ body := String.toList_ofList
    simpa using closer?_of_toList htext
  simp only [at?, hbody, bind, Except.bind, String.toList_ofList, hcloser]
  cases hfound : Template.expression body with
  | none => rfl
  | some found =>
    have htext : (String.ofList body).toList = found.1 ++ '\x7d' :: '\x7d' :: found.2 := by
      rw [String.toList_ofList]
      exact (expression_sound hfound).1
    have hstop : String.utf8Len front + 2 + String.utf8Len found.1 + 2 =
        String.utf8Len (front ++ enclosed found.1) := by
      rw [String.utf8Len_append, utf8Len_enclosed]
      omega
    simp only [Option.map_some, Text.before_of_toList htext, hstop]
    rfl

theorem opener?_eq_none (h : opener? cs = none) : Span.next? cs = none := by
  induction cs with
  | nil => rfl
  | cons c cs ih =>
    rw [opener?] at h
    split at h
    · cases h
    · next hopen =>
      rw [Span.next?_cons (placeholderAt_eq_none (mt List.isPrefixOf_iff_prefix.2 hopen)),
        ih (Option.map_eq_none_iff.1 h)]
      rfl

theorem opener?_eq_some {offset : Nat} (h : opener? cs = some offset) :
    ∃ front body, cs = front ++ '\x7b' :: '\x7b' :: body ∧ offset = String.utf8Len front ∧
      Span.next? cs = (Span.next? ('\x7b' :: '\x7b' :: body)).map (Span.shift front) := by
  induction cs generalizing offset with
  | nil => cases h
  | cons c cs ih =>
    rw [opener?] at h
    split at h
    · next hopen =>
      obtain ⟨body, hbody⟩ := List.isPrefixOf_iff_prefix.1 hopen
      cases h
      exact ⟨[], body, hbody.symm, rfl, by rw [← hbody]; exact Option.map_id'.symm⟩
    · next hopen =>
      obtain ⟨offset', hfound, rfl⟩ := Option.map_eq_some_iff.1 h
      obtain ⟨front, body, rfl, rfl, hnext⟩ := ih hfound
      refine ⟨c :: front, body, rfl, Nat.add_comm _ _, ?_⟩
      rw [Span.next?_cons (placeholderAt_eq_none (mt List.isPrefixOf_iff_prefix.2 hopen)), hnext,
        Option.map_map]
      rfl

/-- Where the braces that are found open, the search by position tries what the search over characters
tries. -/
theorem at?_of_opener? {offset : Nat} (h : text.toList = front ++ rest)
    (hopen : opener? rest = some offset) :
    ∃ passed body, rest = passed ++ '\x7b' :: '\x7b' :: body ∧
      String.utf8Len front + offset = String.utf8Len (front ++ passed) ∧
      Span.next? rest = (Span.next? ('\x7b' :: '\x7b' :: body)).map (Span.shift passed) ∧
      at? text (String.utf8Len front + offset) =
        .ok ((Template.expression body).map fun found =>
          (Span.mk (front ++ passed) found.1 found.2).located) := by
  obtain ⟨passed, body, rfl, rfl, hnext⟩ := opener?_eq_some hopen
  have hoffset := String.utf8Len_append front passed
  refine ⟨passed, body, rfl, hoffset.symm, hnext, ?_⟩
  rw [← hoffset]
  exact at?_of_toList (by rw [h, List.append_assoc])

/-- Behind what a text begins with, the search by position finds what the search over characters
finds. -/
theorem next?_of_toList (h : text.toList = front ++ rest) :
    next? text (String.utf8Len front) =
      .ok ((Span.next? rest).map fun x => (x.shift front).located) := by
  generalize hposition : String.utf8Len front = position
  fun_induction next? text position generalizing front rest with subst hposition
  | case1 _ _ hbehind => cases (Text.behind_of_toList h).symm.trans hbehind
  | case2 _ _ hbehind hopen =>
    rw [Text.toList_of_behind h hbehind] at hopen
    rw [opener?_eq_none hopen]
    rfl
  | case3 _ _ hbehind _ hopen _ hat =>
    rw [Text.toList_of_behind h hbehind] at hopen
    obtain ⟨passed, body, -, -, -, hfound⟩ := at?_of_opener? h hopen
    cases hfound.symm.trans hat
  | case4 _ _ hbehind _ hopen _ hat =>
    rw [Text.toList_of_behind h hbehind] at hopen
    obtain ⟨passed, body, -, -, hnext, hfound⟩ := at?_of_opener? h hopen
    obtain ⟨found, hbody, rfl⟩ := Option.map_eq_some_iff.1 (Except.ok.inj (hfound.symm.trans hat))
    rw [hnext, Span.next?, placeholderAt, hbody]
    simp [Span.shift]
  | case5 _ _ hbehind offset hopen hat _ ih =>
    rw [Text.toList_of_behind h hbehind] at hopen
    obtain ⟨passed, body, rfl, hoffset, hnext, hfound⟩ := at?_of_opener? h hopen
    have hbody := Option.map_eq_none_iff.1 (Except.ok.inj (hfound.symm.trans hat))
    have hrest : text.toList = (front ++ passed ++ ['\x7b']) ++ '\x7b' :: body := by rw [h]; simp
    have hstart : String.utf8Len (front ++ passed ++ ['\x7b']) = String.utf8Len front + offset + 1 := by
      rw [String.utf8Len_append, ← hoffset]
      rfl
    have hat : placeholderAt ('\x7b' :: '\x7b' :: body) = none := hbody
    rw [ih hrest hstart, hnext, Span.next?_cons hat]
    simp only [Option.map_map, Function.comp_def, Span.shift, List.append_assoc]

/-- The search by position does not fail, and finds what the search over characters finds. -/
theorem next?_eq (text : String) :
    next? text 0 = .ok ((Span.next? text.toList).map Span.located) :=
  next?_of_toList (List.nil_append text.toList).symm

example : next? "¡\x7b\x7b\x7bé\x7d\x7d\x7d" 0 = .ok (some ⟨2, 9, "\x7bé", by decide⟩) := by
  rw [next?_eq]
  decide

/-- Where a placeholder was found, a text can be cut on both sides of it. -/
theorem cut_of_next? {p : Placeholder} (h : next? text 0 = .ok (some p)) :
    ∃ x, Span.next? text.toList = some x ∧ p.expression = String.ofList x.expression ∧
      Text.before text p.start = .ok (String.ofList x.before) ∧
      Text.behind text p.stop = .ok (String.ofList x.after) := by
  obtain ⟨x, hx, rfl⟩ := Option.map_eq_some_iff.1 (Except.ok.inj ((next?_eq text).symm.trans h))
  have hin := (Span.first_of_next? hx).here
  refine ⟨x, hx, rfl, Text.before_of_toList hin.text, ?_⟩
  exact Text.behind_of_toList (by rw [List.append_assoc]; exact hin.text)

/-- The pieces by position are the pieces. -/
theorem pieces_eq (text : String) : pieces text = .ok (Piece.ofText text.toList) := by
  fun_induction pieces text with
  | case1 text _ hnext => cases (next?_eq text).symm.trans hnext
  | case2 text hnext =>
    have hnone := Option.map_eq_none_iff.1 (Except.ok.inj ((next?_eq text).symm.trans hnext))
    rw [ofText_of_next?_none hnone]
  | case3 text p hnext _ hbefore =>
    obtain ⟨x, -, -, hfront, -⟩ := cut_of_next? hnext
    cases hfront.symm.trans hbefore
  | case4 text p hnext _ _ _ hbehind =>
    obtain ⟨x, -, -, -, hrest⟩ := cut_of_next? hnext
    cases hrest.symm.trans hbehind
  | case5 text p hnext _ hbefore _ hbehind _ _ ih =>
    obtain ⟨x, hx, he, hfront, hrest⟩ := cut_of_next? hnext
    cases hfront.symm.trans hbefore
    cases hrest.symm.trans hbehind
    rw [ih, ofText_of_next? hx, he]
    simp only [String.toList_ofList]
    rfl

end Placeholder

/-! ## What stands between two positions -/

/-- Between two positions of a text stand two opening braces, an expression and two closing braces. -/
structure Spans (text : String) (start stop : Nat) (e : String) : Prop where
  between : Text.between text start stop = .ok ("\x7b\x7b" ++ e ++ "\x7d\x7d")
  proper : IsExpression e.toList

section

variable {text e e' : String} {start stop : Nat} {x : Span} {p q : Placeholder}

theorem toList_enclosed (e : String) :
    ("\x7b\x7b" ++ e ++ "\x7d\x7d").toList = enclosed e.toList := by
  simp only [String.toList_append, enclosed, String.reduceToList, List.cons_append, List.nil_append]

theorem Span.In.spans (h : x.In text.toList) :
    Spans text x.located.start x.located.stop x.located.expression := by
  have hmid : ("\x7b\x7b" ++ x.located.expression ++ "\x7d\x7d").toList = enclosed x.expression := by
    rw [toList_enclosed, Span.located, String.toList_ofList]
  refine ⟨Text.between_eq_ok_iff.2 ⟨String.ofList x.before, String.ofList x.after, ?_, ?_, ?_⟩, ?_⟩
  · rw [← String.toList_inj, String.toList_append, String.toList_append, hmid, String.toList_ofList,
      String.toList_ofList, List.append_assoc]
    exact h.text
  · exact String.utf8ByteSize_ofList x.before
  · rw [← String.utf8Len_toList, String.toList_append, hmid, String.toList_ofList]
    rfl
  · rw [Span.located, String.toList_ofList]
    exact h.proper

theorem Spans.exists_in (h : Spans text start stop e) :
    ∃ x : Span, x.In text.toList ∧ x.located.start = start ∧ x.located.stop = stop ∧
      x.expression = e.toList := by
  obtain ⟨front, rest, htext, rfl, rfl⟩ := Text.between_eq_ok_iff.1 h.between
  refine ⟨⟨front.toList, e.toList, rest.toList⟩, ⟨?_, h.proper⟩, ?_, ?_, rfl⟩
  · rw [htext, String.toList_append, String.toList_append, toList_enclosed, List.append_assoc]
  · exact String.utf8Len_toList front
  · rw [← String.utf8Len_toList, String.toList_append, toList_enclosed]
    rfl

/-- What stands between two positions has one expression. -/
theorem Spans.expression_eq (h : Spans text start stop e) (h' : Spans text start stop e') : e = e' := by
  have htext := Except.ok.inj (h.between.symm.trans h'.between)
  rwa [String.append_left_inj, String.append_right_inj] at htext

/-- A placeholder by its position that none starts before, and none stops before that starts where it
does. -/
structure Placeholder.First (text : String) (p : Placeholder) : Prop where
  here : Spans text p.start p.stop p.expression
  shortest : ∀ stop e, Spans text p.start stop e → p.stop ≤ stop
  leftmost : ∀ start stop e, Spans text start stop e → p.start ≤ start

namespace Placeholder

theorem First.eq (hp : p.First text) (hq : q.First text) : p = q := by
  have hstart := Nat.le_antisymm (hp.leftmost _ _ _ hq.here) (hq.leftmost _ _ _ hp.here)
  have hstop := Nat.le_antisymm (hp.shortest _ _ (hstart ▸ hq.here)) (hq.shortest _ _ (hstart ▸ hp.here))
  obtain ⟨start, stop, e, _⟩ := p
  obtain ⟨start', stop', e', _⟩ := q
  cases hstart
  cases hstop
  cases hp.here.expression_eq hq.here
  rfl

/-- Of two placeholders that start at one position, the one with the shorter expression stops first. -/
theorem stop_le {y : Span} (hx : x.In text.toList) (hy : y.In text.toList) (hbefore : x.before = y.before)
    (hle : x.expression.length ≤ y.expression.length) : x.located.stop ≤ y.located.stop := by
  have htext := hx.text.symm.trans hy.text
  rw [hbefore] at htext
  have htext := List.append_cancel_left htext
  simp only [enclosed_append, List.cons.injEq, true_and] at htext
  have hexpression : x.expression <+: y.expression :=
    List.prefix_of_prefix_length_le ⟨_, htext⟩ ⟨_, rfl⟩ hle
  have := String.utf8Len_le_of_prefix hexpression
  simp only [Span.located, String.utf8Len_append, utf8Len_enclosed, hbefore]
  omega

/-- The first placeholder of a text is the first by its position. -/
theorem first_located (hx : x.First text.toList) : x.located.First text := by
  have hleft : ∀ y : Span, y.In text.toList → x.before <+: y.before := fun y hy =>
    hx.here.within hy (hx.leftmost y hy)
  refine ⟨hx.here.spans, fun stop e h => ?_, fun start stop e h => ?_⟩
  · obtain ⟨y, hy, hstart, rfl, -⟩ := h.exists_in
    -- What stands before the two takes as many bytes, and the one begins with the other.
    obtain ⟨more, hmore⟩ := hleft y hy
    have hsize : String.utf8Len y.before = String.utf8Len x.before := hstart
    rw [← hmore, String.utf8Len_append, Nat.add_eq_left, String.utf8Len_eq_zero] at hsize
    rw [hsize, List.append_nil] at hmore
    exact stop_le hx.here hy hmore (hx.shortest y hy hmore.symm)
  · obtain ⟨y, hy, rfl, -, -⟩ := h.exists_in
    exact String.utf8Len_le_of_prefix (hleft y hy)

/-- What the search by position finds is first, and it finds something where any placeholder stands. -/
theorem next?_sound (text : String) :
    ∃ found, next? text 0 = .ok found ∧ (∀ p, found = some p → p.First text) ∧
      (found = none → ∀ start stop e, ¬ Spans text start stop e) := by
  refine ⟨_, next?_eq text, fun p hp => ?_, fun hnone start stop e h => ?_⟩
  · obtain ⟨x, hx, rfl⟩ := Option.map_eq_some_iff.1 hp
    exact first_located (Span.first_of_next? hx)
  · obtain ⟨x, hx, -, -, -⟩ := h.exists_in
    exact Span.bare_of_next? (Option.map_eq_none_iff.1 hnone) x hx

/-- **The search by position cuts a text only where a character ends, finds the leftmost placeholder and
there the shortest, and the pieces it leaves are all of the text, with no placeholder passed by.** -/
theorem found_first (text : String) :
    (∃ found, next? text 0 = .ok found ∧ found = (Span.next? text.toList).map Span.located ∧
      (∀ p, found = some p ↔ p.First text) ∧
      (found = none ↔ ∀ start stop e, ¬ Spans text start stop e)) ∧
    ∃ ps, pieces text = .ok ps ∧ Cut text.toList ps ∧ ps.flatMap Piece.spell = text.toList ∧
      placeholders text = ps.filterMap Piece.expression? ∧
      ∀ h data, interpolate h data text = bindPieces h data ps := by
  constructor
  · obtain ⟨found, hfound, hsome, hnone⟩ := next?_sound text
    refine ⟨found, hfound, Except.ok.inj (hfound.symm.trans (next?_eq text)), fun p => ?_, hnone, fun h => ?_⟩
    · refine ⟨hsome p, fun hp => ?_⟩
      cases found with
      | none => exact absurd hp.here (hnone rfl _ _ _)
      | some q => rw [(hsome q rfl).eq hp]
    · cases found with
      | none => rfl
      | some q => exact absurd (hsome q rfl).here (h _ _ _)
  · have hcut := cut_ofText text.toList
    exact ⟨_, pieces_eq text, hcut, hcut.spelled, rfl, fun _ _ => rfl⟩

end Placeholder

end

end Template

end LiveMarkup
