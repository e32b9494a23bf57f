import LiveMarkup.Proofs.Markup.Position

/-!
# Escaping and decoding

Ampersands stand in an escaped text only where one of the references starts that escaping writes. So the text
behind it neither completes a reference nor is taken for part of one.

* **`Entity.escape_eq_append`**: where the ampersands of an escaped text stand.
* **`Entity.escape_undone`**: decoding undoes escaping in front of any text.
-/

namespace LiveMarkup.Entity

variable {p : Setting} {c : Char} {cs front behind : List Char}

/-! ## Ampersands -/

theorem ampersand_has_reference : '&' ∈ (emitted p).map Prod.fst := by
  cases p <;> decide

theorem ampersand_of_escapeChar (h : escapeChar p c = front ++ '&' :: behind) :
    front = [] ∧ (c, escapeChar p c) ∈ emitted p := by
  rcases escapeChar_cases p c with hc | ⟨hself, hc⟩
  · refine ⟨?_, hc⟩
    cases front with
    | nil => rfl
    | cons d front =>
      refine absurd ampersand_has_reference ((plain_of_emitted hc).2 '&' ?_)
      rw [h]
      exact List.mem_append_right front List.mem_cons_self
  · have hamp : '&' ∈ [c] := by rw [← hself, h]; exact List.mem_append_right front List.mem_cons_self
    exact absurd (List.mem_singleton.1 hamp ▸ ampersand_has_reference) hc

theorem escape_cons (p : Setting) (c : Char) (cs : List Char) :
    escape p (c :: cs) = escapeChar p c ++ escape p cs := List.flatMap_cons

/-- **Every ampersand of an escaped text starts the reference of a character.** -/
theorem escape_eq_append (h : escape p cs = front ++ '&' :: behind) :
    ∃ before c after entity, cs = before ++ c :: after ∧ (c, entity) ∈ emitted p ∧
      front = escape p before ∧ '&' :: behind = entity ++ escape p after := by
  induction cs generalizing front with
  | nil => simp [escape] at h
  | cons c cs ih =>
    -- An ampersand that is not in the spelling of the first character is in that of a later one.
    have later : ∀ front', front = escapeChar p c ++ front' → escape p cs = front' ++ '&' :: behind →
        ∃ before d after entity, c :: cs = before ++ d :: after ∧ (d, entity) ∈ emitted p ∧
          front = escape p before ∧ '&' :: behind = entity ++ escape p after := by
      rintro front' rfl hrest
      obtain ⟨before, d, after, entity, rfl, hd, rfl, hbehind⟩ := ih hrest
      exact ⟨c :: before, d, after, entity, rfl, hd, (escape_cons p c before).symm, hbehind⟩
    rw [escape_cons] at h
    rcases List.append_eq_append_iff.1 h with ⟨front', hfront, hrest⟩ | ⟨inside, hchar, hrest⟩
    · exact later front' hfront hrest
    cases inside with
    | nil => exact later [] (by simpa using hchar.symm) hrest.symm
    | cons d inside =>
      obtain ⟨rfl, hbehind⟩ := List.cons.inj hrest
      obtain ⟨rfl, hc⟩ := ampersand_of_escapeChar hchar
      exact ⟨[], c, cs, escapeChar p c, rfl, hc, rfl, by rw [hchar, hbehind]; rfl⟩

/-! ## Escaping undone -/

/-- `String` form of `escape`. -/
def escapeText (p : Setting) (s : String) : String := String.ofList (escape p s.toList)

theorem decodeText_escapeText_append (p : Setting) (s t : String) :
    decodeText (escapeText p s ++ t) = s ++ decodeText t := by
  rw [decodeText, escapeText, String.toList_append, String.toList_ofList, decode_escape_append,
    String.ofList_append, String.ofList_toList, decodeText]

/-- **Decoding undoes escaping, in front of any text.** The loop by position does not fail and gives what
decoding by characters gives, which is the text that was escaped and then the rest decoded. The escaped text
holds no angle bracket and, in an attribute value, no quote, and each of its ampersands starts the reference of
a character of the text. -/
theorem escape_undone (p : Setting) (s t : String) :
    decodeText (escapeText p s ++ t) = s ++ decodeText t ∧
    decodeBytes (escapeText p s ++ t) = .ok (s ++ decodeText t) ∧ decodeBytes t = .ok (decodeText t) ∧
    '<' ∉ (escapeText p s).toList ∧ '>' ∉ (escapeText p s).toList ∧
    (p = .quoted → '\x22' ∉ (escapeText p s).toList) ∧
    ∀ front behind, (escapeText p s).toList = front ++ '&' :: behind →
      ∃ before c after entity, s.toList = before ++ c :: after ∧ (c, entity) ∈ emitted p ∧
        front = escape p before ∧ '&' :: behind = entity ++ escape p after := by
  have hdecoded := decodeText_escapeText_append p s t
  refine ⟨hdecoded, ?_, decodeBytes_eq t, ?_⟩
  · rw [decodeBytes_eq, hdecoded]
  · rw [escapeText, String.toList_ofList]
    refine ⟨angle_not_mem_escape p _, ?_, ?_, fun _ _ h => escape_eq_append h⟩
    · exact not_mem_escape (by cases p <;> decide) (by decide) _
    · rintro rfl
      exact quote_not_mem_escape _

/-- The text behind an escaped one has the semicolon that a reference in the text lacks. -/
theorem escape_undone_unfinished :
    escapeText .quoted "a\"&lt" = "a&quot;&amp;lt" ∧
    decodeText ("a&quot;&amp;lt" ++ ";&gt;") = "a\"&lt" ++ ";>" ∧
    '\x22' ∉ "a&quot;&amp;lt".toList ∧
    ∃ before c after entity, "a\"&lt".toList = before ++ c :: after ∧ (c, entity) ∈ emitted .quoted ∧
      "a&quot;".toList = escape .quoted before ∧ "&amp;lt".toList = entity ++ escape .quoted after := by
  have hescaped : escapeText .quoted "a\"&lt" = "a&quot;&amp;lt" := by cbv
  have hrest : decodeText ";&gt;" = ";>" := by cbv
  obtain ⟨hdecoded, -, -, -, -, hquote, hampersand⟩ := escape_undone .quoted "a\"&lt" ";&gt;"
  rw [hescaped] at hdecoded hquote hampersand
  rw [hrest] at hdecoded
  exact ⟨hescaped, hdecoded, hquote rfl, hampersand "a&quot;".toList "amp;lt".toList (by decide)⟩

end LiveMarkup.Entity
