import LiveMarkup.Markup.Entity

/-!
# Escaped texts

* `Entity.decode_cons`, `Entity.decode_reference`: decoding from left to right.
* **`Entity.decode_escape_append`**: decoding undoes escaping.
* `Entity.emitted`, **`Entity.escapeChar_cases`**: the references that escaping writes.
* **`Entity.not_mem_escape`**: what an escaped text never holds.
-/

namespace LiveMarkup.Entity

variable {c d : Char} {cs rest : List Char}

@[simp] theorem decode_nil : decode [] = [] := by
  rw [decode]

theorem decode_cons (h : c ≠ '&') (cs : List Char) : decode (c :: cs) = c :: decode cs := by
  rw [decode, if_neg h]

theorem decode_reference (h : reference cs = some (d, rest)) :
    decode ('&' :: cs) = d :: decode rest := by
  rw [decode, if_pos rfl]
  split
  · next d' rest' h' =>
    obtain ⟨rfl, rfl⟩ := Prod.mk.inj (Option.some.inj (h'.symm.trans h))
    rfl
  · next h' =>
    rw [h] at h'
    cases h'

/-- Every character of a text gives one, or is part of the reference that gives it. -/
theorem decode_ne_nil (h : cs ≠ []) : decode cs ≠ [] := by
  cases cs with
  | nil => exact absurd rfl h
  | cons c cs =>
    rw [decode]
    split
    · split <;> exact List.cons_ne_nil _ _
    · exact List.cons_ne_nil _ _

theorem decode_escapeChar (p : Setting) (c : Char) (rest : List Char) :
    decode (escapeChar p c ++ rest) = c :: decode rest := by
  unfold escapeChar
  split
  · next h => subst h; exact decode_reference rfl
  split
  · next h => subst h; exact decode_reference rfl
  split
  · next h => subst h; exact decode_reference rfl
  split
  · next h => obtain ⟨rfl, -⟩ := h; exact decode_reference rfl
  · next h _ _ _ => exact decode_cons h rest

/-- **Decoding undoes escaping**, in front of any text. -/
theorem decode_escape_append (p : Setting) (cs rest : List Char) :
    decode (escape p cs ++ rest) = cs ++ decode rest := by
  induction cs with
  | nil => rfl
  | cons c cs ih =>
    rw [escape, List.flatMap_cons, List.append_assoc, decode_escapeChar, ← escape, ih]
    rfl

theorem decode_escape (p : Setting) (cs : List Char) : decode (escape p cs) = cs := by
  have h := decode_escape_append p cs []
  rwa [List.append_nil, decode_nil, List.append_nil] at h

theorem escape_ne_nil (p : Setting) (h : cs ≠ []) : escape p cs ≠ [] := fun he => h <| by
  rw [← decode_escape p cs, he, decode_nil]

/-! ## What escaping writes -/

/-- The characters that are written as references at a place, each with its reference. -/
def emitted (p : Setting) : List (Char × List Char) :=
  [('&', "&amp;".toList), ('<', "&lt;".toList), ('>', "&gt;".toList)] ++
    match p with
    | .content => []
    | .quoted => [('\x22', "&quot;".toList)]

/-- **A character is written as its reference**, or as itself if it has none. -/
theorem escapeChar_cases (p : Setting) (c : Char) :
    (c, escapeChar p c) ∈ emitted p ∨ escapeChar p c = [c] ∧ c ∉ (emitted p).map Prod.fst := by
  unfold escapeChar
  split
  · next h => subst h; cases p <;> exact .inl (by decide)
  split
  · next h => subst h; cases p <;> exact .inl (by decide)
  split
  · next h => subst h; cases p <;> exact .inl (by decide)
  split
  · next h => obtain ⟨rfl, rfl⟩ := h; exact .inl (by decide)
  · next hamp hleft hright hquote =>
    refine .inr ⟨rfl, ?_⟩
    cases p <;> simp_all [emitted]

/-- A reference has an ampersand in front, and holds no other character that has a reference. -/
theorem plain_of_emitted {p : Setting} {entity : List Char} (h : (c, entity) ∈ emitted p) :
    entity = '&' :: entity.tail ∧ ∀ d ∈ entity.tail, d ∉ (emitted p).map Prod.fst := by
  have hall : ∀ e ∈ emitted p, e.2 = '&' :: e.2.tail ∧ ∀ f ∈ emitted p, f.1 ∉ e.2.tail := by
    cases p <;> decide
  obtain ⟨hfront, htail⟩ := hall _ h
  refine ⟨hfront, fun d hd hm => ?_⟩
  obtain ⟨f, hf, rfl⟩ := List.mem_map.1 hm
  exact htail f hf hd

theorem plain_of_mem_escape {p : Setting} (h : d ∈ escape p cs) :
    d = '&' ∨ d ∉ (emitted p).map Prod.fst := by
  obtain ⟨c, -, hc⟩ := List.mem_flatMap.1 h
  rcases escapeChar_cases p c with hreference | ⟨hself, hplain⟩
  · obtain ⟨hfront, htail⟩ := plain_of_emitted hreference
    rw [hfront] at hc
    exact (List.mem_cons.1 hc).imp_right (htail d)
  · rw [hself, List.mem_singleton] at hc
    exact .inr (hc ▸ hplain)

/-- **An escaped text holds no character that has a reference**, but for the ampersand. -/
theorem not_mem_escape {p : Setting} (hc : c ∈ (emitted p).map Prod.fst) (hamp : c ≠ '&') (cs : List Char) :
    c ∉ escape p cs := fun h =>
  (plain_of_mem_escape h).elim hamp fun hplain => hplain hc

theorem angle_not_mem_escape (p : Setting) (cs : List Char) : '<' ∉ escape p cs :=
  not_mem_escape (by cases p <;> decide) (by decide) cs

theorem quote_not_mem_escape (cs : List Char) : '\x22' ∉ escape .quoted cs :=
  not_mem_escape (by decide) (by decide) cs

end LiveMarkup.Entity
