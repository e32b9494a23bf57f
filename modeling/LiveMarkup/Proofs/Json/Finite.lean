import LiveMarkup.Json.Reader

/-!
# Numbers read from JSON

A JSON text spells finite numbers only, however its numerals are rounded: what is too large is refused, and
there is no way to write a number that is none.

* `Json.Finite`: all numbers of a value are finite.
* **`Json.finite_of_tokens`**: the scalars that a text is cut into are finite.
* **`Json.finite_of_read`**: so is the value that a text spells.
-/

namespace LiveMarkup

namespace Json

/-! ## Finite values -/

mutual

/-- All numbers of a value are finite. -/
def Finite : Json → Prop
  | number n => n.isNaN = false ∧ n.isInfinite = false
  | array items => AllFinite items
  | object members => MembersFinite members
  | _ => True

def AllFinite : List Json → Prop
  | [] => True
  | j :: js => j.Finite ∧ AllFinite js

def MembersFinite : List (String × Json) → Prop
  | [] => True
  | (_, j) :: ms => j.Finite ∧ MembersFinite ms

end

theorem allFinite_iff {js : List Json} : AllFinite js ↔ ∀ j ∈ js, j.Finite := by
  induction js with
  | nil => simp [AllFinite]
  | cons j js ih => rw [AllFinite, ih, List.forall_mem_cons]

theorem membersFinite_iff {ms : List (String × Json)} : MembersFinite ms ↔ ∀ m ∈ ms, m.2.Finite := by
  induction ms with
  | nil => simp [MembersFinite]
  | cons m ms ih =>
    obtain ⟨name, j⟩ := m
    rw [MembersFinite, ih, List.forall_mem_cons]

/-- What every step of a fold preserves holds of its result. -/
theorem foldlM_preserves {α β : Type} {P : β → Prop} {f : β → α → Option β} {as : List α} {b b' : β}
    (step : ∀ a ∈ as, ∀ b b', P b → f b a = some b' → P b') (hb : P b) (h : as.foldlM f b = some b') :
    P b' := by
  induction as generalizing b with
  | nil =>
    rw [List.foldlM_nil] at h
    exact Option.some.inj h ▸ hb
  | cons a as ih =>
    obtain ⟨mid, hmid, h⟩ := Option.bind_eq_some_iff.1 ((List.foldlM_cons ..).symm.trans h)
    exact ih (fun a ha => step a (List.mem_cons_of_mem _ ha)) (step a List.mem_cons_self b mid hb hmid) h

/-! ## Tokens -/

/-- A scalar is finite; there is nothing to say of any other token. -/
def Token.Finite : Token → Prop
  | .scalar j => j.Finite
  | _ => True

variable {l l' : Lexer} {done ts : List Token} {t : Token} {c : Char} {j : Json}

theorem Token.Finite.cons (ht : t.Finite) (hdone : ∀ t ∈ done, t.Finite) : ∀ t' ∈ t :: done, t'.Finite :=
  List.forall_mem_cons.2 ⟨ht, hdone⟩

theorem finite_readMagnitude [Rounding] {negative : Bool} {cs : List Char} {n : Number}
    (h : readMagnitude negative cs = some n) : (number n).Finite := by
  obtain ⟨⟨whole, rest⟩, -, h⟩ := Option.bind_eq_some_iff.1 h
  obtain ⟨⟨part, rest⟩, -, h⟩ := Option.bind_eq_some_iff.1 h
  obtain ⟨power, -, h⟩ := Option.bind_eq_some_iff.1 h
  exact Rounding.finite h

theorem finite_readNumber [Rounding] {cs : List Char} {n : Number} (h : readNumber cs = some n) :
    (number n).Finite := by
  unfold readNumber at h
  split at h <;> exact finite_readMagnitude h

theorem finite_wordValue {letters : List Char} (h : wordValue letters = some j) : j.Finite := by
  unfold wordValue at h
  split at h
  · exact Option.some.inj h ▸ trivial
  · exact Option.some.inj h ▸ trivial
  · exact Option.some.inj h ▸ trivial
  · cases h

/-- All that is done is finite. -/
def Lexer.Finite (l : Lexer) : Prop := ∀ t ∈ l.done, t.Finite

theorem Lexer.finite_start (hdone : ∀ t ∈ done, t.Finite) (h : start done c = some l) : l.Finite := by
  unfold start at h
  split at h
  case h_12 =>
    split at h
    · exact Option.some.inj h ▸ hdone
    · split at h
      · exact Option.some.inj h ▸ hdone
      · cases h
  all_goals first
    | exact Option.some.inj h ▸ hdone
    | exact Option.some.inj h ▸ Token.Finite.cons trivial hdone

theorem Lexer.done_unit {chars : List Char} {high : Option Nat} {u : Nat}
    (h : Lexer.unit done chars high u = some l) : l.done = done := by
  unfold Lexer.unit at h
  split at h
  · split at h
    · exact Option.some.inj h ▸ rfl
    · cases h
  · split at h
    · exact Option.some.inj h ▸ rfl
    · split at h
      · cases h
      · exact Option.some.inj h ▸ rfl

/-- One more character. -/
theorem Lexer.Finite.step [Rounding] (hl : l.Finite) (h : l.step c = some l') : l'.Finite := by
  have hscalar : ∀ {j : Json}, j.Finite → ∀ t ∈ Token.scalar j :: l.done, t.Finite := fun hj =>
    Token.Finite.cons hj hl
  unfold Lexer.step at h
  split at h
  case h_1 => exact finite_start hl h
  case h_2 =>
    split at h
    · exact Option.some.inj h ▸ hl
    · obtain ⟨j, hj, h⟩ := Option.bind_eq_some_iff.1 h
      exact finite_start (hscalar (finite_wordValue hj)) h
  case h_3 =>
    split at h
    · exact Option.some.inj h ▸ hl
    · obtain ⟨n, hn, h⟩ := Option.bind_eq_some_iff.1 h
      exact finite_start (hscalar (finite_readNumber hn)) h
  case h_4 chars _ =>
    split at h
    · exact Option.some.inj h ▸ hscalar (j := .string (String.ofList chars.reverse)) trivial
    · split at h
      · exact Option.some.inj h ▸ hl
      · split at h
        · cases h
        · exact Option.some.inj h ▸ hl
  case h_5 =>
    split at h
    · exact Option.some.inj h ▸ hl
    · obtain ⟨e, -, rfl⟩ := Option.map_eq_some_iff.1 h
      exact hl
  case h_6 =>
    split at h
    · exact Option.some.inj h ▸ hl
    · obtain ⟨u, -, h⟩ := Option.bind_eq_some_iff.1 h
      unfold Lexer.Finite
      rw [done_unit h]
      exact hl
  all_goals
    split at h
    · exact Option.some.inj h ▸ hl
    · cases h

theorem Lexer.Finite.finish [Rounding] (hl : l.Finite) (h : l.finish = some ts) : ∀ t ∈ ts, t.Finite := by
  have hscalar : ∀ {j : Json}, j.Finite → ∀ t ∈ (Token.scalar j :: l.done).reverse, t.Finite :=
    fun {j} hj t ht => Token.Finite.cons (t := .scalar j) hj hl t (List.mem_reverse.1 ht)
  unfold Lexer.finish at h
  split at h
  · exact Option.some.inj h ▸ fun t ht => hl t (List.mem_reverse.1 ht)
  · obtain ⟨j, hj, h⟩ := Option.bind_eq_some_iff.1 h
    exact Option.some.inj h ▸ hscalar (finite_wordValue hj)
  · obtain ⟨n, hn, h⟩ := Option.bind_eq_some_iff.1 h
    exact Option.some.inj h ▸ hscalar (finite_readNumber hn)
  · cases h

/-- **The scalars that a text is cut into are finite.** -/
theorem finite_of_tokens [Rounding] {s : String} (h : tokens s = some ts) : ∀ t ∈ ts, t.Finite := by
  obtain ⟨l, hl, h⟩ := Option.bind_eq_some_iff.1 h
  have hempty : Lexer.Finite ⟨[], .between⟩ := fun t ht => absurd ht List.not_mem_nil
  exact (foldlM_preserves (fun _ _ _ _ hl h => hl.step h) hempty hl).finish h

/-! ## Values -/

/-- What is there already of an open array or object is finite. -/
def Open.Finite : Open → Prop
  | .array items => ∀ j ∈ items, j.Finite
  | .object members => ∀ m ∈ members, m.2.Finite
  | .member members _ => ∀ m ∈ members, m.2.Finite

/-- So it is for all that is open, and for the value at the end. -/
structure Builder.Finite (b : Builder) : Prop where
  opened : ∀ o ∈ b.opened, o.Finite
  finish : ∀ v, b.expect = .finish v → v.Finite

namespace Builder

variable {b b' : Builder} {opened : List Open}

theorem finite_place (ho : ∀ o ∈ opened, o.Finite) (hj : j.Finite) (h : place opened j = some b) :
    b.Finite := by
  unfold place at h
  split at h
  · obtain rfl := Option.some.inj h
    refine ⟨ho, fun v hv => ?_⟩
    obtain rfl := Expect.finish.inj hv
    exact hj
  · obtain rfl := Option.some.inj h
    obtain ⟨hitems, houter⟩ := List.forall_mem_cons.1 ho
    refine ⟨List.forall_mem_cons.2 ⟨?_, houter⟩, fun v hv => by cases hv⟩
    exact List.forall_mem_cons.2 ⟨hj, hitems⟩
  · obtain rfl := Option.some.inj h
    obtain ⟨hmembers, houter⟩ := List.forall_mem_cons.1 ho
    refine ⟨List.forall_mem_cons.2 ⟨?_, houter⟩, fun v hv => by cases hv⟩
    exact List.forall_mem_cons.2 ⟨hj, hmembers⟩
  · cases h

theorem finite_enter {o : Open} {expect : Expect} (ho : ∀ o ∈ opened, o.Finite) (hnew : o.Finite)
    (hexpect : ∀ v, expect ≠ .finish v) (h : enter opened o expect = some b) : b.Finite := by
  unfold enter at h
  split at h
  · obtain rfl := Option.some.inj h
    exact ⟨List.forall_mem_cons.2 ⟨hnew, ho⟩, fun v hv => absurd hv (hexpect v)⟩
  · cases h

theorem finite_value (ho : ∀ o ∈ opened, o.Finite) (ht : t.Finite) (h : value opened t = some b) :
    b.Finite := by
  unfold value at h
  split at h
  · exact finite_place ho ht h
  · have hnew : Open.Finite (.array []) := fun j hj => absurd hj List.not_mem_nil
    exact finite_enter ho hnew (fun v hv => by cases hv) h
  · have hnew : Open.Finite (.object []) := fun m hm => absurd hm List.not_mem_nil
    exact finite_enter ho hnew (fun v hv => by cases hv) h
  · cases h

theorem finite_close (ho : ∀ o ∈ opened, o.Finite) (h : close opened t = some b) : b.Finite := by
  unfold close at h
  split at h
  · next items outer =>
    obtain ⟨hitems, houter⟩ := List.forall_mem_cons.1 ho
    have hclosed : Json.Finite (.array items.reverse) :=
      allFinite_iff.2 fun j hj => hitems j (List.mem_reverse.1 hj)
    exact finite_place houter hclosed h
  · next members outer =>
    obtain ⟨hmembers, houter⟩ := List.forall_mem_cons.1 ho
    have hclosed : Json.Finite (.object members.reverse) :=
      membersFinite_iff.2 fun m hm => hmembers m (List.mem_reverse.1 hm)
    exact finite_place houter hclosed h
  · cases h

theorem finite_name (ho : ∀ o ∈ opened, o.Finite) (h : name opened t = some b) : b.Finite := by
  unfold name at h
  split at h
  · obtain rfl := Option.some.inj h
    obtain ⟨hmembers, houter⟩ := List.forall_mem_cons.1 ho
    exact ⟨List.forall_mem_cons.2 ⟨hmembers, houter⟩, fun v hv => by cases hv⟩
  · cases h

/-- One more token. -/
theorem Finite.step (hb : b.Finite) (ht : t.Finite) (h : b.step t = some b') : b'.Finite := by
  unfold Builder.step at h
  split at h
  · exact finite_value hb.opened ht h
  · exact finite_close hb.opened h
  · exact finite_value hb.opened ht h
  · exact finite_close hb.opened h
  · exact finite_name hb.opened h
  · exact finite_name hb.opened h
  · obtain rfl := Option.some.inj h
    exact ⟨hb.opened, fun v hv => by cases hv⟩
  · split at h
    · obtain rfl := Option.some.inj h
      exact ⟨hb.opened, fun v hv => by cases hv⟩
    · obtain rfl := Option.some.inj h
      exact ⟨hb.opened, fun v hv => by cases hv⟩
    · cases h
  · exact finite_close hb.opened h
  · cases h

end Builder

/-- **The value that a text spells is finite.** -/
theorem finite_of_read [Rounding] {s : String} (h : read s = some j) : j.Finite := by
  obtain ⟨ts, hts, h⟩ := Option.bind_eq_some_iff.1 h
  obtain ⟨b, hb, h⟩ := Option.bind_eq_some_iff.1 h
  have hempty : Builder.Finite ⟨[], .value⟩ :=
    ⟨fun o ho => absurd ho List.not_mem_nil, fun v hv => by cases hv⟩
  have hfinite : b.Finite :=
    foldlM_preserves (fun t ht _ _ hb h => hb.step (finite_of_tokens hts t ht) h) hempty hb
  split at h
  · next v hv => exact Option.some.inj h ▸ hfinite.finish v hv
  · cases h

end Json

end LiveMarkup
