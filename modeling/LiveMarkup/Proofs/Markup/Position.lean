import Mathlib
import LiveMarkup.Markup.Position
import LiveMarkup.Proofs.Markup.Entity
import LiveMarkup.Proofs.Template.Position

/-!
# Which texts are references

The grammar of references, and decoding said by it alone: from left to right a reference becomes its
character and every other character stays. The numerals that are read may begin with a plus sign, so that
more is decoded than there are references.

* `Text.Numeral`, **`Text.readNumeral_eq_some_iff`**: the digits of a number, and what is read as one.
* `Entity.Reference`, **`Entity.named_eq_some_iff`**: the grammar of references, and what is taken for one.
* `Entity.Decodes`: a text with its references replaced, from left to right.
* **`Entity.decodeBytes_eq`**: the loop that cuts a text at positions does not fail.
* **`Entity.decodes_iff`**: decoding follows the grammar, up to plus signs.
* `Entity.signed_decoded`: a text that is no reference and is decoded.
-/

namespace LiveMarkup

/-! ## Numerals -/

namespace Text

variable {base bound start n d : Nat} {c : Char} {cs digits : List Char}

theorem digit?_ofNat_iff : ∀ n < 128, ∀ d < 16,
    digit? 16 (Char.ofNat n) = some d ↔ (Char.ofNat n).toLower = Nat.digitChar d := by
  decide +kernel

theorem toNat_digitChar_lt : ∀ d < 16, (Nat.digitChar d).toNat < 128 := by decide

/-- Beyond the ASCII characters there are no digits, and no capital letters that have small ones. -/
theorem not_digit (base : Nat) (hc : 128 ≤ c.toNat) : digit? base c = none ∧ c.toLower = c := by
  have hle : ∀ e : Char, e.toNat < 128 → ¬ c ≤ e := fun e he hce => by
    have : c.toNat ≤ e.toNat := hce
    omega
  constructor
  · simp [digit?, hle]
  · refine dif_neg fun h => ?_
    exact hle 'Z' (by decide) h.2

theorem digit?_of_le (hbase : base ≤ 16) :
    digit? base c = some d ↔ d < base ∧ digit? 16 c = some d := by
  simp only [digit?, Option.filter_eq_some_iff, decide_eq_true_eq]
  constructor
  · exact fun h => ⟨h.2, h.1, by omega⟩
  · exact fun h => ⟨h.2.1, h.1⟩

/-- A digit of a base is the character of its value, in either case of letter. -/
theorem digit?_eq_some_iff (hbase : base ≤ 16) :
    digit? base c = some d ↔ d < base ∧ c.toLower = Nat.digitChar d := by
  rw [digit?_of_le hbase]
  refine and_congr_right fun hd => ?_
  by_cases hc : c.toNat < 128
  · have hascii := digit?_ofNat_iff c.toNat hc d (by omega)
    rwa [Char.ofNat_toNat] at hascii
  · obtain ⟨hnone, hlower⟩ := not_digit 16 (Nat.le_of_not_lt hc)
    rw [hnone, hlower]
    refine iff_of_false (by simp) ?_
    rintro rfl
    exact hc (toNat_digitChar_lt d (by omega))

/-- The digits of a number in a base. -/
def Numeral (base : Nat) (digits : List Char) (n : Nat) : Prop :=
  digits ≠ [] ∧ ∃ ds : List Nat,
    List.Forall₂ (fun c d => d < base ∧ c.toLower = Nat.digitChar d) digits ds ∧
      Nat.ofDigits base ds.reverse = n

/-- What is read is the value of the digits, behind those read already. -/
theorem readDigits_eq_some_iff (hbase : base ≤ 16) : readDigits base start cs = some n ↔
    ∃ ds : List Nat, List.Forall₂ (fun c d => d < base ∧ c.toLower = Nat.digitChar d) cs ds ∧
      start * base ^ ds.length + Nat.ofDigits base ds.reverse = n := by
  induction cs generalizing start with
  | nil =>
    rw [readDigits, Option.some_inj]
    refine ⟨fun hn => ⟨[], .nil, by simpa using hn⟩, ?_⟩
    rintro ⟨ds, hds, hn⟩
    cases hds
    simpa using hn
  | cons c cs ih =>
    have hvalue : ∀ (d : Nat) (ds : List Nat),
        start * base ^ (d :: ds).length + Nat.ofDigits base (d :: ds).reverse =
          (start * base + d) * base ^ ds.length + Nat.ofDigits base ds.reverse := by
      intro d ds
      rw [List.reverse_cons, Nat.ofDigits_append, Nat.ofDigits_singleton, List.length_reverse,
        List.length_cons, pow_succ]
      ring
    rw [readDigits]
    cases hd : digit? base c with
    | none =>
      simp only [reduceCtorEq, false_iff, not_exists, not_and]
      intro ds hds
      cases hds with
      | cons hc _ => rw [(digit?_eq_some_iff hbase).2 hc] at hd; cases hd
    | some d =>
      simp only [ih]
      constructor
      · rintro ⟨ds, hds, hn⟩
        exact ⟨d :: ds, .cons ((digit?_eq_some_iff hbase).1 hd) hds, (hvalue d ds).trans hn⟩
      · rintro ⟨ds, hds, hn⟩
        cases hds with
        | @cons _ e _ ds hc hds =>
          obtain rfl := Option.some.inj (hd.symm.trans ((digit?_eq_some_iff hbase).2 hc))
          exact ⟨ds, hds, (hvalue _ ds).symm.trans hn⟩

theorem readUnsigned_eq_some_iff (hbase : base ≤ 16) :
    readUnsigned base bound cs = some n ↔ Numeral base cs n ∧ n < bound := by
  unfold readUnsigned Numeral
  split
  · next hempty => simp [List.isEmpty_iff.1 hempty]
  · next hempty =>
    rw [Option.filter_eq_some_iff, readDigits_eq_some_iff hbase]
    simp [List.isEmpty_iff.not.1 hempty]

/-- A plus sign may stand before the digits. -/
theorem readNumeral_eq_some_iff (hbase : base ≤ 16) : readNumeral base bound cs = some n ↔
    ∃ sign ∈ [[], ['+']], ∃ digits, cs = sign ++ digits ∧ Numeral base digits n ∧ n < bound := by
  have hplus : ∀ {cs}, ¬ Numeral base ('+' :: cs) n := by
    rintro cs ⟨-, ds, hds, -⟩
    cases hds with
    | cons hd _ => exact absurd ((digit?_eq_some_iff hbase).2 hd) (by simp [digit?])
  simp only [List.mem_cons, List.not_mem_nil, or_false, exists_eq_or_imp, exists_eq_left, List.nil_append,
    List.cons_append, exists_eq_left']
  unfold readNumeral
  split
  · simp [readUnsigned_eq_some_iff hbase, hplus]
  · next hne =>
    rw [readUnsigned_eq_some_iff hbase]
    simpa using fun digits hcs => (hne digits hcs).elim

/-- A numeral has digits only. -/
theorem Numeral.not_mem (hn : Numeral base digits n) (hbase : base ≤ 16) (hc : digit? base c = none) :
    c ∉ digits := by
  obtain ⟨-, ds, hds, -⟩ := hn
  induction hds with
  | nil => simp
  | cons hd _ ih =>
    refine mt List.mem_cons.1 (not_or.2 ⟨?_, ih⟩)
    rintro rfl
    rw [(digit?_eq_some_iff hbase).2 hd] at hc
    cases hc

/-! ## Positions of characters -/

theorem find?_eq_none_iff : find? c cs = none ↔ c ∉ cs := by
  induction cs with
  | nil => simp [find?]
  | cons d ds ih =>
    rw [find?]
    by_cases hd : d = c
    · simp [hd]
    · rw [if_neg hd, Option.map_eq_none_iff, ih, List.mem_cons, not_or]
      simp [Ne.symm hd]

theorem find?_append {rest : List Char} (hc : c ∉ cs) :
    find? c (cs ++ c :: rest) = some (String.utf8Len cs) := by
  induction cs with
  | nil => simp [find?]
  | cons d ds ih =>
    obtain ⟨hd, hds⟩ := not_or.1 (mt List.mem_cons.2 hc)
    rw [List.cons_append, find?, if_neg (Ne.symm hd), ih hds, String.utf8Len_cons, Nat.add_comm]
    rfl

theorem find?_eq_some (hfind : find? c cs = some n) :
    ∃ front rest, cs = front ++ c :: rest ∧ c ∉ front ∧ n = String.utf8Len front := by
  have hc : c ∈ cs := by
    by_contra hc
    rw [find?_eq_none_iff.2 hc] at hfind
    cases hfind
  obtain ⟨front, rest, rfl, hfront⟩ := List.eq_append_cons_of_mem hc
  rw [find?_append hfront] at hfind
  exact ⟨front, rest, rfl, hfront, (Option.some.inj hfind).symm⟩

theorem between_of_toList {text : String} {front mid rest : List Char}
    (h : text.toList = front ++ mid ++ rest) :
    between text (String.utf8Len front) (String.utf8Len (front ++ mid)) = .ok (String.ofList mid) := by
  rw [between, before_of_toList h]
  exact behind_of_toList String.toList_ofList

end Text

namespace Entity

variable {c d : Char} {n : Nat} {s t t' cs entity front rest start : List Char} {text tail : String}

/-! ## The grammar of references -/

/-- What stands between an ampersand and a semicolon, and the character that the two enclose with it. A
numeral has one of the signs before its digits. -/
inductive Reference (signs : List (List Char)) : List Char → Char → Prop where
  | name (entity : List Char) (c : Char) (known : (entity, c) ∈ names) : Reference signs entity c
  | decimal (sign digits : List Char) (c : Char) (signed : sign ∈ signs)
      (number : Text.Numeral 10 digits c.toNat) : Reference signs ('#' :: (sign ++ digits)) c
  | hex (x : Char) (sign digits : List Char) (c : Char) (letter : x = 'x' ∨ x = 'X')
      (signed : sign ∈ signs) (number : Text.Numeral 16 digits c.toNat) :
      Reference signs ('#' :: x :: (sign ++ digits)) c

theorem charAt_eq_some_iff : charAt n = some c ↔ c.toNat = n := by
  unfold charAt
  split
  · next hn =>
    rw [Option.some_inj]
    constructor
    · rintro rfl
      rw [Char.ofNat, dif_pos hn]
      rfl
    · rintro rfl
      exact Char.ofNat_toNat c
  · next hn =>
    refine iff_of_false (by simp) ?_
    rintro rfl
    exact hn c.valid

theorem mem_of_lookup_names (h : names.lookup entity = some c) : (entity, c) ∈ names := by
  obtain ⟨before, after, hnames, -⟩ := List.lookup_eq_some_iff.1 h
  rw [hnames]
  exact List.mem_append_right before List.mem_cons_self

theorem lookup_names_of_mem (h : (entity, c) ∈ names) : names.lookup entity = some c := by
  simp only [names, List.mem_cons, Prod.mk.injEq, List.not_mem_nil, or_false] at h
  rcases h with ⟨rfl, rfl⟩ | ⟨rfl, rfl⟩ | ⟨rfl, rfl⟩ | ⟨rfl, rfl⟩ | ⟨rfl, rfl⟩ | ⟨rfl, rfl⟩ <;> decide

theorem numberBehind_append (start cs : List Char) (base : Nat) :
    numberBehind start base (start ++ cs) = Text.readNumeral base numberBound cs := by
  rw [numberBehind, if_pos (by simp), List.drop_left]

theorem numberBehind_eq_none {base : Nat} (h : ¬ start <+: entity) :
    numberBehind start base entity = none := by
  rw [numberBehind, if_neg (mt List.isPrefixOf_iff_prefix.1 h)]

theorem toNat_lt_numberBound (c : Char) : c.toNat < numberBound := c.val.toNat_lt

/-- The numbers that are read and name a character. -/
theorem readNumeral_charAt {base : Nat} (hbase : base ≤ 16) :
    (Text.readNumeral base numberBound cs).bind charAt = some c ↔
      ∃ sign ∈ [[], ['+']], ∃ digits, cs = sign ++ digits ∧ Text.Numeral base digits c.toNat := by
  rw [Option.bind_eq_some_iff]
  constructor
  · rintro ⟨n, hn, hc⟩
    obtain rfl := charAt_eq_some_iff.1 hc
    obtain ⟨sign, hsign, digits, hcs, hnumeral, -⟩ := (Text.readNumeral_eq_some_iff hbase).1 hn
    exact ⟨sign, hsign, digits, hcs, hnumeral⟩
  · rintro ⟨sign, hsign, digits, hcs, hnumeral⟩
    refine ⟨c.toNat, (Text.readNumeral_eq_some_iff hbase).2 ?_, charAt_eq_some_iff.2 rfl⟩
    exact ⟨sign, hsign, digits, hcs, hnumeral, toNat_lt_numberBound c⟩

theorem named_name (h : (entity, c) ∈ names) : named entity = some c := by
  simp only [names, List.mem_cons, Prod.mk.injEq, List.not_mem_nil, or_false] at h
  rcases h with ⟨rfl, rfl⟩ | ⟨rfl, rfl⟩ | ⟨rfl, rfl⟩ | ⟨rfl, rfl⟩ | ⟨rfl, rfl⟩ | ⟨rfl, rfl⟩ <;> rfl

theorem named_hex {x : Char} (hx : x = 'x' ∨ x = 'X') (cs : List Char) :
    named ('#' :: x :: cs) = (Text.readNumeral 16 numberBound cs).bind charAt := by
  rcases hx with rfl | rfl <;> rfl

theorem named_decimal (h : ∀ x, cs.head? = some x → x ≠ 'x' ∧ x ≠ 'X') :
    named ('#' :: cs) = (Text.readNumeral 10 numberBound cs).bind charAt := by
  rw [named]
  · rintro digits rfl
    exact (h 'x' rfl).1 rfl
  · rintro digits rfl
    exact (h 'X' rfl).2 rfl

/-- **What is taken for a reference**: a plus sign may stand before the digits. -/
theorem named_eq_some_iff : named entity = some c ↔ Reference [[], ['+']] entity c := by
  constructor
  · intro h
    unfold named at h
    split at h
    case h_7 =>
      obtain ⟨sign, hsign, digits, rfl, hnumber⟩ := (readNumeral_charAt (by decide)).1 h
      exact .hex 'x' sign digits c (.inl rfl) hsign hnumber
    case h_8 =>
      obtain ⟨sign, hsign, digits, rfl, hnumber⟩ := (readNumeral_charAt (by decide)).1 h
      exact .hex 'X' sign digits c (.inr rfl) hsign hnumber
    case h_9 =>
      obtain ⟨sign, hsign, digits, rfl, hnumber⟩ := (readNumeral_charAt (by decide)).1 h
      exact .decimal sign digits c hsign hnumber
    case h_10 => cases h
    all_goals exact .name _ c (by cases h; decide)
  · intro h
    cases h with
    | name entity c known => exact named_name known
    | hex x sign digits c letter signed number =>
      rw [named_hex letter]
      exact (readNumeral_charAt (by decide)).2 ⟨sign, signed, digits, rfl, number⟩
    | decimal sign digits c signed number =>
      have hletters : ∀ x, (sign ++ digits).head? = some x → x ≠ 'x' ∧ x ≠ 'X' := by
        intro x hx
        have hmem := List.mem_append.1 (List.mem_of_mem_head? hx)
        have hsmall := number.not_mem (c := 'x') (by decide) (by decide)
        have hlarge := number.not_mem (c := 'X') (by decide) (by decide)
        have hsign : 'x' ∉ sign ∧ 'X' ∉ sign := by
          simp only [List.mem_cons, List.not_mem_nil, or_false] at signed
          rcases signed with rfl | rfl <;> decide
        constructor <;> rintro rfl <;> tauto
      rw [named_decimal hletters]
      exact (readNumeral_charAt (by decide)).2 ⟨sign, signed, digits, rfl, number⟩

/-! ## The loop by position -/

theorem number?_hex {x : Char} (hx : x = 'x' ∨ x = 'X') (cs : List Char) :
    number? ('#' :: x :: cs) = Text.readNumeral 16 numberBound cs := by
  have hdecimal : numberBehind ['#'] 10 ('#' :: x :: cs) = none := by
    refine (numberBehind_append ['#'] (x :: cs) 10).trans ?_
    rcases hx with rfl | rfl <;>
      simp [Text.readNumeral, Text.readUnsigned, Text.readDigits, Text.digit?]
  rcases hx with rfl | rfl
  · have hsmall := numberBehind_append ['#', 'x'] cs 16
    have hlarge : numberBehind ['#', 'X'] 16 ('#' :: 'x' :: cs) = none := numberBehind_eq_none (by simp)
    simp_all [number?]
  · have hsmall : numberBehind ['#', 'x'] 16 ('#' :: 'X' :: cs) = none := numberBehind_eq_none (by simp)
    have hlarge := numberBehind_append ['#', 'X'] cs 16
    simp_all [number?]

theorem number?_decimal (h : ∀ x, cs.head? = some x → x ≠ 'x' ∧ x ≠ 'X') :
    number? ('#' :: cs) = Text.readNumeral 10 numberBound cs := by
  have hsmall : numberBehind ['#', 'x'] 16 ('#' :: cs) = none := by
    refine numberBehind_eq_none ?_
    rintro ⟨rest, hrest⟩
    cases hrest
    exact (h 'x' rfl).1 rfl
  have hlarge : numberBehind ['#', 'X'] 16 ('#' :: cs) = none := by
    refine numberBehind_eq_none ?_
    rintro ⟨rest, hrest⟩
    cases hrest
    exact (h 'X' rfl).2 rfl
  have hdecimal := numberBehind_append ['#'] cs 10
  simp_all [number?]

theorem number?_eq_none (h : ¬ ['#'] <+: entity) : number? entity = none := by
  have hnone : ∀ x, ¬ ['#', x] <+: entity := fun x hx => h (List.IsPrefix.trans (by simp) hx)
  simp [number?, numberBehind_eq_none h, numberBehind_eq_none (hnone _)]

/-- The two ways to tell the character of a reference agree. -/
theorem spelled_eq_named (entity : List Char) : spelled entity = named entity := by
  unfold spelled
  cases hname : names.lookup entity with
  | some c => exact (named_name (mem_of_lookup_names hname)).symm
  | none =>
    by_cases hnumber : ['#'] <+: entity
    · obtain ⟨cs, rfl⟩ := hnumber
      by_cases hbase : ∀ x, cs.head? = some x → x ≠ 'x' ∧ x ≠ 'X'
      · exact (congrArg (·.bind charAt) (number?_decimal hbase)).trans (named_decimal hbase).symm
      · cases cs with
        | nil => exact absurd (by simp) hbase
        | cons x cs =>
          have hx : x = 'x' ∨ x = 'X' := by
            simp only [List.head?_cons, Option.some_inj, forall_eq'] at hbase
            tauto
          exact (congrArg (·.bind charAt) (number?_hex hx cs)).trans (named_hex hx cs).symm
    · refine (congrArg (·.bind charAt) (number?_eq_none hnumber)).trans ?_
      refine (Option.eq_none_iff_forall_ne_some.2 fun c hc => ?_).symm
      cases named_eq_some_iff.1 hc with
      | name entity c known => cases hname.symm.trans (lookup_names_of_mem known)
      | decimal sign digits => exact hnumber (by simp)
      | hex x sign digits => exact hnumber (by simp)

theorem dropWhile_semicolon (h : ';' ∉ entity) (cs : List Char) :
    (entity ++ cs).dropWhile (· ≠ ';') = cs.dropWhile (· ≠ ';') :=
  List.dropWhile_append_of_pos fun _ hc => decide_eq_true fun heq => h (heq ▸ hc)

theorem takeWhile_semicolon (h : ';' ∉ entity) :
    (entity ++ ';' :: rest).takeWhile (· ≠ ';') = entity := by
  have hall : ∀ c ∈ entity, decide (c ≠ ';') = true := fun _ hc =>
    decide_eq_true fun heq => h (heq ▸ hc)
  rw [List.takeWhile_append_of_pos hall]
  simp

theorem reference_of_not_mem (h : ';' ∉ cs) : reference cs = none := by
  have hdrop := dropWhile_semicolon h []
  rw [List.append_nil] at hdrop
  rw [reference, hdrop]
  rfl

theorem reference_append (h : ';' ∉ entity) :
    reference (entity ++ ';' :: rest) = (named entity).map fun c => (c, rest) := by
  rw [reference, dropWhile_semicolon h, takeWhile_semicolon h]
  rfl

theorem decode_ampersand (h : reference cs = none) : decode ('&' :: cs) = '&' :: decode cs := by
  rw [decode, if_pos rfl]
  split
  · next h' =>
    rw [h] at h'
    cases h'
  · rfl

theorem decode_append (h : '&' ∉ front) : decode (front ++ rest) = front ++ decode rest := by
  induction front with
  | nil => rfl
  | cons c cs ih =>
    obtain ⟨hc, hcs⟩ := not_or.1 (mt List.mem_cons.2 h)
    rw [List.cons_append, decode_cons (Ne.symm hc), ih hcs]
    rfl

theorem reference_eq_some_iff : reference cs = some (c, rest) ↔
    ∃ entity, cs = entity ++ ';' :: rest ∧ ';' ∉ entity ∧ named entity = some c := by
  constructor
  · intro h
    by_cases hmem : ';' ∈ cs
    · obtain ⟨entity, rest, rfl, hentity⟩ := List.eq_append_cons_of_mem hmem
      rw [reference_append hentity] at h
      obtain ⟨c, hc, rfl, rfl⟩ := Option.map_eq_some_iff.1 h
      exact ⟨entity, rfl, hentity, hc⟩
    · rw [reference_of_not_mem hmem] at h
      cases h
  · rintro ⟨entity, rfl, hentity, hc⟩
    rw [reference_append hentity, hc]
    rfl

/-- At an ampersand the search by position finds the reference that the one over characters finds. -/
theorem referenceAt?_ofList (cs : List Char) :
    (reference cs = none ∧ referenceAt? (String.ofList ('&' :: cs)) = .ok none) ∨
      ∃ c entity rest, cs = entity ++ ';' :: rest ∧ reference cs = some (c, rest) ∧
        referenceAt? (String.ofList ('&' :: cs)) = .ok (some (c, String.utf8Len ('&' :: entity))) := by
  unfold referenceAt?
  rw [String.toList_ofList]
  by_cases hmem : ';' ∈ cs
  · obtain ⟨entity, rest, rfl, hentity⟩ := List.eq_append_cons_of_mem hmem
    have hsemicolon : ';' ∉ '&' :: entity := by simp [hentity]
    have htext : (String.ofList ('&' :: (entity ++ ';' :: rest))).toList = ['&'] ++ entity ++ ';' :: rest :=
      String.toList_ofList
    have hbetween : Text.between (String.ofList ('&' :: (entity ++ ';' :: rest))) 1
        (String.utf8Len ('&' :: entity)) = .ok (String.ofList entity) := Text.between_of_toList htext
    rw [← List.cons_append, Text.find?_append hsemicolon, reference_append hentity]
    simp only [List.cons_append, hbetween, bind, Except.bind, String.toList_ofList, spelled_eq_named]
    cases hc : named entity with
    | none => exact .inl ⟨rfl, rfl⟩
    | some c => exact .inr ⟨c, entity, rest, rfl, rfl, rfl⟩
  · rw [Text.find?_eq_none_iff.2 (by simp [hmem])]
    exact .inl ⟨reference_of_not_mem hmem, rfl⟩

/-- Where an ampersand is found a text can be cut. -/
theorem cut_of_find? {position : Nat} (h : Text.find? '&' text.toList = some position) :
    ∃ front cs, text.toList = front ++ '&' :: cs ∧ '&' ∉ front ∧
      Text.before text position = .ok (String.ofList front) ∧
      Text.behind text position = .ok (String.ofList ('&' :: cs)) := by
  obtain ⟨front, cs, htext, hfront, rfl⟩ := Text.find?_eq_some h
  exact ⟨front, cs, htext, hfront, Text.before_of_toList htext, Text.behind_of_toList htext⟩

/-- Behind a reference a text can be cut. -/
theorem behind_reference (entity rest : List Char) :
    Text.behind (String.ofList ('&' :: (entity ++ ';' :: rest))) (String.utf8Len ('&' :: entity) + 1) =
      .ok (String.ofList rest) := by
  have hsize : String.utf8Len ('&' :: entity ++ [';']) = String.utf8Len ('&' :: entity) + 1 := by
    rw [String.utf8Len_append]
    rfl
  rw [← hsize]
  exact Text.behind_of_toList (by simp)

theorem behind_ampersand (cs : List Char) :
    Text.behind (String.ofList ('&' :: cs)) 1 = .ok (String.ofList cs) := by
  have htext : (String.ofList ('&' :: cs)).toList = ['&'] ++ cs := String.toList_ofList
  exact Text.behind_of_toList htext

/-- **The loop by position does not fail**, and decodes what the recursion over characters decodes. -/
theorem decodeBytes_eq (text : String) : decodeBytes text = .ok (decodeText text) := by
  fun_induction decodeBytes text with
  | case1 text hfind =>
    have hfront : decode (text.toList ++ []) = text.toList ++ decode [] :=
      decode_append (Text.find?_eq_none_iff.1 hfind)
    rw [List.append_nil, decode_nil, List.append_nil] at hfront
    rw [decodeText, hfront, String.ofList_toList]
  | case2 text position hfind err hbefore =>
    obtain ⟨front, cs, -, -, hfront, -⟩ := cut_of_find? hfind
    cases hfront.symm.trans hbefore
  | case3 text position hfind _ _ err hbehind =>
    obtain ⟨front, cs, -, -, -, htail⟩ := cut_of_find? hfind
    cases htail.symm.trans hbehind
  | case4 text position hfind _ _ tail hbehind _ err hreference =>
    obtain ⟨front, cs, -, -, -, htail⟩ := cut_of_find? hfind
    cases htail.symm.trans hbehind
    rcases referenceAt?_ofList cs with ⟨-, h⟩ | ⟨c, entity, rest, -, -, h⟩ <;>
      cases h.symm.trans hreference
  | case5 text position hfind _ _ tail hbehind _ c semicolon hreference err herr =>
    obtain ⟨front, cs, -, -, -, htail⟩ := cut_of_find? hfind
    cases htail.symm.trans hbehind
    rcases referenceAt?_ofList cs with ⟨-, h⟩ | ⟨c, entity, rest, rfl, -, h⟩
    · cases h.symm.trans hreference
    · cases h.symm.trans hreference
      cases (behind_reference entity rest).symm.trans herr
  | case6 text position hfind _ hbefore tail hbehind _ c semicolon hreference rest hrest _ ih =>
    obtain ⟨front, cs, htext, hfront, hcut, htail⟩ := cut_of_find? hfind
    cases hcut.symm.trans hbefore
    cases htail.symm.trans hbehind
    rcases referenceAt?_ofList cs with ⟨-, h⟩ | ⟨c, entity, rest, rfl, href, h⟩
    · cases h.symm.trans hreference
    · cases h.symm.trans hreference
      cases (behind_reference entity rest).symm.trans hrest
      have hdecode : decode text.toList = front ++ ([c] ++ decode rest) := by
        rw [htext, decode_append hfront, decode_reference href]
        rfl
      rw [ih, decodeText, decodeText, hdecode, String.toList_ofList, String.ofList_append,
        String.ofList_append, ← String.append_assoc]
      rfl
  | case7 text position hfind _ _ tail hbehind _ hreference err herr =>
    obtain ⟨front, cs, -, -, -, htail⟩ := cut_of_find? hfind
    cases htail.symm.trans hbehind
    cases (behind_ampersand cs).symm.trans herr
  | case8 text position hfind _ hbefore tail hbehind _ hreference rest hrest _ ih =>
    obtain ⟨front, cs, htext, hfront, hcut, htail⟩ := cut_of_find? hfind
    cases hcut.symm.trans hbefore
    cases htail.symm.trans hbehind
    cases (behind_ampersand cs).symm.trans hrest
    rcases referenceAt?_ofList cs with ⟨href, -⟩ | ⟨c, entity, rest, -, -, h⟩
    · have hdecode : decode text.toList = front ++ (['&'] ++ decode cs) := by
        rw [htext, decode_append hfront, decode_ampersand href]
        rfl
      rw [ih, decodeText, decodeText, hdecode, String.toList_ofList, String.ofList_append,
        String.ofList_append, ← String.append_assoc]
      rfl
    · cases h.symm.trans hreference

/-! ## Decoding by the grammar -/

/-- A text with its references replaced, from left to right. What a reference gives is not read again, and
a character that starts no reference stays. -/
inductive Decodes (R : List Char → Char → Prop) : List Char → List Char → Prop where
  | nil : Decodes R [] []
  | reference (entity rest out : List Char) (c : Char) (here : R entity c) (behind : Decodes R rest out) :
      Decodes R ('&' :: (entity ++ ';' :: rest)) (c :: out)
  | kept (c : Char) (rest out : List Char)
      (nowhere : ∀ entity behind d, c :: rest = '&' :: (entity ++ ';' :: behind) → ¬ R entity d)
      (behind : Decodes R rest out) : Decodes R (c :: rest) (c :: out)

/-- What a reference is spelled with: a name, or a number sign, a letter, a sign and digits. -/
theorem Reference.not_mem {signs : List (List Char)} (h : Reference signs entity c)
    (hnames : ∀ e ∈ names, d ∉ e.1) (hletters : d ∉ ['#', 'x', 'X']) (hsigns : ∀ sign ∈ signs, d ∉ sign)
    (hdigit : Text.digit? 16 d = none) : d ∉ entity := by
  have hdecimal : Text.digit? 10 d = none := by
    rw [Option.eq_none_iff_forall_ne_some]
    intro value hvalue
    rw [((Text.digit?_of_le (by decide)).1 hvalue).2] at hdigit
    cases hdigit
  cases h with
  | name entity c known => exact hnames _ known
  | decimal sign digits c signed number =>
    have hdigits := number.not_mem (by decide) hdecimal
    have hsign := hsigns sign signed
    simp_all
  | hex x sign digits c letter signed number =>
    have hdigits := number.not_mem (by decide) hdigit
    have hsign := hsigns sign signed
    rcases letter with rfl | rfl <;> simp_all

/-- No reference has a semicolon inside. -/
theorem Reference.semicolon_not_mem (h : Reference [[], ['+']] entity c) : ';' ∉ entity :=
  h.not_mem (by decide) (by decide) (by decide) (by decide)

/-- A text is cut in one way at its first semicolon. -/
theorem append_semicolon_inj {entity' rest' : List Char} (h : ';' ∉ entity) (h' : ';' ∉ entity')
    (heq : entity ++ ';' :: rest = entity' ++ ';' :: rest') : entity = entity' ∧ rest = rest' := by
  have hentity := congrArg (List.takeWhile (· ≠ ';')) heq
  rw [takeWhile_semicolon h, takeWhile_semicolon h'] at hentity
  subst hentity
  exact ⟨rfl, (List.cons.inj (List.append_cancel_left heq)).2⟩

/-- **What is decoded follows the grammar with plus signs.** -/
theorem decodes_decode (s : List Char) : Decodes (Reference [[], ['+']]) s (decode s) := by
  fun_induction decode s with
  | case1 => exact .nil
  | case2 cs d rest href _ ih =>
    obtain ⟨entity, rfl, -, hd⟩ := reference_eq_some_iff.1 href
    exact .reference entity rest _ d (named_eq_some_iff.1 hd) ih
  | case3 cs href ih =>
    refine .kept '&' cs _ (fun entity behind d hcs hd => ?_) ih
    obtain rfl := (List.cons.inj hcs).2
    rw [reference_append hd.semicolon_not_mem, named_eq_some_iff.2 hd] at href
    cases href
  | case4 c cs hc ih => exact .kept c cs _ (fun entity behind d hcs => absurd (List.cons.inj hcs).1 hc) ih

/-- There is one way to decode a text. -/
theorem Decodes.unique (ht : Decodes (Reference [[], ['+']]) s t)
    (ht' : Decodes (Reference [[], ['+']]) s t') : t = t' := by
  induction ht generalizing t' with
  | nil => cases ht'; rfl
  | reference entity rest out c here behind ih =>
    generalize hs : '&' :: (entity ++ ';' :: rest) = s at ht'
    cases ht' with
    | nil => cases hs
    | reference entity' rest' out' c' here' behind' =>
      obtain ⟨rfl, rfl⟩ := append_semicolon_inj here.semicolon_not_mem here'.semicolon_not_mem
        (List.cons.inj hs).2
      have hc := (named_eq_some_iff.2 here).symm.trans (named_eq_some_iff.2 here')
      rw [Option.some.inj hc, ih behind']
    | kept c' rest' out' nowhere behind' => exact absurd here (nowhere entity rest c hs.symm)
  | kept c rest out nowhere behind ih =>
    generalize hs : c :: rest = s at ht'
    cases ht' with
    | nil => cases hs
    | reference entity' rest' out' c' here' behind' => exact absurd here' (nowhere entity' rest' c' hs)
    | kept c' rest' out' nowhere' behind' =>
      obtain ⟨rfl, rfl⟩ := List.cons.inj hs
      rw [ih behind']

/-- Decoding depends only on which references occur in a text. -/
theorem Decodes.congr {R R' : List Char → Char → Prop} (ht : Decodes R s t)
    (hRR : ∀ front entity behind c, s = front ++ '&' :: (entity ++ ';' :: behind) →
      (R entity c ↔ R' entity c)) : Decodes R' s t := by
  induction ht with
  | nil => exact .nil
  | reference entity rest out c here behind ih =>
    refine .reference entity rest out c ((hRR [] entity rest c rfl).1 here) (ih ?_)
    intro front e behind d hs
    exact hRR ('&' :: (entity ++ ';' :: front)) e behind d (by simp [hs])
  | kept c rest out nowhere behind ih =>
    refine .kept c rest out (fun e behind d hs hd => ?_) (ih fun front e behind d hs => ?_)
    · exact nowhere e behind d hs ((hRR [] e behind d hs).2 hd)
    · exact hRR (c :: front) e behind d (by simp [hs])

/-! ## Which texts are decoded -/

/-- A reference without a plus sign is one that is taken for a reference. -/
theorem Reference.signed (h : Reference [[]] entity c) : Reference [[], ['+']] entity c := by
  cases h with
  | name entity c known => exact .name entity c known
  | decimal sign digits c signed number =>
    exact .decimal sign digits c (List.mem_cons.2 (.inl (List.mem_singleton.1 signed))) number
  | hex x sign digits c letter signed number =>
    exact .hex x sign digits c letter (List.mem_cons.2 (.inl (List.mem_singleton.1 signed))) number

theorem Reference.unsigned (h : Reference [[], ['+']] entity c) (hplus : '+' ∉ entity) :
    Reference [[]] entity c := by
  have hsign : ∀ {sign : List Char}, sign ∈ [[], ['+']] → '+' ∉ sign → sign ∈ ([[]] : List (List Char)) := by
    intro sign hmem hplus
    simp only [List.mem_cons, List.not_mem_nil, or_false] at hmem
    rcases hmem with rfl | rfl
    · exact List.mem_singleton.2 rfl
    · simp at hplus
  cases h with
  | name entity c known => exact .name entity c known
  | decimal sign digits c signed number =>
    exact .decimal sign digits c (hsign signed (by simp_all)) number
  | hex x sign digits c letter signed number =>
    exact .hex x sign digits c letter (hsign signed (by simp_all)) number

/-- **What is decoded.** The loop by position ends, cuts every text only where a character ends, and gives
the text in which the references are replaced from left to right, where a plus sign may stand before the
digits of one. A text none of whose references needs that sign is decoded by the grammar without it. -/
theorem decodes_iff (text : String) :
    (∃ out, decodeBytes text = .ok out ∧ out = decodeText text ∧
      ∀ t, Decodes (Reference [[], ['+']]) text.toList t ↔ t = out.toList) ∧
    ((∀ front entity behind c, text.toList = front ++ '&' :: (entity ++ ';' :: behind) →
        Reference [[], ['+']] entity c → Reference [[]] entity c) →
      ∀ t, Decodes (Reference [[]]) text.toList t ↔ t = (decodeText text).toList) := by
  have hsigned : ∀ t, Decodes (Reference [[], ['+']]) text.toList t ↔ t = (decodeText text).toList := by
    intro t
    rw [decodeText, String.toList_ofList]
    refine ⟨fun ht => ht.unique (decodes_decode _), ?_⟩
    rintro rfl
    exact decodes_decode _
  refine ⟨⟨decodeText text, decodeBytes_eq text, rfl, hsigned⟩, fun hunsigned t => ?_⟩
  rw [← hsigned t]
  constructor
  · intro ht
    exact ht.congr fun front entity behind c htext =>
      ⟨Reference.signed, hunsigned front entity behind c htext⟩
  · intro ht
    exact ht.congr fun front entity behind c htext =>
      ⟨hunsigned front entity behind c htext, Reference.signed⟩

/-- Named and numeric references, one that a reference gives, and texts that are none. -/
theorem decodes_unsigned :
    Decodes (Reference [[]]) "é &#xe9;&amp;lt; &bogus; &#65".toList "é é&lt; &bogus; &#65".toList := by
  have hdecodes := (decodes_iff "é &#xe9;&amp;lt; &bogus; &#65").2 ?_ "é é&lt; &bogus; &#65".toList
  · have hout : decodeText "é &#xe9;&amp;lt; &bogus; &#65" = "é é&lt; &bogus; &#65" := by cbv
    exact hdecodes.2 (by rw [hout])
  · intro front entity behind c htext h
    have hplus : '+' ∉ "é &#xe9;&amp;lt; &bogus; &#65".toList := by decide
    rw [htext] at hplus
    exact h.unsigned (by simp_all)

/-- A text without ampersands is decoded to itself. -/
theorem Decodes.refl {R : List Char → Char → Prop} (hs : '&' ∉ s) : Decodes R s s := by
  induction s with
  | nil => exact .nil
  | cons c s ih =>
    obtain ⟨hc, hs⟩ := not_or.1 (mt List.mem_cons.2 hs)
    exact .kept c s s (fun entity behind d heq => absurd (List.cons.inj heq).1.symm hc) (ih hs)

/-- A numeral with a plus sign is decoded, and the text is none of the references. -/
theorem signed_decoded :
    Decodes (Reference [[]]) "&#+65;".toList "&#+65;".toList ∧ decodeText "&#+65;" = "A" := by
  refine ⟨.kept '&' _ _ (fun entity behind d heq h => ?_) (.refl (by decide)), by cbv⟩
  have hcut : "#+65".toList ++ [';'] = entity ++ ';' :: behind := (List.cons.inj heq).2
  obtain ⟨rfl, rfl⟩ := append_semicolon_inj (by decide) h.signed.semicolon_not_mem hcut
  have hplus := h.not_mem (d := '+') (by decide) (by decide) (by decide) (by decide)
  exact hplus (by decide)

end Entity

end LiveMarkup
