import LiveMarkup.Text.Numeral

/-!
# Character references

* `Entity.decode`: every reference of a text replaced by its character. An ampersand that starts no
  reference stays, and a character that a reference gave is not read again.
* `Entity.escape`: a text with the characters that markup needs for itself written as references.
-/

namespace LiveMarkup.Entity

/-! ## Decoding -/

/-- The character with a number, if there is one. -/
def charAt (n : Nat) : Option Char :=
  if n.isValidChar then some (Char.ofNat n) else none

/-- The numbers that a reference may spell stay below this bound; larger ones name no character. -/
def numberBound : Nat := 0x100000000

/-- The character that the text between an ampersand and a semicolon names. -/
def named : List Char → Option Char
  | ['l', 't'] => some '<'
  | ['g', 't'] => some '>'
  | ['a', 'm', 'p'] => some '&'
  | ['q', 'u', 'o', 't'] => some '\x22'
  | ['a', 'p', 'o', 's'] => some '\x27'
  | ['n', 'b', 's', 'p'] => some '\xa0'
  | '#' :: 'x' :: digits => (Text.readNumeral 16 numberBound digits).bind charAt
  | '#' :: 'X' :: digits => (Text.readNumeral 16 numberBound digits).bind charAt
  | '#' :: digits => (Text.readNumeral 10 numberBound digits).bind charAt
  | _ => none

/-- The character of the reference whose ampersand stands just before a text, and what follows its
semicolon, the first one in the text. -/
def reference (tail : List Char) : Option (Char × List Char) :=
  match tail.dropWhile (· ≠ ';') with
  | [] => none
  | _ :: rest => (named (tail.takeWhile (· ≠ ';'))).map fun c => (c, rest)

theorem length_of_reference {tail rest : List Char} {c : Char}
    (h : reference tail = some (c, rest)) : rest.length < tail.length := by
  unfold reference at h
  split at h
  · simp at h
  · next d r hd =>
    obtain ⟨_, _, h⟩ := Option.map_eq_some_iff.1 h
    cases h
    have := (List.dropWhile_sublist (l := tail) (· ≠ ';')).length_le
    rw [hd] at this
    exact this

/-- A text with its references replaced, from left to right. -/
def decode : List Char → List Char
  | [] => []
  | c :: cs =>
    if c = '&' then
      match h : reference cs with
      | some (d, rest) =>
        have : rest.length < cs.length + 1 := Nat.lt_succ_of_lt (length_of_reference h)
        d :: decode rest
      | none => '&' :: decode cs
    else c :: decode cs
termination_by cs => cs.length

/-- `String` form of `decode`. -/
def decodeText (s : String) : String := String.ofList (decode s.toList)

/-! ## Escaping -/

/-- Where a text stands in markup: between tags, or between the quotes of an attribute value. -/
inductive Setting where
  | content
  | quoted
  deriving DecidableEq, Repr

/-- The spelling of a character at a place. -/
def escapeChar (p : Setting) (c : Char) : List Char :=
  if c = '&' then ['&', 'a', 'm', 'p', ';']
  else if c = '<' then ['&', 'l', 't', ';']
  else if c = '>' then ['&', 'g', 't', ';']
  else if c = '\x22' ∧ p = .quoted then ['&', 'q', 'u', 'o', 't', ';']
  else [c]

/-- A text as markup spells it at a place. -/
def escape (p : Setting) (cs : List Char) : List Char := cs.flatMap (escapeChar p)

end LiveMarkup.Entity
