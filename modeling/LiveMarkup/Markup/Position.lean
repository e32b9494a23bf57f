import LiveMarkup.Markup.Entity
import LiveMarkup.Template.Position

/-!
# Character references by position

Decoding of a text that is kept as bytes. The text is cut before every ampersand and behind every reference;
behind an ampersand that starts no reference it is cut one byte further on.

* `Text.find?`: the position of a character.
* `Entity.spelled`: the character of a reference, by its name or its number.
* `Entity.decodeBytes`: decoding by position.
-/

namespace LiveMarkup

/-- The position of the first occurrence of a character. -/
def Text.find? (c : Char) : List Char → Option Nat
  | [] => none
  | d :: ds => if d = c then some 0 else (find? c ds).map (d.utf8Size + ·)

namespace Entity

/-- The references that have names. -/
def names : List (List Char × Char) :=
  [("lt".toList, '<'), ("gt".toList, '>'), ("amp".toList, '&'), ("quot".toList, '\x22'),
    ("apos".toList, '\x27'), ("nbsp".toList, '\xa0')]

/-- The digits behind a prefix, read as a number. -/
def numberBehind (start : List Char) (base : Nat) (entity : List Char) : Option Nat :=
  if start.isPrefixOf entity then Text.readNumeral base numberBound (entity.drop start.length) else none

/-- The number of a reference, in base sixteen or else in base ten. -/
def number? (entity : List Char) : Option Nat :=
  numberBehind ['#', 'x'] 16 entity <|> numberBehind ['#', 'X'] 16 entity <|> numberBehind ['#'] 10 entity

/-- The character that the text between an ampersand and a semicolon spells. -/
def spelled (entity : List Char) : Option Char :=
  match names.lookup entity with
  | some c => some c
  | none => (number? entity).bind charAt

/-- The character of the reference that starts a text, and the position of its semicolon. -/
def referenceAt? (text : String) : Except Text.Misplaced (Option (Char × Nat)) :=
  match Text.find? ';' text.toList with
  | none => return none
  | some semicolon => do
    let entity ← Text.between text 1 semicolon
    return (spelled entity.toList).map fun c => (c, semicolon)

/-- A text with its references replaced, from left to right. -/
def decodeBytes (text : String) : Except Text.Misplaced String :=
  match Text.find? '&' text.toList with
  | none => .ok text
  | some ampersand =>
    match Text.before text ampersand with
    | .error err => .error err
    | .ok front =>
      match htext : Text.behind text ampersand with
      | .error err => .error err
      | .ok tail =>
        have := Text.size_of_behind htext
        match referenceAt? tail with
        | .error err => .error err
        | .ok (some (c, semicolon)) =>
          match h : Text.behind tail (semicolon + 1) with
          | .error err => .error err
          | .ok rest =>
            have := Text.size_of_behind h
            (decodeBytes rest).map fun out => front ++ String.singleton c ++ out
        | .ok none =>
          match h : Text.behind tail 1 with
          | .error err => .error err
          | .ok rest =>
            have := Text.size_of_behind h
            (decodeBytes rest).map fun out => front ++ "&" ++ out
termination_by text.utf8ByteSize

end Entity

end LiveMarkup
