/-!
# Blank characters

The characters with the Unicode property White_Space, and the three things done with them.

* `isBlank`: the property itself.
* `trimBlank`: a text without the blanks at its two ends.
* `words`: the maximal runs of other characters.
-/

namespace LiveMarkup.Text

/-- The 25 characters with the Unicode property White_Space. -/
def isBlank (c : Char) : Bool :=
  let n := c.toNat
  (0x09 ≤ n && n ≤ 0x0d) || n == 0x20 || n == 0x85 || n == 0xa0 || n == 0x1680 ||
    (0x2000 ≤ n && n ≤ 0x200a) || n == 0x2028 || n == 0x2029 || n == 0x202f || n == 0x205f ||
    n == 0x3000

/-- A list of characters without the blanks at its end. -/
def trimEnd (cs : List Char) : List Char :=
  (cs.reverse.dropWhile isBlank).reverse

/-- A list of characters without the blanks at its two ends. -/
def trimBlank (cs : List Char) : List Char :=
  trimEnd (cs.dropWhile isBlank)

/-- `String` form of `trimBlank`. -/
def trim (s : String) : String :=
  String.ofList (trimBlank s.toList)

/-- Whether a text holds nothing but blanks; the empty text does. -/
def allBlank (s : String) : Bool :=
  s.toList.all isBlank

/-- The words of a text whose first characters, read so far in reverse, are `word`. -/
def wordsFrom (word : List Char) : List Char → List (List Char)
  | [] => if word.isEmpty then [] else [word.reverse]
  | c :: cs =>
    if isBlank c then
      if word.isEmpty then wordsFrom [] cs else word.reverse :: wordsFrom [] cs
    else wordsFrom (c :: word) cs

/-- The maximal runs of characters that are not blank, in order. -/
def words (cs : List Char) : List (List Char) :=
  wordsFrom [] cs

/-! ## First facts -/

/-- Every character that the core library counts as whitespace is blank. -/
theorem isBlank_of_isWhitespace {c : Char} (h : c.isWhitespace = true) : isBlank c = true := by
  simp only [Char.isWhitespace, Bool.or_eq_true, decide_eq_true_eq] at h
  rcases h with ((rfl | rfl) | rfl) | rfl <;> decide

end LiveMarkup.Text
