/-!
# Unsigned numerals in a base

* `digit?`: the value of an ASCII digit or letter as a digit of a base.
* `readNumeral`: an optional plus sign and one or more digits whose value stays below a bound.
-/

namespace LiveMarkup.Text

/-- The value of a digit of `base` (at most sixteen), in either case of letter. -/
def digit? (base : Nat) (c : Char) : Option Nat :=
  let value :=
    if '0' ≤ c ∧ c ≤ '9' then some (c.toNat - '0'.toNat)
    else if 'a' ≤ c ∧ c ≤ 'f' then some (c.toNat - 'a'.toNat + 10)
    else if 'A' ≤ c ∧ c ≤ 'F' then some (c.toNat - 'A'.toNat + 10)
    else none
  value.filter (· < base)

/-- The value of the digits `cs` written after a number of value `start`. -/
def readDigits (base : Nat) (start : Nat) : List Char → Option Nat
  | [] => some start
  | c :: cs =>
    match digit? base c with
    | some d => readDigits base (start * base + d) cs
    | none => none

/-- The value of a numeral without its sign: one or more digits, the value below `bound`. -/
def readUnsigned (base bound : Nat) (cs : List Char) : Option Nat :=
  if cs.isEmpty then none else (readDigits base 0 cs).filter (· < bound)

/-- The value of a numeral: one plus sign may stand before one or more digits, and the value is
below `bound`. -/
def readNumeral (base bound : Nat) : List Char → Option Nat
  | '+' :: cs => readUnsigned base bound cs
  | cs => readUnsigned base bound cs

theorem readUnsigned_lt {base bound n : Nat} {cs : List Char}
    (h : readUnsigned base bound cs = some n) : n < bound := by
  unfold readUnsigned at h
  split at h
  · simp at h
  · exact of_decide_eq_true (Option.filter_eq_some_iff.1 h).2

theorem readNumeral_lt {base bound n : Nat} {cs : List Char}
    (h : readNumeral base bound cs = some n) : n < bound := by
  unfold readNumeral at h
  split at h <;> exact readUnsigned_lt h

end LiveMarkup.Text
