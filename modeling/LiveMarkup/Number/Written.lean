import LiveMarkup.Number.Decimal

/-!
# Written forms of numbers

Two forms, both with the shortest digits that read back. They differ in where positional writing
ends and in how whole numbers, exponents and special values are spelled.

* `Number.plain`: the form that a placeholder shows.
* `Number.precise`: the form that tells any two numbers apart, used in messages.
-/

namespace LiveMarkup

/-- The decisions of a written form. -/
structure NumberForm where
  /-- The least and the greatest power of the leading digit that is written positionally. -/
  least : Int
  greatest : Int
  /-- What stands after a whole number written positionally. -/
  whole : String
  /-- What stands before an exponent that is not negative. -/
  sign : String
  infinity : String
  /-- Whether the sign of zero is shown. -/
  signedZero : Bool

namespace NumberForm

/-- Positional up to `10 ^ 21`, with a signed exponent beyond. -/
def plain : NumberForm := ⟨-6, 20, "", "+", "Infinity", false⟩

/-- Positional up to `10 ^ 16`, whole numbers marked by a decimal place. -/
def precise : NumberForm := ⟨-4, 15, ".0", "", "inf", true⟩

/-- The decimal digits of a natural number, most significant first. -/
def digitsOf (n : Nat) : List Char := Nat.toDigits 10 n

/-- A decimal with the point where it falls. -/
def positional (f : NumberForm) (d : Decimal) : String :=
  let ds := digitsOf d.digits
  let point := (ds.length : Int) + d.power
  if point ≤ 0 then
    "0." ++ String.ofList (List.replicate (-point).toNat '0' ++ ds)
  else if ds.length ≤ point.toNat then
    String.ofList (ds ++ List.replicate (point.toNat - ds.length) '0') ++ f.whole
  else
    String.ofList (ds.take point.toNat ++ '.' :: ds.drop point.toNat)

/-- A decimal with one digit before the point and an exponent. -/
def scientific (f : NumberForm) (d : Decimal) : String :=
  let ds := digitsOf d.digits
  let lead := (ds.length : Int) + d.power - 1
  let mantissa := match ds with
    | [] => []
    | [c] => [c]
    | c :: cs => c :: '.' :: cs
  let sign := if lead < 0 then "-" else f.sign
  String.ofList mantissa ++ "e" ++ sign ++ String.ofList (digitsOf lead.natAbs)

/-- The text of a positive decimal. -/
def decimal (f : NumberForm) (d : Decimal) : String :=
  let lead := ((digitsOf d.digits).length : Int) + d.power - 1
  if f.least ≤ lead ∧ lead ≤ f.greatest then f.positional d else f.scientific d

/-- The text of a number. -/
def write (f : NumberForm) (n : Number) : String :=
  if n.isNaN then "NaN"
  else if n.isZero then (if n.negative && f.signedZero then "-" else "") ++ "0" ++ f.whole
  else
    let magnitude := if n.isInfinite then f.infinity else f.decimal n.shortest
    if n.negative then "-" ++ magnitude else magnitude

end NumberForm

namespace Number

def plain (n : Number) : String := NumberForm.plain.write n

def precise (n : Number) : String := NumberForm.precise.write n

end Number

end LiveMarkup
