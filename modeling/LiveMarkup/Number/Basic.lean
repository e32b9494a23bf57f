/-!
# Binary64 numbers

A number is a datum of the binary64 interchange format: a sign, an exponent field and a fraction
field. All arithmetic is exact arithmetic of natural numbers and integers, followed by one rounding.

* `Number.units`: the magnitude of a finite number, counted in units of the smallest positive one.
* `Number.round`: the number nearest to a quotient of units, a tie going to the even neighbour.
* `Number.same`: equality of numbers, under which NaN differs from itself and the two zeros agree.
* **`Number.same_comm`**: this equality is symmetric.
-/

namespace LiveMarkup

/-- A binary64 datum. -/
structure Number where
  negative : Bool
  exponent : Fin 2048
  /-- The 52 bits below the hidden one. -/
  fraction : Fin 0x10000000000000
  deriving DecidableEq, Repr

namespace Number

/-! ## Fields and bits -/

/-- The number whose 64 bits spell `bits`; higher bits are dropped. -/
def ofBits (bits : Nat) : Number where
  negative := (bits >>> 63) % 2 == 1
  exponent := Fin.ofNat 2048 (bits >>> 52)
  fraction := Fin.ofNat _ bits

/-- The position of a number among those of its sign, in the order of magnitudes. -/
def ordinal (n : Number) : Nat := (n.exponent.val <<< 52) + n.fraction.val

/-- The 64 bits of a number. -/
def toBits (n : Number) : Nat := (n.negative.toNat <<< 63) + n.ordinal

def isNaN (n : Number) : Bool := n.exponent == 2047 && n.fraction != 0

def isInfinite (n : Number) : Bool := n.exponent == 2047 && n.fraction == 0

def isZero (n : Number) : Bool := n.exponent == 0 && n.fraction == 0

def nan : Number := ⟨false, 2047, 0x8000000000000⟩

def infinity (negative : Bool) : Number := ⟨negative, 2047, 0⟩

def zero (negative : Bool) : Number := ⟨negative, 0, 0⟩

/-- The significand of a finite number, the hidden bit included. -/
def significand (n : Number) : Nat :=
  if n.exponent = 0 then n.fraction.val else (1 <<< 52) + n.fraction.val

/-- The binary exponent of a finite number over the smallest one. -/
def scale (n : Number) : Nat := n.exponent.val - 1

/-- The magnitude of a finite number in units of the smallest positive number, `2⁻¹⁰⁷⁴`. -/
def units (n : Number) : Nat := n.significand <<< n.scale

/-- The value of a finite number in units of the smallest positive number. -/
def signedUnits (n : Number) : Int := if n.negative then -n.units else n.units

/-! ## Equality and order -/

/-- Equality of numbers as values: NaN equals nothing and the two zeros are equal. -/
def same (a b : Number) : Bool :=
  !a.isNaN && !b.isNaN && (a == b || (a.isZero && b.isZero))

/-- The key by which numbers other than NaN are ordered. -/
def key (n : Number) : Int := if n.negative then -n.ordinal else n.ordinal

def less (a b : Number) : Bool := !a.isNaN && !b.isNaN && decide (a.key < b.key)

theorem same_comm (a b : Number) : a.same b = b.same a := by
  unfold same
  rw [Bool.and_comm !a.isNaN, Bool.and_comm a.isZero, Bool.beq_comm]

theorem same_self {a : Number} (h : a.isNaN = false) : a.same a = true := by
  simp [same, h]

/-! ## Rounding -/

/-- The number at a position among those of its sign; positions past the last finite number
stand for infinity. -/
def ofOrdinal (negative : Bool) (position : Nat) : Number :=
  let position := min position (2047 <<< 52)
  ⟨negative, Fin.ofNat _ (position >>> 52), Fin.ofNat _ position⟩

/-- The natural number nearest to `num / den`, a tie going to the even neighbour. -/
def nearest (num den : Nat) : Nat :=
  let q := num / den
  let r := num % den
  if 2 * r < den then q
  else if 2 * r = den then q + q % 2
  else q + 1

/-- The number nearest to `num / den` units, a tie going to the even neighbour. The shift leaves
a quotient of at most 53 bits, which with the shift makes up the position of the result. -/
def round (negative : Bool) (num den : Nat) : Number :=
  let shift := (num / den).log2 + 1 - 53
  ofOrdinal negative ((shift <<< 52) + nearest num (den <<< shift))

/-- How many units make one. -/
def unitsPerOne : Nat := 1 <<< 1074

/-- The number nearest to an integer count of units. -/
def ofUnits (i : Int) : Number :=
  round (decide (i < 0)) i.natAbs 1

/-- The number nearest to an integer. -/
def ofInt (i : Int) : Number := ofUnits (i * unitsPerOne)

def ofNat (n : Nat) : Number := ofInt n

/-- The sum of two numbers, rounded to nearest. -/
def add (a b : Number) : Number :=
  if a.isNaN || b.isNaN then nan
  else if a.isInfinite then
    if b.isInfinite && a.negative != b.negative then nan else a
  else if b.isInfinite then b
  else
    let sum := a.signedUnits + b.signedUnits
    if sum = 0 then zero (a.negative && b.negative) else ofUnits sum

instance : Add Number := ⟨add⟩

end Number

end LiveMarkup
