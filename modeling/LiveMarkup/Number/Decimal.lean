import LiveMarkup.Number.Basic

/-!
# Numbers and decimals

* `Decimal`: a natural number of digits with a power of ten.
* `Number.ofDecimal`: the number nearest to a decimal.
* `Number.shortest`: the decimal with the fewest digits that reads back as a given number, and of
  those the nearest to it.
-/

namespace LiveMarkup

/-- The decimal `digits · 10 ^ power`. -/
structure Decimal where
  digits : Nat
  power : Int
  deriving DecidableEq, Repr

/-- The number of decimal digits of a natural number; zero has none. -/
def digitCount (n : Nat) : Nat :=
  if h : n = 0 then 0 else digitCount (n / 10) + 1
termination_by n

namespace Number

/-- The quotient `10 ^ power` as a numerator over a denominator. -/
def tenPower (power : Int) : Nat × Nat :=
  if power < 0 then (1, Nat.pow 10 (-power).toNat) else (Nat.pow 10 power.toNat, 1)

/-- The number nearest to a decimal. Powers of ten far outside the range are settled by the number
of digits, so that no power beyond a few hundred is computed. -/
def ofDecimal (negative : Bool) (d : Decimal) : Number :=
  if d.digits = 0 then zero negative
  else
    let magnitude := (digitCount d.digits : Int) + d.power
    if magnitude > 310 then infinity negative
    else if magnitude < -330 then zero negative
    else
      let (num, den) := tenPower d.power
      round negative (d.digits * num * unitsPerOne) den

/-- The positions of finite numbers and of infinity are none of NaN. -/
theorem isNaN_ofOrdinal (negative : Bool) (position : Nat) : (ofOrdinal negative position).isNaN = false := by
  have hle : min position (2047 <<< 52) ≤ 2047 <<< 52 := Nat.min_le_right _ _
  unfold ofOrdinal isNaN
  generalize min position (2047 <<< 52) = p at hle
  have hexponent : p >>> 52 = p / 0x10000000000000 := Nat.shiftRight_eq_div_pow p 52
  simp only [hexponent, Fin.ofNat, bne, Bool.and_eq_false_iff, beq_eq_false_iff_ne, ne_eq,
    Bool.not_eq_false', beq_iff_eq, Fin.ext_iff, Fin.val_zero]
  by_cases htop : p = 2047 <<< 52
  · exact .inr (htop ▸ rfl)
  · refine .inl fun he => ?_
    have he : p / 0x10000000000000 % 2048 = 2047 := he
    have htop : p ≠ 0x7ff0000000000000 := htop
    have hle : p ≤ 0x7ff0000000000000 := hle
    omega

theorem isNaN_ofDecimal (negative : Bool) (d : Decimal) : (ofDecimal negative d).isNaN = false := by
  unfold ofDecimal
  split
  · rfl
  · dsimp only
    split
    · rfl
    · split
      · rfl
      · exact isNaN_ofOrdinal negative _

/-! ## The numbers that read back

Everything is counted in quarters of the smallest positive number, so that the two ends of the
interval of reals that round to a number are whole.
-/

/-- The reals that round to a number, between two ends counted in quarters of a unit. -/
structure Interval where
  low : Nat
  high : Nat
  closed : Bool

/-- The reals that round to a finite number other than zero: up to half the distance to either
neighbour, the ends included if the significand is even. Below a power of two the lower neighbour
is half as far away. -/
def interval (n : Number) : Interval :=
  let half := 2 <<< n.scale
  let below := if n.fraction.val = 0 ∧ 1 < n.exponent.val then 1 <<< n.scale else half
  ⟨4 * n.units - below, 4 * n.units + half, n.significand % 2 == 0⟩

/-- Whether `num / den` quarters lie in an interval. -/
def Interval.holds (i : Interval) (num den : Nat) : Bool :=
  if i.closed then i.low * den ≤ num && num ≤ i.high * den
  else i.low * den < num && num < i.high * den

/-- The number of quarters of a unit in one. -/
def quarters : Nat := 4 * unitsPerOne

/-- The greatest power of ten that is at most `value` quarters of a unit. -/
def leadingPower (value : Nat) : Int :=
  if quarters ≤ value then (digitCount (value / quarters) : Int) - 1
  else -(digitCount ((quarters + value - 1) / value - 1) : Int)

/-- Of the two multiples of `10 ^ power` around a value, the one that lies in the interval and is
nearer; an exact tie goes to the upper one. -/
def candidate (value : Nat) (i : Interval) (power : Int) : Option Decimal :=
  let (num, den) := tenPower power
  -- one multiple of the power is `num * quarters / den` quarters
  let step := num * quarters
  let d := value * den / step
  let rest := value * den % step
  let down := i.holds (d * step) den
  let up := i.holds ((d + 1) * step) den
  if up && (!down || step ≤ 2 * rest) then some ⟨d + 1, power⟩
  else if down then some ⟨d, power⟩
  else none

/-- The first candidate with `digits` digits or more, of at most `fuel` lengths. -/
def searchDecimal (value : Nat) (i : Interval) (lead : Int) (digits : Nat) : Nat → Decimal
  | 0 => ⟨0, 0⟩
  | fuel + 1 =>
    match candidate value i (lead - digits + 1) with
    | some d => d
    | none => searchDecimal value i lead (digits + 1) fuel

/-- A decimal without trailing zeros in its digits. -/
def trimZeros (fuel : Nat) (d : Decimal) : Decimal :=
  match fuel with
  | 0 => d
  | fuel + 1 =>
    if d.digits ≠ 0 ∧ d.digits % 10 = 0 then trimZeros fuel ⟨d.digits / 10, d.power + 1⟩ else d

/-- The shortest decimal that reads back as the magnitude of a finite number other than zero, and
of those the nearest. Seventeen digits always suffice. -/
def shortest (n : Number) : Decimal :=
  let value := 4 * n.units
  trimZeros 17 (searchDecimal value n.interval (leadingPower value) 1 18)

end Number

end LiveMarkup
