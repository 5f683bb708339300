import DoorToDoor.Number.Binary64

/-!
# Decimal texts of binary64 numbers

`shortest` picks the fewest decimal digits that read back as the same number and, of those, the
digits nearest to it; `plain` writes them without an exponent. `fixed` writes a given number of
places, rounding the exact value with ties to the even neighbour.
-/

namespace DoorToDoor.Decimal

open Binary64

/-- The decimal digits of a natural number. -/
def digits (n : Nat) : List Char := Nat.toDigits 10 n

/-- How many decimal digits a natural number has; zero has none. -/
def digitCount (n : Nat) : Nat := if n = 0 then 0 else (digits n).length

/-- A power of ten; one for a negative exponent. -/
def tenTo (exponent : Int) : Nat := Nat.pow 10 exponent.toNat

/-- The number `coefficient * 10 ^ exponent`. -/
structure Scaled where
  coefficient : Nat
  exponent : Int

/-- A positive fraction of natural numbers. -/
structure Fraction where
  numerator : Nat
  denominator : Nat

namespace Fraction

/-- The fraction `mantissa * 2 ^ exponent`. -/
def ofDyadic (mantissa : Nat) (exponent : Int) : Fraction :=
  ⟨mantissa <<< exponent.toNat, 1 <<< (-exponent).toNat⟩

/-- Multiplies by a power of ten. -/
def scale (f : Fraction) (power : Int) : Fraction :=
  ⟨f.numerator * tenTo power, f.denominator * tenTo (-power)⟩

/-- The whole part. -/
def floor (f : Fraction) : Nat := f.numerator / f.denominator

/-- The least power of ten above the fraction, as an exponent. -/
def magnitude (f : Fraction) : Int :=
  if f.denominator ≤ f.numerator then digitCount f.floor
  else 1 - Int.ofNat (digitCount ((f.denominator - 1) / f.numerator))

/-- Rounds to a natural number; a half goes to the even neighbour. -/
def roundToEven (f : Fraction) : Nat :=
  let low := f.floor
  let twice := 2 * (f.numerator - low * f.denominator)
  if twice < f.denominator then low
  else if f.denominator < twice then low + 1
  else low + low % 2

end Fraction

/-- The numbers that round to one positive binary64 number: all between `low` and `high`, and the
two ends as well when `closed` is set. The three numbers are in units of `2 ^ exponent`. -/
structure Interval where
  low : Nat
  value : Nat
  high : Nat
  exponent : Int
  closed : Bool

/-- The interval of `mantissa * 2 ^ exponent`. Below a power of two the neighbours lie twice as
close, and a number with an even mantissa wins the ties at both ends. -/
def Interval.of (mantissa : Nat) (exponent : Int) : Interval where
  low := 4 * mantissa - (if mantissa = hiddenBit ∧ leastExponent < exponent then 1 else 2)
  value := 4 * mantissa
  high := 4 * mantissa + 2
  exponent := exponent - 2
  closed := mantissa % 2 = 0

/-- Whether a decimal number reads back as the number whose interval this is. -/
def Interval.holds (i : Interval) (s : Scaled) : Bool :=
  let point := (s.coefficient * tenTo s.exponent) <<< (-i.exponent).toNat
  let unit := tenTo (-s.exponent) <<< i.exponent.toNat
  if i.closed then i.low * unit ≤ point && point ≤ i.high * unit
  else i.low * unit < point && point < i.high * unit

/-- The number of the interval rounded down to a multiple of a power of ten. -/
def Interval.below (i : Interval) (power : Int) : Scaled :=
  ⟨((Fraction.ofDyadic i.value i.exponent).scale (-power)).floor, power⟩

/-- Whether the number of the interval lies in the lower half between two multiples of a power of
ten. -/
def Interval.inLowerHalf (i : Interval) (power : Int) : Bool :=
  let f := (Fraction.ofDyadic i.value i.exponent).scale (-power)
  2 * (f.numerator % f.denominator) < f.denominator

/-- The decimal number with the given step nearest to the number of the interval, if one reads back.
The upper of two equally near ones is taken. -/
def Interval.onGrid (i : Interval) (power : Int) : Option Scaled :=
  let down := i.below power
  let up : Scaled := ⟨down.coefficient + 1, power⟩
  match i.holds down, i.holds up with
  | true, true => some (if i.inLowerHalf power then down else up)
  | true, false => some down
  | false, true => some up
  | false, false => none

/-- The first of the grids with one digit, two digits and so on that holds a number reading back. -/
def Interval.search (i : Interval) (top : Int) : Nat → Nat → Scaled
  | 0, count => i.below (top - count)
  | tries + 1, count => (i.onGrid (top - count)).getD (i.search top tries (count + 1))

/-- The fewest digits that read back as `mantissa * 2 ^ exponent`; seventeen always do. -/
def shortest (mantissa : Nat) (exponent : Int) : Scaled :=
  let i := Interval.of mantissa exponent
  i.search (Fraction.ofDyadic mantissa exponent).magnitude 17 1

/-- Writes a scaled number without an exponent and without zeros after the last place. -/
def Scaled.plain (s : Scaled) : String :=
  let cs := digits s.coefficient
  if 0 ≤ s.exponent then String.ofList (cs ++ List.replicate s.exponent.toNat '0')
  else
    let places := (-s.exponent).toNat
    let padded := List.replicate (places + 1 - cs.length) '0' ++ cs
    let whole := padded.length - places
    String.ofList (padded.take whole ++ '.' :: padded.drop whole)

/-- Drops the zeros that end the coefficient. -/
def Scaled.trim : Nat → Scaled → Scaled
  | 0, s => s
  | fuel + 1, s =>
    if s.coefficient ≠ 0 ∧ s.coefficient % 10 = 0 then
      Scaled.trim fuel ⟨s.coefficient / 10, s.exponent + 1⟩
    else s

/-- Writes a sign in front of a negative number. -/
def signed (negative : Bool) (text : String) : String := if negative then "-" ++ text else text

/-- The shortest text that reads back as the number, never with an exponent: `800`, `0.1`, `-0`,
`NaN`, `inf`. -/
def plain (x : Float) : String :=
  match parts x with
  | .undefined => "NaN"
  | .infinite negative => signed negative "inf"
  | .finite d =>
    signed d.negative
      (if d.mantissa = 0 then "0" else ((shortest d.mantissa d.exponent).trim 17).plain)

/-- Writes the number of tenths, hundredths and so on, so many places after the point. -/
def placesText (units places : Nat) : String :=
  if places = 0 then String.ofList (digits units)
  else Scaled.plain ⟨units, -Int.ofNat places⟩

/-- The text of a number with a fixed number of places, the exact value rounded with ties to
even. -/
def fixed (places : Nat) (x : Float) : String :=
  match parts x with
  | .undefined => "NaN"
  | .infinite negative => signed negative "inf"
  | .finite d =>
    let units := ((Fraction.ofDyadic d.mantissa d.exponent).scale places).roundToEven
    signed d.negative (placesText units places)

end DoorToDoor.Decimal
