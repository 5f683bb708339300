import DoorToDoor.Number.Scalar

/-!
# Binary64 numbers

A binary64 number is undefined, infinite, or a signed dyadic number `mantissa * 2 ^ exponent`.
`parts` reads the bits that way and `ofDyadic` writes them. On top of the two stand the exact
remainder, the total order of all values, and the scalars of the running program.
-/

namespace DoorToDoor.Binary64

/-- The number `mantissa * 2 ^ exponent`, negated when `negative` is set; zero keeps its sign. -/
structure Dyadic where
  negative : Bool
  mantissa : Nat
  exponent : Int

/-- What the bits of a binary64 number say. -/
inductive Parts
  | undefined
  | infinite (negative : Bool)
  | finite (value : Dyadic)

/-- The least exponent of a dyadic number that binary64 can hold. -/
def leastExponent : Int := -1074

/-- The bit of a mantissa that the bits of a number do not show. -/
def hiddenBit : Nat := 1 <<< 52

/-- The bit that is set for a negative number. -/
def signBit : Nat := 1 <<< 63

/-- The exponent field of infinity and of the undefined value; all fields lie at or below it. -/
def lastField : Nat := 2047

/-- Reads the bits of a number. -/
def parts (x : Float) : Parts :=
  let bits := x.toBits.toNat
  let negative := signBit ≤ bits
  let field : Nat := bits / hiddenBit % (lastField + 1)
  let fraction : Nat := bits % hiddenBit
  if field = lastField then
    if fraction = 0 then .infinite negative else .undefined
  else if field = 0 then
    .finite ⟨negative, fraction, leastExponent⟩
  else
    .finite ⟨negative, hiddenBit + fraction, leastExponent + field - 1⟩

/-- Writes a dyadic number that binary64 holds exactly: its mantissa is below twice `hiddenBit` and
its exponent at least `leastExponent`. The mantissa is shifted up as far as both bounds allow. -/
def ofDyadic (d : Dyadic) : Float :=
  let room := (d.exponent - leastExponent).toNat
  let shift := min room (52 - d.mantissa.log2)
  let mantissa := d.mantissa <<< shift
  let field := if mantissa < hiddenBit then 0 else room - shift + 1
  let sign := if d.negative then signBit else 0
  Float.ofBits (UInt64.ofNat (sign + field * hiddenBit + mantissa % hiddenBit))

/-- The exact remainder of a division that rounds the quotient toward zero. It has the sign of the
dividend and is undefined for an infinite dividend and for a zero divisor. -/
def remainder (x y : Float) : Float :=
  match parts x, parts y with
  | .finite a, .finite b =>
    if b.mantissa = 0 then 0 / 0
    else
      let exponent := min a.exponent b.exponent
      let dividend := a.mantissa <<< (a.exponent - exponent).toNat
      let divisor := b.mantissa <<< (b.exponent - exponent).toNat
      ofDyadic ⟨a.negative, dividend % divisor, exponent⟩
  | .finite _, .infinite _ => x
  | _, _ => 0 / 0

/-- The remainder of a division that rounds the quotient down, for a positive divisor. A negative
remainder is lifted by the divisor and rounded, so a tiny negative dividend gives the divisor. -/
def remEuclid (x y : Float) : Float :=
  let r := remainder x y
  if r < 0 then r + y.abs else r

/-- The rank of a value among all: negative values by falling magnitude, then positive ones, so that
`-0.0` stands before `0.0` and the undefined value after infinity. -/
def rank (x : Float) : Int :=
  let bits := x.toBits.toNat
  if bits < signBit then Int.ofNat bits else Int.ofNat signBit - 1 - Int.ofNat bits

/-- The total order of all values. -/
def order (x y : Float) : Ordering := compare (rank x) (rank y)

end DoorToDoor.Binary64

namespace DoorToDoor

/-- Binary64 arithmetic, each operation correctly rounded. The empty sum is `-0.0`, which any added
term replaces. -/
instance : Scalar Float where
  decLT := inferInstance
  decLE := inferInstance
  ofNat := Float.ofNat
  infinity := 1 / 0
  emptySum := -0.0
  sqrt := Float.sqrt
  remEuclid := Binary64.remEuclid
  order := Binary64.order
  isFinite := Float.isFinite
  wholePart x := x.toUInt64.toNat

end DoorToDoor
