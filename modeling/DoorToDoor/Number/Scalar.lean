/-!
# Scalars

Coordinates, times, distances and disutilities are scalars of one type. Every rule of the library is
written over `Scalar`, which lists the operations a rule may use and promises no laws about them.
The running program takes binary64 numbers; an exact number type gives the same rules without
rounding.
-/

namespace DoorToDoor

/-- The operations on coordinates, times, distances and disutilities. -/
class Scalar (α : Type) extends Add α, Sub α, Mul α, Div α, Neg α, LT α, LE α where
  /-- The strict order is decidable. -/
  decLT : DecidableLT α
  /-- The order is decidable. -/
  decLE : DecidableLE α
  /-- The scalar nearest to a natural number. -/
  ofNat : Nat → α
  /-- A value above every cost and every time that is ever reached. -/
  infinity : α
  /-- The sum of no terms, from which sums of any length start. -/
  emptySum : α
  /-- The square root. -/
  sqrt : α → α
  /-- The remainder of a division that rounds the quotient down, for a positive divisor. -/
  remEuclid : α → α → α
  /-- A total order that sorting uses: it refines `<` and ranks also what `<` leaves unordered. -/
  order : α → α → Ordering
  /-- Whether the value is a number of ordinary size, so neither an overflow nor undefined. -/
  isFinite : α → Bool
  /-- The whole part of a value, and zero for a negative or undefined one. -/
  wholePart : α → Nat

namespace Scalar

instance decidableLT {α : Type} [Scalar α] : DecidableLT α := Scalar.decLT

instance decidableLE {α : Type} [Scalar α] : DecidableLE α := Scalar.decLE

variable {α : Type} [Scalar α]

/-- The scalar zero. -/
def zero : α := ofNat 0

/-- The sum of a list, added from left to right onto the empty sum. -/
def sum (xs : List α) : α := xs.foldl (· + ·) emptySum

/-- Whether the first of two values may stand before the second in sorted order. -/
def before (a b : α) : Bool := order a b != .gt

/-- Sorts a list, keeping the order of values that rank alike. -/
def sort (xs : List α) : List α := xs.mergeSort before

end Scalar

end DoorToDoor
