/-!
# Fair coins

A coin is a xoshiro256++ generator whose four words are filled from a seed by a permuted
congruential generator. Equal seeds give equal runs of flips.
-/

namespace DoorToDoor

/-- The four words of the generator. -/
structure Coin where
  s0 : UInt64
  s1 : UInt64
  s2 : UInt64
  s3 : UInt64
  deriving DecidableEq, Repr

namespace Coin

/-- Rotates the bits of a word to the left, by at least one and fewer than all places. -/
def rotateLeft (x : UInt64) (places : UInt64) : UInt64 :=
  (x <<< places) ||| (x >>> (64 - places))

/-- Rotates the bits of a half word to the right. -/
def rotateRight (x : UInt32) (places : UInt32) : UInt32 :=
  (x >>> places) ||| (x <<< ((32 - places) % 32))

/-- Advances the state of the filling generator. -/
def fillNext (state : UInt64) : UInt64 := state * 6364136223846793005 + 11634580027462260723

/-- The half word that a state of the filling generator stands for. -/
def fillOutput (state : UInt64) : UInt32 :=
  rotateRight (((state >>> 18) ^^^ state) >>> 27).toUInt32 (state >>> 59).toUInt32

/-- The next word of the filling generator, its low half drawn first, and the state after it. -/
def fillWord (state : UInt64) : UInt64 × UInt64 :=
  let first := fillNext state
  let second := fillNext first
  ((fillOutput first).toUInt64 ||| ((fillOutput second).toUInt64 <<< 32), second)

/-- The coin of a seed. -/
def ofSeed (seed : UInt64) : Coin :=
  let (a, seed) := fillWord seed
  let (b, seed) := fillWord seed
  let (c, seed) := fillWord seed
  let (d, _) := fillWord seed
  ⟨a, b, c, d⟩

/-- The next word of the generator. -/
def word (c : Coin) : UInt64 := rotateLeft (c.s0 + c.s3) 23 + c.s0

/-- The generator after one word. -/
def next (c : Coin) : Coin :=
  let s2 := c.s2 ^^^ c.s0
  let s3 := c.s3 ^^^ c.s1
  let s1 := c.s1 ^^^ s2
  let s0 := c.s0 ^^^ s3
  ⟨s0, s1, s2 ^^^ (c.s1 <<< 17), rotateLeft s3 45⟩

/-- Flips the coin: the side it shows, which is the highest bit of the next word, and the coin for
the next flip. -/
def flip (c : Coin) : Bool × Coin := (c.word >>> 63 == 1, c.next)

/-- The sides that a number of flips show. -/
def flips : Nat → Coin → List Bool
  | 0, _ => []
  | n + 1, c => c.flip.1 :: flips n c.flip.2

/-- Every flip shows one side. -/
@[simp] theorem length_flips (n : Nat) (c : Coin) : (flips n c).length = n := by
  induction n generalizing c with
  | zero => rfl
  | succ n ih => rw [flips, List.length_cons, ih]

end Coin

end DoorToDoor
