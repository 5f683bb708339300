import DoorToDoor.Number.Binary64

/-!
# Numerals

Reads numbers from text: natural numbers in a base with an upper bound, and decimal numbers as the
nearest binary64 number.
-/

namespace DoorToDoor.Numeral

/-- The value of a digit in bases up to sixteen. -/
def digitValue? (base : Nat) (c : Char) : Option Nat :=
  let value? :=
    if '0' ≤ c ∧ c ≤ '9' then some (c.toNat - '0'.toNat)
    else if 'a' ≤ c ∧ c ≤ 'f' then some (c.toNat - 'a'.toNat + 10)
    else if 'A' ≤ c ∧ c ≤ 'F' then some (c.toNat - 'A'.toNat + 10)
    else none
  value?.filter (· < base)

/-- Why a text is not a natural number below a bound. -/
inductive NatError
  /-- The text is empty. -/
  | empty
  /-- A character is no digit, or a sign stands alone. -/
  | invalidDigit
  /-- The digits read so far exceed the bound. -/
  | tooLarge
  deriving DecidableEq, Repr

/-- The wording of a `NatError`. -/
def NatError.message : NatError → String
  | .empty => "cannot parse integer from empty string"
  | .invalidDigit => "invalid digit found in string"
  | .tooLarge => "number too large to fit in target type"

/-- Reads digits onto a value, stopping at the first one that is wrong or leaves the bound. -/
def readDigits (base bound : Nat) : Nat → List Char → Except NatError Nat
  | value, [] => .ok value
  | value, c :: rest =>
    match digitValue? base c with
    | none => .error .invalidDigit
    | some d =>
      let next := value * base + d
      if next < bound then readDigits base bound next rest else .error .tooLarge

/-- Reads a natural number below a bound. One plus sign may stand in front of the digits. -/
def readNat (base bound : Nat) (text : List Char) : Except NatError Nat :=
  match text with
  | [] => .error .empty
  | ['+'] | ['-'] => .error .invalidDigit
  | '+' :: rest => readDigits base bound 0 rest
  | _ => readDigits base bound 0 text

/-- Identifiers, sequence numbers and clock fields lie below this bound. -/
def wordBound : Nat := UInt32.size

/-- Reads a decimal natural number below `wordBound`. -/
def readWord (text : String) : Except NatError Nat := readNat 10 wordBound text.toList

/-- Whether an integer is at least minus one power of two and below another. -/
def isBetween (low high : Nat) (n : Int) : Bool :=
  -Int.ofNat (Nat.pow 2 low) ≤ n && n < Int.ofNat (Nat.pow 2 high)

/-- The value of decimal digits, which must all be digits. -/
def ofDigits (cs : List Char) : Nat :=
  cs.foldl (fun value c ↦ value * 10 + (c.toNat - '0'.toNat)) 0

/-- The binary64 number nearest to `coefficient * 10 ^ exponent`. Values beyond the range of
binary64 are settled by their number of digits alone, so an exponent of any size is cheap. -/
def nearest (coefficient : Nat) (exponent : Int) : Float :=
  let digits : Int := if coefficient = 0 then 0 else (Nat.toDigits 10 coefficient).length
  if coefficient = 0 ∨ digits + exponent < -400 then 0
  else if 400 < digits + exponent then 1 / 0
  else Float.ofScientific coefficient (exponent < 0) exponent.natAbs

/-- A decimal numeral: digits before and after the point, and the exponent. -/
structure Literal where
  whole : List Char
  fraction : List Char
  exponent : Int

/-- The number a numeral stands for. -/
def Literal.toFloat (d : Literal) : Float :=
  nearest (ofDigits (d.whole ++ d.fraction)) (d.exponent - d.fraction.length)

/-- Splits a text after its leading digits. -/
def spanDigits (cs : List Char) : List Char × List Char := cs.span Char.isDigit

/-- Reads a signed exponent that makes up the whole text. -/
def exponent? (cs : List Char) : Option Int :=
  let (negative, ds) :=
    match cs with
    | '-' :: rest => (true, rest)
    | '+' :: rest => (false, rest)
    | _ => (false, cs)
  if ds.isEmpty || !ds.all Char.isDigit then none
  else some (if negative then -Int.ofNat (ofDigits ds) else Int.ofNat (ofDigits ds))

/-- Splits an unsigned numeral into its parts. At least one digit stands before or after the
point. -/
def decimal? (cs : List Char) : Option Literal :=
  let (whole, rest) := spanDigits cs
  let (fraction, rest) :=
    match rest with
    | '.' :: more => spanDigits more
    | _ => ([], rest)
  if whole.isEmpty && fraction.isEmpty then none
  else
    match rest with
    | [] => some ⟨whole, fraction, 0⟩
    | c :: more => if c = 'e' ∨ c = 'E' then (exponent? more).map (⟨whole, fraction, ·⟩) else none

/-- Whether a text is one of the given lower-case words, in any case. -/
def isWord (words : List String) (cs : List Char) : Bool :=
  words.contains (String.ofList (cs.map Char.toLower))

/-- Reads a number: an optional sign, then a numeral or a name of infinity or of the undefined
value. -/
def readFloat (text : String) : Option Float :=
  let (negative, cs) :=
    match text.toList with
    | '-' :: rest => (true, rest)
    | '+' :: rest => (false, rest)
    | cs => (false, cs)
  let value? :=
    if isWord ["inf", "infinity"] cs then some (1 / 0)
    else if isWord ["nan"] cs then some (0 / 0)
    else (decimal? cs).map Literal.toFloat
  value?.map (fun x ↦ if negative then -x else x)

end DoorToDoor.Numeral
