import DoorToDoor.Document.Value
import DoorToDoor.Number.Numeral

/-!
# Plain values of TOML

Truth values, integers, numbers with a point or an exponent, dates and times. Each is recognised as
a whole: the caller cuts the characters out of the text. A number is judged by its outline; one that
has the outline but no value in range is a bad number, which is refused only where it is read.
-/

namespace DoorToDoor.Toml

open Document (Value)

/-- Drops the underscores of a run of digits, each of which has to stand between two digits. -/
def plainDigits? (isDigit : Char → Bool) : List Char → Option (List Char)
  | [] => none
  | [c] => if isDigit c then some [c] else none
  | c :: '_' :: rest =>
    if isDigit c then (plainDigits? isDigit rest).map (c :: ·) else none
  | c :: rest => if isDigit c then (plainDigits? isDigit rest).map (c :: ·) else none

/-- Whether a character is a digit in a base. -/
def isDigitIn (base : Nat) (c : Char) : Bool := (Numeral.digitValue? base c).isSome

/-- The value of digits in a base. -/
def valueIn (base : Nat) (cs : List Char) : Nat :=
  cs.foldl (fun n c ↦ n * base + (Numeral.digitValue? base c).getD 0) 0

/-- An integer as a value. One that does not fit into the words of a document is bad. -/
def ofInteger (n : Int) : Value := if Numeral.isBetween 127 128 n then .integer n else .badNumber

/-- A number with a fraction as a value. One that is too large for binary64 is bad. -/
def ofFloat (x : Float) : Value := if x.isFinite then .float x else .badNumber

/-- An integer in another base, behind the letters that name the base. Without digits it is bad. -/
def inBase? (base : Nat) (cs : List Char) : Option Value :=
  if cs.isEmpty then some .badNumber
  else (plainDigits? (isDigitIn base) cs).map fun ds ↦ ofInteger (valueIn base ds)

/-- A number taken apart into its sign and what follows. -/
structure Signed where
  negative : Bool
  /-- Whether zeros may stand in front of other digits. An underscore behind the sign, which is
  passed over, allows them. -/
  padded : Bool
  body : List Char

/-- Splits off a sign. -/
def Signed.ofChars : List Char → Signed
  | '-' :: '_' :: rest => ⟨true, true, rest⟩
  | '-' :: rest => ⟨true, false, rest⟩
  | '+' :: '_' :: rest => ⟨false, true, rest⟩
  | '+' :: rest => ⟨false, false, rest⟩
  | cs => ⟨false, false, cs⟩

/-- Decimal digits. Zeros in front of others have to be allowed. -/
def wholeDigits? (padded : Bool) (cs : List Char) : Option (List Char) :=
  match plainDigits? Char.isDigit cs, padded with
  | some ('0' :: _ :: _), false => none
  | digits?, _ => digits?

/-- An exponent: digits with or without a sign. -/
def exponent? (cs : List Char) : Option Int :=
  let (negative, rest) :=
    match cs with
    | '-' :: rest => (true, rest)
    | '+' :: rest => (false, rest)
    | _ => (false, cs)
  (plainDigits? Char.isDigit rest).map fun ds ↦
    let n : Int := Numeral.ofDigits ds
    if negative then -n else n

/-- The part of a number behind the whole digits: a point with digits, an exponent, or both. -/
def tail? (cs : List Char) : Option (List Char × Int) :=
  match cs with
  | '.' :: rest =>
    let (fraction, rest) := rest.span fun c ↦ c.isDigit || c == '_'
    match plainDigits? Char.isDigit fraction, rest with
    | some ds, [] => some (ds, 0)
    | some ds, c :: more => if c = 'e' ∨ c = 'E' then (exponent? more).map (ds, ·) else none
    | none, _ => none
  | c :: more => if c = 'e' ∨ c = 'E' then (exponent? more).map ([], ·) else none
  | [] => none

/-- A number with a point or an exponent. -/
def fraction? (s : Signed) : Option Value :=
  let (whole, rest) := s.body.span fun c ↦ c.isDigit || c == '_'
  match wholeDigits? s.padded whole, tail? rest with
  | some ds, some (fraction, exponent) =>
    let x := (⟨ds, fraction, exponent⟩ : Numeral.Literal).toFloat
    some (ofFloat (if s.negative then -x else x))
  | _, _ => none

/-- An integer. -/
def integer? (s : Signed) : Option Value :=
  (wholeDigits? s.padded s.body).map fun ds ↦
    let n : Int := Numeral.ofDigits ds
    ofInteger (if s.negative then -n else n)

/-- Whether each underscore behind a character and in the text that follows it stands between two
digits, letters up to `f` being digits. -/
def joinsDigits (before : Char) : List Char → Bool
  | [] => true
  | c :: rest =>
    (c != '_' || (isDigitIn 16 before && rest.head?.any (isDigitIn 16))) && joinsDigits c rest

/-- Whether a text looks like an integer, because an underscore follows its first digits, and has no
sign of being anything else. Its other characters are not looked at, so that the integer is bad. -/
def looksInteger (s : Signed) : Bool :=
  let rest := s.body.dropWhile Char.isDigit
  let starts :=
    match s.body with
    | [] => false
    | c :: _ =>
      if s.padded then isDigitIn 16 c else '1' ≤ c && c ≤ '9' && rest.head? == some '_'
  starts && joinsDigits '0' s.body && !rest.any ".eE".toList.contains

/-- Infinity and the undefined number, by name. -/
def named? (cs : List Char) : Option Value :=
  match String.ofList cs with
  | "inf" | "+inf" => some (.float (1 / 0))
  | "-inf" => some (.float (-1 / 0))
  | "nan" | "+nan" => some (.float (0 / 0))
  | "-nan" => some .negativeUndefined
  | _ => none

/-- A number of any kind. -/
def number? (cs : List Char) : Option Value :=
  match cs with
  | '0' :: 'x' :: rest => inBase? 16 rest
  | '0' :: 'o' :: rest => inBase? 8 rest
  | '0' :: 'b' :: rest => inBase? 2 rest
  | _ =>
    let s := Signed.ofChars cs
    let bad? := if looksInteger s then some Value.badNumber else none
    (named? cs).or ((integer? s).or ((fraction? s).or bad?))

/-- A number of exactly so many digits in front of other characters. -/
def fixedDigits? (count : Nat) (cs : List Char) : Option (Nat × List Char) :=
  let digits := cs.take count
  if digits.length = count ∧ digits.all Char.isDigit then
    some (Numeral.ofDigits digits, cs.drop count)
  else none

/-- How many days a month has. -/
def daysIn (year month : Nat) : Nat :=
  if month = 2 then
    if year % 4 = 0 ∧ (year % 100 ≠ 0 ∨ year % 400 = 0) then 29 else 28
  else if month ∈ [4, 6, 9, 11] then 30
  else 31

/-- What follows a date. -/
def afterDate? (cs : List Char) : Option (List Char) := do
  let (year, rest) ← fixedDigits? 4 cs
  let '-' :: rest := rest | none
  let (month, rest) ← fixedDigits? 2 rest
  let '-' :: rest := rest | none
  let (day, rest) ← fixedDigits? 2 rest
  if 1 ≤ month ∧ month ≤ 12 ∧ 1 ≤ day ∧ day ≤ daysIn year month then some rest else none

/-- What follows the hours and minutes of a time. -/
def afterMinutes? (cs : List Char) : Option (List Char) := do
  let (hour, rest) ← fixedDigits? 2 cs
  let ':' :: rest := rest | none
  let (minute, rest) ← fixedDigits? 2 rest
  if hour < 24 ∧ minute < 60 then some rest else none

/-- What follows a time. The seconds may be absent, and so may their fraction. -/
def afterTime? (cs : List Char) : Option (List Char) := do
  let rest ← afterMinutes? cs
  match rest with
  | ':' :: more =>
    let (second, rest) ← fixedDigits? 2 more
    if 60 < second then none
    else
      match rest with
      | '.' :: fraction =>
        let (digits, rest) := fraction.span Char.isDigit
        if digits.isEmpty then none else some rest
      | _ => some rest
  | _ => some rest

/-- Whether a text is the distance of a time zone from the prime meridian, or empty. -/
def isZone (cs : List Char) : Bool :=
  match cs with
  | [] | ['Z'] | ['z'] => true
  | c :: rest => (c == '+' || c == '-') && afterMinutes? rest == some []

/-- Whether a text is a time, without a zone. -/
def isTime (cs : List Char) : Bool := afterTime? cs == some []

/-- Whether a text is a date alone. -/
def isDate (cs : List Char) : Bool := afterDate? cs == some []

/-- Whether a text is a time with or without a zone. -/
def isZonedTime (cs : List Char) : Bool := (afterTime? cs).any isZone

/-- Whether a text is a date, a time, or a date joined to a time by a letter. -/
def isMoment (cs : List Char) : Bool :=
  isTime cs ||
    match afterDate? cs with
    | some [] => true
    | some (c :: rest) => (c == 'T' || c == 't') && isZonedTime rest
    | none => false

/-- A plain value. -/
def scalar? (cs : List Char) : Option Value :=
  match String.ofList cs with
  | "true" => some (.bool true)
  | "false" => some (.bool false)
  | _ => (number? cs).or (if isMoment cs then some .moment else none)

end DoorToDoor.Toml
