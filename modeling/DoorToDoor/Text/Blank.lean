/-!
# Blanks

The characters of the Unicode property `White_Space`, and the text between leading and trailing
ones.
-/

namespace DoorToDoor.Text

/-- Whether a character is white space. -/
def isBlank (c : Char) : Bool :=
  let n := c.toNat
  (0x09 ≤ n && n ≤ 0x0d) || n == 0x20 || n == 0x85 || n == 0xa0 || n == 0x1680 ||
    (0x2000 ≤ n && n ≤ 0x200a) || n == 0x2028 || n == 0x2029 || n == 0x202f || n == 0x205f ||
    n == 0x3000

/-- Drops the blanks at the front. -/
def trimFront (cs : List Char) : List Char := cs.dropWhile isBlank

/-- Drops the blanks at both ends. -/
def trimmed (cs : List Char) : List Char := (trimFront (trimFront cs).reverse).reverse

/-- Drops the blanks at both ends of a string. -/
def trim (text : String) : String := String.ofList (trimmed text.toList)

/-- No blank is left at the front. -/
theorem head?_trimFront (cs : List Char) : ∀ c ∈ (trimFront cs).head?, isBlank c = false := by
  induction cs with
  | nil => simp [trimFront]
  | cons d ds ih =>
    by_cases h : isBlank d
    · simpa [trimFront, h] using ih
    · simp [trimFront, h]

end DoorToDoor.Text
