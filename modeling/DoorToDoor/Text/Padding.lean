/-!
# Padding

Fills a text up to a width, counted in characters. A longer text stays as it is.
-/

namespace DoorToDoor.Text

/-- Fills up in front. -/
def padFront (fill : Char) (width : Nat) (text : String) : String :=
  String.ofList (List.replicate (width - text.length) fill) ++ text

/-- Fills up at the end. -/
def padBack (fill : Char) (width : Nat) (text : String) : String :=
  text ++ String.ofList (List.replicate (width - text.length) fill)

/-- A filled text has the width, unless it was longer. -/
theorem length_padFront (fill : Char) (width : Nat) (text : String) :
    (padFront fill width text).length = max text.length width := by
  rw [padFront, String.length_append, String.length_ofList, List.length_replicate]
  omega

/-- A filled text has the width, unless it was longer. -/
theorem length_padBack (fill : Char) (width : Nat) (text : String) :
    (padBack fill width text).length = max text.length width := by
  rw [padBack, String.length_append, String.length_ofList, List.length_replicate]
  omega

/-- The decimal digits of a number, at least two. -/
def twoDigits (n : Nat) : String := padFront '0' 2 (String.ofList (Nat.toDigits 10 n))

end DoorToDoor.Text
