import DoorToDoor.Document.Forms
import DoorToDoor.Toml.Reader

/-!
# Settings as text

Settings are written in TOML. A text is read, and the settings it stands for are checked.
-/

namespace DoorToDoor.Settings

open Document (Dialect Value)

/-- TOML as a document format: it has no null, an empty table or array stands behind a name, and
integers have at most sixty-four bits. -/
def toml : Dialect where
  spareItems := true
  isNothing
    | .table [] | .array [] => true
    | _ => false
  isWord n := Numeral.isBetween 63 64 n

/-- Reads and checks settings. -/
def ofText (text : String) : Except (Error Float) (Settings Float) :=
  match (Toml.read text).bind (Document.readSettings toml) with
  | none => .error .unreadable
  | some s => s.validate.map fun _ ↦ s

/-- Reads and checks the settings in a file, given by its bytes if it is there. -/
def ofFile (bytes? : Option ByteArray) : Except (Error Float) (Settings Float) :=
  match bytes?.bind String.fromUTF8? with
  | none => .error .unreadable
  | some text => ofText text

end DoorToDoor.Settings
