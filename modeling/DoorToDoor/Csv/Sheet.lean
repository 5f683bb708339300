import DoorToDoor.Csv.Records

/-!
# Sheets

A sheet is comma-separated text whose first record names the columns. Its rows are decoded one after
the other until one of them is malformed.
-/

namespace DoorToDoor.Csv

/-- The rows of a sheet before the first malformed one, and whether there is none. -/
structure Sheet (ρ : Type) where
  rows : List ρ
  intact : Bool
  deriving DecidableEq, Repr

/-- The characters of a field, unless its bytes are no UTF-8. -/
def text? (field : Field) : Option String := String.fromUTF8? ⟨field.toArray⟩

/-- The cell of a named column: nothing where the header does not have the column, and no answer
where the header has it twice. -/
def cell? (header cells : List String) (column : String) : Option (Option String) :=
  match (header.zip cells).filter (·.1 == column) with
  | [] => some none
  | [found] => some (some found.2)
  | _ => none

/-- The cells of the named columns. Without a header the first cells belong to the columns in
turn. -/
def cells? (header? : Option (List String)) (columns cells : List String) :
    Option (List (Option String)) :=
  match header? with
  | some header => columns.mapM (cell? header cells)
  | none =>
    if columns.length ≤ cells.length then some ((cells.take columns.length).map some) else none

/-- Decodes rows up to the first malformed one. Every record has as many fields as the header. -/
def decodeRows {ρ : Type} (width : Nat) (decode : List String → Option ρ) :
    List (List Field) → Sheet ρ
  | [] => ⟨[], true⟩
  | record :: rest =>
    if record.length = width then
      match (record.mapM text?).bind decode with
      | some row =>
        let sheet := decodeRows width decode rest
        { sheet with rows := row :: sheet.rows }
      | none => ⟨[], false⟩
    else ⟨[], false⟩

/-- The sheet of a text, for rows made of the cells of the named columns. A header that is no UTF-8
names nothing, so the columns are then taken in turn. -/
def sheet {ρ : Type} (columns : List String) (decode : List (Option String) → Option ρ)
    (bytes : List UInt8) : Sheet ρ :=
  match records bytes with
  | [] => ⟨[], true⟩
  | header :: rows =>
    let header? := header.mapM text?
    decodeRows header.length (fun cells ↦ (cells? header? columns cells).bind decode) rows

end DoorToDoor.Csv
