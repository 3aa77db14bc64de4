import QuerySteps.Result.Basic
import QuerySteps.Calendar.Instant

/-!
# Dates and times in results

A backend may give dates and times as texts.  `ResultSet.convertTemporal` turns the texts of the
columns whose type is a date or a time into seconds since 1970.  A cell that is not a text, or is a
text that no instant is read from, stays as it is.
-/

namespace QuerySteps

/-- Whether the cells of a type are dates or times; the case of the type does not matter. -/
def isTemporalType (type : String) : Bool :=
  let type := Text.upper type
  type == "DATE" || type == "DATETIME" || type.startsWith "TIMESTAMP"

/-- A cell of a temporal column as seconds, where it can be read. -/
def convertCell (cell : Json) : Json :=
  match cell with
  | .scalar (.text s) =>
    match Calendar.epochSeconds? s with
    | some x => if x.isFinite then .scalar (.float x) else cell
    | none => cell
  | _ => cell

/-- A row, cell by cell with the types of the columns; cells without a type stay. -/
def convertRow : List String → List Json → List Json
  | type :: types, cell :: row =>
    (if isTemporalType type then convertCell cell else cell) :: convertRow types row
  | [], row => row
  | _ :: _, [] => []

/-- The result with the texts of its temporal columns as seconds. -/
def ResultSet.convertTemporal (r : ResultSet) : ResultSet :=
  { r with rows := r.rows.map (convertRow r.columnTypes) }

end QuerySteps
