import QuerySteps.Json.Record
import QuerySteps.Result.Basic

/-!
# Results in JSON

A result is a record of its columns, its rows and the types of its columns.  The cells of a row are
any values that can be read; of a repeated key in a cell the last one counts.
-/

namespace QuerySteps

/-- A column as a JSON value. -/
def Column.toJson (c : Column) : Json :=
  .object [("name", .text c.name), ("data_type", .text c.type)]

namespace ResultSet

/-- A result as a JSON value. -/
def toJson (r : ResultSet) : Json :=
  .object [("columns", Json.texts r.columns), ("data", .array (r.rows.map .array)),
    ("column_types", Json.texts r.columnTypes)]

/-- The cell that a JSON value is. -/
def cellOfJson? (value : Json) : Option Json :=
  if value.readable then some value.lastWins else none

/-- The result that a JSON value writes. -/
def ofJson? (value : Json) : Option ResultSet := do
  match ← Json.fields? Json.strictForm ["columns", "data", "column_types"] value with
  | (_, [some columns, some rows, some columnTypes]) =>
    return { columns := ← columns.all? Json.text?
             rows := ← rows.all? (·.all? cellOfJson?)
             columnTypes := ← columnTypes.all? Json.text? }
  | _ => none

end ResultSet

end QuerySteps
