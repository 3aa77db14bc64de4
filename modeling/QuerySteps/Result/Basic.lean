import QuerySteps.Json.Basic
import QuerySteps.Text.Upper

/-!
# Results

The columns that a statement gives, and the rows with them.  A type is known by its name in upper
case.  The cells of a row stand in the order of the columns.
-/

namespace QuerySteps

/-- A column of a result, with the name of its type in upper case. -/
structure Column where
  name : String
  type : String
  deriving DecidableEq, Inhabited

/-- A column as a backend declares it. -/
def Column.declared (name type : String) : Column := ⟨name, Text.upper type⟩

/-- The types that casts may name. -/
def supportedTypes : List String :=
  ["VARCHAR", "TIMESTAMP", "HUGEINT", "BIGINT", "INTEGER", "SMALLINT", "TINYINT", "BOOLEAN",
    "DOUBLE", "FLOAT"]

/-- Rows with their columns. -/
structure ResultSet where
  columns : List String
  rows : List (List Json)
  columnTypes : List String
  deriving Inhabited

/-- The number of rows. -/
def ResultSet.rowCount (r : ResultSet) : Nat := r.rows.length

/-- Whether there are no rows. -/
def ResultSet.isEmpty (r : ResultSet) : Bool := r.rows.isEmpty

end QuerySteps
