import QuerySteps.Backend
import QuerySteps.Result.Temporal

/-!
# Recorded backends

A backend that answers from a record: the columns of tables, of single statements and perhaps of all
other statements, and the rows of single statements.
-/

namespace QuerySteps

/-- The answers that a backend has on record. -/
structure Recorded where
  /-- The columns of `SELECT * FROM` a table. -/
  tables : List (String × List Column)
  /-- The columns of other statements. -/
  statements : List (String × List Column)
  /-- The columns of statements that are not on record. -/
  otherwise : Option (List Column)
  /-- The rows of statements. -/
  results : List (String × ResultSet)

namespace Recorded

/-- The columns on record for a statement; the record of tables is looked up first. -/
def columns? (r : Recorded) (sql : String) : Option (List Column) :=
  (r.tables.find? fun entry => "SELECT * FROM " ++ entry.1 == sql).map (·.2) <|>
    r.statements.lookup sql <|> r.otherwise

/-- The backend that answers from the record. -/
def backend (r : Recorded) : Backend where
  describe sql :=
    match r.columns? sql with
    | some columns => .ok columns
    | none => .error (.describe (.unknownStatement sql))
  run sql convert :=
    match r.results.lookup sql with
    | some rows => .ok (if convert then rows.convertTemporal else rows)
    | none => .error (.run (.unknownStatement sql))

end Recorded

end QuerySteps
