import QuerySteps.Query.Basic
import QuerySteps.Backend

/-!
# Compilation

A query becomes one SQL statement.  Every level is written on lines of its own, indented by four
spaces for each level above it; as the source of another level it stands between parentheses.  A
join names its sides `T1` and `T2` and lists their columns, so it asks the backend for the columns
of both sides, left side first, before it writes anything.
-/

namespace QuerySteps

/-- The indentation of a line at a depth. -/
def indent (depth : Nat) : String :=
  String.ofList (List.replicate (4 * depth) ' ')

/-- Text between separators. -/
def joinWith (separator : String) (parts : List String) : String :=
  separator.intercalate parts

/-- A projected column in SQL. -/
def Selected.sql (s : Selected) : String :=
  match s.newName with
  | some newName => s.expr.sql ++ " AS " ++ quoteName newName
  | none => s.expr.sql

/-- A derived column in SQL. -/
def derivedSql (column : String × Expr) : String :=
  column.2.sql ++ " AS " ++ quoteName column.1

namespace Clauses

/-- What stands between SELECT and FROM; without any column it is everything. -/
def projection (c : Clauses) : List String :=
  let columns := (if c.includesAll then ["*"] else []) ++ c.columns.map (·.sql) ++
    c.derived.map derivedSql
  if columns.isEmpty then ["*"] else columns

/-- The line of filters, if there are any. -/
def filterLine (c : Clauses) : List String :=
  if c.filters.isEmpty then [] else ["WHERE " ++ joinWith " AND " (c.filters.map (·.sql))]

/-- The line of group keys, if there are any. -/
def groupLine (c : Clauses) : List String :=
  if c.groupBy.isEmpty then [] else ["GROUP BY " ++ joinWith ", " (c.groupBy.map quoteName)]

/-- The line of the sample, if there is one. -/
def sampleLine (c : Clauses) : List String :=
  match c.sample with
  | some rows => ["USING SAMPLE " ++ toString rows ++ " ROWS"]
  | none => []

/-- The lines of a level over the given source text, not yet indented. -/
def lines (c : Clauses) (source : String) : List String :=
  ["SELECT " ++ joinWith ", " c.projection, "FROM " ++ source] ++ c.filterLine ++ c.groupLine ++
    c.sampleLine

end Clauses

/-- Lines at a depth as the text of a SELECT. -/
def bodyText (depth : Nat) (lines : List String) : String :=
  joinWith "\n" (lines.map (indent depth ++ ·))

/-- The text of a SELECT as a statement, or between parentheses as a source. -/
def placed (outer : Bool) (depth : Nat) (body : String) : String :=
  if outer then body else "(\n" ++ body ++ "\n" ++ indent (depth - 1) ++ ")"

namespace Join

/-- The name of the left side. -/
def leftName : String := "T1"

/-- The name of the right side. -/
def rightName : String := "T2"

/-- The comparison of a criterion. -/
def condition (c : Criterion) : Expr :=
  .binary (.qualified leftName (quoteName c.left)) c.op (.qualified rightName (quoteName c.right))

/-- A column of a side in SQL. -/
def sideColumn (side : String) (c : Column) : String := side ++ "." ++ quoteName c.name

/-- The output columns: those of the left side, then those of the right side that are not left
out. -/
def projection (criteria : List Criterion) (left right : List Column) : List String :=
  left.map (sideColumn leftName) ++
    (right.filter fun c => !(droppedColumns criteria).contains c.name).map (sideColumn rightName)

/-- The line of conditions, if there are any. -/
def conditionLine (criteria : List Criterion) : List String :=
  if criteria.isEmpty then []
  else ["WHERE " ++ joinWith " AND " (criteria.map fun c => (condition c).sql)]

/-- The lines of a join over the texts of its sides, not yet indented. -/
def lines (criteria : List Criterion) (leftColumns rightColumns : List Column)
    (left right : String) : List String :=
  ["SELECT " ++ joinWith ", " (projection criteria leftColumns rightColumns),
    "FROM " ++ left ++ " " ++ leftName ++ ", " ++ right ++ " " ++ rightName] ++
    conditionLine criteria

end Join

namespace Query

/-- The SQL text of a query at a depth, as a statement (`outer`) or as a source. -/
def compile (b : Backend) : Query → Bool → Nat → Asked String
  | table name, outer, depth =>
    pure (if outer then indent depth ++ "SELECT * FROM " ++ name else name)
  | level source clauses, outer, depth => do
    let text ← source.compile b false (depth + 1)
    return placed outer depth (bodyText depth (clauses.lines text))
  | join left right criteria, outer, depth => do
    let leftColumns ← (left.compile b true 0).bind (Asked.describe b)
    let rightColumns ← (right.compile b true 0).bind (Asked.describe b)
    let leftText ← left.compile b false (depth + 1)
    let rightText ← right.compile b false (depth + 1)
    return placed outer depth
      (bodyText depth (Join.lines criteria leftColumns rightColumns leftText rightText))

/-- The SQL statement of a query. -/
def toSql (b : Backend) (q : Query) : Asked String := q.compile b true 0

/-- The columns that a query gives. -/
def schema (b : Backend) (q : Query) : Asked (List Column) := (q.toSql b).bind (Asked.describe b)

end Query

end QuerySteps
