import QuerySteps.Json.Writer
import QuerySteps.Query.Compile
import QuerySteps.Result.Basic

/-!
# Results as tables of text

A result is shown as a line of names, a line that separates, and a line for each row.  A column is
as wide as its longest name or cell in bytes of UTF-8, and cells are filled with spaces to that
number of characters.  No text has more characters than bytes, so nothing is cut and all lines are
equally long.
-/

namespace QuerySteps

namespace Result

/-- A cell as it is shown. -/
def cellText : Json → String
  | .scalar .null => "NULL"
  | .scalar (.text s) => s
  | cell => cell.compact

/-- A text filled with spaces to a number of characters. -/
def pad (width : Nat) (s : String) : String :=
  s ++ String.ofList (List.replicate (width - s.length) ' ')

/-- The widths that make room for the cells of a row. -/
def widen : List Nat → List String → List Nat
  | width :: widths, cell :: cells => max width cell.utf8ByteSize :: widen widths cells
  | widths, _ => widths

/-- The widths of the columns. -/
def widths (names : List String) (rows : List (List String)) : List Nat :=
  rows.foldl widen (names.map String.utf8ByteSize)

/-- The text between two cells. -/
def divider : String := " │ "

/-- The text between two rules. -/
def crossing : String := "─┼─"

/-- A line of cells. -/
def cellLine (widths : List Nat) (cells : List String) : String :=
  joinWith divider (List.zipWith pad widths cells)

/-- A rule of the width of a column. -/
def rule (width : Nat) : String := String.ofList (List.replicate width '─')

/-- The line between names and rows. -/
def ruleLine (widths : List Nat) : String :=
  joinWith crossing (widths.map rule)

end Result

open Result

/-- The rows of a result as they are shown. -/
def ResultSet.shownRows (r : ResultSet) : List (List String) :=
  r.rows.map (·.map cellText)

/-- The lines of a result: names, rule, rows. -/
def ResultSet.tableLines (r : ResultSet) : List String :=
  let widths := widths r.columns r.shownRows
  cellLine widths r.columns :: ruleLine widths :: r.shownRows.map (cellLine widths)

/-- The line of a column in a list of columns whose longest name has the given width. -/
def Column.line (width : Nat) (c : Column) : String :=
  pad width c.name ++ "  " ++ c.type

/-- The lines of a list of columns. -/
def columnLines (columns : List Column) : List String :=
  columns.map (Column.line ((columns.map (·.name.utf8ByteSize)).foldl max 0))

end QuerySteps
