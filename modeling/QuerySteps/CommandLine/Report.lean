import QuerySteps.Result.Json
import QuerySteps.Result.Table
import QuerySteps.Settings
import QuerySteps.Tree.Json

/-!
# What commands print

The texts that the commands print, and how errors are reported.  Where an error has no known detail
its report ends after the title, without a line break.
-/

namespace QuerySteps.CommandLine

/-- What a command prints and whether it succeeds. -/
structure Outcome where
  success : Bool
  output : String
  errors : String
  deriving DecidableEq

/-- Lines, each with its break. -/
def lines (ls : List String) : String :=
  String.join (ls.map (· ++ "\n"))

/-- Text on the standard output. -/
def printed (output : String) : Outcome := ⟨true, output, ""⟩

/-- Text printed before what is printed later. -/
def Outcome.after (o : Outcome) (output errors : String) : Outcome :=
  { o with output := output ++ o.output, errors := errors ++ o.errors }

/-- The whole chain of an error's explanations, with its break if it is complete.  The cause of a
file error is said twice, as the detail of the error and as its cause. -/
def chain (e : Error) : String :=
  match e, e.detail? with
  | _, none => e.title
  | .file cause, some detail => e.title ++ ": " ++ detail ++ ": " ++ cause.message ++ "\n"
  | _, some detail => e.title ++ ": " ++ detail ++ "\n"

/-- A failure with an explanation. -/
def failed (explanation : String) : Outcome := ⟨false, "", "Error: " ++ explanation⟩

/-- A failure for an error. -/
def failedWith (e : Error) : Outcome := failed (chain e)

/-- A failure to load the pipeline at a path. -/
def failedLoad (path : String) (e : Error) : Outcome :=
  failed ("Failed to load pipeline '" ++ path ++ "': " ++ chain e)

/-- A failure for want of a database. -/
def failedWithoutDatabase : Outcome :=
  failed ("No database URL. " ++ Error.databaseHint ++ "\n")

/-- Columns as they are printed. -/
def columnsText (format : OutputFormat) (columns : List Column) : String :=
  match format with
  | .json => lines [(Json.array (columns.map (·.toJson))).pretty]
  | .table => lines (columnLines columns)

/-- Rows as they are printed. -/
def rowsText (format : OutputFormat) (r : ResultSet) : String :=
  match format with
  | .json => lines [r.toJson.pretty]
  | .table =>
    if r.isEmpty then lines ["(no results)"]
    else lines (r.tableLines ++ ["", toString r.rowCount ++ " row(s) returned"])

/-- The statement as it is printed before its rows. -/
def statementText (sql : String) : String :=
  lines ["Generated SQL:", sql, ""]

/-- The line under a formula that points at a position. -/
def caretLine (position : Nat) : String :=
  "  " ++ String.ofList (List.replicate position ' ') ++ "^"

/-- The lines about a formula that cannot be read. -/
def parseErrorLines (formula : String) (e : Formula.ParseError) : List String :=
  ["Parse Error: " ++ e.cause.message, "  " ++ formula, caretLine e.position]

/-- The lines about the tree of a formula. -/
def treeLines (tree : Tree) : List String :=
  ["Expression Tree:", tree.toJson.pretty, ""]

/-- How a formula is read. -/
def formulaOutcome (ops : Formula.Operators) (formula : String) : Outcome :=
  let heading := lines ["Formula: " ++ formula, ""]
  match Formula.parse ops formula with
  | .error e => ⟨true, heading, lines (parseErrorLines formula e)⟩
  | .ok tree =>
    match tree.toExpr with
    | .error e => ⟨true, heading ++ lines (treeLines tree), "Error: " ++ chain (.expression e)⟩
    | .ok expr => printed (heading ++ lines (treeLines tree ++ ["SQL:", "  " ++ expr.sql]))

end QuerySteps.CommandLine
