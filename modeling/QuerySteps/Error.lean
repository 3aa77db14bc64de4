import QuerySteps.Formula.Reader

/-!
# Errors

Everything that can go wrong, by cause.  An error is shown as a title and, where the library knows
more, a detail after a colon: `Error.title` and `Error.detail?`.  What a malformed JSON or TOML text
lacks, and why a database refused a statement, is not said.
-/

namespace QuerySteps

/-- Why a file cannot be read. -/
inductive FileError where
  | notFound
  | isDirectory
  | notDirectory
  | notText
  deriving DecidableEq

/-- The explanation shown to users. -/
def FileError.message : FileError → String
  | notFound => "No such file or directory (os error 2)"
  | isDirectory => "Is a directory (os error 21)"
  | notDirectory => "Not a directory (os error 20)"
  | notText => "stream did not contain valid UTF-8"

/-- Why a connection cannot be made. -/
inductive ConnectionError where
  | unsupportedUrl (url : String)
  | refused
  deriving DecidableEq

/-- Why a statement cannot be described. -/
inductive DescribeError where
  /-- No answer is on record for the statement. -/
  | unknownStatement (sql : String)
  | refused
  deriving DecidableEq

/-- Why a statement cannot be run. -/
inductive RunError where
  /-- No answer is on record for the statement. -/
  | unknownStatement (sql : String)
  | refused
  deriving DecidableEq

/-- What is wrong with the settings. -/
inductive SettingsError where
  | malformed
  | unreadable (path : String) (cause : FileError)
  /-- The columns of a join are asked for without a database. -/
  | columnsNeedDatabase
  /-- A query is run without a database. -/
  | rowsNeedDatabase
  deriving DecidableEq

/-- What is wrong with a pipeline. -/
inductive PipelineError where
  | malformed
  | emptyTableName
  | joinWithoutKeys
  deriving DecidableEq

/-- What can go wrong. -/
inductive Error where
  | formula (e : Formula.ParseError)
  | expression (e : ExprError)
  | json
  | describe (e : DescribeError)
  | connection (e : ConnectionError)
  | run (e : RunError)
  | settings (e : SettingsError)
  | pipeline (e : PipelineError)
  | file (e : FileError)
  deriving DecidableEq

namespace Error

/-- The kind of an error, as the beginning of its message. -/
def title : Error → String
  | formula e => s!"Parse error at position {e.position}"
  | expression _ => "Invalid expression"
  | json => "JSON error"
  | describe _ => "Database error"
  | connection _ => "Connection error"
  | run _ => "Execution error"
  | settings _ => "Configuration error"
  | pipeline _ => "Pipeline error"
  | file _ => "IO error"

/-- How the user can name a database. -/
def databaseHint : String := "Use --database-url or set SQLWEAVE_DATABASE_URL"

/-- The rest of the message, where it is known. -/
def detail? : Error → Option String
  | formula e => some e.cause.message
  | expression e => some e.message
  | json => none
  | describe (.unknownStatement sql) => some s!"no such table in: {sql}"
  | describe .refused => none
  | connection (.unsupportedUrl url) =>
    some s!"unsupported database URL '{url}' (expected sqlite: or postgres://)"
  | connection .refused => none
  | run (.unknownStatement sql) => some s!"unexpected query: {sql}"
  | run .refused => none
  | settings .malformed => none
  | settings (.unreadable path cause) => some (path ++ ": " ++ cause.message)
  | settings .columnsNeedDatabase => some ("resolving columns needs a database. " ++ databaseHint)
  | settings .rowsNeedDatabase => some ("running a query needs a database. " ++ databaseHint)
  | pipeline .malformed => none
  | pipeline .emptyTableName => some "table name is empty"
  | pipeline .joinWithoutKeys => some "a join needs at least one column to join on"
  | file e => some e.message

/-- The whole message, where it is known. -/
def message? (e : Error) : Option String :=
  e.detail?.map fun detail => e.title ++ ": " ++ detail

end Error

end QuerySteps
