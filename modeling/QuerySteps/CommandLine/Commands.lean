import QuerySteps.CommandLine.Arguments
import QuerySteps.CommandLine.Report
import QuerySteps.Pipeline.File
import QuerySteps.Store.Database

/-!
# Running commands

A command first reads the settings, then the pipeline and builds its query, then connects to the
database; the first error ends it.  The URL of the database is the option, or else the variable of
the environment, or else the setting.  Without any, a pipeline that asks for no columns can still be
compiled.
-/

namespace QuerySteps.CommandLine

open Store (Databases)

/-- What a command finds around it. -/
structure Surroundings where
  databases : Databases
  /-- The URL that the environment gives. -/
  databaseUrl : Option String

/-- The backend without a database. -/
def offline : Backend where
  describe _ := .error (.settings .columnsNeedDatabase)
  run _ _ := .error (.settings .rowsNeedDatabase)

/-- The query of the pipeline at a path, or what to report. -/
def loadQuery (files : Files) (ops : Formula.Operators) (path : String) : Except Outcome Query :=
  match Pipeline.load files path with
  | .error e => .error (failedLoad path e)
  | .ok p => (p.build ops).mapError failedWith

/-- The URL of the database. -/
def urlOf (s : Surroundings) (i : Invocation) (settings : Settings) : Option String :=
  i.databaseUrl <|> s.databaseUrl <|> settings.databaseUrl

/-- What is said about a connection before it is made. -/
def connectingText (verbose : Bool) (url : String) : String :=
  if verbose then lines ["Connecting to: " ++ url] else ""

/-- Goes on with the backend that a URL names. -/
def withDatabase (s : Surroundings) (verbose : Bool) (url : String) (next : Backend → Outcome) :
    Outcome :=
  let outcome := match s.databases.connect url with
    | .error e => failedWith e
    | .ok tables => next tables.backend
  outcome.after "" (connectingText verbose url)

/-- Goes on with the result of work that asks a backend. -/
def onResult {α : Type} (asked : Asked α) (next : α → Outcome) : Outcome :=
  match asked.result with
  | .error e => failedWith e
  | .ok a => next a

/-- Prints the statement of a query. -/
def compileWith (q : Query) (b : Backend) : Outcome :=
  onResult (q.toSql b) fun sql => printed (lines [sql])

/-- Prints the columns of a query. -/
def schemaWith (q : Query) (format : OutputFormat) (b : Backend) : Outcome :=
  onResult (q.schema b) fun columns => printed (columnsText format columns)

/-- Prints the rows of a query, and with `verbose` its statement before them. -/
def runWith (q : Query) (format : OutputFormat) (verbose convertDates : Bool) (b : Backend) :
    Outcome :=
  onResult (q.toSql b) fun sql =>
    let outcome := match b.run sql convertDates with
      | .error e => failedWith e
      | .ok r => printed (rowsText format r)
    outcome.after (if verbose then statementText sql else "") ""

/-- Runs a command with the settings that it found. -/
def runCommand (s : Surroundings) (i : Invocation) (settings : Settings) : Outcome :=
  let format := i.format.getD settings.format
  let url := urlOf s i settings
  let onQuery (path : String) (next : Query → Outcome) : Outcome :=
    match loadQuery s.databases.files settings.operators path with
    | .error outcome => outcome
    | .ok q => next q
  let onDatabase (next : Backend → Outcome) : Outcome :=
    match url with
    | some url => withDatabase s i.verbose url next
    | none => failedWithoutDatabase
  match i.command with
  | .compile path => onQuery path fun q =>
    match url with
    | some url => withDatabase s i.verbose url (compileWith q)
    | none => compileWith q offline
  | .schema path => onQuery path fun q => onDatabase (schemaWith q format)
  | .run path convertDates => onQuery path fun q =>
    onDatabase (runWith q format i.verbose (convertDates || settings.convertDates))
  | .parse formula => formulaOutcome settings.operators formula
  | .types => printed (lines supportedTypes)

/-- Runs a command. -/
def Invocation.execute (i : Invocation) (s : Surroundings) : Outcome :=
  match Settings.load s.databases.files i.config with
  | .error e => failedWith e
  | .ok settings => runCommand s i settings

end QuerySteps.CommandLine
