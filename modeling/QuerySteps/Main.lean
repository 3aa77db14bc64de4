import QuerySteps.CommandLine.Commands

/-!
# The program

Looks up the files and variables that the arguments ask for, runs the command on them and prints
what it says.  A database is kept in a file as the statements that make it.
-/

namespace QuerySteps.Main

open CommandLine

/-- The code of an error about a directory that is read as a file. -/
def directoryCode : UInt32 := 21

/-- What lies at a path, if anything does. -/
def look (path : String) : IO (Option FileContent) := do
  match ← (IO.FS.readBinFile path).toBaseIO with
  | .ok bytes =>
    match String.fromUTF8? bytes with
    | some s => return some (.text s)
    | none => return some .bytes
  | .error (.inappropriateType _ code _) =>
    return if code == directoryCode then some .directory else none
  | .error _ => return none

/-- What lies at a path, listed under a path. -/
def listed (path : String) (found : Option FileContent) : List (String × FileContent) :=
  (found.map fun content => (path, content)).toList

/-- The files in which settings may be. -/
def settingsFiles (named : Option String) : IO (List (String × FileContent)) := do
  match named with
  | some path => return listed path (← look path)
  | none =>
    let home := (← IO.getEnv "HOME").getD "."
    match Settings.usualPaths with
    | [here, inHome] =>
      return listed here (← look here) ++ listed inHome (← look (home ++ "/" ++ inHome))
    | _ => return []

/-- The file of the pipeline that a command works on. -/
def pipelineFile : Command → IO (List (String × FileContent))
  | .compile path | .schema path | .run path _ => do return listed path (← look path)
  | .parse _ | .types => return []

/-- The file of the database that a URL names. -/
def databaseFile (url : Option String) : IO (List (String × FileContent)) := do
  match url.bind Store.Opening.ofUrl? with
  | some opening =>
    if opening.inMemory then return []
    else return listed opening.path (← look opening.path)
  | none => return []

/-- The stores that the files of databases hold. -/
def storesOf (files : List (String × FileContent)) : List (String × Store.Tables) :=
  files.filterMap fun (path, content) =>
    match content with
    | .text script => (Store.Tables.ofScript? script).map (path, ·)
    | _ => none

/-- What a command finds around it. -/
def surroundings (i : Invocation) : IO Surroundings := do
  let databaseUrl ← IO.getEnv "SQLWEAVE_DATABASE_URL"
  let settingsEntries ← settingsFiles i.config
  let settings := (Settings.load ⟨settingsEntries⟩ i.config).toOption.getD .default
  let databases ← databaseFile (i.databaseUrl <|> databaseUrl <|> settings.databaseUrl)
  let entries := settingsEntries ++ (← pipelineFile i.command) ++ databases
  return ⟨⟨⟨entries⟩, storesOf databases⟩, databaseUrl⟩

/-- The exit code for arguments that are not well formed. -/
def usageCode : UInt32 := 2

/-- What is said about arguments that are not well formed. -/
def usage : String :=
  "usage: sqlweave [--database-url URL] [--config FILE] [--format table|json] [--verbose]\n" ++
    "  compile FILE | schema FILE | run FILE [--convert-datetimes] | parse FORMULA | types\n"

end QuerySteps.Main

/-- Runs the command that the arguments ask for. -/
def main (args : List String) : IO UInt32 := do
  match QuerySteps.CommandLine.Invocation.ofArgs? args with
  | none =>
    IO.eprint QuerySteps.Main.usage
    return QuerySteps.Main.usageCode
  | some invocation =>
    let outcome := invocation.execute (← QuerySteps.Main.surroundings invocation)
    IO.print outcome.output
    IO.eprint outcome.errors
    return if outcome.success then 0 else 1
