import QuerySteps.Files
import QuerySteps.Pipeline.Json
import QuerySteps.Toml.Reader

/-!
# Pipelines in files

A pipeline is written in JSON or in TOML.  A file whose name ends in `.toml` is read as TOML, every
other file as JSON; the case of the letters counts.
-/

namespace QuerySteps

/-- How the text of a pipeline is written. -/
inductive Encoding where
  | json
  | toml
  deriving DecidableEq

/-- How the file at a path is written. -/
def Encoding.ofPath (path : String) : Encoding :=
  if Path.extension? path == some "toml" then toml else json

namespace Pipeline

/-- The pipeline that a TOML text writes. -/
def parseToml (s : String) : Except Error Pipeline :=
  match (Toml.parse? s).bind (ofJson? Toml.form) with
  | none => .error (.pipeline .malformed)
  | some p => .ok p

/-- The pipeline that a text writes. -/
def parse : Encoding → String → Except Error Pipeline
  | .json, s => parseJson s
  | .toml, s => parseToml s

/-- The pipeline in a file. -/
def load (files : Files) (path : String) : Except Error Pipeline :=
  match files.read path with
  | .error e => .error (.file e)
  | .ok s => parse (.ofPath path) s

end Pipeline

end QuerySteps
