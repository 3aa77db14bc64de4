import QuerySteps.Backend
import QuerySteps.Files
import QuerySteps.Result.Temporal
import QuerySteps.Store.Relation

/-!
# Stores as databases

A store answers the questions of a backend.  A column is described by its declared type; what is no
column of a table has the kind of its value in the first row.  A statement that is no SELECT of the
store's tables is refused before any row is looked at, one whose sum overflows when its rows are
made.

A database is named by a URL: `sqlite::memory:` is a store without tables, `sqlite:` and a path is
the store kept in that file.
-/

namespace QuerySteps.Store

namespace Relation

/-- The name of the type of a field, by its place. -/
def typeName (r : Relation) (f : Field) (place : Nat) : String :=
  match f.declared.bind reportedType? with
  | some type => type
  | none =>
    let shown : Option Kind := (r.rows.bind List.head?).map fun row => (row.getD place .null).kind
    match shown with
    | none => f.kind.typeName
    | some .null => f.kind.typeName
    | some kind => kind.typeName

/-- The fields as columns of a result. -/
def columns (r : Relation) : List Column :=
  r.fields.zipIdx.map fun (f, place) => .declared f.name (r.typeName f place)

/-- The result that shows rows of the relation. -/
def result (r : Relation) (rows : List Row) : ResultSet where
  columns := r.columns.map (·.name)
  rows := rows.map (·.map Value.toJson)
  columnTypes := r.columns.map (·.type)

end Relation

namespace Tables

/-- The relation that a text asks for, unless it is refused. -/
def ask? (s : Tables) (sql : String) : Option Relation :=
  (Select.parse? sql).bind (·.relation? s)

/-- The columns that a text asks for. -/
def describe (s : Tables) (sql : String) : Except Error (List Column) :=
  match s.ask? sql with
  | none => .error (.describe .refused)
  | some r => .ok r.columns

/-- The rows that a text asks for. -/
def query (s : Tables) (sql : String) (convert : Bool) : Except Error ResultSet :=
  match s.ask? sql with
  | none => .error (.describe .refused)
  | some r =>
    match r.rows with
    | none => .error (.run .refused)
    | some rows => .ok (if convert then (r.result rows).convertTemporal else r.result rows)

/-- A store as a backend. -/
def backend (s : Tables) : Backend := ⟨s.describe, s.query⟩

/-- The store after the statement that a text writes. -/
def execute (s : Tables) (sql : String) : Except Error Tables :=
  match (Statement.parse? sql).bind s.execute? with
  | none => .error (.run .refused)
  | some s => .ok s

/-- The store that statements make, one after the other; a refused one changes nothing. -/
def ofStatements (statements : List String) : Tables :=
  statements.foldl (fun s sql =>
    match s.execute sql with
    | .ok s => s
    | .error _ => s) empty

end Tables

/-! ## URLs -/

/-- How a database is opened. -/
structure Opening where
  path : String
  /-- Whether a missing file is made. -/
  creates : Bool
  /-- Whether nothing is kept in a file. -/
  inMemory : Bool

/-- The name of the store that no file holds. -/
def memoryName : String := ":memory:"

/-- A text without any repetition of a word at its front, at most `fuel` of them. -/
def dropRepeated (word : List Char) : Nat → List Char → List Char
  | 0, s => s
  | fuel + 1, s =>
    if word.isPrefixOf s && !word.isEmpty then dropRepeated word fuel (s.drop word.length) else s

/-- What an option of a URL changes; an option or a value that is not known is refused. -/
def Opening.withOption? (o : Opening) (option : String) : Option Opening :=
  match option.splitOn "=" with
  | [""] => some o
  | ["mode", "ro"] => some o
  | ["mode", "rw"] => some o
  | ["mode", "rwc"] => some { o with creates := true }
  | ["mode", "memory"] => some { o with inMemory := true }
  | ["cache", "private"] => some o
  | ["cache", "shared"] => some o
  | ["immutable", "true"] => some o
  | ["immutable", "false"] => some o
  | ["immutable", "1"] => some o
  | ["immutable", "0"] => some o
  | _ => none

/-- How a URL without its scheme says to open a database. -/
def Opening.ofText? (s : String) : Option Opening :=
  match s.splitOn "?" with
  | [] => none
  | path :: options =>
    let start : Opening := ⟨path, false, path == memoryName || path == ""⟩
    ("?".intercalate options).splitOn "&" |>.foldlM withOption? start

/-- The beginning of the URLs of stores. -/
def Opening.scheme : String := "sqlite:"

/-- How a URL says to open a database; slashes after the scheme do not count. -/
def Opening.ofUrl? (url : String) : Option Opening :=
  let rest := dropRepeated scheme.toList url.length url.toList
  ofText? (String.ofList (dropRepeated ['/', '/'] rest.length rest))

/-- The databases at hand: files, and the stores that some of them hold. -/
structure Databases where
  files : Files
  stores : List (String × Tables)

namespace Databases

/-- The store that an opening leads to, if there is one. -/
def open? (d : Databases) (o : Opening) : Option Tables :=
  if o.inMemory then some .empty
  else
    match d.stores.find? fun entry => Path.parts entry.1 == Path.parts o.path with
    | some (_, s) => some s
    | none =>
      match d.files.content o.path with
      | .error .notFound => if o.creates && d.files.hasDirectory o.path then some .empty else none
      | _ => none

/-- The store that a URL names. -/
def connect (d : Databases) (url : String) : Except Error Tables :=
  if url.startsWith Opening.scheme then
    match (Opening.ofUrl? url).bind d.open? with
    | some s => .ok s
    | none => .error (.connection .refused)
  else if url.startsWith "postgres://" || url.startsWith "postgresql://" then
    .error (.connection .refused)
  else
    .error (.connection (.unsupportedUrl url))

end Databases

end QuerySteps.Store
