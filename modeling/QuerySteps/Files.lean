import QuerySteps.Error

/-!
# Files

The files that the program may read, by their paths.  A path is relative to the working directory
unless it begins at the root.  Besides the directories that are listed, a path is a directory if
something lies below it.
-/

namespace QuerySteps

/-- What lies at a path. -/
inductive FileContent where
  | text (s : String)
  /-- Bytes that are no text, such as those of a database. -/
  | bytes
  | directory
  deriving DecidableEq

namespace Path

/-- The name of the root, as the first part of a path. -/
def root : String := "/"

/-- The name of the directory above. -/
def above : String := ".."

/-- The directory above the one that the parts lead to. -/
def goUp (done : List String) : List String :=
  match done.getLast? with
  | none => [above]
  | some name =>
    if name == above then done ++ [above] else if name == root then done else done.dropLast

/-- The names that a path is made of, without those that stay in place. -/
def parts (path : String) : List String :=
  (path.splitOn "/").foldl (fun done name =>
    if name == "" || name == "." then done
    else if name == above then goUp done
    else done ++ [name]) (if path.startsWith root then [root] else [])

/-- Whether a path can only name a directory. -/
def endsInDirectory (path : String) : Bool :=
  path.endsWith "/" || path.endsWith "/." || path.endsWith "/.."

/-- What follows the last point of a name; a point that begins the name is none. -/
def nameExtension? (name : List Char) : Option (List Char) :=
  let reversed := name.reverse
  match reversed.dropWhile (· != '.') with
  | _ :: _ :: _ => some (reversed.takeWhile (· != '.')).reverse
  | _ => none

/-- The extension of the file that a path names. -/
def extension? (path : String) : Option String := do
  let name ← (parts path).getLast?
  if name == above then none else (nameExtension? name.toList).map String.ofList

end Path

/-- Files with their paths. -/
structure Files where
  entries : List (String × FileContent)

namespace Files

/-- What is known of the place that parts lead to. -/
def at? (files : Files) (parts : List String) : Option FileContent :=
  match files.entries.find? fun entry => Path.parts entry.1 == parts with
  | some entry => some entry.2
  | none =>
    if parts == [Path.root] || parts.all (· == Path.above) ||
        files.entries.any fun entry => parts.isPrefixOf (Path.parts entry.1)
    then some .directory
    else none

/-- Whether a file stands where parts need a directory. -/
def isBlocked (files : Files) (parts : List String) : Bool :=
  files.entries.any fun entry =>
    entry.2 != .directory && (Path.parts entry.1).isPrefixOf parts

/-- The content of the file at a path. -/
def content (files : Files) (path : String) : Except FileError FileContent :=
  let parts := Path.parts path
  if path == "" then .error .notFound
  else match files.at? parts with
    | some .directory => .error .isDirectory
    | some found => if Path.endsInDirectory path then .error .notDirectory else .ok found
    | none => .error (if files.isBlocked parts then .notDirectory else .notFound)

/-- Whether a path names a file. -/
def isFile (files : Files) (path : String) : Bool :=
  match files.content path with
  | .ok _ => true
  | .error _ => false

/-- Whether a path leads into a directory that is there. -/
def hasDirectory (files : Files) (path : String) : Bool :=
  files.at? (Path.parts path).dropLast == some .directory

/-- The text in the file at a path. -/
def read (files : Files) (path : String) : Except FileError String :=
  match files.content path with
  | .ok (.text s) => .ok s
  | .ok _ => .error .notText
  | .error e => .error e

end Files

end QuerySteps
