import QuerySteps.Json.Record
import QuerySteps.Toml.Number
import QuerySteps.Toml.Table

/-!
# Reading TOML

A document of TOML 1.0 is a list of lines: headers of tables and keys with their values.  Its
meaning is the value `Toml.parse?` gives, an object made of the same values that JSON texts write,
so that the readers of records serve both notations.  A date or time becomes a record that no field
takes.  A byte order mark at the front is passed over.
-/

namespace QuerySteps.Toml

/-- How deep arrays and tables within a line may be nested. -/
def deepest : Nat := 79

/-- How records in TOML differ from those in JSON: an array may be longer than the record it stands
for, and the record of a choice has no unknown keys. -/
def form : Json.Form := ⟨true, false⟩

/-- Drops blanks and a comment at the front. -/
def skipComment (s : List Char) : List Char :=
  match skipSpacing s with
  | '#' :: rest => rest.dropWhile isPlain
  | rest => rest

/-- What follows the rest of a line that holds no more than a comment. -/
def endLine? (s : List Char) : Option (List Char) :=
  match skipComment s with
  | [] => some []
  | rest => lineBreak? rest

/-- Drops blanks, comments and line breaks at the front, at most `fuel` lines of them. -/
def skipLines : Nat → List Char → List Char
  | 0, s => s
  | fuel + 1, s =>
    match lineBreak? (skipComment s) with
    | some rest => skipLines fuel rest
    | none => skipComment s

/-- The object that the keys and values between braces make. -/
def inlineTable? (entries : List (Key × Json)) : Option Json := do
  let members ← entries.foldlM (fun members entry => put? entry.1 entry.2 members) []
  return .object (membersToJson members)

mutual

/-- The value at the front, inside `depth` brackets. -/
def readValue? : Nat → Nat → List Char → Option (Json × List Char)
  | 0, _, _ => none
  | fuel + 1, depth, s =>
    match s with
    | 't' :: 'r' :: 'u' :: 'e' :: rest => some (.scalar (.bool true), rest)
    | 'f' :: 'a' :: 'l' :: 's' :: 'e' :: rest => some (.scalar (.bool false), rest)
    | '[' :: rest =>
      if depth < deepest then
        (readItems? fuel (depth + 1) rest).map fun read => (.array read.1, read.2)
      else none
    | '\x7b' :: rest =>
      if depth < deepest then
        match skipSpacing rest with
        | '\x7d' :: after => some (.object [], after)
        | rest => do
          let (entries, after) ← readEntries? fuel (depth + 1) rest
          return (← inlineTable? entries, after)
      else none
    | s =>
      match text? s with
      | some (t, rest) => some (.text (String.ofList t), rest)
      | none =>
        match moment? s with
        | some rest => some (momentValue, rest)
        | none => number? s

/-- The items up to the closing bracket; a comma may stand after the last one. -/
def readItems? : Nat → Nat → List Char → Option (List Json × List Char)
  | 0, _, _ => none
  | fuel + 1, depth, s =>
    match skipLines s.length s with
    | ']' :: after => some ([], after)
    | s => do
      let (item, rest) ← readValue? fuel depth s
      match skipLines rest.length rest with
      | ',' :: rest => do
        let (items, after) ← readItems? fuel depth rest
        return (item :: items, after)
      | ']' :: after => some ([item], after)
      | _ => none

/-- The keys and values up to the closing brace, all on one line. -/
def readEntries? : Nat → Nat → List Char → Option (List (Key × Json) × List Char)
  | 0, _, _ => none
  | fuel + 1, depth, s => do
    let (key, rest) ← key? s
    let rest ← Calendar.literal '=' rest
    let (value, rest) ← readValue? fuel depth (skipSpacing rest)
    match skipSpacing rest with
    | ',' :: rest => do
      let (entries, after) ← readEntries? fuel depth rest
      return ((key, value) :: entries, after)
    | '\x7d' :: after => some ([(key, value)], after)
    | _ => none

end

/-- One line of a document. -/
inductive Line where
  | table (key : Key)
  | item (key : Key)
  | entry (key : Key) (v : Json)

/-- The line at the front, with its end. -/
def line? (s : List Char) : Option (Line × List Char) :=
  match s with
  | '[' :: '[' :: rest => do
    let (key, rest) ← key? rest
    let rest ← Calendar.literal ']' rest
    let rest ← Calendar.literal ']' rest
    return (.item key, ← endLine? rest)
  | '[' :: rest => do
    let (key, rest) ← key? rest
    let rest ← Calendar.literal ']' rest
    return (.table key, ← endLine? rest)
  | s => do
    let (key, rest) ← key? s
    let rest ← Calendar.literal '=' rest
    let (value, rest) ← readValue? (2 * rest.length + 1) 0 (skipSpacing rest)
    return (.entry key value, ← endLine? rest)

/-- The lines of a document, at most `fuel` of them. -/
def lines? : Nat → List Char → Option (List Line)
  | 0, _ => none
  | fuel + 1, s =>
    match skipLines s.length s with
    | [] => some []
    | s => do
      let (line, rest) ← line? s
      return line :: (← lines? fuel rest)

/-- The tables of a document while it is read, and the path of the table that lines extend. -/
structure Document where
  current : List String
  members : Members

/-- The document after one more line. -/
def Document.extend? (d : Document) : Line → Option Document
  | .table key => (openTable? key d.members).map fun members => ⟨key.path ++ [key.last], members⟩
  | .item key => (openItem? key d.members).map fun members => ⟨key.path ++ [key.last], members⟩
  | .entry key v =>
    (within? false (fun _ => put? key v) d.current .defined d.members).map fun members =>
      { d with members }

/-- A text without the byte order mark at its front. -/
def dropMark : List Char → List Char
  | '\ufeff' :: rest => rest
  | s => s

/-- The object that a document writes. -/
def parse? (s : String) : Option Json := do
  let input := dropMark s.toList
  let lines ← lines? (input.length + 1) input
  let document ← lines.foldlM Document.extend? (Document.mk [] [])
  return .object (membersToJson document.members)

end QuerySteps.Toml
