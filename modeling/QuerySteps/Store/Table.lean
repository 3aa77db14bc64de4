import QuerySteps.Store.Affinity
import QuerySteps.Store.Token
import QuerySteps.Store.Select

/-!
# Tables and the statements that make them

A store is a list of tables.  Two statements change it: one makes a table from names and types, the
other adds rows.  Values are brought to the affinity of their columns when they are stored.  Every
other statement is refused, and so are a table that exists already, one that does not, and rows of
another width than the table.

The answer to a statement is the number of rows that the last insertion added, also for a statement
that adds none.
-/

namespace QuerySteps.Store

/-- A column of a table. -/
structure TableColumn where
  name : String
  declared : String
  deriving DecidableEq

/-- The affinity of a column. -/
def TableColumn.affinity (c : TableColumn) : Affinity := .ofType c.declared

/-- A table with its rows, in the order in which they were added. -/
structure Table where
  name : String
  columns : List TableColumn
  rows : List Row

/-- Tables, and the number of rows that the last insertion added. -/
structure Tables where
  tables : List Table
  added : Nat

/-- A store without tables. -/
def Tables.empty : Tables := ⟨[], 0⟩

/-- The table with a name. -/
def Tables.find? (s : Tables) (name : String) : Option Table :=
  s.tables.find? fun table => sameName table.name name

/-- A statement that changes a store. -/
inductive Statement where
  | create (name : String) (columns : List TableColumn)
  | insert (name : String) (rows : List Row)

/-! ## Reading statements -/

/-- What follows a word of a type. -/
def typePart? : List Lexeme → Option (List Lexeme)
  | ⟨_, _, .word w⟩ :: rest => if isReserved w then none else some rest
  | ⟨_, _, .name _⟩ :: rest => some rest
  | _ => none

/-- The size that may follow the words of a type. -/
def typeSize? : List Lexeme → Option (List Lexeme)
  | ⟨_, _, .mark "("⟩ :: ⟨_, _, .number _⟩ :: ⟨_, _, .mark ")"⟩ :: rest => some rest
  | ⟨_, _, .mark "("⟩ :: ⟨_, _, .number _⟩ :: ⟨_, _, .mark ","⟩ :: ⟨_, _, .number _⟩ ::
      ⟨_, _, .mark ")"⟩ :: rest => some rest
  | _ => none

/-- What follows the type of a column, which may be missing; at most `fuel` words of it. -/
def afterType : Nat → List Lexeme → List Lexeme
  | 0, s => s
  | fuel + 1, s =>
    match typePart? s with
    | some rest =>
      match afterType fuel rest with
      | rest => (typeSize? rest).getD rest
    | none => s

/-- The column at the front. -/
def column? (s : List Lexeme) : Option (TableColumn × List Lexeme) := do
  let ((name, _), rest) ← identifier? s
  let after := afterType rest.length rest
  return (⟨name, writtenText (rest.take (rest.length - after.length))⟩, after)

/-- Items with commas between them, up to a closing parenthesis. -/
def listed? {α : Type} (item? : List Lexeme → Option (α × List Lexeme)) :
    Nat → List Lexeme → Option (List α × List Lexeme)
  | 0, _ => none
  | fuel + 1, s => do
    let (item, rest) ← item? s
    match afterMark? "," rest with
    | some rest => do
      let (items, rest) ← listed? item? fuel rest
      return (item :: items, rest)
    | none => return ([item], ← afterMark? ")" rest)

/-- A written value. -/
def literal? : List Lexeme → Option (Value × List Lexeme)
  | ⟨_, _, .number n⟩ :: rest => some (numberOf false n, rest)
  | ⟨_, _, .mark "-"⟩ :: ⟨_, _, .number n⟩ :: rest => some (numberOf true n, rest)
  | ⟨_, _, .mark "+"⟩ :: ⟨_, _, .number n⟩ :: rest => some (numberOf false n, rest)
  | ⟨_, _, .text s⟩ :: rest => some (.text s, rest)
  | ⟨_, _, .blob bytes⟩ :: rest => some (.blob bytes, rest)
  | s => (keyword? "NULL" s).map fun rest => (.null, rest)

/-- A row between parentheses. -/
def row? (s : List Lexeme) : Option (Row × List Lexeme) := do
  let rest ← afterMark? "(" s
  listed? literal? (rest.length + 1) rest

/-- Rows with commas between them, at most `fuel` of them. -/
def rows? : Nat → List Lexeme → Option (List Row × List Lexeme)
  | 0, _ => none
  | fuel + 1, s => do
    let (row, rest) ← row? s
    match afterMark? "," rest with
    | some rest => do
      let (rows, rest) ← rows? fuel rest
      return (row :: rows, rest)
    | none => some ([row], rest)

/-- The statement at the front. -/
def statement? (s : List Lexeme) : Option (Statement × List Lexeme) :=
  match keyword? "CREATE" s with
  | some rest => do
    let rest ← keyword? "TABLE" rest
    let ((name, _), rest) ← identifier? rest
    let rest ← afterMark? "(" rest
    let (columns, rest) ← listed? column? (rest.length + 1) rest
    return (.create name columns, rest)
  | none => do
    let rest ← keyword? "INSERT" s
    let rest ← keyword? "INTO" rest
    let ((name, _), rest) ← identifier? rest
    let rest ← keyword? "VALUES" rest
    let (rows, rest) ← rows? (rest.length + 1) rest
    return (.insert name rows, rest)

/-- The tokens of statements with semicolons between them. -/
def separated : List Lexeme → List (List Lexeme)
  | [] => [[]]
  | lexeme :: rest =>
    match afterMark? ";" [lexeme], separated rest with
    | some _, parts => [] :: parts
    | none, part :: parts => (lexeme :: part) :: parts
    | none, [] => [[lexeme]]

/-- The statement that tokens make up. -/
def Statement.ofLexemes? (s : List Lexeme) : Option Statement := do
  let (statement, rest) ← statement? s
  if rest.isEmpty then some statement else none

/-- The statements that a text writes. -/
def Statement.parseAll? (sql : String) : Option (List Statement) := do
  ((separated (← tokens? sql)).filter (!·.isEmpty)).mapM Statement.ofLexemes?

/-- The only statement that a text writes. -/
def Statement.parse? (sql : String) : Option Statement := do
  match ← Statement.parseAll? sql with
  | [statement] => some statement
  | _ => none

/-! ## Executing statements -/

/-- Whether no two columns have the same name. -/
def distinctNames : List TableColumn → Bool
  | [] => true
  | c :: columns => columns.all (!sameName c.name ·.name) && distinctNames columns

/-- A row as a table keeps it. -/
def Table.storedRow (t : Table) (row : Row) : Row :=
  List.zipWith (fun column v => v.stored column.affinity) t.columns row

/-- The table with further rows. -/
def Table.append (t : Table) (rows : List Row) : Table :=
  { t with rows := t.rows ++ rows.map t.storedRow }

/-- The store after a statement, if it is not refused. -/
def Tables.execute? (s : Tables) : Statement → Option Tables
  | .create name columns =>
    if (s.find? name).isNone && distinctNames columns then
      some { s with tables := s.tables ++ [⟨name, columns, []⟩] }
    else none
  | .insert name rows =>
    match s.find? name with
    | none => none
    | some table =>
      if rows.all (·.length == table.columns.length) then
        some { tables := s.tables.map fun t =>
                 if sameName t.name name then t.append rows else t
               added := rows.length }
      else none

/-- The store that the statements of a text make, if none is refused. -/
def Tables.ofScript? (script : String) : Option Tables := do
  (← Statement.parseAll? script).foldlM Tables.execute? .empty

end QuerySteps.Store
