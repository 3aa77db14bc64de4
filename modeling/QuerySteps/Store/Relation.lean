import QuerySteps.Store.Calculation
import QuerySteps.Store.Table

/-!
# The rows of a SELECT

A SELECT gives a relation: fields and rows.  It is made in this order:

* the rows of all origins are combined, each with each;
* the condition keeps rows; it sees the columns of the origins and, where they lack a name, the
  named items of the output;
* if there are keys or functions of groups, the rows are put in the order of the keys and those with
  equal keys become one row.  What is no function of the group is taken from its first row, or from
  the row of the extreme if there is exactly one;
* the items of the output are computed.

A name that is not found, or is found twice, refuses the statement whatever the rows are.  A sum
that overflows does not: then there are fields but no rows.
-/

namespace QuerySteps.Store

/-- A column of a relation. -/
structure Field where
  name : String
  /-- The declared type, if the column is one of a table. -/
  declared : Option String
  affinity : Option Affinity
  /-- The kind of its values where no row shows one. -/
  kind : Kind

/-- Fields, and rows unless a sum overflowed. -/
structure Relation where
  fields : List Field
  rows : Option (List Row)

/-- A field and the name of the origin it belongs to. -/
structure ScopedField where
  origin : String
  field : Field

/-- The columns that a term may name. -/
abbrev Scope := List ScopedField

/-- The columns of a table as fields. -/
def TableColumn.toField (c : TableColumn) : Field where
  name := c.name
  declared := if c.declared == "" then none else some c.declared
  affinity := some c.affinity
  kind :=
    match reportedType? c.declared with
    | some "INTEGER" => .integer
    | some "BOOLEAN" => .integer
    | some "REAL" => .real
    | some "BLOB" => .blob
    | some _ => .text
    | none => .null

/-- All rows of a table. -/
def Table.relation (t : Table) : Relation := ⟨t.columns.map (·.toField), some t.rows⟩

/-! ## Names -/

/-- Whether a column goes by a name, perhaps of a named origin. -/
def ScopedField.answers (origin : Option String) (name : String) (f : ScopedField) : Bool :=
  sameName f.field.name name && origin.all (sameName f.origin)

/-- A cell of the row as a calculation. -/
def cellOf (place : Nat) (f : Field) : Calculation := .cell place f.affinity f.kind

/-- The columns that go by a name. -/
def Scope.matching (scope : Scope) (origin : Option String) (name : String) :
    List Calculation :=
  scope.zipIdx.filterMap fun (f, place) =>
    if f.answers origin name then some (cellOf place f.field) else none

/-- The named items of an output. -/
abbrev Names := List (String × Calculation)

/-- What a name stands for if it is no column: an item of the output, a truth value, or, between
quotes, its own text. -/
def otherMeaning? (names : Names) (name : String) (quoted : Bool) : Option Calculation :=
  match names.find? fun entry => sameName entry.1 name with
  | some (_, c) => some c
  | none =>
    if quoted then some (.constant (.text name))
    else if sameName name "TRUE" then some (.constant (.ofBool true))
    else if sameName name "FALSE" then some (.constant (.ofBool false))
    else none

/-- What a name stands for. -/
def meaning? (scope : Scope) (names : Names) (origin : Option String) (name : String)
    (quoted : Bool) : Option Calculation :=
  match scope.matching origin name with
  | [c] => some c
  | [] => if origin.isNone then otherMeaning? names name quoted else none
  | _ => none

/-- The function of groups with a name. -/
def summaryOf? (name : String) : Option Summary :=
  match upperAscii name with
  | "COUNT" => some .count
  | "SUM" => some .sum
  | "AVG" => some .average
  | "MIN" => some .least
  | "MAX" => some .greatest
  | _ => none

/-- A function of the given calculations. -/
def called? (name : String) (args : List Calculation) : Option Calculation :=
  match summaryOf? name, args with
  | some .count, [] => some .countRows
  | some f, [c] => if c.summarises then none else some (.summary f c)
  | some .least, c :: args => some (args.foldl (.extreme false) c)
  | some .greatest, c :: args => some (args.foldl (.extreme true) c)
  | _, _ => none

mutual

/-- A term with its names resolved. -/
def Term.resolve? (scope : Scope) (names : Names) : Term → Option Calculation
  | .constant v => some (.constant v)
  | .column origin name quoted => meaning? scope names origin name quoted
  | .unary op t => do return .unary op (← t.resolve? scope names)
  | .binary op a b => do return .binary op (← a.resolve? scope names) (← b.resolve? scope names)
  | .call name args => do called? name (← resolveAll? scope names args)
  | .callStar name => if summaryOf? name = some .count then some .countRows else none

/-- Terms with their names resolved. -/
def resolveAll? (scope : Scope) (names : Names) : List Term → Option (List Calculation)
  | [] => some []
  | t :: ts => do return (← t.resolve? scope names) :: (← resolveAll? scope names ts)

end

/-- A term that depends on single rows only. -/
def resolvePlain? (scope : Scope) (names : Names) (t : Term) : Option Calculation := do
  let c ← t.resolve? scope names
  if c.summarises then none else some c

/-! ## Outputs -/

/-- An item of the output, resolved. -/
structure Item where
  field : Field
  calculation : Calculation
  /-- Whether its name was given. -/
  named : Bool

/-- An item with its name, or else the name of its column, or else its text. -/
def itemOf (scope : Scope) (c : Calculation) (given : Option String) (written : String) : Item :=
  let computed : Item := ⟨⟨given.getD written, none, none, c.kind⟩, c, given.isSome⟩
  match c with
  | .cell place _ _ =>
    match scope[place]? with
    | some f => ⟨{ f.field with name := given.getD f.field.name }, c, given.isSome⟩
    | none => computed
  | _ => computed

/-- The items that an output stands for. -/
def Output.items? (scope : Scope) : Output → Option (List Item)
  | .all => some (scope.zipIdx.map fun (f, place) => ⟨f.field, cellOf place f.field, false⟩)
  | .term t given written => do return [itemOf scope (← t.resolve? scope []) given written]

/-- The names that conditions and keys may use for items. -/
def namesOf (items : List Item) : Names :=
  items.filterMap fun item => if item.named then some (item.field.name, item.calculation) else none

/-- A name without a colon and digits at its end. -/
def stem (name : String) : String :=
  match name.toList.reverse.dropWhile Char.isDigit with
  | ':' :: reversed => String.ofList reversed.reverse
  | _ => name

/-- The first of the names `stem:1`, `stem:2`, … that is not taken. -/
def freshName (taken : List String) (name : String) : String :=
  let candidates := (List.range taken.length).map fun n => stem name ++ ":" ++ toString (n + 1)
  (candidates.find? fun candidate => !taken.any (sameName candidate)).getD name

/-- Fields with different names, as those of a nested SELECT. -/
def distinctFields (fields : List Field) : List Field :=
  (fields.foldl (fun (done : List Field) f =>
    let taken := done.map (·.name)
    let name := if taken.any (sameName f.name) then freshName taken f.name else f.name
    { f with name } :: done) []).reverse

/-! ## Rows -/

/-- The rows of two origins, each of the first with each of the second. -/
def combined (left right : List Row) : List Row :=
  left.flatMap fun a => right.map (a ++ ·)

/-- The rows on which a condition is true. -/
def kept? (condition : Option Calculation) (rows : List Row) : Option (List Row) :=
  match condition with
  | none => some rows
  | some c => rows.filterM fun row => do return (← c.value? [] row).truth? == some true

/-- Rows with their keys, neighbours with equal keys put together. -/
def runs : List (Row × Row) → List (List Row)
  | [] => []
  | (key, row) :: rest =>
    match rest, runs rest with
    | (next, _) :: _, group :: groups =>
      if Value.compareRows key next == .eq then (row :: group) :: groups
      else [row] :: group :: groups
    | _, groups => [row] :: groups

/-- The groups of rows with equal keys, in the order of the keys.  Without keys all rows are one
group, even if there are none. -/
def groups? (keys : List Calculation) (rows : List Row) : Option (List (List Row)) :=
  if keys.isEmpty then some [rows]
  else do
    let keyed ← rows.mapM fun row => do return (← keys.mapM (·.value? [] row), row)
    return runs (keyed.mergeSort fun a b => Value.compareRows a.1 b.1 != .gt)

/-- The functions of groups in a calculation that look for an extreme. -/
def extremes : Calculation → List (Bool × Calculation)
  | .summary .least c => [(false, c)]
  | .summary .greatest c => [(true, c)]
  | .unary _ c => extremes c
  | .binary _ a b => extremes a ++ extremes b
  | .extreme _ a b => extremes a ++ extremes b
  | _ => []

/-- The row of a group on which a calculation has its extreme. -/
def extremeRow? (greatest : Bool) (c : Calculation) (group : List Row) : Option Row := do
  let valued ← group.mapM fun row => do return (← c.value? [] row, row)
  match valued.filter (!·.1.isNull) with
  | [] => group.head?
  | first :: rest =>
    return (rest.foldl (fun best candidate =>
      let order := Value.compare best.1 candidate.1
      if order == (if greatest then .lt else .gt) then candidate else best) first).2

/-- The row of a group that stands for it where no function of the group is asked for. -/
def representative (items : List Item) (group : List Row) : Row :=
  match items.flatMap fun item => extremes item.calculation with
  | [(greatest, c)] => (extremeRow? greatest c group).getD []
  | _ => group.headD []

/-- The rows of an output, unless a sum overflows. -/
def outputRows? (items : List Item) (keys : List Calculation) (rows : List Row) :
    Option (List Row) :=
  if keys.isEmpty && !items.any (·.calculation.summarises) then
    rows.mapM fun row => items.mapM (·.calculation.value? [] row)
  else do
    (← groups? keys rows).mapM fun group =>
      items.mapM (·.calculation.value? group (representative items group))

/-- The relation of a SELECT over its origins. -/
def selected? (outputs : List Output) (condition : Option Term) (keys : List Term)
    (scope : Scope) (rows : Option (List Row)) : Option Relation := do
  let items := (← outputs.mapM (·.items? scope)).flatten
  let names := namesOf items
  let condition ← condition.mapM (resolvePlain? scope names)
  let keys ← keys.mapM (resolvePlain? scope names)
  return { fields := items.map (·.field)
           rows := do outputRows? items keys (← kept? condition (← rows)) }

mutual

/-- The relation that a SELECT gives, unless it is refused. -/
def Select.relation? (s : Tables) : Select → Option Relation
  | .mk outputs origins condition keys => do
    let (scope, rows) ← originsRelation? s origins
    selected? outputs condition keys scope rows

/-- The columns and the combined rows of origins. -/
def originsRelation? (s : Tables) : List Origin → Option (Scope × Option (List Row))
  | [] => some ([], some [[]])
  | origin :: origins => do
    let (name, relation) ← origin.relation? s
    let (scope, rows) ← originsRelation? s origins
    return (relation.fields.map (⟨name, ·⟩) ++ scope,
      do return combined (← relation.rows) (← rows))

/-- The name and the relation of an origin. -/
def Origin.relation? (s : Tables) : Origin → Option (String × Relation)
  | .table name given => do return (given.getD name, (← s.find? name).relation)
  | .nested select given => do
    let relation ← select.relation? s
    return (given.getD "", { relation with fields := distinctFields relation.fields })

end

end QuerySteps.Store
