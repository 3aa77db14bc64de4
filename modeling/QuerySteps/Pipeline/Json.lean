import QuerySteps.Pipeline.Basic
import QuerySteps.Tree.Json

/-!
# Pipelines in JSON

A pipeline is a record of `source` and `steps`, the steps of which may be missing.  Sources and
steps are choices, objects with one key.  Join keys, column choices and formulas are told apart by
their form; they are read only if every part of them is readable, and an array that stands for one
of them has exactly its length.

The readers take the form of records from the notation (`Json.Form`), so that the same readers serve
values that come from another notation.
-/

namespace QuerySteps

open Json (fields? choiceFields? Form)

/-- The greatest number of rows that a sample may ask for. -/
def greatestSample : Int := Scalar.greatestInteger

namespace JoinKey

/-- A join key as a JSON value. -/
def toJson : JoinKey → Json
  | shared column => .text column
  | criterion left op right => .array [.text left, .text op, .text right]

/-- The join key that a JSON value writes. -/
def ofJson? : Json → Option JoinKey
  | .scalar (.text column) => some (shared column)
  | .array [.scalar (.text left), .scalar (.text op), .scalar (.text right)] =>
    some (criterion left op right)
  | _ => none

end JoinKey

namespace ColumnChoice

/-- A column choice as a JSON value. -/
def toJson : ColumnChoice → Json
  | keep column => .text column
  | pair column none => .array [.text column, .scalar .null]
  | pair column (some newName) => .array [.text column, .text newName]

/-- The column choice that a JSON value writes. -/
def ofJson? : Json → Option ColumnChoice
  | .scalar (.text column) => some (keep column)
  | .array [.scalar (.text column), .scalar .null] => some (pair column none)
  | .array [.scalar (.text column), .scalar (.text newName)] => some (pair column (some newName))
  | _ => none

end ColumnChoice

namespace FormulaText

/-- A formula as a JSON value. -/
def toJson : FormulaText → Json
  | text s => .text s
  | tree t => t.toJson

/-- The formula that a JSON value writes. -/
def ofJson? : Json → Option FormulaText
  | .scalar (.text s) => some (text s)
  | value => (Tree.ofJson? value).map tree

end FormulaText

namespace Aggregate

/-- An aggregate as a JSON value. -/
def toJson (a : Aggregate) : Json := Json.texts [a.function, a.column, a.output]

/-- The aggregate that a JSON value writes. -/
def ofJson? (form : Form) : Json → Option Aggregate
  | .array (.scalar (.text function) :: .scalar (.text column) :: .scalar (.text output) :: rest) =>
    if rest.isEmpty || form.longArrays then some ⟨function, column, output⟩ else none
  | _ => none

end Aggregate

namespace Step

/-- A step as a JSON value. -/
def toJson : Step → Json
  | select names => .object [("select_columns", Json.texts names)]
  | rename columns => .object [("aliases", .array (columns.map (·.toJson)))]
  | filter formula => .object [("where", formula.toJson)]
  | derive name formula =>
    .object [("derive", .object [("name", .text name), ("expression", formula.toJson)])]
  | sample rows => .object [("sample", .scalar (.integer rows))]
  | summarise keys aggregates =>
    .object [("summarise", .object [("keys", Json.texts keys),
      ("aggregates", .array (aggregates.map (·.toJson)))])]

/-- The step that a JSON value writes. -/
def ofJson? (form : Form) (value : Json) : Option Step := do
  let (kind, record) ← value.choice?
  match kind with
  | "select_columns" => return select (← record.all? Json.text?)
  | "aliases" => return rename (← record.all? ColumnChoice.ofJson?)
  | "where" => return filter (← FormulaText.ofJson? record)
  | "derive" =>
    match ← choiceFields? form ["name", "expression"] record with
    | (_, [some name, some formula]) =>
      return derive (← name.text?) (← FormulaText.ofJson? formula)
    | _ => none
  | "sample" =>
    match record with
    | .scalar (.integer n) => if 0 ≤ n ∧ n ≤ greatestSample then some (sample n.toNat) else none
    | _ => none
  | "summarise" =>
    match ← choiceFields? form ["keys", "aggregates"] record with
    | (_, [some keys, some aggregates]) =>
      return summarise (← keys.all? Json.text?) (← aggregates.all? (Aggregate.ofJson? form))
    | (_, [some keys, none]) => return summarise (← keys.all? Json.text?) []
    | _ => none
  | _ => none

end Step

mutual

/-- A pipeline as a JSON value. -/
def Pipeline.toJson : Pipeline → Json
  | .mk source steps =>
    .object [("source", source.toJson), ("steps", .array (steps.map Step.toJson))]

/-- A source as a JSON value. -/
def Source.toJson : Source → Json
  | .table name => .object [("table", .text name)]
  | .join left right on =>
    .object [("join", .object [("left", left.toJson), ("right", right.toJson),
      ("on", .array (on.map (·.toJson)))])]

end

/-- The source that a JSON value writes, given a reader of the pipelines of a join. -/
def Source.ofJson? (form : Form) (pipeline? : Json → Option Pipeline) (value : Json) :
    Option Source := do
  let (kind, record) ← value.choice?
  match kind with
  | "table" => return .table (← record.text?)
  | "join" =>
    match ← choiceFields? form ["left", "right", "on"] record with
    | (_, [some left, some right, some on]) =>
      return .join (← pipeline? left) (← pipeline? right) (← on.all? JoinKey.ofJson?)
    | _ => none
  | _ => none

namespace Pipeline

/-- The pipeline that a JSON value writes, in values nested at most `depth` deep. -/
def readJson? (form : Form) : Nat → Json → Option Pipeline
  | 0, _ => none
  | depth + 1, value => do
    match ← fields? form ["source", "steps"] value with
    | (_, [some source, steps]) =>
      let source ← Source.ofJson? form (readJson? form depth) source
      match steps with
      | some steps => return .mk source (← steps.all? (Step.ofJson? form))
      | none => return .mk source []
    | _ => none

/-- The pipeline that a JSON value writes. -/
def ofJson? (form : Form) (value : Json) : Option Pipeline :=
  readJson? form value.height value

/-- The pipeline that a JSON text writes, where a rounding gives the doubles. -/
def parseJsonBy (rounding : Numeral.Rounding) (s : String) : Except Error Pipeline :=
  match (Json.parseBy? rounding s).bind (ofJson? Json.strictForm) with
  | none => .error .json
  | some p => .ok p

/-- The pipeline that a JSON text writes. -/
def parseJson (s : String) : Except Error Pipeline :=
  parseJsonBy .nearest s

/-- A pipeline as JSON text. -/
def toJsonText (p : Pipeline) : String := p.toJson.compact

end Pipeline

end QuerySteps
