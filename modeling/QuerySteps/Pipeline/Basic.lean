import QuerySteps.Query.Step
import QuerySteps.Error

/-!
# Pipelines

A pipeline describes a query: a source and the steps applied to it in order.  A source is a table or
a join of two pipelines.  Where a step needs an expression, a pipeline holds a formula, either as
text or as a tree already read.

`Pipeline.build` makes the query.  The source is built first, the left side of a join before the
right one, and the first error ends the work.  A derived column with a blank name is left out before
its formula is looked at.
-/

namespace QuerySteps

/-- What to compare in a join: a shared column, or two columns and an operator. -/
inductive JoinKey where
  | shared (column : String)
  | criterion (left op right : String)
  deriving DecidableEq, Inhabited

/-- The comparison that a key stands for. -/
def JoinKey.toCriterion : JoinKey → Criterion
  | shared column => .shared column
  | criterion left op right => ⟨left, op, right⟩

/-- A column to select: kept as it is, or with an alias, which may be missing. -/
inductive ColumnChoice where
  | keep (column : String)
  | pair (column : String) (newName : Option String)
  deriving DecidableEq, Inhabited

/-- The projected column that a choice stands for. -/
def ColumnChoice.toSelected : ColumnChoice → Selected
  | keep column => .keep column
  | pair column none => .keep column
  | pair column (some newName) => .rename column newName

/-- An expression in a pipeline. -/
inductive FormulaText where
  | text (s : String)
  | tree (t : Tree)
  deriving BEq, Inhabited

/-- One step of a pipeline. -/
inductive Step where
  | select (names : List String)
  | rename (columns : List ColumnChoice)
  | filter (formula : FormulaText)
  | derive (name : String) (formula : FormulaText)
  | sample (rows : Nat)
  | summarise (keys : List String) (aggregates : List Aggregate)
  deriving BEq, Inhabited

mutual

/-- A source and the steps applied to it. -/
inductive Pipeline where
  | mk (source : Source) (steps : List Step)

/-- Where the rows of a pipeline come from. -/
inductive Source where
  | table (name : String)
  | join (left right : Pipeline) (on : List JoinKey)

end

/-- The expression of a formula; blank text has none. -/
def FormulaText.resolve (ops : Formula.Operators) : FormulaText → Except Error (Option Expr)
  | text s =>
    if Text.isBlankText s then .ok none
    else match Formula.parse ops s with
      | .error e => .error (.formula e)
      | .ok node =>
        match node.toExpr with
        | .error e => .error (.expression e)
        | .ok expr => .ok (some expr)
  | tree t =>
    match t.toExpr with
    | .error e => .error (.expression e)
    | .ok expr => .ok (some expr)

/-- The query after one more step. -/
def Step.apply (ops : Formula.Operators) (q : Query) : Step → Except Error Query
  | select names => .ok (q.select names)
  | rename columns => .ok (q.rename (columns.map (·.toSelected)))
  | filter formula => (formula.resolve ops).map q.filter
  | derive name formula =>
    if Text.isBlankText name then .ok q else (formula.resolve ops).map (q.derive name)
  | sample rows => .ok (q.sample rows)
  | summarise keys aggregates => .ok (q.summarise keys aggregates)

/-- The query after all steps. -/
def Step.applyAll (ops : Formula.Operators) : Query → List Step → Except Error Query
  | q, [] => .ok q
  | q, step :: steps =>
    match step.apply ops q with
    | .error e => .error e
    | .ok q => applyAll ops q steps

mutual

/-- The query that a pipeline describes. -/
def Pipeline.build (ops : Formula.Operators) : Pipeline → Except Error Query
  | .mk source steps =>
    match source.build ops with
    | .error e => .error e
    | .ok q => Step.applyAll ops q steps

/-- The query that a source describes. -/
def Source.build (ops : Formula.Operators) : Source → Except Error Query
  | .table name =>
    if Text.isBlankText name then .error (.pipeline .emptyTableName) else .ok (.table name)
  | .join left right on =>
    if on.isEmpty then .error (.pipeline .joinWithoutKeys)
    else match left.build ops with
      | .error e => .error e
      | .ok leftQuery =>
        match right.build ops with
        | .error e => .error e
        | .ok rightQuery => .ok (.join leftQuery rightQuery (on.map (·.toCriterion)))

end

end QuerySteps
