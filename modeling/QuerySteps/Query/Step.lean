import QuerySteps.Query.Level
import QuerySteps.Tree.Argument

/-!
# Steps on queries

The steps by which queries are built.  A table or a join is wrapped into a level before its first
step.  A step without content, such as a selection of no columns or a filter by a blank text, gives
back the very query.  A table is summarised on the level that wraps it; any other query is nested
first, so that no earlier projection meets the grouping.
-/

namespace QuerySteps.Query

/-- The query as a level that steps can extend. -/
def toLevel : Query → Level
  | level source clauses => ⟨source, clauses⟩
  | q => .wrap q

/-- Whether the query is a bare table. -/
def isTable : Query → Bool
  | table _ => true
  | _ => false

/-- Selects columns under their own names. -/
def select (q : Query) (names : List String) : Query :=
  if names.isEmpty then q else (q.toLevel.select names).toQuery

/-- Selects columns, perhaps under new names. -/
def rename (q : Query) (columns : List Selected) : Query :=
  if columns.isEmpty then q else (q.toLevel.rename columns).toQuery

/-- Keeps the rows on which an expression holds, if there is an expression. -/
def filter (q : Query) : Option Expr → Query
  | none => q
  | some e => (q.toLevel.filter e).toQuery

/-- Adds a computed column, if there is an expression. -/
def derive (q : Query) (name : String) : Option Expr → Query
  | none => q
  | some e => (q.toLevel.derive name e).toQuery

/-- Takes a random sample of rows. -/
def sample (q : Query) (rows : Nat) : Query :=
  (q.toLevel.sample rows).toQuery

/-- Groups the rows by keys and computes aggregates. -/
def summarise (q : Query) (keys : List String) (aggregates : List Aggregate) : Query :=
  (q.toLevel.summarise keys aggregates !q.isTable).toQuery

/-- Keeps the rows on which the expression holds that an argument stands for. -/
def filterBy (q : Query) (arg : ExprArgument) : Except ExprError Query :=
  arg.resolve.map q.filter

/-- Adds a computed column by an argument.  Under a blank name nothing is added, and the argument is
not looked at. -/
def deriveBy (q : Query) (name : String) (arg : ExprArgument) : Except ExprError Query :=
  if Text.isBlankText name then .ok q else arg.resolve.map (q.derive name)

end QuerySteps.Query
