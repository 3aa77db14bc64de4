import QuerySteps.Expr.Basic

/-!
# Queries

A query is a table, a SELECT level over another query, or a join of two queries.  The clauses of a
level are kept apart from its source, so that a level that is extended is the same source with other
clauses, and a level that is nested becomes a source itself.
-/

namespace QuerySteps

/-- A projected column with an optional name for the output. -/
structure Selected where
  expr : Expr
  newName : Option String
  deriving BEq, Inhabited

/-- A column under its own name. -/
def Selected.keep (column : String) : Selected := ⟨.named column, none⟩

/-- A column under a new name. -/
def Selected.rename (column newName : String) : Selected := ⟨.named column, some newName⟩

/-- One output of a summary: a function of a column under a name. -/
structure Aggregate where
  function : String
  column : String
  output : String
  deriving DecidableEq, Inhabited

/-- The expression of an aggregate. -/
def Aggregate.expr (a : Aggregate) : Expr := .aggregate a.function a.column

/-- The clauses of a SELECT level. -/
structure Clauses where
  filters : List Expr
  columns : List Selected
  derived : List (String × Expr)
  groupBy : List String
  includesAll : Bool
  sample : Option Nat
  summarised : Bool
  deriving BEq, Inhabited

/-- The clauses that select everything. -/
def Clauses.all : Clauses := ⟨[], [], [], [], true, none, false⟩

/-- A comparison of a column of the left side of a join with one of the right side. -/
structure Criterion where
  left : String
  op : String
  right : String
  deriving DecidableEq, Inhabited

/-- Equality of a column that both sides share. -/
def Criterion.shared (column : String) : Criterion := ⟨column, "=", column⟩

/-- Whether the right column would only repeat the left one in the output. -/
def Criterion.isShared (c : Criterion) : Bool := c.op == "=" && c.left == c.right

/-- A query. -/
inductive Query where
  | table (name : String)
  | level (source : Query) (clauses : Clauses)
  | join (left right : Query) (criteria : List Criterion)
  deriving BEq, Inhabited

/-- The right columns of a join that its output leaves out. -/
def droppedColumns (criteria : List Criterion) : List String :=
  (criteria.filter Criterion.isShared).map (·.right)

end QuerySteps
