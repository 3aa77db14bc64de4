import QuerySteps.Query.Basic

/-!
# SELECT levels

Each step on a level either extends it or nests it first: then a fresh level is put over the old one
and takes the clause.  A level is nested where two clauses would conflict:

* new columns, when there are derived columns;
* a filter, when there is a sample or a summary;
* a sample, when there is a sample;
* a summary, when the caller asks for it;
* a derived column, never.
-/

namespace QuerySteps

/-- A SELECT level: a source and the clauses over it. -/
structure Level where
  source : Query
  clauses : Clauses
  deriving BEq, Inhabited

namespace Level

/-- The query that consists of a level. -/
def toQuery (l : Level) : Query := .level l.source l.clauses

/-- A fresh level that selects everything of a query. -/
def wrap (q : Query) : Level := ⟨q, .all⟩

/-- A fresh level over a level. -/
def nest (l : Level) : Level := wrap l.toQuery

/-- A fresh level over this one if there is a conflict, otherwise this level. -/
def nestIf (conflict : Bool) (l : Level) : Level := if conflict then l.nest else l

/-- The level with other columns in place of its own. -/
def withColumns (l : Level) (columns : List Selected) : Level :=
  { l with clauses := { l.clauses with includesAll := false, columns := columns } }

/-- Selects columns, perhaps under new names.  No columns leave the level as it is. -/
def rename (l : Level) (columns : List Selected) : Level :=
  if columns.isEmpty then l
  else (l.nestIf !l.clauses.derived.isEmpty).withColumns columns

/-- Selects columns under their own names. -/
def select (l : Level) (names : List String) : Level :=
  l.rename (names.map .keep)

/-- Adds a computed column to the output. -/
def derive (l : Level) (name : String) (e : Expr) : Level :=
  { l with clauses := { l.clauses with derived := l.clauses.derived ++ [(name, e)] } }

/-- The level with one more filter. -/
def withFilter (l : Level) (e : Expr) : Level :=
  { l with clauses := { l.clauses with filters := l.clauses.filters ++ [e] } }

/-- Keeps the rows on which an expression holds. -/
def filter (l : Level) (e : Expr) : Level :=
  (l.nestIf (l.clauses.sample.isSome || l.clauses.summarised)).withFilter e

/-- Takes a random sample of rows. -/
def sample (l : Level) (rows : Nat) : Level :=
  let l := l.nestIf l.clauses.sample.isSome
  { l with clauses := { l.clauses with sample := some rows } }

/-- Groups the rows by keys and adds one output for each aggregate.  The keys stay in the output
under their own names. -/
def summarise (l : Level) (keys : List String) (aggregates : List Aggregate) (nested : Bool) :
    Level :=
  let l := l.nestIf nested
  { l with clauses := { l.clauses with
      groupBy := keys
      derived := l.clauses.derived ++ aggregates.map fun a => (a.output, a.expr)
      columns := keys.map fun key => .rename key key
      includesAll := false
      summarised := true } }

end Level

end QuerySteps
