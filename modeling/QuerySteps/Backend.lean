import QuerySteps.Error
import QuerySteps.Result.Basic

/-!
# Backends

A backend describes the columns of an SQL statement and runs it.  Queries are compiled here and
described and run there.  Work that asks a backend is an `Asked`: its result, and the statements it
asked about in order.  After the first error nothing more is asked.
-/

namespace QuerySteps

/-- What describes and runs statements. -/
structure Backend where
  /-- The columns that a statement gives. -/
  describe : String → Except Error (List Column)
  /-- The rows that a statement gives; with `true`, dates and times in them become seconds. -/
  run : String → Bool → Except Error ResultSet

/-- The result of work that asks a backend, and the statements it asked about. -/
structure Asked (α : Type) where
  calls : List String
  result : Except Error α

namespace Asked

/-- A result that needs no backend. -/
protected def pure {α : Type} (a : α) : Asked α := ⟨[], .ok a⟩

/-- Work that goes on with the result of other work, if it has one. -/
protected def bind {α β : Type} (first : Asked α) (next : α → Asked β) : Asked β :=
  match first.result with
  | .error e => ⟨first.calls, .error e⟩
  | .ok a => ⟨first.calls ++ (next a).calls, (next a).result⟩

instance : Monad Asked where
  pure := Asked.pure
  bind := Asked.bind

/-- Asks a backend for the columns of a statement. -/
def describe (b : Backend) (sql : String) : Asked (List Column) := ⟨[sql], b.describe sql⟩

end Asked

end QuerySteps
