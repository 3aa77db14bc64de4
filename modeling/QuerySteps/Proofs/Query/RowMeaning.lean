import QuerySteps.Query.Step

/-!
# The rows of a query

A level takes the rows of its source, keeps those on which every filter holds,
then groups and aggregates them if it is a summary, projects them, and takes
its sample last.  A `Reading` says what the parts mean: the rows of tables, the
pairing of a join, when a filter holds, how groups are made and what is put
out for a row or for a group, and which rows a sample takes.  All of them are
arbitrary, except that `*` alone puts out the row itself.

`Reading.rows` is the meaning of a whole query.  Two facts about single levels
carry every comparison of queries: the level that selects everything changes
nothing (`level_all`), so wrapping or nesting is free (`rows_toLevel`,
`rows_nest`); and filters that meet a level without a sample and without a
projection of its own act one after another (`level_withFilter`).
-/

namespace QuerySteps

/-- What a level puts out: everything of its source or not, then columns, then
derived columns. -/
structure Projection where
  includesAll : Bool
  columns : List Selected
  derived : List (String × Expr)

/-- The projection that consists of `*` alone. -/
def Projection.all : Projection := ⟨true, [], []⟩

/-- The projection of a level. -/
def Clauses.outputs (c : Clauses) : Projection :=
  ⟨c.includesAll, c.columns, c.derived⟩

/-- What the parts of a query mean. -/
structure Reading (Row Group : Type) where
  table : String → List Row
  join : List Criterion → List Row → List Row → List Row
  /-- Whether a filter holds on a row of the source; names may refer to the
  outputs of the level. -/
  holds : Projection → Expr → Row → Bool
  project : Projection → Row → Row
  group : List String → Projection → List Row → List Group
  /-- The row that is put out for a group. -/
  summary : Projection → Group → Row
  sample : Nat → List Row → List Row
  project_all : ∀ row, project .all row = row

namespace Reading

variable {Row Group : Type} (R : Reading Row Group)

/-- The rows of the source on which every filter holds. -/
def kept (c : Clauses) (rows : List Row) : List Row :=
  rows.filter fun row => c.filters.all fun e => R.holds c.outputs e row

/-- What is put out for the rows that are kept, or for their groups. -/
def putOut (c : Clauses) (rows : List Row) : List Row :=
  if c.summarised then (R.group c.groupBy c.outputs rows).map (R.summary c.outputs)
  else rows.map (R.project c.outputs)

/-- The sample, if one is taken. -/
def sampled (c : Clauses) (rows : List Row) : List Row :=
  match c.sample with
  | some n => R.sample n rows
  | none => rows

/-- The rows of a level over the rows of its source. -/
def level (c : Clauses) (rows : List Row) : List Row :=
  R.sampled c (R.putOut c (R.kept c rows))

/-- The rows of a query. -/
def rows : Query → List Row
  | .table name => R.table name
  | .level source c => R.level c (rows source)
  | .join left right criteria => R.join criteria (rows left) (rows right)

/-- A level that is no summary and selects everything puts out the rows it
keeps. -/
theorem putOut_eq_self {c : Clauses} (hsummarised : c.summarised = false)
    (houtputs : c.outputs = .all) (rows : List Row) : R.putOut c rows = rows := by
  simp only [putOut, hsummarised, houtputs, Bool.false_eq_true, if_false]
  exact (List.map_congr_left fun row _ => R.project_all row).trans (List.map_id rows)

/-- Without a sample every row that is put out stays. -/
theorem sampled_eq_self {c : Clauses} (hsample : c.sample = none) (rows : List Row) :
    R.sampled c rows = rows := by
  simp only [sampled, hsample]

/-- The level that selects everything gives the rows of its source. -/
theorem level_all (rows : List Row) : R.level .all rows = rows := by
  have hkept : R.kept .all rows = rows := by simp [kept, Clauses.all]
  rw [level, hkept, R.putOut_eq_self rfl rfl, R.sampled_eq_self rfl]

/-- Wrapping a query into a level keeps its rows. -/
theorem rows_wrap (q : Query) : R.rows (Level.wrap q).toQuery = R.rows q :=
  R.level_all _

/-- A query and the level that steps extend have the same rows. -/
theorem rows_toLevel (q : Query) : R.rows q.toLevel.toQuery = R.rows q := by
  cases q with
  | table name => exact R.rows_wrap _
  | level source c => rfl
  | join left right criteria => exact R.rows_wrap _

/-- Nesting a level keeps its rows. -/
theorem rows_nest (l : Level) : R.rows l.nest.toQuery = R.rows l.toQuery :=
  R.rows_wrap _

/-- Two filters one after the other keep the rows on which both hold. -/
theorem kept_withFilter {source : Query} {c : Clauses} (e : Expr) (rows : List Row) :
    R.kept (Level.withFilter ⟨source, c⟩ e).clauses rows =
      (R.kept c rows).filter (R.holds c.outputs e) := by
  simp only [kept, Level.withFilter, Clauses.outputs, List.all_append, List.all_cons,
    List.all_nil, Bool.and_true, List.filter_filter]
  exact List.filter_congr fun row _ => Bool.and_comm _ _

/-- On a level that has no sample and puts out its rows as they are, one more
filter acts on the rows of the level. -/
theorem level_withFilter {source : Query} {c : Clauses} (e : Expr) (rows : List Row)
    (hsample : c.sample = none) (hsummarised : c.summarised = false)
    (houtputs : c.outputs = .all) :
    R.level (Level.withFilter ⟨source, c⟩ e).clauses rows =
      (R.level c rows).filter (R.holds .all e) := by
  have houtputs' : (Level.withFilter ⟨source, c⟩ e).clauses.outputs = .all := houtputs
  rw [level, level, R.sampled_eq_self hsample, R.putOut_eq_self hsummarised houtputs,
    R.sampled_eq_self (c := (Level.withFilter ⟨source, c⟩ e).clauses) hsample,
    R.putOut_eq_self (c := (Level.withFilter ⟨source, c⟩ e).clauses) hsummarised houtputs',
    kept_withFilter, houtputs]

/-- On a level without a sample, a sample acts on the rows of the level. -/
theorem level_withSample {c : Clauses} (n : Nat) (rows : List Row) (hsample : c.sample = none) :
    R.level { c with sample := some n } rows = R.sample n (R.level c rows) := by
  rw [level, level, R.sampled_eq_self hsample]
  rfl

/-- A filter on a level of its own acts on the rows of the query below. -/
theorem rows_withFilter_wrap (q : Query) (e : Expr) :
    R.rows ((Level.wrap q).withFilter e).toQuery = (R.rows q).filter (R.holds .all e) := by
  calc R.rows ((Level.wrap q).withFilter e).toQuery
      = R.level ((Level.wrap q).withFilter e).clauses (R.rows q) := rfl
    _ = (R.level .all (R.rows q)).filter (R.holds .all e) :=
        R.level_withFilter (c := .all) e _ rfl rfl rfl
    _ = (R.rows q).filter (R.holds .all e) := by rw [R.level_all]

/-- A sample on a level of its own acts on the rows of the query below. -/
theorem rows_sample_wrap (q : Query) (n : Nat) :
    R.rows ((Level.wrap q).sample n).toQuery = R.sample n (R.rows q) := by
  calc R.rows ((Level.wrap q).sample n).toQuery
      = R.sample n (R.level .all (R.rows q)) := R.level_withSample n _ rfl
    _ = R.sample n (R.rows q) := by rw [R.level_all]

end Reading

end QuerySteps
