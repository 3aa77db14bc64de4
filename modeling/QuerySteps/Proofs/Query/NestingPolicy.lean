import Mathlib
import QuerySteps.Proofs.Query.RowMeaning

/-!
# Folding a step into a level keeps the rows

A filter, a sample or a summary is folded into the level at hand unless the
level already has a clause that would come after it.  Here every run of such
steps is compared with the run in which each step gets a level of its own
(`RowStep.own`), over which nothing can be in its way.

The decision to fold a filter looks at the sample and the summary only, not at
the projection.  It is right because of an invariant of these runs: a level
that is no summary still selects everything (`SelectsRows`).  `rows_apply` is
the step under that invariant, `rows_run` the run, by induction on the steps.
-/

namespace QuerySteps

/-- A step that chooses or summarises rows. -/
inductive RowStep where
  | filter (e : Option Expr)
  | sample (rows : Nat)
  | summarise (keys : List String) (aggregates : List Aggregate)

namespace RowStep

/-- The step as queries take it, folded into the level at hand where there is
no conflict. -/
def apply (q : Query) : RowStep → Query
  | filter e => q.filter e
  | sample rows => q.sample rows
  | summarise keys aggregates => q.summarise keys aggregates

/-- The step on a fresh level of its own. -/
def own (q : Query) : RowStep → Query
  | filter none => (Level.wrap q).toQuery
  | filter (some e) => ((Level.wrap q).filter e).toQuery
  | sample rows => ((Level.wrap q).sample rows).toQuery
  | summarise keys aggregates => ((Level.wrap q).summarise keys aggregates false).toQuery

/-- The query after all steps, each folded where it can be. -/
def run (q : Query) (steps : List RowStep) : Query := steps.foldl apply q

/-- The query after all steps, each on a level of its own. -/
def runOwn (q : Query) (steps : List RowStep) : Query := steps.foldl own q

end RowStep

/-- The level that steps extend is a summary or selects everything. -/
def Query.SelectsRows (q : Query) : Prop :=
  q.toLevel.clauses.summarised = false → q.toLevel.clauses.outputs = .all

namespace Query

/-- A table or a join is no level yet. -/
def isSource : Query → Bool
  | level _ _ => false
  | _ => true

theorem selectsRows_of_isSource {q : Query} (h : q.isSource = true) : q.SelectsRows := by
  cases q with
  | table name => exact fun _ => rfl
  | level source c => cases h
  | join left right criteria => exact fun _ => rfl

/-- One step of any kind keeps the invariant. -/
theorem selectsRows_apply {q : Query} (h : q.SelectsRows) (step : RowStep) :
    (step.apply q).SelectsRows := by
  cases step with
  | filter e =>
    cases e with
    | none => exact h
    | some e =>
      intro hsummarised
      by_cases hc : (q.toLevel.clauses.sample.isSome || q.toLevel.clauses.summarised) = true
      · simp only [RowStep.apply, Query.filter, Level.filter, Level.nestIf, hc, if_true]
        rfl
      · simp only [RowStep.apply, Query.filter, Level.filter, Level.nestIf, hc] at hsummarised ⊢
        exact h hsummarised
  | sample rows =>
    intro hsummarised
    by_cases hc : q.toLevel.clauses.sample.isSome = true
    · simp only [RowStep.apply, Query.sample, Level.sample, Level.nestIf, hc, if_true]
      rfl
    · simp only [RowStep.apply, Query.sample, Level.sample, Level.nestIf, hc] at hsummarised ⊢
      exact h hsummarised
  | summarise keys aggregates =>
    intro hsummarised
    cases hsummarised

end Query

namespace Reading

variable {Row Group : Type} (R : Reading Row Group)

/-- A step on a level of its own sees nothing of a query but its rows. -/
theorem rows_own_congr {q q' : Query} (h : R.rows q = R.rows q') (step : RowStep) :
    R.rows (step.own q) = R.rows (step.own q') := by
  have hlevel : ∀ c, R.rows (.level q c) = R.rows (.level q' c) := fun c =>
    congrArg (R.level c) h
  cases step with
  | filter e => cases e <;> exact hlevel _
  | sample rows => exact hlevel _
  | summarise keys aggregates => exact hlevel _

/-- **One step.**  On a level that is a summary or selects everything, a folded
step and the step on its own level give the same rows. -/
theorem rows_apply {q : Query} (h : q.SelectsRows) (step : RowStep) :
    R.rows (step.apply q) = R.rows (step.own q) := by
  -- Both sides stand over the level at hand; where the step nests, they are the same level.
  rw [← R.rows_own_congr (R.rows_toLevel q) step]
  cases step with
  | filter e =>
    cases e with
    | none =>
      calc R.rows q = R.rows q.toLevel.toQuery := (R.rows_toLevel q).symm
        _ = R.rows (Level.wrap q.toLevel.toQuery).toQuery := (R.rows_wrap _).symm
    | some e =>
      by_cases hc : (q.toLevel.clauses.sample.isSome || q.toLevel.clauses.summarised) = true
      · simp only [RowStep.apply, Query.filter, Level.filter, Level.nestIf, hc, if_true]
        rfl
      · have hnone : q.toLevel.clauses.sample = none := by simp_all
        have hplain : q.toLevel.clauses.summarised = false := by simp_all
        have hown : R.rows (RowStep.own q.toLevel.toQuery (.filter (some e))) =
            (R.rows q.toLevel.toQuery).filter (R.holds .all e) :=
          R.rows_withFilter_wrap _ e
        rw [hown]
        simp only [RowStep.apply, Query.filter, Level.filter, Level.nestIf, hc]
        exact R.level_withFilter e _ hnone hplain (h hplain)
  | sample rows =>
    by_cases hc : q.toLevel.clauses.sample.isSome = true
    · simp only [RowStep.apply, Query.sample, Level.sample, Level.nestIf, hc, if_true]
      rfl
    · have hnone : q.toLevel.clauses.sample = none := by simpa using hc
      have hown : R.rows (RowStep.own q.toLevel.toQuery (.sample rows)) =
          R.sample rows (R.rows q.toLevel.toQuery) := R.rows_sample_wrap _ rows
      rw [hown]
      simp only [RowStep.apply, Query.sample, Level.sample, Level.nestIf, hc]
      exact R.level_withSample rows _ hnone
  | summarise keys aggregates =>
    cases q with
    | table name =>
      exact R.rows_own_congr (R.rows_toLevel (.table name)).symm (.summarise keys aggregates)
    | level source c => rfl
    | join left right criteria => rfl

/-- **A run of steps.**  From a query whose level is a summary or selects
everything, folding the steps keeps the rows of the run in which every step has
a level of its own. -/
theorem rows_run {q : Query} (h : q.SelectsRows) (steps : List RowStep) :
    R.rows (RowStep.run q steps) = R.rows (RowStep.runOwn q steps) := by
  -- The two runs part after the first step, so they are compared from queries of equal rows.
  suffices hgen : ∀ q q' : Query, q.SelectsRows → R.rows q = R.rows q' →
      R.rows (RowStep.run q steps) = R.rows (RowStep.runOwn q' steps) from hgen q q h rfl
  clear h q
  induction steps with
  | nil =>
    intro q q' _ hrows
    exact hrows
  | cons step steps ih =>
    intro q q' h hrows
    have hstep : R.rows (step.apply q) = R.rows (step.own q') :=
      (R.rows_apply h step).trans (R.rows_own_congr hrows step)
    exact ih (step.apply q) (step.own q') (Query.selectsRows_apply h step) hstep

/-- **Folding never changes the rows.**  For every table or join and every list
of filters, samples and summaries, in any order, the query built by folding has
the rows of the query in which each step stands on a fresh level. -/
theorem rows_fold_steps {source : Query} (hsource : source.isSource = true)
    (steps : List RowStep) :
    R.rows (RowStep.run source steps) = R.rows (RowStep.runOwn source steps) :=
  R.rows_run (Query.selectsRows_of_isSource hsource) steps

end Reading

/-- Rows that are numbers: a literal filter bounds them, a sample takes the
first ones and a summary adds them up. -/
def numbers : Reading Nat (List Nat) where
  table _ := [5, 1, 4, 2, 3]
  join _ left right := left ++ right
  holds
    | _, .literal (.integer bound), row => (row : Int) < bound
    | _, _, _ => true
  project _ row := row
  group _ _ rows := [rows]
  summary _ rows := rows.sum
  sample n rows := rows.take n
  project_all _ := rfl

/-- Filters, samples and summaries over a join, in an order in which some are
folded and some are nested. -/
theorem rows_fold_steps_join :
    let source := Query.join (.table "t") (.table "u") []
    let steps : List RowStep :=
      [.filter (some (.literal (.integer 5))), .filter none, .sample 6,
        .filter (some (.literal (.integer 4))), .sample 3, .summarise ["k"] [], .sample 1,
        .filter (some (.literal (.integer 9)))]
    source.isSource = true ∧
      numbers.rows (RowStep.run source steps) = numbers.rows (RowStep.runOwn source steps) ∧
      numbers.rows (RowStep.run source steps) = [6] := by
  intro source steps
  exact ⟨rfl, numbers.rows_fold_steps rfl steps, by decide⟩

end QuerySteps
