import QuerySteps.Query.Step

/-!
# Runs of steps

The steps of a caller are taken as data here, so that a property can be shown of every query that
any list of them builds.  A caller's step is not yet a change: its argument has to be read first,
and it may turn out to ask for nothing.  An `Effect` is what is left of a step that asks for
something; it always acts on the level that steps extend (`Effect.onto`), and `apply_eq_ok_iff` says
that a step which succeeds does nothing or has exactly that effect.  A whole run is therefore a fold
of its effects (`run_eq_ok`).

`Query.Built` collects the queries that callers can make at all, from tables and joins by steps.
-/

namespace QuerySteps

/-- A step, with what the caller gives it. -/
inductive Transformation where
  | select (names : List String)
  | rename (columns : List Selected)
  | filter (arg : ExprArgument)
  | derive (name : String) (arg : ExprArgument)
  | sample (rows : Nat)
  | summarise (keys : List String) (aggregates : List Aggregate)

/-- What a step asks for. -/
inductive Effect where
  | project (columns : List Selected)
  | filter (e : Expr)
  | derive (name : String) (e : Expr)
  | sample (rows : Nat)
  | summarise (keys : List String) (aggregates : List Aggregate)

namespace Effect

/-- The level that takes over from the query. -/
def onto (q : Query) : Effect → Level
  | project columns => q.toLevel.rename columns
  | filter e => q.toLevel.filter e
  | derive name e => q.toLevel.derive name e
  | sample rows => q.toLevel.sample rows
  | summarise keys aggregates => q.toLevel.summarise keys aggregates !q.isTable

/-- The query after all effects. -/
def all (q : Query) (effects : List Effect) : Query :=
  effects.foldl (fun q effect => (effect.onto q).toQuery) q

end Effect

namespace Transformation

/-- The query after the step. -/
def apply (q : Query) : Transformation → Except ExprError Query
  | select names => .ok (q.select names)
  | rename columns => .ok (q.rename columns)
  | filter arg => q.filterBy arg
  | derive name arg => q.deriveBy name arg
  | sample rows => .ok (q.sample rows)
  | summarise keys aggregates => .ok (q.summarise keys aggregates)

/-- The query after all steps, or the first error. -/
def run : Query → List Transformation → Except ExprError Query
  | q, [] => .ok q
  | q, step :: steps =>
    match step.apply q with
    | .error e => .error e
    | .ok q => run q steps

/-- What a step asks for once its argument is read: no columns, no expression and a blank name ask
for nothing, and under a blank name the argument is not read. -/
def effect : Transformation → Except ExprError (Option Effect)
  | select names => .ok (if names.isEmpty then none else some (.project (names.map .keep)))
  | rename columns => .ok (if columns.isEmpty then none else some (.project columns))
  | filter arg => arg.resolve.map fun e => e.map .filter
  | derive name arg =>
    if Text.isBlankText name then .ok none else arg.resolve.map fun e => e.map (.derive name)
  | sample rows => .ok (some (.sample rows))
  | summarise keys aggregates => .ok (some (.summarise keys aggregates))

/-- What a step asks for, if its argument can be read and it asks for something. -/
def effect? (step : Transformation) : Option Effect :=
  step.effect.toOption.join

theorem effect?_eq {step : Transformation} {found : Option Effect} (h : step.effect = .ok found) :
    step.effect? = found := by
  rw [effect?, h]
  rfl

private theorem exists_of_resolve {arg : ExprArgument} {make : Expr → Effect} {effect : Effect}
    (h : (arg.resolve.map fun e => e.map make) = .ok (some effect)) : ∃ e, effect = make e := by
  cases harg : arg.resolve with
  | error e =>
    rw [harg] at h
    cases h
  | ok found =>
    rw [harg] at h
    cases found with
    | none => cases h
    | some e =>
      cases h
      exact ⟨e, rfl⟩

/-- A step that succeeds never asks for a selection of no columns. -/
theorem effect_ne_project_nil {step : Transformation} {effect : Effect}
    (h : step.effect = .ok (some effect)) : effect ≠ .project [] := by
  rintro rfl
  cases step with
  | select names => cases names <;> cases h
  | rename columns => cases columns <;> cases h
  | filter arg =>
    obtain ⟨e, he⟩ := exists_of_resolve h
    cases he
  | derive name arg =>
    rw [effect] at h
    split at h
    · cases h
    · obtain ⟨e, he⟩ := exists_of_resolve h
      cases he
  | sample rows => cases h
  | summarise keys aggregates => cases h

/-- **A step is its effect**: it fails where its argument cannot be read, gives back the very query
if it asks for nothing, and otherwise acts on the level that steps extend. -/
theorem apply_eq (q : Query) (step : Transformation) :
    step.apply q = step.effect.map fun
      | none => q
      | some effect => (effect.onto q).toQuery := by
  cases step with
  | select names =>
    by_cases h : names.isEmpty = true
    · simp only [apply, effect, Query.select, h, if_true]
      rfl
    · simp only [apply, effect, Query.select, h]
      rfl
  | rename columns =>
    by_cases h : columns.isEmpty = true
    · simp only [apply, effect, Query.rename, h, if_true]
      rfl
    · simp only [apply, effect, Query.rename, h]
      rfl
  | filter arg =>
    show arg.resolve.map q.filter = _
    simp only [effect]
    cases arg.resolve with
    | error e => rfl
    | ok e => cases e <;> rfl
  | derive name arg =>
    by_cases h : Text.isBlankText name = true
    · simp only [apply, effect, Query.deriveBy, h, if_true]
      rfl
    · simp only [apply, effect, Query.deriveBy, h]
      cases arg.resolve with
      | error e => rfl
      | ok e => cases e <;> rfl
  | sample rows => rfl
  | summarise keys aggregates => rfl

theorem apply_eq_ok_iff {q q' : Query} {step : Transformation} :
    step.apply q = .ok q' ↔
      (step.effect = .ok none ∧ q' = q) ∨
        ∃ effect, step.effect = .ok (some effect) ∧ q' = (effect.onto q).toQuery := by
  rw [apply_eq]
  cases h : step.effect with
  | error e => simp [Except.map]
  | ok found => cases found <;> simp [Except.map, eq_comm]

/-- **A run that succeeds is the fold of its effects.** -/
theorem run_eq_ok {q q' : Query} {steps : List Transformation} (h : run q steps = .ok q') :
    q' = Effect.all q (steps.filterMap effect?) := by
  induction steps generalizing q with
  | nil =>
    cases h
    rfl
  | cons step steps ih =>
    rw [run] at h
    split at h
    · cases h
    · next next hstep =>
      have hrest := ih h
      rcases apply_eq_ok_iff.mp hstep with ⟨heffect, rfl⟩ | ⟨effect, heffect, rfl⟩
      · rw [hrest, List.filterMap_cons_none (effect?_eq heffect)]
      · rw [hrest, List.filterMap_cons_some (effect?_eq heffect)]
        rfl

end Transformation

/-- The queries that callers can make. -/
inductive Query.Built : Query → Prop
  | table (name : String) : Built (.table name)
  | join {left right : Query} (criteria : List Criterion) (builtLeft : Built left)
      (builtRight : Built right) : Built (.join left right criteria)
  | step {q q' : Query} (step : Transformation) (built : Built q)
      (applied : step.apply q = .ok q') : Built q'

/-- A run from such a query ends in such a query. -/
theorem Query.Built.run {q q' : Query} (h : q.Built) {steps : List Transformation}
    (hrun : Transformation.run q steps = .ok q') : q'.Built := by
  induction steps generalizing q with
  | nil =>
    cases hrun
    exact h
  | cons step steps ih =>
    rw [Transformation.run] at hrun
    split at hrun
    · cases hrun
    · next next hstep => exact ih (h.step step hstep) hrun

/-- What every table has, a join has if its sides have it, and every effect keeps, every query has
that callers can make. -/
theorem Query.Built.invariant {P : Query → Prop} (table : ∀ name, P (.table name))
    (join : ∀ left right criteria, P left → P right → P (.join left right criteria))
    (step : ∀ q effect, P q → P (Effect.onto q effect).toQuery) {q : Query} (h : q.Built) :
    P q := by
  induction h with
  | table name => exact table name
  | join criteria _ _ ihLeft ihRight => exact join _ _ criteria ihLeft ihRight
  | step t _ applied ih =>
    rcases Transformation.apply_eq_ok_iff.mp applied with ⟨-, rfl⟩ | ⟨effect, -, rfl⟩
    · exact ih
    · exact step _ effect ih

end QuerySteps
