import Mathlib.Data.List.Forall2
import QuerySteps.Proofs.Query.Conservation
import QuerySteps.Proofs.Query.LevelInvariant

/-!
# The columns of a summary

A summary puts its group keys out under their own names.  Whether they stay there depends on what is
done to that very level afterwards: columns that are selected later replace those of the level
unless it has derived columns, and a summary has such columns only from its aggregates.

So each level is paired with its history, the effects that extended it in place (`Query.BuiltBy`).
One effect fits the clauses that it extends (`Effect.Fits`) and is recorded on top, over fresh
levels if any were needed (`Effect.levels_onto`); hence the clauses of every level are what its
history makes of a fresh level (`Query.BuiltBy.grown`, by induction on how the query is made).  The
rest speaks of histories alone: a summary comes first in its history, and a projection that follows
it finds neither aggregates nor derived columns (`Clauses.Grown.summary`).
-/

namespace QuerySteps

/-! ## Effects on one level -/

namespace Effect

/-- The columns that an effect selects. -/
def columns? : Effect → Option (List Selected)
  | project columns => some columns
  | _ => none

/-- The clauses after an effect that needs no level of its own. -/
def extend (c : Clauses) : Effect → Clauses
  | project columns => { c with includesAll := false, columns := columns }
  | filter e => { c with filters := c.filters ++ [e] }
  | derive name e => { c with derived := c.derived ++ [(name, e)] }
  | sample rows => { c with sample := some rows }
  | summarise keys aggregates =>
    { c with
      groupBy := keys
      derived := c.derived ++ aggregates.map fun a => (a.output, a.expr)
      columns := keys.map fun key => .rename key key
      includesAll := false
      summarised := true }

/-- Whether an effect is in conflict with nothing among the clauses. -/
def Fits (c : Clauses) : Effect → Prop
  | project _ => c.derived = []
  | filter _ => c.sample = none ∧ c.summarised = false
  | derive _ _ => True
  | sample _ => c.sample = none
  | summarise _ _ => c = .all

/-- An effect leaves a trace in the clauses. -/
theorem extend_ne_all (c : Clauses) (effect : Effect) : effect.extend c ≠ .all := by
  intro h
  cases effect with
  | project columns => exact Bool.noConfusion (congrArg Clauses.includesAll h)
  | filter e =>
    have hfilters : c.filters ++ [e] = [] := congrArg Clauses.filters h
    simp at hfilters
  | derive name e =>
    have hderived : c.derived ++ [(name, e)] = [] := congrArg Clauses.derived h
    simp at hderived
  | sample rows =>
    have hsample : some rows = none := congrArg Clauses.sample h
    cases hsample
  | summarise keys aggregates => exact Bool.noConfusion (congrArg Clauses.summarised h)

end Effect

/-- The level after an effect that needs no level of its own. -/
def Level.extend (l : Level) (effect : Effect) : Level :=
  { l with clauses := effect.extend l.clauses }

/-- The clauses that a history makes of those of a fresh level, if each effect fits. -/
inductive Clauses.Grown : List Effect → Clauses → Prop
  | fresh : Grown [] .all
  | extend {history : List Effect} {c : Clauses} {effect : Effect} (grown : Grown history c)
      (fits : effect.Fits c) : Grown (history ++ [effect]) (effect.extend c)

/-- The clauses of a summary after later effects on its level. -/
structure Clauses.SummaryOf (c : Clauses) (keys : List String) (aggregates : List Aggregate)
    (later : List Effect) : Prop where
  groupBy_eq : c.groupBy = keys
  derived_eq : c.derived =
    (Effect.summarise keys aggregates :: later).flatMap Effect.derivedColumns
  columns_eq : c.columns =
    (later.filterMap Effect.columns?).getLast?.getD (keys.map fun key => .rename key key)
  underived : ∀ before columns, before ++ [.project columns] <+: later →
    aggregates = [] ∧ ∀ name e, .derive name e ∉ before

namespace Clauses

variable {c : Clauses} {history later : List Effect} {keys : List String}
  {aggregates : List Aggregate} {effect : Effect}

/-- Only a fresh level has the clauses of one. -/
theorem Grown.eq_nil (h : Grown history c) (hfresh : c = .all) : history = [] := by
  cases h with
  | fresh => rfl
  | @extend _ c effect _ _ => exact absurd hfresh (effect.extend_ne_all c)

theorem summaryOf_all (keys : List String) (aggregates : List Aggregate) :
    (Effect.extend .all (.summarise keys aggregates)).SummaryOf keys aggregates [] where
  groupBy_eq := rfl
  derived_eq := (List.append_nil _).symm
  columns_eq := rfl
  underived before columns h := by simp at h

/-- A summary without derived columns has no aggregates, and none were derived later. -/
theorem SummaryOf.of_derived_eq_nil (h : c.SummaryOf keys aggregates later)
    (hnil : c.derived = []) : aggregates = [] ∧ ∀ name e, .derive name e ∉ later := by
  have hall := List.flatMap_eq_nil_iff.mp (h.derived_eq.symm.trans hnil)
  constructor
  · exact List.map_eq_nil_iff.mp (hall _ List.mem_cons_self)
  · intro name e hmem
    cases hall _ (List.mem_cons_of_mem _ hmem)

/-- **One effect on a summary** joins those that came later. -/
theorem SummaryOf.extend (h : c.SummaryOf keys aggregates later) (hsummarised : c.summarised = true)
    (fits : effect.Fits c) : (effect.extend c).SummaryOf keys aggregates (later ++ [effect]) := by
  have hunderived : ∀ before columns, before ++ [.project columns] <+: later ++ [effect] →
      aggregates = [] ∧ ∀ name e, .derive name e ∉ before := by
    intro before columns hprefix
    rcases List.prefix_concat_iff.mp hprefix with hlast | hearlier
    · obtain ⟨rfl, hproject⟩ := List.append_inj' hlast rfl
      obtain rfl := List.singleton_inj.mp hproject
      exact h.of_derived_eq_nil fits
    · exact h.underived before columns hearlier
  have hderived := h.derived_eq
  have hcolumns := h.columns_eq
  cases effect with
  | project columns =>
    refine ⟨h.groupBy_eq, ?_, ?_, hunderived⟩
    · simpa [Effect.extend, Effect.derivedColumns] using hderived
    · simp [Effect.extend, Effect.columns?]
  | derive name e =>
    refine ⟨h.groupBy_eq, ?_, ?_, hunderived⟩
    · simp [Effect.extend, Effect.derivedColumns, hderived]
    · simpa [Effect.extend, Effect.columns?] using hcolumns
  | sample rows =>
    refine ⟨h.groupBy_eq, ?_, ?_, hunderived⟩
    · simpa [Effect.extend, Effect.derivedColumns] using hderived
    · simpa [Effect.extend, Effect.columns?] using hcolumns
  | filter e => exact Bool.noConfusion (hsummarised.symm.trans fits.2)
  | summarise _ _ =>
    obtain rfl : c = .all := fits
    cases hsummarised

/-- **The history of a summary** starts with it. -/
theorem Grown.summary (h : Grown history c) (hsummarised : c.summarised = true) :
    ∃ keys aggregates later, history = .summarise keys aggregates :: later ∧
      c.SummaryOf keys aggregates later := by
  induction h with
  | fresh => cases hsummarised
  | @extend history c effect grown fits ih =>
    by_cases hbefore : c.summarised = true
    · obtain ⟨keys, aggregates, later, rfl, hsummary⟩ := ih hbefore
      exact ⟨keys, aggregates, later ++ [effect], rfl, hsummary.extend hbefore fits⟩
    · cases effect with
      | summarise keys aggregates =>
        obtain rfl := grown.eq_nil fits
        obtain rfl : c = .all := fits
        exact ⟨keys, aggregates, [], rfl, summaryOf_all keys aggregates⟩
      | project _ => exact absurd hsummarised hbefore
      | filter _ => exact absurd hsummarised hbefore
      | derive _ _ => exact absurd hsummarised hbefore
      | sample _ => exact absurd hsummarised hbefore

end Clauses

/-! ## Histories of levels -/

namespace Query

/-- The level that is nested or not stands over the levels of the query and, perhaps, fresh ones. -/
theorem levels_nestIf (q : Query) (conflict : Bool) :
    ∃ fresh, (q.toLevel.nestIf conflict).toQuery.levels = fresh ++ q.levels ∧
      ∀ l ∈ fresh, l.clauses = .all := by
  have htop : ∃ fresh, q.toLevel.toQuery.levels = fresh ++ q.levels ∧
      ∀ l ∈ fresh, l.clauses = .all := by
    cases q with
    | table name => exact ⟨[.wrap _], rfl, List.forall_mem_singleton.mpr rfl⟩
    | level source c => exact ⟨[], rfl, fun _ h => (List.not_mem_nil h).elim⟩
    | join left right criteria => exact ⟨[.wrap _], rfl, List.forall_mem_singleton.mpr rfl⟩
  cases conflict with
  | false => exact htop
  | true =>
    obtain ⟨fresh, hlevels, hfresh⟩ := htop
    refine ⟨q.toLevel.nest :: fresh, congrArg (q.toLevel.nest :: ·) hlevels, ?_⟩
    exact List.forall_mem_cons.mpr ⟨rfl, hfresh⟩

end Query

namespace Effect

/-- An effect extends the level on top, or a fresh one over it, where it is in conflict with
nothing. -/
theorem exists_extend (q : Query) {effect : Effect} (hsome : effect ≠ .project []) :
    ∃ conflict, effect.onto q = (q.toLevel.nestIf conflict).extend effect ∧
      effect.Fits (q.toLevel.nestIf conflict).clauses := by
  cases effect with
  | project columns =>
    have hcolumns : columns ≠ [] := fun h => hsome (congrArg project h)
    have hrename : q.toLevel.rename columns =
        (q.toLevel.nestIf !q.toLevel.clauses.derived.isEmpty).withColumns columns := by
      simp [Level.rename, hcolumns]
    refine ⟨!q.toLevel.clauses.derived.isEmpty, hrename, ?_⟩
    cases h : q.toLevel.clauses.derived.isEmpty with
    | true => exact List.isEmpty_iff.mp h
    | false => rfl
  | filter e =>
    refine ⟨q.toLevel.clauses.sample.isSome || q.toLevel.clauses.summarised, rfl, ?_⟩
    cases h : q.toLevel.clauses.sample.isSome || q.toLevel.clauses.summarised with
    | true => exact ⟨rfl, rfl⟩
    | false =>
      obtain ⟨hsample, hplain⟩ := Bool.or_eq_false_iff.mp h
      exact ⟨Option.isNone_iff_eq_none.mp (Option.isSome_eq_false_iff.mp hsample), hplain⟩
  | derive name e => exact ⟨false, rfl, trivial⟩
  | sample rows =>
    refine ⟨q.toLevel.clauses.sample.isSome, rfl, ?_⟩
    cases h : q.toLevel.clauses.sample with
    | none => exact h
    | some old => rfl
  | summarise keys aggregates =>
    refine ⟨!q.isTable, rfl, ?_⟩
    cases q <;> rfl

/-- The histories of the levels once the effect has joined that of the level on top. -/
def record (effect : Effect) : List (List Effect) → List (List Effect)
  | [] => []
  | history :: rest => (history ++ [effect]) :: rest

end Effect

/-- The histories of the levels after a step that put some fresh levels on top. -/
def Transformation.record (step : Transformation) (fresh : Nat) (histories : List (List Effect)) :
    List (List Effect) :=
  match step.effect? with
  | none => histories
  | some effect => effect.record (List.replicate fresh [] ++ histories)

/-- The queries that callers can make, with the history of each level. -/
inductive Query.BuiltBy : Query → List (List Effect) → Prop
  | table (name : String) : BuiltBy (.table name) []
  | join {left right : Query} {ofLeft ofRight : List (List Effect)} (criteria : List Criterion)
      (builtLeft : BuiltBy left ofLeft) (builtRight : BuiltBy right ofRight) :
      BuiltBy (.join left right criteria) (ofLeft ++ ofRight)
  | step {q q' : Query} {histories : List (List Effect)} (step : Transformation)
      (built : BuiltBy q histories) (applied : step.apply q = .ok q') :
      BuiltBy q' (step.record (q'.levels.length - q.levels.length) histories)

theorem Query.Built.exists_histories {q : Query} (h : q.Built) :
    ∃ histories, q.BuiltBy histories := by
  induction h with
  | table name => exact ⟨[], .table name⟩
  | join criteria _ _ ihLeft ihRight =>
    obtain ⟨ofLeft, hleft⟩ := ihLeft
    obtain ⟨ofRight, hright⟩ := ihRight
    exact ⟨ofLeft ++ ofRight, .join criteria hleft hright⟩
  | step step _ applied ih =>
    obtain ⟨histories, hq⟩ := ih
    exact ⟨_, hq.step step applied⟩

/-- The clauses of the levels are what their histories make of fresh levels. -/
def Query.GrownBy (q : Query) (histories : List (List Effect)) : Prop :=
  List.Forall₂ (fun l history => Clauses.Grown history l.clauses) q.levels histories

/-- Fresh levels have no history. -/
theorem Clauses.grown_replicate {fresh : List Level} (h : ∀ l ∈ fresh, l.clauses = .all) :
    List.Forall₂ (fun l history => Clauses.Grown history l.clauses) fresh
      (List.replicate fresh.length []) := by
  induction fresh with
  | nil => exact .nil
  | cons l fresh ih =>
    obtain ⟨hl, hrest⟩ := List.forall_mem_cons.mp h
    exact .cons (hl ▸ .fresh) (ih hrest)

/-- **One effect** joins the history of the level on top, over the fresh levels it needs. -/
theorem Query.GrownBy.onto {q : Query} {histories : List (List Effect)} (h : q.GrownBy histories)
    {effect : Effect} (hsome : effect ≠ .project []) :
    (effect.onto q).toQuery.GrownBy (effect.record (List.replicate
      ((effect.onto q).toQuery.levels.length - q.levels.length) [] ++ histories)) := by
  obtain ⟨conflict, honto, hfits⟩ := effect.exists_extend q hsome
  obtain ⟨fresh, hlevels, hfresh⟩ := q.levels_nestIf conflict
  have hlength : (effect.onto q).toQuery.levels.length - q.levels.length = fresh.length := by
    have hsame : (effect.onto q).toQuery.levels.length =
        (q.toLevel.nestIf conflict).toQuery.levels.length := by
      rw [honto]
      rfl
    rw [hsame, hlevels, List.length_append]
    omega
  have hall : (q.toLevel.nestIf conflict).toQuery.GrownBy
      (List.replicate fresh.length [] ++ histories) := by
    rw [GrownBy, hlevels]
    exact List.rel_append (Clauses.grown_replicate hfresh) h
  rw [hlength, honto]
  -- the histories are those of a level over its source
  generalize List.replicate fresh.length [] ++ histories = traces at hall
  cases hall with
  | cons top rest => exact .cons (top.extend hfits) rest

/-- **Every level is what its history makes of a fresh level.** -/
theorem Query.BuiltBy.grown {q : Query} {histories : List (List Effect)}
    (h : q.BuiltBy histories) : q.GrownBy histories := by
  induction h with
  | table name => exact .nil
  | join criteria _ _ ihLeft ihRight => exact List.rel_append ihLeft ihRight
  | step step _ applied ih =>
    rcases Transformation.apply_eq_ok_iff.mp applied with ⟨heffect, rfl⟩ | ⟨effect, heffect, rfl⟩
    · rw [Transformation.record, Transformation.effect?_eq heffect]
      exact ih
    · rw [Transformation.record, Transformation.effect?_eq heffect]
      exact ih.onto (Transformation.effect_ne_project_nil heffect)

/-! ## Projections of summaries -/

/-- New columns on a query whose top level summarises: they replace those of the level if it has no
derived columns, and otherwise stand on a level of their own. -/
theorem Query.rename_summary {q : Query} (h : q.toLevel.clauses.summarised = true)
    {columns : List Selected} (hcolumns : columns ≠ []) :
    q.rename columns =
      if q.toLevel.clauses.derived = [] then (q.toLevel.withColumns columns).toQuery
      else .level q { Clauses.all with includesAll := false, columns := columns } := by
  cases q with
  | table name => cases h
  | join left right criteria => cases h
  | level source c =>
    by_cases hderived : c.derived = []
    · simp [Query.rename, Level.rename, Query.toLevel, Level.nestIf, hcolumns, hderived]
    · simp [Query.rename, Level.rename, Query.toLevel, Level.nestIf, hcolumns, hderived]
      rfl

theorem Query.select_eq_rename (q : Query) (names : List String) :
    q.select names = q.rename (names.map .keep) := by
  cases names <;> rfl

/-- What the history of a level says about its columns if the level summarises: these are the group
keys, each under its own name and in order, if the summary has aggregates or no columns were
selected on the level after it. -/
def Level.KeepsKeys (l : Level) (history : List Effect) : Prop :=
  l.clauses.summarised = true →
    ∃ keys aggregates later, history = .summarise keys aggregates :: later ∧
      l.clauses.SummaryOf keys aggregates later ∧
      ((aggregates ≠ [] ∨ ∀ columns, .project columns ∉ later) →
        l.clauses.columns = l.clauses.groupBy.map fun key => .rename key key)

theorem Clauses.SummaryOf.not_projected {c : Clauses} {keys : List String}
    {aggregates : List Aggregate} {later : List Effect} (h : c.SummaryOf keys aggregates later)
    (haggregates : aggregates ≠ []) (columns : List Selected) : .project columns ∉ later := by
  intro hmem
  obtain ⟨before, after, rfl⟩ := List.append_of_mem hmem
  have hprefix : before ++ [.project columns] <+: before ++ .project columns :: after :=
    ⟨after, by simp⟩
  exact haggregates (h.underived before columns hprefix).1

/-- Columns that nothing replaced are the keys. -/
theorem Clauses.SummaryOf.columns_eq_keys {c : Clauses} {keys : List String}
    {aggregates : List Aggregate} {later : List Effect} (h : c.SummaryOf keys aggregates later)
    (hkept : ∀ columns, .project columns ∉ later) :
    c.columns = c.groupBy.map fun key => .rename key key := by
  have hnone : later.filterMap Effect.columns? = [] := by
    rw [List.filterMap_eq_nil_iff]
    intro effect heffect
    cases effect with
    | project columns => exact absurd heffect (hkept columns)
    | _ => rfl
  rw [h.columns_eq, hnone, h.groupBy_eq]
  rfl

/-- **A summary keeps its keys as its columns** at any depth of a query that callers can make, and
on both sides of every join, unless columns were selected on its very level while that had no
derived columns.  A selection on top of a summary replaces the columns in that case only; otherwise
it nests the summary. -/
theorem Query.Built.summaries_keep_keys {q : Query} (h : q.Built) :
    (∃ histories, q.BuiltBy histories) ∧
      (∀ histories, q.BuiltBy histories → List.Forall₂ Level.KeepsKeys q.levels histories) ∧
      (q.toLevel.clauses.summarised = true → ∀ columns, columns ≠ [] →
        q.rename columns =
          if q.toLevel.clauses.derived = [] then (q.toLevel.withColumns columns).toQuery
          else .level q { Clauses.all with includesAll := false, columns := columns }) ∧
      ∀ names, q.select names = q.rename (names.map .keep) := by
  refine ⟨h.exists_histories, ?_, fun hsummarised _ => Query.rename_summary hsummarised,
    q.select_eq_rename⟩
  intro histories hbuilt
  refine hbuilt.grown.imp fun l history hgrown hsummarised => ?_
  obtain ⟨keys, aggregates, later, hhistory, hsummary⟩ := hgrown.summary hsummarised
  refine ⟨keys, aggregates, later, hhistory, hsummary, fun hkept => ?_⟩
  rcases hkept with haggregates | hkept
  · exact hsummary.columns_eq_keys (hsummary.not_projected haggregates)
  · exact hsummary.columns_eq_keys hkept

/-- A summary with an aggregate, which a selection nests, and one without, whose columns a selection
replaces. -/
theorem Query.summaries_keep_keys_both :
    let counted : Transformation := .summarise ["k"] [⟨"COUNT", "*", "n"⟩]
    let steps : List Transformation :=
      [counted, .derive "d" (.expr (.named "n")), .select ["d"], .summarise ["d", "e"] [],
        .sample 3, .rename [.rename "d" "x"]]
    let histories : List (List Effect) :=
      [[.summarise ["d", "e"] [], .sample 3, .project [.rename "d" "x"]], [.project [.keep "d"]],
        [.summarise ["k"] [⟨"COUNT", "*", "n"⟩], .derive "d" (.named "n")]]
    ∃ q, Transformation.run (.table "t") steps = .ok q ∧ q.Built ∧ q.BuiltBy histories ∧
      List.Forall₂ Level.KeepsKeys q.levels histories ∧
      q.levels.map (·.clauses.columns) = [[.rename "d" "x"], [.keep "d"], [.rename "k" "k"]] := by
  intro counted steps histories
  refine ⟨_, rfl, ?_⟩
  have hbuilt := @Built.run _ _ (.table "t") steps rfl
  have hcounted := (BuiltBy.table "t").step counted rfl
  have hselected := (hcounted.step (.derive "d" (.expr (.named "n"))) rfl).step (.select ["d"]) rfl
  have hsampled := (hselected.step (.summarise ["d", "e"] []) rfl).step (.sample 3) rfl
  have hhistories := hsampled.step (.rename [.rename "d" "x"]) rfl
  exact ⟨hbuilt, hhistories, hbuilt.summaries_keep_keys.2.1 histories hhistories, rfl⟩

/-- A selection on a summary without aggregates replaces the keys beside their GROUP BY. -/
theorem Query.keys_replaced :
    (¬ ∀ q : Query, q.Built → ∀ l ∈ q.levels, l.clauses.summarised = true →
      l.clauses.columns = l.clauses.groupBy.map fun key => .rename key key) ∧
    ((Query.table "t").summarise ["k"] []).select ["x"] =
      .level (.table "t") { Clauses.all with
        groupBy := ["k"], columns := [.keep "x"], includesAll := false, summarised := true } := by
  refine ⟨fun hall => ?_, rfl⟩
  have hbuilt : (((Query.table "t").summarise ["k"] []).select ["x"]).Built :=
    @Built.run _ _ (.table "t") [.summarise ["k"] [], .select ["x"]] rfl
  have hcolumns := hall _ hbuilt _ List.mem_cons_self rfl
  have hnames : [none] = [some "k"] := congrArg (List.map Selected.newName) hcolumns
  cases hnames

end QuerySteps
