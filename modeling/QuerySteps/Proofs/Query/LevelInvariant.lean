import QuerySteps.Proofs.Query.Transformation
import QuerySteps.Query.Compile

/-!
# What holds of every level

The clauses of a level are seven independent fields, but the steps put only some combinations into
them.  `Level.Sound` says which: a level that includes all columns lists none, only a summary has
group keys, a summary has no filters and stands over a table or a level, and a level that lists no
columns at all is a summary without keys.

Nesting is what keeps this up.  A fresh level is sound (`Level.sound_wrap`), a filter or a summary
that would break the rule finds itself on a fresh level, and the other steps touch fields of which
the rule does not speak.  `sound_onto` is the step, for the levels of the whole query, and
`Query.Built.sound` the result for every query that callers can make, joins of such queries
included.
-/

namespace QuerySteps

namespace Query

/-- The levels of a query, outermost first; those of both sides of a join belong to it. -/
def levels : Query → List Level
  | table _ => []
  | level source clauses => ⟨source, clauses⟩ :: source.levels
  | join left right _ => left.levels ++ right.levels

/-- Whether the query is a join. -/
def isJoin : Query → Bool
  | join _ _ _ => true
  | _ => false

end Query

/-- The combinations of clauses that occur. -/
structure Level.Sound (l : Level) : Prop where
  columns_eq_nil : l.clauses.includesAll = true → l.clauses.columns = []
  summarised_of_keys : l.clauses.groupBy ≠ [] → l.clauses.summarised = true
  includesAll_eq_false : l.clauses.summarised = true → l.clauses.includesAll = false
  filters_eq_nil : l.clauses.summarised = true → l.clauses.filters = []
  source_not_join : l.clauses.summarised = true → l.source.isJoin = false
  keyless : l.clauses.includesAll = false → l.clauses.columns = [] →
    l.clauses.summarised = true ∧ l.clauses.groupBy = []

namespace Level

/-- A fresh level is sound over any query. -/
theorem sound_wrap (q : Query) : (wrap q).Sound where
  columns_eq_nil _ := rfl
  summarised_of_keys h := absurd rfl h
  includesAll_eq_false h := Bool.noConfusion h
  filters_eq_nil h := Bool.noConfusion h
  source_not_join h := Bool.noConfusion h
  keyless h := Bool.noConfusion h

variable {l : Level}

theorem Sound.withColumns (h : l.Sound) {columns : List Selected} (hcolumns : columns ≠ []) :
    (l.withColumns columns).Sound where
  columns_eq_nil hall := Bool.noConfusion hall
  summarised_of_keys := h.summarised_of_keys
  includesAll_eq_false _ := rfl
  filters_eq_nil := h.filters_eq_nil
  source_not_join := h.source_not_join
  keyless _ hnil := absurd hnil hcolumns

theorem Sound.derive (h : l.Sound) (name : String) (e : Expr) : (l.derive name e).Sound :=
  ⟨h.columns_eq_nil, h.summarised_of_keys, h.includesAll_eq_false, h.filters_eq_nil,
    h.source_not_join, h.keyless⟩

/-- A filter may stand on any level that is no summary. -/
theorem Sound.withFilter (h : l.Sound) (hplain : l.clauses.summarised = false) (e : Expr) :
    (l.withFilter e).Sound where
  columns_eq_nil := h.columns_eq_nil
  summarised_of_keys := h.summarised_of_keys
  includesAll_eq_false := h.includesAll_eq_false
  filters_eq_nil hsummarised := absurd (hplain.symm.trans hsummarised) Bool.false_ne_true
  source_not_join := h.source_not_join
  keyless := h.keyless

/-- A summary may stand on any level without filters whose source is no join. -/
theorem sound_summarise (hfilters : l.clauses.filters = []) (hsource : l.source.isJoin = false)
    (keys : List String) (aggregates : List Aggregate) :
    (l.summarise keys aggregates false).Sound where
  columns_eq_nil hall := Bool.noConfusion hall
  summarised_of_keys _ := rfl
  includesAll_eq_false _ := rfl
  filters_eq_nil _ := hfilters
  source_not_join _ := hsource
  keyless _ hcolumns := ⟨rfl, List.map_eq_nil_iff.mp hcolumns⟩

end Level

namespace Query

/-- Every level of the query is sound. -/
def Sound (q : Query) : Prop := ∀ l ∈ q.levels, l.Sound

theorem sound_table (name : String) : (Query.table name).Sound :=
  fun _ h => (List.not_mem_nil h).elim

theorem sound_join {left right : Query} (hleft : left.Sound) (hright : right.Sound)
    (criteria : List Criterion) : (Query.join left right criteria).Sound := by
  intro l hl
  rcases List.mem_append.mp hl with hl | hl
  · exact hleft l hl
  · exact hright l hl

theorem sound_toQuery_iff {l : Level} : l.toQuery.Sound ↔ l.Sound ∧ l.source.Sound :=
  List.forall_mem_cons

variable {q : Query}

/-- Wrapping adds a sound level. -/
theorem Sound.wrap (h : q.Sound) : (Level.wrap q).toQuery.Sound :=
  sound_toQuery_iff.mpr ⟨Level.sound_wrap q, h⟩

/-- The level that steps extend is sound, and so is all below it. -/
theorem Sound.toLevel (h : q.Sound) : q.toLevel.Sound ∧ q.toLevel.source.Sound := by
  cases q with
  | table name => exact sound_toQuery_iff.mp h.wrap
  | level source c => exact sound_toQuery_iff.mp h
  | join left right criteria => exact sound_toQuery_iff.mp h.wrap

/-- Nesting, where there is a conflict, keeps everything sound. -/
theorem sound_nestIf {l : Level} (h : l.Sound ∧ l.source.Sound) (conflict : Bool) :
    (l.nestIf conflict).Sound ∧ (l.nestIf conflict).source.Sound := by
  cases conflict with
  | false => exact h
  | true => exact sound_toQuery_iff.mp (Sound.wrap (sound_toQuery_iff.mpr h))

/-- **One effect keeps every level sound.** -/
theorem Sound.onto (h : q.Sound) (effect : Effect) : (effect.onto q).toQuery.Sound := by
  rw [sound_toQuery_iff]
  have htop := h.toLevel
  cases effect with
  | project columns =>
    by_cases hcolumns : columns = []
    · subst hcolumns
      exact htop
    · have hrename : Effect.onto q (.project columns) =
          (q.toLevel.nestIf !q.toLevel.clauses.derived.isEmpty).withColumns columns := by
        simp [Effect.onto, Level.rename, hcolumns]
      rw [hrename]
      obtain ⟨hlevel, hsource⟩ := sound_nestIf htop (!q.toLevel.clauses.derived.isEmpty)
      exact ⟨hlevel.withColumns hcolumns, hsource⟩
  | filter e =>
    by_cases hc : (q.toLevel.clauses.sample.isSome || q.toLevel.clauses.summarised) = true
    · -- the filter stands on a fresh level
      simp only [Effect.onto, Level.filter, Level.nestIf, hc, if_true]
      exact ⟨(Level.sound_wrap _).withFilter rfl e, sound_toQuery_iff.mpr htop⟩
    · have hplain : q.toLevel.clauses.summarised = false := by simp_all
      simp only [Effect.onto, Level.filter, Level.nestIf, hc]
      exact ⟨htop.1.withFilter hplain e, htop.2⟩
  | derive name e => exact ⟨htop.1.derive name e, htop.2⟩
  | sample rows =>
    obtain ⟨hlevel, hsource⟩ := sound_nestIf htop q.toLevel.clauses.sample.isSome
    exact ⟨⟨hlevel.columns_eq_nil, hlevel.summarised_of_keys, hlevel.includesAll_eq_false,
      hlevel.filters_eq_nil, hlevel.source_not_join, hlevel.keyless⟩, hsource⟩
  | summarise keys aggregates =>
    -- only a table is summarised on the level that wraps it, any other query is nested first
    cases q with
    | table name => exact ⟨Level.sound_summarise rfl rfl keys aggregates, h⟩
    | level source c =>
      exact ⟨Level.sound_summarise (l := Level.wrap _) rfl rfl keys aggregates, h⟩
    | join left right criteria =>
      exact ⟨Level.sound_summarise (l := Level.wrap _) rfl rfl keys aggregates, h.wrap⟩

/-- Every level of a query that callers can make is sound, by induction on how it is made. -/
theorem Built.sound (h : q.Built) : q.Sound :=
  h.invariant sound_table (fun _ _ criteria hleft hright => sound_join hleft hright criteria)
    fun _ effect hq => hq.onto effect

end Query

/-- A sound level is written without a line of filters or without a line of group keys. -/
theorem Level.Sound.lines_apart {l : Level} (h : l.Sound) :
    l.clauses.filterLine = [] ∨ l.clauses.groupLine = [] := by
  by_cases hkeys : l.clauses.groupBy = []
  · exact .inr (by simp [Clauses.groupLine, hkeys])
  · have hfilters := h.filters_eq_nil (h.summarised_of_keys hkeys)
    exact .inl (by simp [Clauses.filterLine, hfilters])

/-- **The clauses of a level.**  In every query that callers can make, at any depth and on both
sides of every join, a level has one of the combinations of clauses that occur, and so none is
written with both WHERE and GROUP BY. -/
theorem Query.Built.levels_sound {q : Query} (h : q.Built) :
    ∀ l ∈ q.levels, l.Sound ∧ (l.clauses.filterLine = [] ∨ l.clauses.groupLine = []) :=
  fun l hl => ⟨h.sound l hl, (h.sound l hl).lines_apart⟩

/-- A filtered summary of a filtered join, whose columns are then renamed and sampled. -/
theorem Query.levels_sound_report :
    let large : ExprArgument := .expr (.binary (.named "n") ">" (.literal (.integer 1)))
    let steps : List Transformation :=
      [.filter large, .summarise ["id"] [⟨"COUNT", "*", "n"⟩], .rename [.rename "n" "m"],
        .sample 5, .filter .nothing, .summarise [] []]
    ∃ q, Transformation.run (.join (.table "t") (.table "u") [.shared "id"]) steps = .ok q ∧
      q.Built ∧ q.levels.length = 4 ∧
      ∀ l ∈ q.levels, l.Sound ∧ (l.clauses.filterLine = [] ∨ l.clauses.groupLine = []) := by
  intro large steps
  refine ⟨_, rfl, ?_⟩
  have hsource : (Query.join (.table "t") (.table "u") [.shared "id"]).Built :=
    .join [.shared "id"] (.table "t") (.table "u")
  have hbuilt := @Built.run _ _ hsource steps rfl
  exact ⟨hbuilt, rfl, hbuilt.levels_sound⟩

end QuerySteps
