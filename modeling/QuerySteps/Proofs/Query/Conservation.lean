import QuerySteps.Proofs.Query.NestingPolicy
import QuerySteps.Proofs.Query.Transformation

/-!
# No clause is lost

A step extends the top level or buries it under a new one, and new columns overwrite the old ones in
place.  Still every filter, derived column, sample and grouping that was ever asked for stands in
the query, once and in order: read from the innermost level to the outermost, the levels carry
exactly what the steps asked for.

A `Ledger` is what levels carry, or what effects ask for, with the four kinds of entries apart.
Ledgers are appended like lists, so the law is an equation: `ledger_onto` says that one effect
appends its own entries to the ledger of the query.  Wrapping and nesting add a level that carries
nothing; a sample is taken on a level without one and a summary on a level that is none, so neither
overwrites an entry.  The run follows by induction (`ledger_all`).
-/

namespace QuerySteps

namespace Query

/-- The clauses of the levels of a query down to its table or join, innermost first. -/
def chain : Query → List Clauses
  | level source clauses => source.chain ++ [clauses]
  | _ => []

/-- The table or join below all levels. -/
def bottom : Query → Query
  | level source _ => source.bottom
  | q => q

end Query

/-- What levels carry or effects ask for. -/
@[ext] structure Ledger where
  filters : List Expr
  derived : List (String × Expr)
  samples : List Nat
  keys : List (List String)

namespace Ledger

instance : Append Ledger where
  append a b := ⟨a.filters ++ b.filters, a.derived ++ b.derived, a.samples ++ b.samples,
    a.keys ++ b.keys⟩

/-- The ledger without entries. -/
def empty : Ledger := ⟨[], [], [], []⟩

section

variable (a b c : Ledger)

@[simp] theorem filters_append : (a ++ b).filters = a.filters ++ b.filters := rfl

@[simp] theorem derived_append : (a ++ b).derived = a.derived ++ b.derived := rfl

@[simp] theorem samples_append : (a ++ b).samples = a.samples ++ b.samples := rfl

@[simp] theorem keys_append : (a ++ b).keys = a.keys ++ b.keys := rfl

@[simp] theorem append_empty : a ++ empty = a := by
  ext1 <;> exact List.append_nil _

theorem append_assoc : a ++ b ++ c = a ++ (b ++ c) := by
  ext1 <;> exact List.append_assoc _ _ _

end

/-- What a level carries.  Group keys count on summaries only. -/
def ofClauses (c : Clauses) : Ledger where
  filters := c.filters
  derived := c.derived
  samples := c.sample.toList
  keys := bif c.summarised then [c.groupBy] else []

/-- What the levels of a query carry, from the innermost to the outermost. -/
def ofLevels (levels : List Clauses) : Ledger where
  filters := levels.flatMap (·.filters)
  derived := levels.flatMap (·.derived)
  samples := levels.filterMap (·.sample)
  keys := (levels.filter (·.summarised)).map (·.groupBy)

theorem ofLevels_append_singleton (levels : List Clauses) (c : Clauses) :
    ofLevels (levels ++ [c]) = ofLevels levels ++ ofClauses c := by
  ext1
  · simp [ofLevels, ofClauses]
  · simp [ofLevels, ofClauses]
  · cases h : c.sample <;> simp [ofLevels, ofClauses, h]
  · by_cases h : c.summarised = true <;> simp [ofLevels, ofClauses, h]

end Ledger

namespace Effect

/-- The expression of a filter. -/
def filter? : Effect → Option Expr
  | filter e => some e
  | _ => none

/-- The derived columns that an effect adds: its own, or one for each aggregate of a summary. -/
def derivedColumns : Effect → List (String × Expr)
  | derive name e => [(name, e)]
  | summarise _ aggregates => aggregates.map fun a => (a.output, a.expr)
  | _ => []

/-- The number of rows of a sample. -/
def rows? : Effect → Option Nat
  | sample rows => some rows
  | _ => none

/-- The keys of a summary. -/
def keys? : Effect → Option (List String)
  | summarise keys _ => some keys
  | _ => none

end Effect

/-- What effects ask for, in their order. -/
def Ledger.ofEffects (effects : List Effect) : Ledger where
  filters := effects.filterMap Effect.filter?
  derived := effects.flatMap Effect.derivedColumns
  samples := effects.filterMap Effect.rows?
  keys := effects.filterMap Effect.keys?

theorem Ledger.ofEffects_cons (effect : Effect) (effects : List Effect) :
    ofEffects (effect :: effects) = ofEffects [effect] ++ ofEffects effects := by
  ext1
  · exact List.filterMap_append (l := [effect])
  · exact @List.flatMap_append _ _ [effect] effects _
  · exact List.filterMap_append (l := [effect])
  · exact List.filterMap_append (l := [effect])

/-- What a query carries above its table or join. -/
def Query.ledger (q : Query) : Ledger := .ofLevels q.chain

namespace Level

/-- What a level carries together with the levels below it. -/
theorem ledger_toQuery (l : Level) : l.toQuery.ledger = l.source.ledger ++ .ofClauses l.clauses :=
  Ledger.ofLevels_append_singleton _ _

/-- A fresh level carries nothing. -/
theorem ledger_wrap (q : Query) : (wrap q).toQuery.ledger = q.ledger := by
  rw [ledger_toQuery]
  exact Ledger.append_empty _

/-- Nesting loses nothing and adds nothing. -/
theorem ledger_nestIf (conflict : Bool) (l : Level) :
    (l.nestIf conflict).toQuery.ledger = l.toQuery.ledger := by
  cases conflict with
  | false => rfl
  | true => exact ledger_wrap _

theorem bottom_nestIf (conflict : Bool) (l : Level) :
    (l.nestIf conflict).source.bottom = l.source.bottom := by
  cases conflict <;> rfl

/-- A level whose clauses grow by some entries carries those entries more. -/
theorem ledger_of_clauses {l l' : Level} {added : Ledger} (hsource : l'.source = l.source)
    (hclauses : Ledger.ofClauses l'.clauses = .ofClauses l.clauses ++ added) :
    l'.toQuery.ledger = l.toQuery.ledger ++ added := by
  rw [ledger_toQuery, ledger_toQuery, hsource, hclauses, Ledger.append_assoc]

theorem ledger_withColumns (l : Level) (columns : List Selected) :
    (l.withColumns columns).toQuery.ledger = l.toQuery.ledger :=
  (ledger_toQuery _).trans (ledger_toQuery l).symm

theorem ledger_withFilter (l : Level) (e : Expr) :
    (l.withFilter e).toQuery.ledger = l.toQuery.ledger ++ .ofEffects [.filter e] := by
  refine ledger_of_clauses (l := l) rfl ?_
  have hentries : Ledger.ofEffects [.filter e] = ⟨[e], [], [], []⟩ := rfl
  rw [hentries]
  ext1 <;> simp [Ledger.ofClauses, withFilter]

theorem ledger_derive (l : Level) (name : String) (e : Expr) :
    (l.derive name e).toQuery.ledger = l.toQuery.ledger ++ .ofEffects [.derive name e] := by
  refine ledger_of_clauses (l := l) rfl ?_
  have hentries : Ledger.ofEffects [.derive name e] = ⟨[], [(name, e)], [], []⟩ := rfl
  rw [hentries]
  ext1 <;> simp [Ledger.ofClauses, derive]

/-- A sample is taken on a level without one, so it replaces none. -/
theorem ledger_sample (l : Level) (rows : Nat) :
    (l.sample rows).toQuery.ledger = l.toQuery.ledger ++ .ofEffects [.sample rows] := by
  have hnone : (l.nestIf l.clauses.sample.isSome).clauses.sample = none := by
    by_cases h : l.clauses.sample.isSome = true
    · simp only [nestIf, h, if_true]
      rfl
    · simp only [nestIf, h]
      simpa using h
  rw [← ledger_nestIf l.clauses.sample.isSome l]
  refine ledger_of_clauses (l := l.nestIf l.clauses.sample.isSome) rfl ?_
  have hentries : Ledger.ofEffects [.sample rows] = ⟨[], [], [rows], []⟩ := rfl
  rw [hentries]
  ext1 <;> simp [Ledger.ofClauses, sample, hnone]

/-- A summary of a level that is none, so it replaces no keys. -/
theorem ledger_summarise (l : Level) (hplain : l.clauses.summarised = false)
    (keys : List String) (aggregates : List Aggregate) :
    (l.summarise keys aggregates false).toQuery.ledger =
      l.toQuery.ledger ++ .ofEffects [.summarise keys aggregates] := by
  refine ledger_of_clauses (l := l) rfl ?_
  have hentries : Ledger.ofEffects [.summarise keys aggregates] =
      ⟨[], aggregates.map fun a => (a.output, a.expr), [], [keys]⟩ := by
    ext1 <;> simp [Ledger.ofEffects, Effect.filter?, Effect.derivedColumns, Effect.rows?,
      Effect.keys?]
  rw [hentries]
  ext1 <;> simp [Ledger.ofClauses, summarise, nestIf, hplain]

end Level

namespace Query

/-- A query and the level that steps extend carry the same. -/
theorem ledger_toLevel (q : Query) : q.toLevel.toQuery.ledger = q.ledger := by
  cases q with
  | table name => exact Level.ledger_wrap _
  | level source c => rfl
  | join left right criteria => exact Level.ledger_wrap _

theorem bottom_toLevel (q : Query) : q.toLevel.source.bottom = q.bottom := by
  cases q <;> rfl

end Query

namespace Effect

/-- **One effect appends its entries.** -/
theorem ledger_onto (q : Query) (effect : Effect) :
    (effect.onto q).toQuery.ledger = q.ledger ++ .ofEffects [effect] := by
  rw [← q.ledger_toLevel]
  cases effect with
  | project columns =>
    have hnone : Ledger.ofEffects [.project columns] = .empty := rfl
    rw [hnone, Ledger.append_empty, onto, Level.rename]
    split
    · rfl
    · exact (Level.ledger_withColumns _ columns).trans (Level.ledger_nestIf _ _)
  | filter e => exact (Level.ledger_withFilter _ e).trans (by rw [Level.ledger_nestIf])
  | derive name e => exact Level.ledger_derive _ name e
  | sample rows => exact Level.ledger_sample _ rows
  | summarise keys aggregates =>
    -- the level that is summarised is fresh, over a table or over a nested level
    have hplain : (q.toLevel.nestIf !q.isTable).clauses.summarised = false := by
      cases q <;> rfl
    exact (Level.ledger_summarise _ hplain keys aggregates).trans (by rw [Level.ledger_nestIf])

/-- No effect touches the table or join at the bottom. -/
theorem bottom_onto (q : Query) (effect : Effect) :
    (effect.onto q).toQuery.bottom = q.bottom := by
  rw [← q.bottom_toLevel]
  cases effect with
  | project columns =>
    rw [onto, Level.rename]
    split
    · rfl
    · exact Level.bottom_nestIf _ _
  | filter e => exact Level.bottom_nestIf _ _
  | derive name e => rfl
  | sample rows => exact Level.bottom_nestIf _ _
  | summarise keys aggregates => exact Level.bottom_nestIf _ _

/-- Effects one after the other append their entries in order. -/
theorem ledger_all (q : Query) (effects : List Effect) :
    (all q effects).ledger = q.ledger ++ .ofEffects effects := by
  induction effects generalizing q with
  | nil => exact (Ledger.append_empty _).symm
  | cons effect effects ih =>
    calc (all q (effect :: effects)).ledger
        = (effect.onto q).toQuery.ledger ++ .ofEffects effects := ih _
      _ = q.ledger ++ .ofEffects (effect :: effects) := by
        rw [ledger_onto, Ledger.append_assoc, ← Ledger.ofEffects_cons]

theorem bottom_all (q : Query) (effects : List Effect) : (all q effects).bottom = q.bottom := by
  induction effects generalizing q with
  | nil => rfl
  | cons effect effects ih => exact (ih _).trans (bottom_onto q effect)

end Effect

/-- **Clauses are conserved.**  After any steps on a table or join, the levels above it carry, from
the innermost to the outermost, exactly the filters, derived columns, samples and group keys that
the steps asked for, in their order. -/
theorem Transformation.run_conserves {source q : Query} (hsource : source.isSource = true)
    {steps : List Transformation} (h : run source steps = .ok q) :
    q.bottom = source ∧
      Ledger.ofLevels q.chain = .ofEffects (steps.filterMap effect?) := by
  rw [run_eq_ok h]
  have hbottom : source.bottom = source := by
    cases source <;> first | rfl | cases hsource
  have hempty : source.ledger = .empty := by
    cases source <;> first | rfl | cases hsource
  refine ⟨(Effect.bottom_all _ _).trans hbottom, ?_⟩
  calc Ledger.ofLevels (Effect.all source (steps.filterMap effect?)).chain
      = source.ledger ++ .ofEffects (steps.filterMap effect?) := Effect.ledger_all _ _
    _ = .ofEffects (steps.filterMap effect?) := by
      rw [hempty]
      rfl

/-- Steps of every kind over a join, some folded and some nested, and what the levels carry after
them. -/
theorem Transformation.run_conserves_report :
    let source := Query.join (.table "t") (.table "u") [.shared "id"]
    let large : Expr := .binary (.named "a") ">" (.literal (.integer 1))
    let few : Expr := .binary (.named "n") "<" (.literal (.integer 9))
    let steps : List Transformation :=
      [.filter (.expr large), .rename [.rename "a" "x"], .sample 6, .derive " " (.text "oops"),
        .derive "d" (.expr (.named "x")), .select ["d"], .filter .nothing, .sample 3,
        .summarise ["d"] [⟨"COUNT", "*", "n"⟩], .filter (.expr few), .sample 1, .rename []]
    source.isSource = true ∧
      ∃ q, run source steps = .ok q ∧ q.bottom = source ∧
        Ledger.ofLevels q.chain = .ofEffects (steps.filterMap effect?) ∧
        Ledger.ofLevels q.chain =
          ⟨[large, few], [("d", .named "x"), ("n", .aggregate "COUNT" "*")], [6, 3, 1], [["d"]]⟩ := by
  intro source large few steps
  refine ⟨rfl, _, rfl, ?_⟩
  obtain ⟨hbottom, hledger⟩ := @run_conserves source _ rfl steps rfl
  have hasked : Ledger.ofEffects (steps.filterMap effect?) =
      ⟨[large, few], [("d", .named "x"), ("n", .aggregate "COUNT" "*")], [6, 3, 1], [["d"]]⟩ := rfl
  exact ⟨hbottom, hledger, hledger.trans hasked⟩

end QuerySteps
