import QuerySteps.Proofs.Query.LevelInvariant

/-!
# Derived columns at the end of the SELECT list

A derived column never nests: it is put behind the columns of the level on top, and nothing else
changes.  In the statement this shows as one more item at the end of the SELECT list, since the
other lines of the level do not speak of its columns (`Level.statement`).

One list does not grow that way.  A level without any item of its own is written with `*`, and the
first derived column takes the place of that `*`.  Callers have one way to such a level, a summary
without keys and aggregates on which they selected no columns (`Clauses.isEmptySummary`); that there
is no other is where `Level.Sound` comes in.
-/

namespace QuerySteps

variable {c : Clauses}

/-! ## SELECT lists -/

namespace Clauses

/-- The items of the clauses, in order: everything, the selected columns and the derived ones. -/
def items (c : Clauses) : List String :=
  (if c.includesAll then ["*"] else []) ++ c.columns.map (·.sql) ++ c.derived.map derivedSql

/-- A summary with neither keys nor aggregates nor any other columns. -/
def isEmptySummary (c : Clauses) : Bool :=
  c.summarised && c.groupBy.isEmpty && c.columns.isEmpty && c.derived.isEmpty

theorem projection_eq (c : Clauses) :
    c.projection = if c.items.isEmpty then ["*"] else c.items :=
  rfl

theorem isEmptySummary_iff :
    c.isEmptySummary = true ↔
      c.summarised = true ∧ c.groupBy = [] ∧ c.columns = [] ∧ c.derived = [] := by
  simp [isEmptySummary, and_assoc]

theorem items_eq_nil_iff :
    c.items = [] ↔ c.includesAll = false ∧ c.columns = [] ∧ c.derived = [] := by
  simp [items]

theorem items_derive (c : Clauses) (name : String) (e : Expr) :
    items { c with derived := c.derived ++ [(name, e)] } =
      c.items ++ [derivedSql (name, e)] := by
  simp [items]

/-- A derived column is written behind the items of the clauses. -/
theorem projection_derive (c : Clauses) (name : String) (e : Expr) :
    projection { c with derived := c.derived ++ [(name, e)] } =
      c.items ++ [derivedSql (name, e)] := by
  rw [projection_eq, items_derive, if_neg (by simp)]

end Clauses

/-- Of the levels that callers can make, only empty summaries have no items. -/
theorem Level.Sound.items_eq_nil_iff {l : Level} (h : l.Sound) :
    l.clauses.items = [] ↔ l.clauses.isEmptySummary = true := by
  rw [Clauses.items_eq_nil_iff, Clauses.isEmptySummary_iff]
  constructor
  · rintro ⟨hall, hcolumns, hderived⟩
    obtain ⟨hsummarised, hkeys⟩ := h.keyless hall hcolumns
    exact ⟨hsummarised, hkeys, hcolumns, hderived⟩
  · rintro ⟨hsummarised, -, hcolumns, hderived⟩
    exact ⟨h.includesAll_eq_false hsummarised, hcolumns, hderived⟩

/-- The items of a level are its SELECT list, unless it is an empty summary. -/
theorem Level.Sound.items_eq {l : Level} (h : l.Sound) :
    l.clauses.items = if l.clauses.isEmptySummary then [] else l.clauses.projection := by
  by_cases hempty : l.clauses.isEmptySummary = true
  · rw [if_pos hempty, h.items_eq_nil_iff.mpr hempty]
  · have hsome : l.clauses.items ≠ [] := fun hnil => hempty (h.items_eq_nil_iff.mp hnil)
    rw [if_neg hempty, Clauses.projection_eq, if_neg (by simpa using hsome)]

/-- The SELECT list of the level on top; a table or a join is taken with all its columns. -/
def Query.selectList : Query → List String
  | level _ clauses => clauses.projection
  | _ => ["*"]

theorem Query.selectList_eq (q : Query) : q.selectList = q.toLevel.clauses.projection := by
  cases q <;> rfl

/-! ## Statements -/

/-- The statement of a level with the given SELECT list in the place of its own. -/
def Level.statement (l : Level) (selectList : List String) (b : Backend) (outer : Bool)
    (depth : Nat) : Asked String := do
  let text ← l.source.compile b false (depth + 1)
  return placed outer depth (bodyText depth
    (["SELECT " ++ joinWith ", " selectList, "FROM " ++ text] ++ l.clauses.filterLine ++
      l.clauses.groupLine ++ l.clauses.sampleLine))

/-- **A derived column is one more item at the end of the SELECT list**, for every query that
callers can make: the level on top keeps its source and all its other clauses, and its statement is
written as before but for that item.  On an empty summary the item is the whole list. -/
theorem Query.Built.derive_appends {q : Query} (h : q.Built) {name : String}
    (hname : Text.isBlankText name = false) {arg : ExprArgument} {e : Expr}
    (harg : arg.resolve = .ok (some e)) :
    ∃ c : Clauses, q.deriveBy name arg = .ok (.level q.toLevel.source c) ∧
      c = { q.toLevel.clauses with derived := q.toLevel.clauses.derived ++ [(name, e)] } ∧
      c.projection = (if q.toLevel.clauses.isEmptySummary then [] else q.selectList) ++
        [e.sql ++ " AS " ++ quoteName name] ∧
      ∀ b outer depth,
        q.toLevel.toQuery.compile b outer depth =
          q.toLevel.statement q.selectList b outer depth ∧
        (Query.level q.toLevel.source c).compile b outer depth =
          q.toLevel.statement c.projection b outer depth := by
  have hderive : q.deriveBy name arg = .ok (q.toLevel.derive name e).toQuery := by
    rw [deriveBy, hname, harg]
    rfl
  refine ⟨(q.toLevel.derive name e).clauses, hderive, rfl, ?_, fun b outer depth => ⟨?_, rfl⟩⟩
  · have hprojection := q.toLevel.clauses.projection_derive name e
    rw [h.sound.toLevel.1.items_eq, ← selectList_eq] at hprojection
    exact hprojection
  · rw [selectList_eq]
    rfl

/-- A column derived from a sampled summary of a filtered join, and one derived from an empty
summary. -/
theorem Query.derive_appends_report :
    let twice : Expr := .binary (.named "n") "*" (.literal (.integer 2))
    let source : Query := .join (.table "t") (.table "u") [.shared "id"]
    let steps : List Transformation :=
      [.filter (.expr (.binary (.named "a") ">" (.literal (.integer 1)))),
        .summarise ["k"] [⟨"COUNT", "*", "n"⟩], .sample 3]
    ∃ q empty, Transformation.run source steps = .ok q ∧
      Transformation.run source [.summarise [] []] = .ok empty ∧ q.Built ∧ empty.Built ∧
      (∃ c : Clauses, q.deriveBy "m" (.expr twice) = .ok (.level q.toLevel.source c) ∧
        c.projection = ["k AS \"k\"", "COUNT(*) AS \"n\"", "( n * 2 ) AS \"m\""] ∧
        c.groupBy = ["k"] ∧ c.sample = some 3) ∧
      ∃ c : Clauses, empty.deriveBy "m" (.expr twice) = .ok (.level empty.toLevel.source c) ∧
        empty.selectList = ["*"] ∧ c.projection = ["( n * 2 ) AS \"m\""] := by
  intro twice source steps
  have hsource : source.Built := .join [.shared "id"] (.table "t") (.table "u")
  have hbuilt := @Built.run _ _ hsource steps rfl
  have hempty := @Built.run _ _ hsource [.summarise [] []] rfl
  have hname : Text.isBlankText "m" = false := rfl
  have harg : (ExprArgument.expr twice).resolve = .ok (some twice) := rfl
  obtain ⟨c, hderive, rfl, hprojection, -⟩ := hbuilt.derive_appends hname harg
  obtain ⟨c', hderive', rfl, hprojection', -⟩ := hempty.derive_appends hname harg
  exact ⟨_, _, rfl, rfl, hbuilt, hempty, ⟨_, hderive, hprojection, rfl, rfl⟩,
    _, hderive', rfl, hprojection'⟩

/-- A column derived from an empty summary takes the place of its `*`. -/
theorem Query.star_gives_way :
    (¬ ∀ q : Query, q.Built → ∀ name e q', Text.isBlankText name = false →
      q.deriveBy name (.expr e) = .ok q' →
      q'.selectList = q.selectList ++ [e.sql ++ " AS " ++ quoteName name]) ∧
    ∀ b, (((Query.table "t").summarise [] []).toSql b).result = .ok "SELECT *\nFROM t" ∧
      (((Query.table "t").summarise [] []).derive "n" (some (.literal (.integer 1)))).toSql b =
        pure "SELECT 1 AS \"n\"\nFROM t" := by
  refine ⟨fun hall => ?_, fun b => ⟨by rfl, by rfl⟩⟩
  have hbuilt : ((Query.table "t").summarise [] []).Built :=
    @Built.run _ _ (.table "t") [.summarise [] []] rfl
  have hlist := hall _ hbuilt "n" (.literal (.integer 1)) _ rfl rfl
  cases congrArg List.length hlist

end QuerySteps
