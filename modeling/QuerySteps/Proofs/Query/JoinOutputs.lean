import QuerySteps.Proofs.Query.SchemaCalls

/-!
# The outputs of a join

A join puts out the columns of its left side and those columns of its right side that are not
equated with a left column of the same name (`Join.outputs`).  Which columns these are and what is
compared is settled by the criteria alone, before the columns of the sides are known; here both are
compared with the schemas that the backend reports for the sides.

Nothing is lost: a right column is left out only if a criterion `name = name` is among the criteria
(`mem_droppedColumns`), and that very criterion stands in WHERE.  And if no side repeats a name, the
join repeats one exactly where a name stands on both sides without such a criterion
(`Join.nodup_outputs_iff`).  A join is written whenever both sides are described: its sides are
written once more for FROM, at another depth, but that asks the backend nothing new
(`Query.exists_compile`).
-/

namespace QuerySteps

/-- The right columns that a join leaves out are those that a criterion equates with a left column
of the same name. -/
theorem mem_droppedColumns {criteria : List Criterion} {name : String} :
    name ∈ droppedColumns criteria ↔ Criterion.shared name ∈ criteria := by
  simp only [droppedColumns, List.mem_map, List.mem_filter]
  constructor
  · rintro ⟨⟨left, op, right⟩, ⟨hmem, hshared⟩, rfl⟩
    obtain ⟨rfl, rfl⟩ : op = "=" ∧ left = right := by simpa [Criterion.isShared] using hshared
    exact hmem
  · intro hmem
    exact ⟨.shared name, ⟨hmem, by simp [Criterion.isShared, Criterion.shared]⟩, rfl⟩

namespace Join

/-- A column that a join puts out: the side it comes from, and its name. -/
structure Output where
  side : String
  name : String
  deriving DecidableEq

/-- An output in SQL. -/
def Output.sql (o : Output) : String := o.side ++ "." ++ quoteName o.name

/-- All left columns, then the right columns that no criterion equates with a left column of the
same name. -/
def outputs (criteria : List Criterion) (left right : List Column) : List Output :=
  left.map (fun c => ⟨leftName, c.name⟩) ++
    (right.filter fun c => Criterion.shared c.name ∉ criteria).map fun c => ⟨rightName, c.name⟩

/-- What a criterion compares, in SQL. -/
def comparison (c : Criterion) : String :=
  "( " ++ Output.sql ⟨leftName, c.left⟩ ++ " " ++ c.op ++ " " ++
    Output.sql ⟨rightName, c.right⟩ ++ " )"

variable {criteria : List Criterion} {left right : List Column}

theorem projection_eq_outputs : projection criteria left right =
    (outputs criteria left right).map Output.sql := by
  have hkept : (fun c : Column => !(droppedColumns criteria).contains c.name) =
      fun c => decide (Criterion.shared c.name ∉ criteria) := by
    funext c
    simp [← mem_droppedColumns]
  simp only [projection, outputs, hkept, List.map_append, List.map_map]
  rfl

/-- A quoted name is never taken for the wildcard. -/
theorem columnSql_quoteName (name side : String) :
    Expr.columnSql (quoteName name) (some side) = Output.sql ⟨side, name⟩ := by
  have hquote : quoteName name ≠ "*" := by
    intro heq
    have hhead := congrArg (fun s : String => s.toList.head?) heq
    simp [quoteName] at hhead
  rw [Expr.columnSql, if_neg hquote]
  rfl

theorem sql_condition (c : Criterion) : (condition c).sql = comparison c := by
  simp only [condition, Expr.qualified, Expr.sql, columnSql_quoteName, comparison]

theorem conditionLine_eq (criteria : List Criterion) : conditionLine criteria =
    if criteria = [] then [] else ["WHERE " ++ joinWith " AND " (criteria.map comparison)] := by
  simp only [conditionLine, sql_condition, List.isEmpty_iff]

/-- A right column is not among the outputs only if it is a shared key. -/
theorem shared_of_not_mem_outputs {c : Column} (hc : c ∈ right)
    (hout : (⟨rightName, c.name⟩ : Output) ∉ outputs criteria left right) :
    Criterion.shared c.name ∈ criteria := by
  by_contra hfree
  apply hout
  refine List.mem_append_right _ (List.mem_map.mpr ⟨c, ?_, rfl⟩)
  exact List.mem_filter.mpr ⟨hc, decide_eq_true hfree⟩

/-- **The outputs have different names exactly if every name of both sides is a shared key.** -/
theorem nodup_outputs_iff (hleft : (left.map (·.name)).Nodup)
    (hright : (right.map (·.name)).Nodup) :
    ((outputs criteria left right).map (·.name)).Nodup ↔
      ∀ name ∈ left.map (·.name), name ∈ right.map (·.name) → Criterion.shared name ∈ criteria := by
  have hnames : (outputs criteria left right).map (·.name) =
      left.map (·.name) ++ (right.map (·.name)).filter fun name =>
        Criterion.shared name ∉ criteria := by
    simp only [outputs, List.map_append, List.map_map, List.filter_map]
    rfl
  rw [hnames, List.nodup_append]
  constructor
  · rintro ⟨-, -, hapart⟩ name hl hr
    by_contra hfree
    exact hapart name hl name (List.mem_filter.mpr ⟨hr, decide_eq_true hfree⟩) rfl
  · intro hshared
    refine ⟨hleft, hright.filter _, ?_⟩
    rintro name hl _ hr rfl
    obtain ⟨hr, hfree⟩ := List.mem_filter.mp hr
    exact of_decide_eq_true hfree (hshared name hl hr)

end Join

namespace Query

variable {b : Backend}

/-- A query that is written at one place can be written everywhere. -/
theorem exists_compile {q : Query} {outer : Bool} {depth : Nat} {text : String}
    (h : (q.compile b outer depth).result = .ok text) (outer' : Bool) (depth' : Nat) :
    ∃ text', (q.compile b outer' depth').result = .ok text' := by
  have hdescribed := (compile_follows b q outer depth).exists_ok_iff.mp ⟨text, h⟩
  exact (compile_follows b q outer' depth').exists_ok_iff.mpr hdescribed

/-- A query whose columns are known can be written everywhere. -/
theorem exists_compile_of_schema {q : Query} {columns : List Column}
    (h : (q.schema b).result = .ok columns) (outer : Bool) (depth : Nat) :
    ∃ text, (q.compile b outer depth).result = .ok text := by
  obtain ⟨sql, hsql, -, -⟩ := schema_eq_ok h
  exact exists_compile hsql outer depth

/-- A join is written from the columns of its sides and their texts. -/
theorem compile_join_of_schemas {left right : Query} {criteria : List Criterion} {outer : Bool}
    {depth : Nat} {leftColumns rightColumns : List Column} {leftText rightText : String}
    (hleft : (left.schema b).result = .ok leftColumns)
    (hright : (right.schema b).result = .ok rightColumns)
    (hleftText : (left.compile b false (depth + 1)).result = .ok leftText)
    (hrightText : (right.compile b false (depth + 1)).result = .ok rightText) :
    ((join left right criteria).compile b outer depth).result = .ok (placed outer depth
      (bodyText depth (Join.lines criteria leftColumns rightColumns leftText rightText))) := by
  simp only [compile_join, Asked.bind, Asked.map, hleft, hright, hleftText, hrightText, Except.map]

/-- **A join loses no column and repeats no key.**  Whatever the criteria and whatever columns the
backend reports for the sides, the join is written, with all left columns and then the right columns
that are no shared keys as its SELECT list; every right column that is left out is compared with the
left one in WHERE; and if the sides repeat no name, neither does the join, exactly if every name of
both sides is a shared key. -/
theorem join_keeps_columns (left right : Query) (criteria : List Criterion) (outer : Bool)
    (depth : Nat) {leftColumns rightColumns : List Column}
    (hleft : (left.schema b).result = .ok leftColumns)
    (hright : (right.schema b).result = .ok rightColumns) :
    let outputs := Join.outputs criteria leftColumns rightColumns
    (∃ leftText rightText whereLine,
      (left.compile b false (depth + 1)).result = .ok leftText ∧
      (right.compile b false (depth + 1)).result = .ok rightText ∧
      ((join left right criteria).compile b outer depth).result = .ok (placed outer depth
        (bodyText depth (["SELECT " ++ joinWith ", " (outputs.map (·.sql)),
          "FROM " ++ leftText ++ " T1, " ++ rightText ++ " T2"] ++ whereLine))) ∧
      whereLine = (if criteria = [] then []
        else ["WHERE " ++ joinWith " AND " (criteria.map Join.comparison)]) ∧
      ∀ c ∈ rightColumns, (⟨"T2", c.name⟩ : Join.Output) ∉ outputs → criteria ≠ [] ∧
        "( T1." ++ quoteName c.name ++ " = T2." ++ quoteName c.name ++ " )" ∈
          criteria.map Join.comparison) ∧
    ((leftColumns.map (·.name)).Nodup → (rightColumns.map (·.name)).Nodup →
      ((outputs.map (·.name)).Nodup ↔ ∀ name ∈ leftColumns.map (·.name),
        name ∈ rightColumns.map (·.name) → Criterion.shared name ∈ criteria)) := by
  intro outputs
  obtain ⟨leftText, hleftText⟩ := exists_compile_of_schema hleft false (depth + 1)
  obtain ⟨rightText, hrightText⟩ := exists_compile_of_schema hright false (depth + 1)
  refine ⟨⟨leftText, rightText, Join.conditionLine criteria, hleftText, hrightText, ?_,
    Join.conditionLine_eq criteria, ?_⟩, Join.nodup_outputs_iff⟩
  · have hfrom : "FROM " ++ leftText ++ " " ++ Join.leftName ++ ", " ++ rightText ++ " " ++
        Join.rightName = "FROM " ++ leftText ++ " T1, " ++ rightText ++ " T2" := by
      simp [← String.toList_inj, Join.leftName, Join.rightName]
    rw [compile_join_of_schemas hleft hright hleftText hrightText, Join.lines,
      Join.projection_eq_outputs, hfrom]
  · intro c hc hout
    have hshared : Criterion.shared c.name ∈ criteria := Join.shared_of_not_mem_outputs hc hout
    refine ⟨List.ne_nil_of_mem hshared, List.mem_map.mpr ⟨_, hshared, ?_⟩⟩
    simp [← String.toList_inj, Join.comparison, Join.Output.sql, Criterion.shared, Join.leftName,
      Join.rightName]

end Query

/-- A backend that knows two tables; in every other statement it sees the columns of their join. -/
def orderBook : Backend where
  describe sql :=
    if sql = "SELECT * FROM orders" then .ok [⟨"id", "INTEGER"⟩, ⟨"customer", "TEXT"⟩]
    else if sql = "SELECT * FROM customers" then .ok [⟨"customer", "TEXT"⟩, ⟨"id", "INTEGER"⟩]
    else .ok [⟨"id", "INTEGER"⟩, ⟨"customer", "TEXT"⟩, ⟨"total", "REAL"⟩]
  run _ _ := .error (.run .refused)

/-- A join with a join: a shared key given twice, one that neither side has, and a name that both
sides have but that is compared by another operator. -/
theorem Query.join_keeps_columns_nested :
    let right := Query.join (.table "orders") (.table "customers") [.shared "customer"]
    let criteria : List Criterion :=
      [.shared "customer", ⟨"id", "<", "id"⟩, .shared "customer", .shared "day"]
    let outputs := Join.outputs criteria [⟨"customer", "TEXT"⟩, ⟨"id", "INTEGER"⟩]
      [⟨"id", "INTEGER"⟩, ⟨"customer", "TEXT"⟩, ⟨"total", "REAL"⟩]
    ((Query.table "customers").schema orderBook).result =
        .ok [⟨"customer", "TEXT"⟩, ⟨"id", "INTEGER"⟩] ∧
      (right.schema orderBook).result =
        .ok [⟨"id", "INTEGER"⟩, ⟨"customer", "TEXT"⟩, ⟨"total", "REAL"⟩] ∧
      outputs.map (·.sql) = ["T1.\"customer\"", "T1.\"id\"", "T2.\"id\"", "T2.\"total\""] ∧
      "( T1.\"customer\" = T2.\"customer\" )" ∈ criteria.map Join.comparison ∧
      ¬ (outputs.map (·.name)).Nodup ∧
      ∃ rightText, ((Query.join (.table "customers") right criteria).toSql orderBook).result =
        .ok (placed true 0 (bodyText 0 [
          "SELECT T1.\"customer\", T1.\"id\", T2.\"id\", T2.\"total\"",
          "FROM customers T1, " ++ rightText ++ " T2",
          "WHERE ( T1.\"customer\" = T2.\"customer\" ) AND ( T1.\"id\" < T2.\"id\" ) AND " ++
            "( T1.\"customer\" = T2.\"customer\" ) AND ( T1.\"day\" = T2.\"day\" )"])) := by
  intro right criteria outputs
  have hleft : ((Query.table "customers").schema orderBook).result =
      .ok [⟨"customer", "TEXT"⟩, ⟨"id", "INTEGER"⟩] := rfl
  have hright : (right.schema orderBook).result =
      .ok [⟨"id", "INTEGER"⟩, ⟨"customer", "TEXT"⟩, ⟨"total", "REAL"⟩] := rfl
  obtain ⟨⟨leftText, rightText, whereLine, hleftText, -, htext, rfl, hshared⟩, hnames⟩ :=
    Query.join_keeps_columns (.table "customers") right criteria true 0 hleft hright
  cases hleftText
  refine ⟨hleft, hright, rfl, ?_, ?_, rightText, ?_⟩
  · exact (hshared ⟨"customer", "TEXT"⟩ (by decide) (by decide)).2
  · rw [hnames (by decide) (by decide)]
    decide
  · exact htext

end QuerySteps
