import QuerySteps.Proofs.Query.JoinOutputs

/-!
# Statements in parts

A compiled statement is one text, and nothing in it says where a name starts that the compiler put
between quotes, or where it ends.  Here a query is written a second time as a list of parts, and
every such name is a part of its own.  Put together the parts are the statement
(`Query.compile_eq_parts`), so a place in the list is a place in the text.

`Query.Quotes` says which names these are: the output aliases, derived columns and group keys of all
levels, and the columns that joins put out or compare, under the names that the backend reports for
their sides.  Exactly these are among the parts, at whatever depth the query is written
(`Query.name_mem_parts`).
-/

namespace QuerySteps

/-! ## The parts -/

/-- A part of a statement: a text that is written as it is, or a name that is put between quotes. -/
inductive Part where
  | bare (text : String)
  | name (name : String)

/-- The text of a part. -/
def Part.sql : Part → String
  | bare text => text
  | name n => quoteName n

/-- The text of parts, one behind the other. -/
def partsText : List Part → String
  | [] => ""
  | part :: parts => part.sql ++ partsText parts

/-- Items with a text between them. -/
def joinParts (separator : String) (items : List (List Part)) : List Part :=
  [.bare separator].intercalate items

/-- A projected column in parts. -/
def Selected.parts (s : Selected) : List Part :=
  match s.newName with
  | some newName => [.bare s.expr.sql, .bare " AS ", .name newName]
  | none => [.bare s.expr.sql]

/-- A derived column in parts. -/
def derivedParts (column : String × Expr) : List Part :=
  [.bare column.2.sql, .bare " AS ", .name column.1]

namespace Clauses

/-- The columns of a level in parts. -/
def columnParts (c : Clauses) : List (List Part) :=
  (if c.includesAll then [[.bare "*"]] else []) ++ c.columns.map Selected.parts ++
    c.derived.map derivedParts

/-- What stands between SELECT and FROM, in parts. -/
def projectionParts (c : Clauses) : List (List Part) :=
  if c.columnParts.isEmpty then [[.bare "*"]] else c.columnParts

/-- The line of filters in parts. -/
def filterParts (c : Clauses) : List (List Part) :=
  if c.filters.isEmpty then []
  else [.bare "WHERE " :: joinParts " AND " (c.filters.map fun e => [.bare e.sql])]

/-- The line of group keys in parts. -/
def groupParts (c : Clauses) : List (List Part) :=
  if c.groupBy.isEmpty then []
  else [.bare "GROUP BY " :: joinParts ", " (c.groupBy.map fun key => [.name key])]

/-- The line of the sample in parts. -/
def sampleParts (c : Clauses) : List (List Part) :=
  match c.sample with
  | some rows => [[.bare "USING SAMPLE ", .bare (toString rows), .bare " ROWS"]]
  | none => []

/-- The lines of a level over the parts of its source. -/
def lineParts (c : Clauses) (source : List Part) : List (List Part) :=
  [.bare "SELECT " :: joinParts ", " c.projectionParts, .bare "FROM " :: source] ++
    c.filterParts ++ c.groupParts ++ c.sampleParts

end Clauses

/-- Lines at a depth in parts. -/
def bodyParts (depth : Nat) (lines : List (List Part)) : List Part :=
  joinParts "\n" (lines.map (.bare (indent depth) :: ·))

/-- A statement or a source in parts. -/
def placedParts (outer : Bool) (depth : Nat) (body : List Part) : List Part :=
  if outer then body
  else .bare "(\n" :: (body ++ [.bare "\n", .bare (indent (depth - 1)), .bare ")"])

namespace Join

/-- A column that a join puts out, in parts. -/
def Output.parts (o : Output) : List Part := [.bare o.side, .bare ".", .name o.name]

/-- What a criterion compares, in parts. -/
def comparisonParts (c : Criterion) : List Part :=
  .bare "( " :: (Output.parts ⟨leftName, c.left⟩ ++ .bare " " :: .bare c.op :: .bare " " ::
    (Output.parts ⟨rightName, c.right⟩ ++ [.bare " )"]))

/-- The line of conditions in parts. -/
def conditionParts (criteria : List Criterion) : List (List Part) :=
  if criteria.isEmpty then []
  else [.bare "WHERE " :: joinParts " AND " (criteria.map comparisonParts)]

/-- The lines of a join over the parts of its sides. -/
def lineParts (criteria : List Criterion) (leftColumns rightColumns : List Column)
    (left right : List Part) : List (List Part) :=
  [.bare "SELECT " :: joinParts ", " ((outputs criteria leftColumns rightColumns).map Output.parts),
    .bare "FROM " :: (left ++ .bare " T1, " :: (right ++ [.bare " T2"]))] ++
    conditionParts criteria

end Join

/-- A query in parts. -/
def Query.parts (b : Backend) : Query → Bool → Nat → Asked (List Part)
  | table name, outer, depth =>
    pure (if outer then [.bare (indent depth), .bare "SELECT * FROM ", .bare name]
      else [.bare name])
  | level source clauses, outer, depth =>
    (source.parts b false (depth + 1)).map fun parts =>
      placedParts outer depth (bodyParts depth (clauses.lineParts parts))
  | join left right criteria, outer, depth =>
    (left.schema b).bind fun leftColumns =>
      (right.schema b).bind fun rightColumns =>
        (left.parts b false (depth + 1)).bind fun leftParts =>
          (right.parts b false (depth + 1)).map fun rightParts =>
            placedParts outer depth (bodyParts depth
              (Join.lineParts criteria leftColumns rightColumns leftParts rightParts))

/-! ## The text of the parts -/

@[simp]
theorem partsText_cons (part : Part) (parts : List Part) :
    partsText (part :: parts) = part.sql ++ partsText parts := rfl

@[simp]
theorem partsText_append (first second : List Part) :
    partsText (first ++ second) = partsText first ++ partsText second := by
  induction first with
  | nil => simp [partsText]
  | cons part parts ih => simp [ih, String.append_assoc]

theorem joinParts_cons_cons (separator : String) (item next : List Part)
    (items : List (List Part)) : joinParts separator (item :: next :: items) =
      item ++ .bare separator :: joinParts separator (next :: items) := by
  simp [joinParts, List.intercalate_cons_cons]

theorem partsText_joinParts (separator : String) (items : List (List Part)) :
    partsText (joinParts separator items) = joinWith separator (items.map partsText) := by
  induction items with
  | nil => rfl
  | cons item items ih =>
    cases items with
    | nil => simp [joinParts, joinWith]
    | cons next items =>
      rw [joinParts_cons_cons, partsText_append, partsText_cons, ih, ← String.append_assoc]
      exact (joinWith_cons ..).symm

@[simp]
theorem Selected.text_parts (s : Selected) : partsText s.parts = s.sql := by
  obtain ⟨expr, newName⟩ := s
  cases newName <;> simp [Selected.parts, Selected.sql, partsText, Part.sql, String.append_assoc]

@[simp]
theorem text_derivedParts (column : String × Expr) :
    partsText (derivedParts column) = derivedSql column := by
  simp [derivedParts, derivedSql, partsText, Part.sql, String.append_assoc]

namespace Clauses

variable (c : Clauses)

theorem text_projectionParts : c.projectionParts.map partsText = c.projection := by
  have hall : (if c.includesAll then [[Part.bare "*"]] else []).map partsText =
      if c.includesAll then ["*"] else [] := by
    split <;> rfl
  have hcolumns : c.columnParts.map partsText =
      (if c.includesAll then ["*"] else []) ++ c.columns.map (·.sql) ++
        c.derived.map derivedSql := by
    simp only [columnParts, List.map_append, hall, List.map_map]
    simp [Function.comp_def]
  rw [projectionParts, projection, ← hcolumns, List.isEmpty_map, apply_ite (List.map partsText)]
  rfl

theorem text_filterParts : c.filterParts.map partsText = c.filterLine := by
  unfold filterParts filterLine
  split
  · rfl
  · simp [partsText_joinParts, partsText, Part.sql, Function.comp_def]

theorem text_groupParts : c.groupParts.map partsText = c.groupLine := by
  unfold groupParts groupLine
  split
  · rfl
  · simp [partsText_joinParts, partsText, Part.sql, Function.comp_def]

theorem text_sampleParts : c.sampleParts.map partsText = c.sampleLine := by
  cases hsample : c.sample <;>
    simp [sampleParts, sampleLine, hsample, partsText, Part.sql, String.append_assoc]

theorem text_lineParts (source : List Part) :
    (c.lineParts source).map partsText = c.lines (partsText source) := by
  simp [lineParts, lines, partsText_joinParts, text_projectionParts, text_filterParts,
    text_groupParts, text_sampleParts, Part.sql]

end Clauses

theorem text_bodyParts (depth : Nat) (lines : List (List Part)) :
    partsText (bodyParts depth lines) = bodyText depth (lines.map partsText) := by
  simp [bodyParts, bodyText, partsText_joinParts, Function.comp_def, Part.sql]

theorem text_placedParts (outer : Bool) (depth : Nat) (body : List Part) :
    partsText (placedParts outer depth body) = placed outer depth (partsText body) := by
  cases outer <;> simp [placedParts, placed, partsText, Part.sql, String.append_assoc]

namespace Join

theorem Output.text_parts (o : Output) : partsText o.parts = o.sql := by
  simp [Output.parts, Output.sql, partsText, Part.sql, String.append_assoc]

theorem text_comparisonParts (c : Criterion) : partsText (comparisonParts c) = comparison c := by
  simp [comparisonParts, comparison, Output.text_parts, partsText, Part.sql, String.append_assoc]

theorem text_conditionParts (criteria : List Criterion) :
    (conditionParts criteria).map partsText = conditionLine criteria := by
  unfold conditionParts conditionLine
  split
  · rfl
  · simp [partsText_joinParts, text_comparisonParts, sql_condition, Part.sql, Function.comp_def]

theorem text_lineParts (criteria : List Criterion) (leftColumns rightColumns : List Column)
    (left right : List Part) :
    (lineParts criteria leftColumns rightColumns left right).map partsText =
      lines criteria leftColumns rightColumns (partsText left) (partsText right) := by
  simp [lineParts, lines, partsText_joinParts, text_conditionParts, projection_eq_outputs,
    Output.text_parts, partsText, Part.sql, String.append_assoc, Function.comp_def, leftName,
    rightName]

end Join

/-- **A query is written part by part.** -/
theorem Query.compile_eq_parts (b : Backend) (q : Query) (outer : Bool) (depth : Nat) :
    q.compile b outer depth = (q.parts b outer depth).map partsText := by
  induction q generalizing outer depth with
  | table name =>
    cases outer with
    | true =>
      have htext : partsText [.bare (indent depth), .bare "SELECT * FROM ", .bare name] =
          indent depth ++ "SELECT * FROM " ++ name := by
        simp [partsText, Part.sql, String.append_assoc]
      exact congrArg Asked.pure htext.symm
    | false =>
      have htext : partsText [.bare name] = name := by simp [partsText, Part.sql]
      exact congrArg Asked.pure htext.symm
  | level source c ih =>
    rw [compile_level, ih, Asked.map_map, parts, Asked.map_map]
    simp only [text_placedParts, text_bodyParts, Clauses.text_lineParts]
  | join left right criteria ihLeft ihRight =>
    rw [compile_join, parts, Asked.map_bind]
    refine Asked.bind_congr fun leftColumns _ => ?_
    rw [Asked.map_bind]
    refine Asked.bind_congr fun rightColumns _ => ?_
    rw [Asked.map_bind, ihLeft, Asked.bind_map]
    refine Asked.bind_congr fun leftParts _ => ?_
    rw [ihRight, Asked.map_map, Asked.map_map]
    simp only [text_placedParts, text_bodyParts, Join.text_lineParts]

/-! ## The names that are quoted -/

/-- The names that a level puts between quotes: output aliases, derived columns and group keys. -/
def Clauses.Quotes (c : Clauses) (n : String) : Prop :=
  (∃ s ∈ c.columns, s.newName = some n) ∨ (∃ column ∈ c.derived, column.1 = n) ∨ n ∈ c.groupBy

/-- The names that a query puts between quotes: those of its levels and, for a join, the columns
that it puts out and those that it compares. -/
def Query.Quotes (b : Backend) : Query → String → Prop
  | table _, _ => False
  | level source c, n => c.Quotes n ∨ source.Quotes b n
  | join left right criteria, n =>
    (∃ leftColumns rightColumns, (left.schema b).result = .ok leftColumns ∧
      (right.schema b).result = .ok rightColumns ∧
      ∃ o ∈ Join.outputs criteria leftColumns rightColumns, o.name = n) ∨
    (∃ c ∈ criteria, c.left = n ∨ c.right = n) ∨ left.Quotes b n ∨ right.Quotes b n

variable {n : String}

theorem name_mem_joinParts {separator : String} {items : List (List Part)} :
    Part.name n ∈ joinParts separator items ↔ ∃ item ∈ items, Part.name n ∈ item := by
  induction items with
  | nil => simp [joinParts]
  | cons item items ih =>
    cases items with
    | nil => simp [joinParts]
    | cons next items =>
      rw [joinParts_cons_cons, List.mem_append, List.mem_cons, ih]
      simp

theorem Selected.name_mem_parts {s : Selected} : Part.name n ∈ s.parts ↔ s.newName = some n := by
  obtain ⟨expr, newName⟩ := s
  cases newName <;> simp [Selected.parts, eq_comm]

theorem name_mem_derivedParts {column : String × Expr} :
    Part.name n ∈ derivedParts column ↔ column.1 = n := by
  simp [derivedParts, eq_comm]

namespace Clauses

variable {c : Clauses}

theorem name_mem_projectionParts : (∃ item ∈ c.projectionParts, Part.name n ∈ item) ↔
    (∃ s ∈ c.columns, s.newName = some n) ∨ ∃ column ∈ c.derived, column.1 = n := by
  have hall : ¬ ∃ item ∈ if c.includesAll then [[Part.bare "*"]] else [], Part.name n ∈ item := by
    split <;> simp
  unfold projectionParts
  split
  · next hempty =>
    obtain ⟨-, hcolumns, hderived⟩ : _ ∧ c.columns = [] ∧ c.derived = [] := by
      simpa [columnParts] using hempty
    simp [hcolumns, hderived]
  · simp only [columnParts, List.mem_append, or_and_right, exists_or, hall, false_or,
      List.mem_map, exists_exists_and_eq_and, Selected.name_mem_parts, name_mem_derivedParts]

theorem name_mem_lineParts {source : List Part} :
    (∃ line ∈ c.lineParts source, Part.name n ∈ line) ↔ c.Quotes n ∨ Part.name n ∈ source := by
  have hfilter : ¬ ∃ line ∈ c.filterParts, Part.name n ∈ line := by
    unfold filterParts
    split <;> simp [name_mem_joinParts]
  have hgroup : (∃ line ∈ c.groupParts, Part.name n ∈ line) ↔ n ∈ c.groupBy := by
    unfold groupParts
    split
    · next hempty => simp [List.isEmpty_iff.mp hempty]
    · simp [name_mem_joinParts]
  have hsample : ¬ ∃ line ∈ c.sampleParts, Part.name n ∈ line := by
    unfold sampleParts
    split <;> simp
  simp only [lineParts, List.mem_append, or_and_right, exists_or, hfilter, hgroup, hsample,
    List.mem_cons, List.not_mem_nil, exists_eq_left, name_mem_joinParts,
    name_mem_projectionParts, Quotes, or_false, false_or, reduceCtorEq]
  exact or_right_comm.trans (or_congr_left or_assoc)

end Clauses

theorem name_mem_bodyParts {depth : Nat} {lines : List (List Part)} :
    Part.name n ∈ bodyParts depth lines ↔ ∃ line ∈ lines, Part.name n ∈ line := by
  simp [bodyParts, name_mem_joinParts]

theorem name_mem_placedParts {outer : Bool} {depth : Nat} {body : List Part} :
    Part.name n ∈ placedParts outer depth body ↔ Part.name n ∈ body := by
  cases outer <;> simp [placedParts]

theorem Join.name_mem_lineParts {criteria : List Criterion} {leftColumns rightColumns : List Column}
    {left right : List Part} :
    (∃ line ∈ lineParts criteria leftColumns rightColumns left right, Part.name n ∈ line) ↔
      (∃ o ∈ outputs criteria leftColumns rightColumns, o.name = n) ∨
      (∃ c ∈ criteria, c.left = n ∨ c.right = n) ∨ Part.name n ∈ left ∨ Part.name n ∈ right := by
  have hselect : (∃ item ∈ (outputs criteria leftColumns rightColumns).map Output.parts,
      Part.name n ∈ item) ↔ ∃ o ∈ outputs criteria leftColumns rightColumns, o.name = n := by
    simp [Output.parts, eq_comm]
  have hconditions : (∃ line ∈ conditionParts criteria, Part.name n ∈ line) ↔
      ∃ c ∈ criteria, c.left = n ∨ c.right = n := by
    unfold conditionParts
    split
    · next hempty => simp [List.isEmpty_iff.mp hempty]
    · simp [name_mem_joinParts, comparisonParts, Output.parts, eq_comm]
  simp only [lineParts, List.mem_append, List.mem_cons, List.not_mem_nil, or_false, false_or,
    or_and_right, exists_or, exists_eq_left, reduceCtorEq, name_mem_joinParts, hselect, hconditions]
  exact or_assoc.trans (or_congr_right or_comm)

/-- **Exactly the quoted names stand among the parts**, wherever the query is written. -/
theorem Query.name_mem_parts {b : Backend} {q : Query} {outer : Bool} {depth : Nat}
    {parts : List Part} (h : (q.parts b outer depth).result = .ok parts) :
    Part.name n ∈ parts ↔ q.Quotes b n := by
  induction q generalizing outer depth parts with
  | table name =>
    cases h
    cases outer <;> simp [Quotes]
  | level source c ih =>
    obtain ⟨sourceParts, hsource, rfl⟩ := Asked.map_eq_ok h
    rw [name_mem_placedParts, name_mem_bodyParts, Clauses.name_mem_lineParts, ih hsource, Quotes]
  | join left right criteria ihLeft ihRight =>
    obtain ⟨leftColumns, hleft, h, -⟩ := Asked.bind_eq_ok h
    obtain ⟨rightColumns, hright, h, -⟩ := Asked.bind_eq_ok h
    obtain ⟨leftParts, hleftParts, h, -⟩ := Asked.bind_eq_ok h
    obtain ⟨rightParts, hrightParts, rfl⟩ := Asked.map_eq_ok h
    rw [name_mem_placedParts, name_mem_bodyParts, Join.name_mem_lineParts, ihLeft hleftParts,
      ihRight hrightParts, Quotes]
    simp [hleft, hright]

end QuerySteps
