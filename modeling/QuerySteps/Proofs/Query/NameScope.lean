import QuerySteps.Proofs.Query.ScopedMeaning

/-!
# Names in folded expressions

A filter or a derived column that is folded into a level looks its names up in
the source of the level first, not in the output that the caller sees.  Folding
therefore keeps the meaning of an expression exactly as far as no name is
caught by the source: every name that the source has must be put out as that
very cell (`Values.Unmoved`).  Tables, joins and levels that include all columns
keep every name; a renamed, hidden or recomputed column does not, and
`captured_names` shows each way in which the meaning changes.

`rows_filter_folded` and `rows_derive` compare one folded step with the step on
the finished rows; they need nothing of the query but the condition above and,
for a derived column, that the level lists columns at all, that an aggregate
function is not taken over by the grouping of a summary, and that no filter of
the level was waiting for the new name (`Values.Unawaited`).
-/

namespace QuerySteps

namespace Projection

/-- The projection with one more derived column. -/
def extend (p : Projection) (name : String) (e : Expr) : Projection :=
  { p with derived := p.derived ++ [(name, e)] }

/-- A projection that lists something lists one more item. -/
theorem items_extend (p : Projection) (hlisted : p.listed ≠ []) (name : String) (e : Expr) :
    (p.extend name e).items = p.items ++ [.named name e] := by
  have hitems : p.items = p.listed := by simp [items, hlisted]
  have hextend : (p.extend name e).listed = p.listed ++ [.named name e] := by
    simp only [listed, extend, List.map_append, List.append_assoc]
    rfl
  rw [items, hextend, hitems]
  simp

end Projection

/-- A derived column extends the projection of its level. -/
theorem Level.outputs_derive (l : Level) (name : String) (e : Expr) :
    (l.derive name e).clauses.outputs = l.clauses.outputs.extend name e := rfl

namespace Values

variable {V : Type} (S : Values V)

/-- The rows of a query on which an expression holds, its names being those of
the output. -/
def filtered (q : Query) (e : Expr) : List (Cells V) :=
  (S.rows q).filter fun out => S.holds (S.value (.row out) e)

/-- The rows of a query, each extended by the value of an expression on it. -/
def extended (q : Query) (name : String) (e : Expr) : List (Cells V) :=
  (S.rows q).map fun out => out ++ [(name, S.value (.row out) e)]

/-- Every name of an expression that the source of the top level has is put out
as it is. -/
def Unmoved (q : Query) (e : Expr) : Prop :=
  ∀ row ∈ S.rows q.toLevel.source, ∀ n ∈ e.names, (row.lookup n).isSome →
    q.toLevel.clauses.outputs.keeps n = true

/-- Tables, joins and levels that include all columns move no name. -/
theorem unmoved_of_includesAll {q : Query} (h : q.toLevel.clauses.includesAll = true)
    (e : Expr) : S.Unmoved q e :=
  fun _ _ n _ _ => Projection.keeps_of_includesAll h n

/-- No filter of the top level looks in vain for a name. -/
def Unawaited (q : Query) (name : String) : Prop :=
  ∀ row ∈ S.rows q.toLevel.source, ∀ e ∈ q.toLevel.clauses.filters, name ∈ e.names →
    (visible row (S.output q.toLevel.clauses.outputs row none) name).isSome

/-- A query has the rows of the level that steps extend. -/
theorem rows_eq_level (q : Query) :
    S.rows q = S.reading.level q.toLevel.clauses (S.rows q.toLevel.source) :=
  (S.reading.rows_toLevel q).symm

/-- A projection that lists something puts out one more cell for one more
derived column. -/
theorem output_extend {p : Projection} (hlisted : p.listed ≠ []) (name : String) (e : Expr)
    (row : Cells V) (group : Option (List (Cells V))) :
    S.output (p.extend name e) row group =
      S.output p row group ++
        [(name, S.value (.inside row (S.output p row group) group) e)] := by
  simp only [output, p.items_extend hlisted, List.foldl_append, List.foldl_cons,
    List.foldl_nil, put]

/-- Where no name is moved, a filter of a level holds on a row of the source if
it holds on the row that is put out for it. -/
theorem passes_eq_holds {p : Projection} {e : Expr} {row : Cells V}
    (hkeeps : ∀ n ∈ e.names, (row.lookup n).isSome → p.keeps n = true) :
    S.passes p e row = S.holds (S.value (.row (S.output p row none)) e) :=
  congrArg S.holds (S.value_row_output hkeeps (Or.inl rfl))

/-- A filter on a fresh level sees the finished rows. -/
theorem rows_filter_nested {q : Query} {e : Expr}
    (hnests : (q.toLevel.clauses.sample.isSome || q.toLevel.clauses.summarised) = true) :
    S.rows (q.filter (some e)) = S.filtered q e := by
  have hfresh : ∀ row, S.reading.holds .all e row = S.holds (S.value (.row row) e) := by
    intro row
    have hall : S.output .all row none = row := S.reading.project_all row
    have hpasses : S.passes .all e row = S.holds (S.value (.row (S.output .all row none)) e) :=
      S.passes_eq_holds fun n _ _ => Projection.keeps_of_includesAll rfl n
    rwa [hall] at hpasses
  have hquery : q.filter (some e) = (q.toLevel.nest.withFilter e).toQuery := by
    simp only [Query.filter, Level.filter, Level.nestIf, hnests, if_true]
  calc S.rows (q.filter (some e))
      = (S.rows q.toLevel.toQuery).filter (S.reading.holds .all e) := by
        rw [hquery]
        exact S.reading.rows_withFilter_wrap _ e
    _ = (S.rows q).filter (S.reading.holds .all e) :=
        congrArg _ (S.reading.rows_toLevel q)
    _ = S.filtered q e := List.filter_congr fun row _ => hfresh row

/-- A level that is no summary and takes no sample puts out each row it keeps. -/
theorem level_plain {c : Clauses} (hsample : c.sample = none) (hsummarised : c.summarised = false)
    (rows : List (Cells V)) :
    S.reading.level c rows =
      (S.reading.kept c rows).map fun row => S.output c.outputs row none := by
  rw [Reading.level, S.reading.sampled_eq_self hsample]
  simp only [Reading.putOut, hsummarised, Bool.false_eq_true, if_false]
  rfl

/-- **A folded filter.**  On a level that moves no name of it, a filter keeps
the finished rows on which it holds. -/
theorem rows_filter_folded {q : Query} {e : Expr}
    (hfolds : (q.toLevel.clauses.sample.isSome || q.toLevel.clauses.summarised) = false)
    (hunmoved : S.Unmoved q e) : S.rows (q.filter (some e)) = S.filtered q e := by
  obtain ⟨hsample, hsummarised⟩ : q.toLevel.clauses.sample = none ∧
      q.toLevel.clauses.summarised = false := by simpa using hfolds
  have hquery : q.filter (some e) = (q.toLevel.withFilter e).toQuery := by
    simp [Query.filter, Level.filter, Level.nestIf, hfolds]
  have hpasses : ∀ row ∈ S.reading.kept q.toLevel.clauses (S.rows q.toLevel.source),
      S.reading.holds q.toLevel.clauses.outputs e row =
        S.holds (S.value (.row (S.output q.toLevel.clauses.outputs row none)) e) := by
    intro row hrow
    exact S.passes_eq_holds (hunmoved row (List.mem_filter.mp hrow).1)
  calc S.rows (q.filter (some e))
      = S.reading.level (q.toLevel.withFilter e).clauses (S.rows q.toLevel.source) := by
        rw [hquery]
        rfl
    _ = ((S.reading.kept q.toLevel.clauses (S.rows q.toLevel.source)).filter
          (S.reading.holds q.toLevel.clauses.outputs e)).map fun row =>
            S.output q.toLevel.clauses.outputs row none := by
        rw [S.level_plain (c := (q.toLevel.withFilter e).clauses) hsample hsummarised,
          S.reading.kept_withFilter]
        rfl
    _ = ((S.reading.kept q.toLevel.clauses (S.rows q.toLevel.source)).map fun row =>
          S.output q.toLevel.clauses.outputs row none).filter fun out =>
            S.holds (S.value (.row out) e) := by
        rw [List.filter_map]
        exact congrArg _ (List.filter_congr hpasses)
    _ = S.filtered q e := by
        rw [filtered, S.rows_eq_level q, S.level_plain hsample hsummarised]

/-- One more output changes no filter that was not waiting for its name. -/
theorem kept_derive {q : Query} {name : String} {e : Expr}
    (hlisted : q.toLevel.clauses.outputs.listed ≠ []) (hunawaited : S.Unawaited q name) :
    S.reading.kept (q.toLevel.derive name e).clauses (S.rows q.toLevel.source) =
      S.reading.kept q.toLevel.clauses (S.rows q.toLevel.source) := by
  have hpasses : ∀ row ∈ S.rows q.toLevel.source, ∀ f ∈ q.toLevel.clauses.filters,
      S.passes (q.toLevel.derive name e).clauses.outputs f row =
        S.passes q.toLevel.clauses.outputs f row := by
    intro row hrow f hf
    refine congrArg S.holds (S.value_congr f ?_ (Or.inl rfl))
    intro n hn
    show visible row (S.output (q.toLevel.derive name e).clauses.outputs row none) n =
      visible row (S.output q.toLevel.clauses.outputs row none) n
    rw [Level.outputs_derive, S.output_extend hlisted]
    by_cases heq : n = name
    · have hseen := hunawaited row hrow f hf (heq ▸ hn)
      rw [← heq] at hseen
      simp only [visible, List.lookup_append] at hseen ⊢
      cases hr : row.lookup n with
      | some v => rfl
      | none =>
        rw [hr, Option.none_or] at hseen
        obtain ⟨v, hv⟩ := Option.isSome_iff_exists.mp hseen
        simp [hv]
    · have hother : ∀ v : V, List.lookup n [(name, v)] = none := by simp [heq]
      simp only [visible, List.lookup_append, hother, Option.or_none]
  apply List.filter_congr
  intro row hrow
  rw [Bool.eq_iff_iff, List.all_eq_true, List.all_eq_true]
  have hholds : ∀ f ∈ q.toLevel.clauses.filters,
      S.reading.holds (q.toLevel.derive name e).clauses.outputs f row =
        S.reading.holds q.toLevel.clauses.outputs f row := hpasses row hrow
  exact forall₂_congr fun f hf => by rw [hholds f hf]

/-- The row of a group has only cells of one row of the source. -/
theorem representative_mem_rows {keys : List String} {aggregates : Bool}
    {rows members : List (Cells V)} (hmembers : members ∈ S.group keys aggregates rows)
    {n : String} (hn : ((S.representative members).lookup n).isSome) :
    S.representative members ∈ rows := by
  rcases S.representative_mem members with hmem | hnil
  · exact S.mem_of_group hmembers hmem
  · rw [hnil] at hn
    cases hn

/-- One more output that moves no name extends every row that is put out. -/
theorem putOut_derive {q : Query} {name : String} {e : Expr}
    (hlisted : q.toLevel.clauses.outputs.listed ≠ []) (hunmoved : S.Unmoved q e)
    (hplain : q.toLevel.clauses.summarised = true → e.calls S.isAggregate = false)
    {rows : List (Cells V)} (hrows : ∀ row ∈ rows, row ∈ S.rows q.toLevel.source) :
    S.reading.putOut (q.toLevel.derive name e).clauses rows =
      (S.reading.putOut q.toLevel.clauses rows).map fun out =>
        out ++ [(name, S.value (.row out) e)] := by
  cases hsummarised : q.toLevel.clauses.summarised with
  | false =>
    have hsummarised' : (q.toLevel.derive name e).clauses.summarised = false := hsummarised
    simp only [Reading.putOut, hsummarised, hsummarised', Bool.false_eq_true, if_false,
      List.map_map]
    apply List.map_congr_left
    intro row hrow
    show S.output (q.toLevel.derive name e).clauses.outputs row none = _
    rw [Level.outputs_derive, S.output_extend hlisted,
      S.value_row_output (hunmoved row (hrows row hrow)) (Or.inl rfl)]
    rfl
  | true =>
    have hsummarised' : (q.toLevel.derive name e).clauses.summarised = true := hsummarised
    have hcalls := hplain hsummarised
    have hflag : (q.toLevel.derive name e).clauses.outputs.items.any (·.calls S.isAggregate) =
        q.toLevel.clauses.outputs.items.any (·.calls S.isAggregate) := by
      rw [Level.outputs_derive, Projection.items_extend _ hlisted]
      simp [OutputItem.calls, hcalls]
    have hgroup : S.reading.group (q.toLevel.derive name e).clauses.groupBy
          (q.toLevel.derive name e).clauses.outputs rows =
        S.reading.group q.toLevel.clauses.groupBy q.toLevel.clauses.outputs rows :=
      congrArg (fun flag => S.group q.toLevel.clauses.groupBy flag rows) hflag
    simp only [Reading.putOut, hsummarised, hsummarised', if_true, hgroup, List.map_map]
    apply List.map_congr_left
    intro members hmembers
    have hkeeps : ∀ n ∈ e.names, ((S.representative members).lookup n).isSome →
        q.toLevel.clauses.outputs.keeps n = true := fun n hn hsome =>
      hunmoved _ (hrows _ (S.representative_mem_rows hmembers hsome)) n hn hsome
    show S.output (q.toLevel.derive name e).clauses.outputs _ (some members) = _
    rw [Level.outputs_derive, S.output_extend hlisted,
      S.value_row_output hkeeps (Or.inr hcalls)]
    rfl

/-- **A derived column.**  On a level that moves no name of it, a derived column
extends every finished row by its value there. -/
theorem rows_derive {q : Query} {name : String} {e : Expr}
    (hlisted : q.toLevel.clauses.outputs.listed ≠ []) (hunmoved : S.Unmoved q e)
    (hunawaited : S.Unawaited q name)
    (hplain : q.toLevel.clauses.summarised = true → e.calls S.isAggregate = false) :
    S.rows (q.derive name (some e)) = S.extended q name e := by
  have hkept := S.kept_derive (e := e) hlisted hunawaited
  have hput : S.reading.putOut (q.toLevel.derive name e).clauses
        (S.reading.kept q.toLevel.clauses (S.rows q.toLevel.source)) =
      (S.reading.putOut q.toLevel.clauses
        (S.reading.kept q.toLevel.clauses (S.rows q.toLevel.source))).map fun out =>
          out ++ [(name, S.value (.row out) e)] :=
    S.putOut_derive hlisted hunmoved hplain fun row hrow => (List.mem_filter.mp hrow).1
  calc S.rows (q.derive name (some e))
      = S.reading.level (q.toLevel.derive name e).clauses (S.rows q.toLevel.source) := rfl
    _ = S.reading.sampled q.toLevel.clauses ((S.reading.putOut q.toLevel.clauses
          (S.reading.kept q.toLevel.clauses (S.rows q.toLevel.source))).map fun out =>
            out ++ [(name, S.value (.row out) e)]) := by
        rw [Reading.level, hkept, hput]
        rfl
    _ = (S.reading.level q.toLevel.clauses (S.rows q.toLevel.source)).map fun out =>
          out ++ [(name, S.value (.row out) e)] := by
        rw [Reading.level, Reading.sampled]
        cases hsample : q.toLevel.clauses.sample with
        | none => simp only [Reading.sampled, hsample]
        | some n =>
          simp only [Reading.sampled, hsample]
          exact S.sample_map _ n _
    _ = S.extended q name e := by rw [extended, S.rows_eq_level q]

/-- **Folded expressions keep their columns.**  A filter that is nested, or
that is folded into a level which moves none of its names, keeps exactly the
finished rows on which it holds; and a column derived under such a level, if
the level lists columns, waits for no such name and does not aggregate the
expression, extends every finished row by the value of the expression there. -/
theorem folded_expression_keeps_scope (q : Query) (e : Expr) :
    ((q.toLevel.clauses.sample.isSome || q.toLevel.clauses.summarised) = true ∨
        S.Unmoved q e →
      (q.filterBy (.expr e)).map S.rows = .ok (S.filtered q e)) ∧
    ∀ name, Text.isBlankText name = false → q.toLevel.clauses.outputs.listed ≠ [] →
      S.Unmoved q e → S.Unawaited q name →
      (q.toLevel.clauses.summarised = true → e.calls S.isAggregate = false) →
      (q.deriveBy name (.expr e)).map S.rows = .ok (S.extended q name e) := by
  constructor
  · intro h
    show Except.ok (S.rows (q.filter (some e))) = _
    cases hnests : q.toLevel.clauses.sample.isSome || q.toLevel.clauses.summarised with
    | true => rw [S.rows_filter_nested hnests]
    | false =>
      have hunmoved : S.Unmoved q e := h.resolve_left (by simp [hnests])
      rw [S.rows_filter_folded hnests hunmoved]
  · intro name hname hlisted hunmoved hunawaited hplain
    have hquery : q.deriveBy name (.expr e) = .ok (q.derive name (some e)) := by
      simp only [Query.deriveBy, hname, Bool.false_eq_true, if_false]
      rfl
    rw [hquery, ← S.rows_derive hlisted hunmoved hunawaited hplain]
    rfl

end Values

/-- One table `t` of two rows over whole numbers, `=` giving one or zero, and
`COUNT` as the only aggregate function. -/
def counting : Values Int where
  table _ := [[("a", 1), ("b", 2)], [("a", 1), ("b", 3)]]
  join _ left right := left.flatMap fun l => right.map fun r => l ++ r
  literal
    | .integer n => n
    | _ => 0
  binary op x y := if op = "=" then (if x = y then 1 else 0) else x + y
  unary _ x := x
  call _ _ := 0
  cast _ x := x
  unknown := 0
  holds x := x != 0
  isAggregate f := f == "COUNT"
  aggregate _ rows := rows.length
  group keys _ rows :=
    if keys.isEmpty then [rows]
    else (rows.map fun row => keys.map fun key => row.lookup key).eraseDups.map fun values =>
      rows.filter fun row => (keys.map fun key => row.lookup key) == values
  representative rows := rows.headD []
  pick n size := List.range (min n size)
  representative_mem rows := by cases rows <;> simp
  mem_of_group := by
    intro keys aggregates rows members row hmembers hrow
    by_cases hkeys : keys.isEmpty = true
    · rw [if_pos hkeys, List.mem_singleton] at hmembers
      exact hmembers ▸ hrow
    · rw [if_neg hkeys, List.mem_map] at hmembers
      obtain ⟨values, _, rfl⟩ := hmembers
      exact (List.mem_filter.mp hrow).1

/-- The column `a` under the name `b`, over a table that has a column `b` too. -/
def relabelled : Query := (Query.table "t").rename [.rename "a" "b"]

/-- Whether a column is one. -/
def isOne (column : String) : Expr := .binary (.named column) "=" (.literal (.integer 1))

/-- The number of rows for each value of `a`. -/
def tally : Query := (Query.table "t").summarise ["a"] [⟨"COUNT", "*", "n"⟩]

/-- **Captured names.**  A filter and a derived column that name a renamed
column get the column of the source instead; a derived column hides the
columns of a summary of nothing, has its aggregate function taken over the
group of a summary, and gives a filter the name it was waiting for. -/
theorem captured_names :
    counting.rows (relabelled.filter (some (isOne "b"))) ≠
      counting.filtered relabelled (isOne "b") ∧
    counting.rows (relabelled.derive "c" (some (.named "b"))) ≠
      counting.extended relabelled "c" (.named "b") ∧
    counting.rows (((Query.table "t").summarise [] []).derive "c" (some (.named "a"))) ≠
      counting.extended ((Query.table "t").summarise [] []) "c" (.named "a") ∧
    counting.rows (tally.derive "m" (some (.aggregate "COUNT" "*"))) ≠
      counting.extended tally "m" (.aggregate "COUNT" "*") ∧
    counting.rows (((Query.table "t").filter (some (isOne "x"))).derive "x"
        (some (.literal (.integer 1)))) ≠
      counting.extended ((Query.table "t").filter (some (isOne "x"))) "x"
        (.literal (.integer 1)) := by
  refine ⟨?_, ?_, ?_, ?_, ?_⟩ <;> decide

/-- A filter folded beside a renamed and a kept column, and a column derived on
a summary from its key and its aggregate, with all that they ask for. -/
theorem folded_expression_keeps_scope_counting :
    let pair := (Query.table "t").rename [.rename "a" "x", .keep "b"]
    let equal : Expr := .binary (.named "x") "=" (.named "b")
    let sum : Expr := .binary (.named "n") "+" (.named "a")
    counting.Unmoved pair equal ∧
      (pair.filterBy (.expr equal)).map counting.rows = .ok (counting.filtered pair equal) ∧
      Text.isBlankText "m" = false ∧ tally.toLevel.clauses.outputs.listed ≠ [] ∧
      counting.Unmoved tally sum ∧ counting.Unawaited tally "m" ∧
      (tally.toLevel.clauses.summarised = true → sum.calls counting.isAggregate = false) ∧
      (tally.deriveBy "m" (.expr sum)).map counting.rows =
        .ok (counting.extended tally "m" sum) := by
  intro pair equal sum
  have hpair : counting.Unmoved pair equal := by
    unfold Values.Unmoved
    decide
  have hblank : Text.isBlankText "m" = false := by decide
  have hlisted : tally.toLevel.clauses.outputs.listed ≠ [] := by
    intro h
    cases h
  have hsum : counting.Unmoved tally sum := by
    unfold Values.Unmoved
    decide
  have hawaited : counting.Unawaited tally "m" := by
    unfold Values.Unawaited
    decide
  have hplain : tally.toLevel.clauses.summarised = true →
      sum.calls counting.isAggregate = false := fun _ => by decide
  exact ⟨hpair, (counting.folded_expression_keeps_scope pair equal).1 (Or.inr hpair), hblank,
    hlisted, hsum, hawaited, hplain,
    (counting.folded_expression_keeps_scope tally sum).2 "m" hblank hlisted hsum hawaited hplain⟩

end QuerySteps
