import QuerySteps.Proofs.Query.TextLines

/-!
# Clauses on one line

The compiler breaks lines only between clauses.  Whether a clause itself stays on one line depends
on what callers put into it: names, operators and texts are written as they are.  `Expr.texts` and
its companions for the parts of a query collect exactly these, so that "contains no line break" is a
condition on data (`Query.Unbroken`), and the lemmas here carry it to the text of every clause.
Numbers have no line break in any case.
-/

namespace QuerySteps

/-! ## What is written as it is -/

namespace Expr

mutual

/-- The names, operators and texts of an expression. -/
def texts : Expr → List String
  | column name table => name :: table.toList
  | literal (.text s) => [s]
  | literal _ => []
  | binary left op right => op :: (left.texts ++ right.texts)
  | unary op operand => op :: operand.texts
  | call function args => function :: argTexts args
  | cast operand typeName => typeName :: operand.texts

/-- The names, operators and texts of arguments. -/
def argTexts : List Expr → List String
  | [] => []
  | arg :: args => arg.texts ++ argTexts args

end

end Expr

/-- The names, operators and texts of a projected column. -/
def Selected.texts (s : Selected) : List String := s.newName.toList ++ s.expr.texts

/-- The names, operators and texts of the clauses of a level. -/
def Clauses.texts (c : Clauses) : List String :=
  c.filters.flatMap Expr.texts ++ c.columns.flatMap Selected.texts ++
    c.derived.flatMap (fun column => column.1 :: column.2.texts) ++ c.groupBy

/-- The names and the operator of a criterion. -/
def Criterion.texts (c : Criterion) : List String := [c.left, c.op, c.right]

/-- The names, operators and texts of a query. -/
def Query.texts : Query → List String
  | .table name => [name]
  | .level source clauses => source.texts ++ clauses.texts
  | .join left right criteria => left.texts ++ right.texts ++ criteria.flatMap Criterion.texts

/-- No name, operator or text of the query has a line break. -/
def Query.Unbroken (q : Query) : Prop := ∀ s ∈ q.texts, OneLine s

/-- The backend reports no column name with a line break. -/
def Backend.Unbroken (b : Backend) : Prop :=
  ∀ sql columns, b.describe sql = .ok columns → ∀ c ∈ columns, OneLine c.name

/-! ## Numbers -/

private theorem newline_not_digit {n : Nat} : '\n' ∉ Nat.toDigits 10 n := by
  intro h
  have hdigit := Nat.isDigit_of_mem_toDigits (by decide) (by decide) h
  exact absurd hdigit (by decide)

theorem oneLine_natRepr (n : Nat) : OneLine n.repr := by
  rw [OneLine, Nat.toList_repr]
  exact newline_not_digit

private theorem oneLine_integer (n : Int) : OneLine (Scalar.integer n).sql := by
  have hsql : (Scalar.integer n).sql = n.repr := rfl
  rw [hsql, Int.repr_eq_if]
  split
  · exact oneLine_natRepr _
  · exact oneLine_append.mpr ⟨by decide, oneLine_natRepr _⟩

private theorem newline_not_mem_zeros (n : Nat) : '\n' ∉ Decimal.zeros n := by
  intro h
  cases List.eq_of_mem_replicate h

private theorem newline_not_mem_plainText {digits : List Char} (h : '\n' ∉ digits)
    (exponent : Int) : '\n' ∉ Decimal.plainText digits exponent := by
  have htake : ∀ n, '\n' ∉ digits.take n := fun n hn => h (List.mem_of_mem_take hn)
  have hdrop : ∀ n, '\n' ∉ digits.drop n := fun n hn => h (List.mem_of_mem_drop hn)
  unfold Decimal.plainText
  dsimp only
  split
  · simp [h, newline_not_mem_zeros]
  · split
    · simp [htake, hdrop]
    · simp [h, newline_not_mem_zeros]

private theorem newline_not_mem_exponentText {digits : List Char} (h : '\n' ∉ digits)
    (plusSign : Bool) (leading : Int) :
    '\n' ∉ Decimal.exponentText plusSign digits leading := by
  have htake : '\n' ∉ digits.take 1 := fun hn => h (List.mem_of_mem_take hn)
  have hfraction : '\n' ∉ if (digits.drop 1).isEmpty then [] else '.' :: digits.drop 1 := by
    have hdrop : '\n' ∉ digits.drop 1 := fun hn => h (List.mem_of_mem_drop hn)
    split
    · exact List.not_mem_nil
    · rw [List.mem_cons, not_or]
      exact ⟨by decide, hdrop⟩
  have hsign : '\n' ∉ if leading < 0 then ['-'] else if plusSign then ['+'] else [] := by
    split
    · decide
    · split <;> decide
  have hexponent : '\n' ∉ Decimal.digitsOf leading.natAbs := newline_not_digit
  unfold Decimal.exponentText
  dsimp only
  rw [List.mem_append, List.mem_append, List.mem_append, List.mem_cons]
  rintro (((h | h) | h | h) | h)
  · exact htake h
  · exact hfraction h
  · exact absurd h (by decide)
  · exact hsign h
  · exact hexponent h

private theorem newline_not_mem_write (layout : Decimal.Layout) (d : Decimal) :
    '\n' ∉ Decimal.write layout d := by
  have hdigits : '\n' ∉ Decimal.digitsOf d.digits := newline_not_digit
  unfold Decimal.write
  dsimp only
  split
  · decide
  · split
    · exact newline_not_mem_plainText hdigits _
    · exact newline_not_mem_exponentText hdigits _ _

private theorem oneLine_float (x : Float) : OneLine (Scalar.float x).sql := by
  have hsql : (Scalar.float x).sql = Decimal.writeFloat Decimal.sqlLayout x := rfl
  rw [hsql]
  unfold Decimal.writeFloat
  split
  · decide
  · split
    · split <;> decide
    · rw [oneLine_ofList, List.mem_append, not_or]
      refine ⟨?_, newline_not_mem_write _ _⟩
      split <;> decide

/-! ## Expressions -/

theorem oneLine_quoteName {name : String} (h : OneLine name) : OneLine (quoteName name) := by
  rw [quoteName, oneLine_append, oneLine_append]
  exact ⟨⟨by decide, h⟩, by decide⟩

namespace Expr

theorem oneLine_columnSql {name : String} {table : Option String} (hname : OneLine name)
    (htable : ∀ t ∈ table, OneLine t) : OneLine (columnSql name table) := by
  unfold columnSql
  split
  · decide
  · cases table with
    | none => exact hname
    | some t =>
      exact oneLine_append.mpr ⟨oneLine_append.mpr ⟨htable t rfl, by decide⟩, hname⟩

mutual

/-- An expression is written on one line if its names, operators and texts are. -/
theorem oneLine_sql : ∀ e : Expr, (∀ s ∈ e.texts, OneLine s) → OneLine e.sql
  | .column name table, h => by
    refine oneLine_columnSql (h name List.mem_cons_self) ?_
    intro t ht
    exact h t (List.mem_cons_of_mem _ (Option.mem_toList.mpr ht))
  | .literal .null, _ => by decide
  | .literal (.bool true), _ => by decide
  | .literal (.bool false), _ => by decide
  | .literal (.integer n), _ => oneLine_integer n
  | .literal (.float x), _ => oneLine_float x
  | .literal (.text s), h => by
    have hs := h s List.mem_cons_self
    exact oneLine_append.mpr ⟨oneLine_append.mpr ⟨by decide, hs⟩, by decide⟩
  | .binary left op right, h => by
    have hop := h op List.mem_cons_self
    have hleft := oneLine_sql left fun s hs =>
      h s (List.mem_cons_of_mem _ (List.mem_append_left _ hs))
    have hright := oneLine_sql right fun s hs =>
      h s (List.mem_cons_of_mem _ (List.mem_append_right _ hs))
    simp only [sql, oneLine_append, hop, hleft, hright]
    decide
  | .unary op operand, h => by
    have hop := h op List.mem_cons_self
    have hoperand := oneLine_sql operand fun s hs => h s (List.mem_cons_of_mem _ hs)
    simp only [sql, oneLine_append, hop, hoperand]
    decide
  | .call function args, h => by
    have hfunction := h function List.mem_cons_self
    have hargs := oneLine_argsSql args fun s hs => h s (List.mem_cons_of_mem _ hs)
    simp only [sql, oneLine_append, hfunction, hargs]
    decide
  | .cast operand typeName, h => by
    have htype := h typeName List.mem_cons_self
    have hoperand := oneLine_sql operand fun s hs => h s (List.mem_cons_of_mem _ hs)
    simp only [sql, oneLine_append, htype, hoperand]
    decide

/-- The same for arguments. -/
theorem oneLine_argsSql : ∀ args : List Expr, (∀ s ∈ argTexts args, OneLine s) →
    OneLine (argsSql args)
  | [], _ => by decide
  | [arg], h => by
    exact oneLine_sql arg fun s hs => h s (List.mem_append_left _ hs)
  | arg :: next :: args, h => by
    have harg := oneLine_sql arg fun s hs => h s (List.mem_append_left _ hs)
    have hrest := oneLine_argsSql (next :: args) fun s hs => h s (List.mem_append_right _ hs)
    simp only [argsSql, oneLine_append] at hrest ⊢
    exact ⟨⟨harg, by decide⟩, hrest⟩

end

end Expr

/-! ## Clauses -/

/-- A clause that may be missing has one line at most. -/
theorem eq_of_mem_unless {α : Type} {p : Prop} [Decidable p] {line only : α}
    (h : line ∈ if p then [] else [only]) : line = only := by
  split at h
  · exact (List.not_mem_nil h).elim
  · exact List.mem_singleton.mp h

theorem Selected.oneLine_sql {s : Selected} (h : ∀ t ∈ s.texts, OneLine t) : OneLine s.sql := by
  have hexpr := s.expr.oneLine_sql fun t ht => h t (List.mem_append_right _ ht)
  unfold Selected.sql
  split
  · next newName hnew =>
    have hname := h newName (List.mem_append_left _ (Option.mem_toList.mpr hnew))
    simp only [oneLine_append, hexpr, oneLine_quoteName hname]
    decide
  · exact hexpr

theorem oneLine_derivedSql {column : String × Expr}
    (h : ∀ t ∈ column.1 :: column.2.texts, OneLine t) : OneLine (derivedSql column) := by
  have hexpr := column.2.oneLine_sql fun t ht => h t (List.mem_cons_of_mem _ ht)
  simp only [derivedSql, oneLine_append, hexpr, oneLine_quoteName (h column.1 List.mem_cons_self)]
  decide

namespace Clauses

variable {c : Clauses}

private theorem mem_texts {s : String} :
    s ∈ c.texts ↔ (∃ e ∈ c.filters, s ∈ e.texts) ∨ (∃ column ∈ c.columns, s ∈ column.texts) ∨
      (∃ column ∈ c.derived, s ∈ column.1 :: column.2.texts) ∨ s ∈ c.groupBy := by
  simp only [texts, List.mem_append, List.mem_flatMap, or_assoc]

theorem oneLine_projection (h : ∀ s ∈ c.texts, OneLine s) : ∀ item ∈ c.projection, OneLine item := by
  have hcolumns : ∀ item ∈ c.columns.map (·.sql), OneLine item := by
    intro item hitem
    obtain ⟨column, hcolumn, rfl⟩ := List.mem_map.mp hitem
    exact column.oneLine_sql fun t ht => h t (mem_texts.mpr (.inr (.inl ⟨column, hcolumn, ht⟩)))
  have hderived : ∀ item ∈ c.derived.map derivedSql, OneLine item := by
    intro item hitem
    obtain ⟨column, hcolumn, rfl⟩ := List.mem_map.mp hitem
    exact oneLine_derivedSql fun t ht =>
      h t (mem_texts.mpr (.inr (.inr (.inl ⟨column, hcolumn, ht⟩))))
  have hstar : ∀ item ∈ ["*"], OneLine item := by decide
  intro item hitem
  have hcases : item ∈ ["*"] ∨ item ∈ c.columns.map (·.sql) ∨ item ∈ c.derived.map derivedSql := by
    unfold projection at hitem
    grind
  rcases hcases with hitem | hitem | hitem
  · exact hstar item hitem
  · exact hcolumns item hitem
  · exact hderived item hitem

theorem oneLine_filterLine (h : ∀ s ∈ c.texts, OneLine s) : ∀ line ∈ c.filterLine, OneLine line := by
  intro line hline
  obtain rfl := eq_of_mem_unless hline
  refine oneLine_append.mpr ⟨by decide, oneLine_joinWith (by decide) ?_⟩
  intro item hitem
  obtain ⟨e, he, rfl⟩ := List.mem_map.mp hitem
  exact e.oneLine_sql fun t ht => h t (mem_texts.mpr (.inl ⟨e, he, ht⟩))

theorem oneLine_groupLine (h : ∀ s ∈ c.texts, OneLine s) : ∀ line ∈ c.groupLine, OneLine line := by
  intro line hline
  obtain rfl := eq_of_mem_unless hline
  refine oneLine_append.mpr ⟨by decide, oneLine_joinWith (by decide) ?_⟩
  intro item hitem
  obtain ⟨key, hkey, rfl⟩ := List.mem_map.mp hitem
  exact oneLine_quoteName (h key (mem_texts.mpr (.inr (.inr (.inr hkey)))))

theorem oneLine_sampleLine (c : Clauses) : ∀ line ∈ c.sampleLine, OneLine line := by
  intro line hline
  unfold sampleLine at hline
  split at hline
  · next rows _ =>
    obtain rfl := List.mem_singleton.mp hline
    have hrows : OneLine (toString rows) := oneLine_natRepr rows
    simp only [oneLine_append, hrows]
    decide
  · exact (List.not_mem_nil hline).elim

/-- The lines of filters, group keys and sample are single lines. -/
theorem oneLine_tail (h : ∀ s ∈ c.texts, OneLine s) :
    ∀ line ∈ c.filterLine ++ c.groupLine ++ c.sampleLine, OneLine line := by
  intro line hline
  rcases List.mem_append.mp hline with hline | hsample
  · rcases List.mem_append.mp hline with hfilter | hgroup
    · exact oneLine_filterLine h line hfilter
    · exact oneLine_groupLine h line hgroup
  · exact c.oneLine_sampleLine line hsample

end Clauses

namespace Join

theorem oneLine_condition {c : Criterion} (h : ∀ s ∈ c.texts, OneLine s) :
    OneLine (condition c).sql := by
  have hleft : OneLine c.left := h _ (by simp [Criterion.texts])
  have hop : OneLine c.op := h _ (by simp [Criterion.texts])
  have hright : OneLine c.right := h _ (by simp [Criterion.texts])
  refine Expr.oneLine_sql _ ?_
  intro s hs
  have hcases : s = c.op ∨ s = quoteName c.left ∨ s = leftName ∨ s = quoteName c.right ∨
      s = rightName := by
    simpa [condition, Expr.texts, Expr.qualified] using hs
  rcases hcases with rfl | rfl | rfl | rfl | rfl
  · exact hop
  · exact oneLine_quoteName hleft
  · decide
  · exact oneLine_quoteName hright
  · decide

theorem oneLine_sideColumn {side : String} (hside : OneLine side) {c : Column}
    (h : OneLine c.name) : OneLine (sideColumn side c) := by
  simp only [sideColumn, oneLine_append, hside, oneLine_quoteName h]
  decide

theorem oneLine_projection {criteria : List Criterion} {left right : List Column}
    (hleft : ∀ c ∈ left, OneLine c.name) (hright : ∀ c ∈ right, OneLine c.name) :
    ∀ item ∈ projection criteria left right, OneLine item := by
  intro item hitem
  rcases List.mem_append.mp hitem with hitem | hitem
  · obtain ⟨c, hc, rfl⟩ := List.mem_map.mp hitem
    exact oneLine_sideColumn (by decide) (hleft c hc)
  · obtain ⟨c, hc, rfl⟩ := List.mem_map.mp hitem
    exact oneLine_sideColumn (by decide) (hright c (List.mem_filter.mp hc).1)

theorem oneLine_conditionLine {criteria : List Criterion}
    (h : ∀ s ∈ criteria.flatMap Criterion.texts, OneLine s) :
    ∀ line ∈ conditionLine criteria, OneLine line := by
  intro line hline
  obtain rfl := eq_of_mem_unless hline
  refine oneLine_append.mpr ⟨by decide, oneLine_joinWith (by decide) ?_⟩
  intro item hitem
  obtain ⟨c, hc, rfl⟩ := List.mem_map.mp hitem
  exact oneLine_condition fun s hs => h s (List.mem_flatMap.mpr ⟨c, hc, hs⟩)

end Join

end QuerySteps
