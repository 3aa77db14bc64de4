import QuerySteps.Proofs.Query.OneLine
import QuerySteps.Query.Step

/-!
# The depth of a query shows in its indentation only

A query is written at a depth, and the same query is written again at depth 0 whenever a join asks
for the columns of its side.  Here the two are compared: at depth `d` a query makes the same calls,
fails with the same error, and otherwise gives the same text moved to the right by `d` steps
(`compile_moved`), whether as a statement or as a source.

The induction is on the query and compares depth `d + e` with depth `e`.  A source is text over
several lines inside a line of its level, and moving the level has to move the source along; this
works because `shift` goes through the text piece by piece and leaves single lines alone, which is
where the premise on line breaks comes in (`Clauses.lines_shift`, `Join.lines_shift`).  Columns are
asked for at depth 0 in both runs, so both get the same answers.
-/

namespace QuerySteps

/-! ## Work that asks a backend -/

namespace Asked

variable {α β γ : Type}

/-- The same calls, with the result put through a function. -/
def map (f : α → β) (first : Asked α) : Asked β := ⟨first.calls, first.result.map f⟩

theorem bind_pure (f : α → β) (first : Asked α) :
    first.bind (fun a => Asked.pure (f a)) = first.map f := by
  obtain ⟨calls, result⟩ := first
  cases result with
  | error e => rfl
  | ok a => simp [Asked.bind, Asked.pure, map, Except.map]

theorem bind_congr {first : Asked α} {next next' : α → Asked β}
    (h : ∀ a, first.result = .ok a → next a = next' a) : first.bind next = first.bind next' := by
  obtain ⟨calls, result⟩ := first
  cases result with
  | error e => rfl
  | ok a => simp only [Asked.bind, h a rfl]

theorem map_bind (f : β → γ) (first : Asked α) (next : α → Asked β) :
    (first.bind next).map f = first.bind fun a => (next a).map f := by
  obtain ⟨calls, result⟩ := first
  cases result <;> rfl

theorem bind_map (f : α → β) (first : Asked α) (next : β → Asked γ) :
    (first.map f).bind next = first.bind fun a => next (f a) := by
  obtain ⟨calls, result⟩ := first
  cases result <;> rfl

theorem map_map (f : α → β) (g : β → γ) (first : Asked α) :
    (first.map f).map g = first.map fun a => g (f a) := by
  obtain ⟨calls, result⟩ := first
  cases result <;> rfl

theorem bind_eq_ok {first : Asked α} {next : α → Asked β} {c : β}
    (h : (first.bind next).result = .ok c) :
    ∃ a, first.result = .ok a ∧ (next a).result = .ok c ∧
      (first.bind next).calls = first.calls ++ (next a).calls := by
  obtain ⟨calls, result⟩ := first
  cases result with
  | error e => cases h
  | ok a => exact ⟨a, rfl, h, rfl⟩

theorem map_eq_ok {f : α → β} {first : Asked α} {c : β} (h : (first.map f).result = .ok c) :
    ∃ a, first.result = .ok a ∧ c = f a := by
  obtain ⟨calls, result⟩ := first
  cases result with
  | error e => cases h
  | ok a =>
    cases h
    exact ⟨a, rfl, rfl⟩

end Asked

/-! ## Moving a level -/

/-- A text moved to the right by some steps: a statement with its first line, a source without. -/
def moved (outer : Bool) (d : Nat) (s : String) : String :=
  if outer then indent d ++ shift d s else shift d s

theorem bodyText_add (d e : Nat) {lines : List String} (hne : lines ≠ []) :
    bodyText (d + e) (lines.map (shift d)) = indent d ++ shift d (bodyText e lines) := by
  have hline : ∀ line : String,
      indent d ++ shift d (indent e ++ line) = indent (d + e) ++ shift d line := by
    intro line
    rw [shift_append, shift_of_oneLine d (oneLine_indent e), indent_add, String.append_assoc]
  unfold bodyText
  rw [indent_shift_joinWith d (by simpa using hne), List.map_map, List.map_map]
  exact congrArg _ (List.map_congr_left fun line _ => (hline line).symm)

/-- A body that is placed deeper is the placed body, moved. -/
theorem placed_add (outer : Bool) (d : Nat) {e : Nat} (he : outer = false → 0 < e)
    {lines : List String} (hne : lines ≠ []) :
    placed outer (d + e) (bodyText (d + e) (lines.map (shift d))) =
      moved outer d (placed outer e (bodyText e lines)) := by
  rw [bodyText_add d e hne]
  cases outer with
  | true => rfl
  | false =>
    have hdepth : d + e - 1 = d + (e - 1) := by
      have := he rfl
      omega
    have hopening : shift d "(\n" = "(\n" ++ indent d := by
      rw [← String.toList_inj]
      simp [shift]
    have hclosing : shift d ")" = ")" := shift_of_oneLine d (by decide)
    simp only [placed, moved, Bool.false_eq_true, if_false, hdepth, indent_add, shift_append,
      hopening, hclosing, shift_newline, shift_of_oneLine d (oneLine_indent (e - 1)),
      String.append_assoc]

/-- A line of projected columns stays as it is. -/
private theorem shift_selectLine (d : Nat) {items : List String} (h : ∀ item ∈ items, OneLine item) :
    shift d ("SELECT " ++ joinWith ", " items) = "SELECT " ++ joinWith ", " items :=
  shift_of_oneLine d (oneLine_append.mpr ⟨by decide, oneLine_joinWith (by decide) h⟩)

/-- The lines of a level move with its source. -/
theorem Clauses.lines_shift {c : Clauses} (h : ∀ s ∈ c.texts, OneLine s) (d : Nat)
    (source : String) : (c.lines source).map (shift d) = c.lines (shift d source) := by
  have hselect := shift_selectLine d (oneLine_projection h)
  have hfrom : shift d ("FROM " ++ source) = "FROM " ++ shift d source := by
    rw [shift_append, shift_of_oneLine d (by decide)]
  have htail := map_shift_of_oneLine d (oneLine_tail h)
  rw [lines, lines, List.append_assoc, List.append_assoc, List.append_assoc, List.append_assoc,
    ← List.append_assoc c.filterLine, List.map_append, htail]
  simp only [List.map_cons, List.map_nil, hselect, hfrom]

/-- The lines of a join move with its sides. -/
theorem Join.lines_shift {criteria : List Criterion} {leftColumns rightColumns : List Column}
    (h : ∀ s ∈ criteria.flatMap Criterion.texts, OneLine s)
    (hleft : ∀ c ∈ leftColumns, OneLine c.name) (hright : ∀ c ∈ rightColumns, OneLine c.name)
    (d : Nat) (left right : String) :
    (lines criteria leftColumns rightColumns left right).map (shift d) =
      lines criteria leftColumns rightColumns (shift d left) (shift d right) := by
  have hprojection := @oneLine_projection criteria _ _ hleft hright
  have hselect := shift_selectLine d hprojection
  have hfixed : ∀ s : String, OneLine s → shift d s = s := fun s hs => shift_of_oneLine d hs
  have hfrom : shift d ("FROM " ++ left ++ " " ++ leftName ++ ", " ++ right ++ " " ++ rightName) =
      "FROM " ++ shift d left ++ " " ++ leftName ++ ", " ++ shift d right ++ " " ++ rightName := by
    simp only [shift_append, hfixed "FROM " (by decide), hfixed " " (by decide),
      hfixed leftName (by decide), hfixed ", " (by decide), hfixed rightName (by decide)]
  have htail := map_shift_of_oneLine d (oneLine_conditionLine h)
  simp only [lines, List.map_append, List.map_cons, List.map_nil, hselect, hfrom, htail]

/-! ## Moving a query -/

namespace Query

variable {b : Backend}

theorem compile_level (b : Backend) (source : Query) (c : Clauses) (outer : Bool) (depth : Nat) :
    (level source c).compile b outer depth =
      (source.compile b false (depth + 1)).map fun text =>
        placed outer depth (bodyText depth (c.lines text)) :=
  Asked.bind_pure _ _

theorem compile_join (b : Backend) (left right : Query) (criteria : List Criterion) (outer : Bool)
    (depth : Nat) :
    (join left right criteria).compile b outer depth =
      (left.schema b).bind fun leftColumns =>
        (right.schema b).bind fun rightColumns =>
          (left.compile b false (depth + 1)).bind fun leftText =>
            (right.compile b false (depth + 1)).map fun rightText =>
              placed outer depth
                (bodyText depth (Join.lines criteria leftColumns rightColumns leftText rightText)) :=
  Asked.bind_congr fun _ _ => Asked.bind_congr fun _ _ => Asked.bind_congr fun _ _ =>
    Asked.bind_pure _ _

/-- The columns of a query are the answer to its statement. -/
theorem schema_eq_ok {q : Query} {columns : List Column} (h : (q.schema b).result = .ok columns) :
    ∃ sql, (q.toSql b).result = .ok sql ∧ b.describe sql = .ok columns ∧ sql ∈ (q.schema b).calls := by
  obtain ⟨sql, hsql, hcolumns, hcalls⟩ := Asked.bind_eq_ok h
  refine ⟨sql, hsql, hcolumns, ?_⟩
  have hmem : sql ∈ (q.toSql b).calls ++ [sql] := by simp
  exact hcalls ▸ hmem

theorem unbroken_schema (hb : b.Unbroken) {q : Query} {columns : List Column}
    (h : (q.schema b).result = .ok columns) : ∀ c ∈ columns, OneLine c.name := by
  obtain ⟨sql, -, hcolumns, -⟩ := schema_eq_ok h
  exact hb sql columns hcolumns

/-- **A query at depth `d + e` is the query at depth `e`, moved by `d` steps**: with the same calls
and the same errors. -/
theorem compile_moved (hb : b.Unbroken) {q : Query} (hq : q.Unbroken) (outer : Bool) (d : Nat)
    {e : Nat} (he : outer = false → 0 < e) :
    q.compile b outer (d + e) = (q.compile b outer e).map (moved outer d) := by
  induction q generalizing outer e with
  | table name =>
    have hname : OneLine name := hq name List.mem_cons_self
    cases outer with
    | true =>
      have hline : OneLine (indent e ++ "SELECT * FROM " ++ name) :=
        oneLine_append.mpr ⟨oneLine_append.mpr ⟨oneLine_indent e, by decide⟩, hname⟩
      have htext : moved true d (indent e ++ "SELECT * FROM " ++ name) =
          indent (d + e) ++ "SELECT * FROM " ++ name := by
        rw [moved, if_pos rfl, shift_of_oneLine d hline, indent_add]
        simp only [String.append_assoc]
      exact congrArg Asked.pure htext.symm
    | false => exact congrArg Asked.pure (shift_of_oneLine d hname).symm
  | level source c ih =>
    have hsource : source.Unbroken := fun s hs => hq s (List.mem_append_left _ hs)
    have hclauses : ∀ s ∈ c.texts, OneLine s := fun s hs => hq s (List.mem_append_right _ hs)
    have hmoved := ih hsource false (e := e + 1) fun _ => Nat.succ_pos e
    rw [compile_level, compile_level, Nat.add_assoc, hmoved, Asked.map_map, Asked.map_map]
    refine congrArg (Asked.map · _) (funext fun text => ?_)
    rw [← placed_add outer d he (by simp [Clauses.lines]), Clauses.lines_shift hclauses]
    rfl
  | join left right criteria ihLeft ihRight =>
    have hleft : left.Unbroken := fun s hs =>
      hq s (List.mem_append_left _ (List.mem_append_left _ hs))
    have hright : right.Unbroken := fun s hs =>
      hq s (List.mem_append_left _ (List.mem_append_right _ hs))
    have hcriteria : ∀ s ∈ criteria.flatMap Criterion.texts, OneLine s := fun s hs =>
      hq s (List.mem_append_right _ hs)
    have hmovedLeft := ihLeft hleft false (e := e + 1) fun _ => Nat.succ_pos e
    have hmovedRight := ihRight hright false (e := e + 1) fun _ => Nat.succ_pos e
    -- the columns are asked for at depth 0 on both sides of the equation
    rw [compile_join, compile_join, Asked.map_bind]
    refine Asked.bind_congr fun leftColumns hleftColumns => ?_
    rw [Asked.map_bind]
    refine Asked.bind_congr fun rightColumns hrightColumns => ?_
    rw [Asked.map_bind, Nat.add_assoc, hmovedLeft, Asked.bind_map]
    refine Asked.bind_congr fun leftText _ => ?_
    rw [hmovedRight, Asked.map_map, Asked.map_map]
    refine congrArg (Asked.map · _) (funext fun rightText => ?_)
    rw [← placed_add outer d he (by simp [Join.lines]), Join.lines_shift hcriteria
      (unbroken_schema hb hleftColumns) (unbroken_schema hb hrightColumns)]
    rfl

/-- At depth `d` a statement is the statement at depth 0, moved. -/
theorem compile_eq_toSql (hb : b.Unbroken) {q : Query} (hq : q.Unbroken) (d : Nat) :
    q.compile b true d = (q.toSql b).map fun sql => indent d ++ shift d sql :=
  compile_moved hb hq true d (e := 0) fun h => Bool.noConfusion h

/-- As a source, a query that is no table stands between parentheses. -/
theorem compile_source (b : Backend) {q : Query} (hq : q.isTable = false) (d : Nat) :
    q.compile b false (d + 1) = (q.compile b true (d + 1)).map fun text =>
      "(\n" ++ text ++ "\n" ++ indent d ++ ")" := by
  cases q with
  | table name => cases hq
  | level source c =>
    rw [compile_level, compile_level, Asked.map_map]
    rfl
  | join left right criteria =>
    rw [compile_join, compile_join, Asked.map_bind]
    refine Asked.bind_congr fun _ _ => ?_
    rw [Asked.map_bind]
    refine Asked.bind_congr fun _ _ => ?_
    rw [Asked.map_bind]
    refine Asked.bind_congr fun _ _ => ?_
    rw [Asked.map_map]
    rfl

/-- How the statement of a query stands in FROM at a depth: a table by its name alone, any other
query between parentheses, with its lines one step deeper. -/
def EmbedsAt (q : Query) (depth : Nat) (sql source : String) : Prop :=
  if q.isTable then sql = "SELECT * FROM " ++ source
  else ∃ text, source = "(\n" ++ text ++ "\n" ++ indent depth ++ ")" ∧
    textLines text = (textLines sql).map (indent (depth + 1) ++ ·)

theorem embedsAt_of_compile (hb : b.Unbroken) {q : Query} (hq : q.Unbroken) {d : Nat}
    {sql source : String} (hsql : (q.toSql b).result = .ok sql)
    (hsource : (q.compile b false (d + 1)).result = .ok source) : q.EmbedsAt d sql source := by
  cases htable : q.isTable with
  | true =>
    cases q with
    | table name =>
      cases hsql
      cases hsource
      rfl
    | level source c => cases htable
    | join left right criteria => cases htable
  | false =>
    rw [compile_source b htable, compile_eq_toSql hb hq, Asked.map_map] at hsource
    obtain ⟨sql', hsql', rfl⟩ := Asked.map_eq_ok hsource
    obtain rfl : sql = sql' := Except.ok.inj (hsql.symm.trans hsql')
    simp only [EmbedsAt, htable, Bool.false_eq_true, if_false]
    exact ⟨_, rfl, textLines_shift (d + 1) sql⟩

/-- A join that is written has asked for the columns of both sides by their statements, and has its
sides in FROM as those statements. -/
theorem compile_join_eq_ok (hb : b.Unbroken) {left right : Query} (hleft : left.Unbroken)
    (hright : right.Unbroken) {criteria : List Criterion} {outer : Bool} {d : Nat} {text : String}
    (h : ((join left right criteria).compile b outer d).result = .ok text) :
    ∃ leftSql rightSql leftColumns rightColumns leftSource rightSource,
      (left.toSql b).result = .ok leftSql ∧ (right.toSql b).result = .ok rightSql ∧
      b.describe leftSql = .ok leftColumns ∧ b.describe rightSql = .ok rightColumns ∧
      leftSql ∈ ((join left right criteria).compile b outer d).calls ∧
      rightSql ∈ ((join left right criteria).compile b outer d).calls ∧
      left.EmbedsAt d leftSql leftSource ∧ right.EmbedsAt d rightSql rightSource ∧
      text = placed outer d
        (bodyText d (Join.lines criteria leftColumns rightColumns leftSource rightSource)) := by
  rw [compile_join] at h ⊢
  obtain ⟨leftColumns, hleftSchema, hrest, hcalls⟩ := Asked.bind_eq_ok h
  obtain ⟨rightColumns, hrightSchema, hrest, hcallsRight⟩ := Asked.bind_eq_ok hrest
  obtain ⟨leftSource, hleftSource, hrest, -⟩ := Asked.bind_eq_ok hrest
  obtain ⟨rightSource, hrightSource, htext⟩ := Asked.map_eq_ok hrest
  obtain ⟨leftSql, hleftSql, hleftColumns, hleftCall⟩ := schema_eq_ok hleftSchema
  obtain ⟨rightSql, hrightSql, hrightColumns, hrightCall⟩ := schema_eq_ok hrightSchema
  refine ⟨leftSql, rightSql, leftColumns, rightColumns, leftSource, rightSource, hleftSql,
    hrightSql, hleftColumns, hrightColumns, ?_, ?_, embedsAt_of_compile hb hleft hleftSql hleftSource,
    embedsAt_of_compile hb hright hrightSql hrightSource, htext⟩
  · rw [hcalls]
    exact List.mem_append_left _ hleftCall
  · rw [hcalls, hcallsRight]
    exact List.mem_append_right _ (List.mem_append_left _ hrightCall)

/-- **Depth shows in the indentation only.**  At every depth a query makes the calls of its
statement, fails with the same error, and otherwise has the lines of the statement behind the
indentation of that depth; as a source it stands between parentheses one step deeper.  So each side
of a join is asked about by the very text that stands in FROM, up to that indentation. -/
theorem compile_at_depth (hb : b.Unbroken) {q : Query} (hq : q.Unbroken) (d : Nat) :
    (q.compile b true d).calls = (q.toSql b).calls ∧
    (∀ e, (q.toSql b).result = .error e → (q.compile b true d).result = .error e) ∧
    (∀ sql, (q.toSql b).result = .ok sql → ∃ text, (q.compile b true d).result = .ok text ∧
      textLines text = (textLines sql).map (indent d ++ ·)) ∧
    (q.isTable = false → q.compile b false (d + 1) = (q.compile b true (d + 1)).map fun text =>
      "(\n" ++ text ++ "\n" ++ indent d ++ ")") ∧
    ∀ left right criteria outer text, q = join left right criteria →
      (q.compile b outer d).result = .ok text →
      ∃ leftSql rightSql leftColumns rightColumns leftSource rightSource,
        (left.toSql b).result = .ok leftSql ∧ (right.toSql b).result = .ok rightSql ∧
        b.describe leftSql = .ok leftColumns ∧ b.describe rightSql = .ok rightColumns ∧
        leftSql ∈ (q.compile b outer d).calls ∧ rightSql ∈ (q.compile b outer d).calls ∧
        left.EmbedsAt d leftSql leftSource ∧ right.EmbedsAt d rightSql rightSource ∧
        text = placed outer d
          (bodyText d (Join.lines criteria leftColumns rightColumns leftSource rightSource)) := by
  have hmoved := compile_eq_toSql hb hq d
  refine ⟨by rw [hmoved]; rfl, ?_, ?_, fun htable => compile_source b htable d, ?_⟩
  · intro e he
    rw [hmoved, Asked.map, he]
    rfl
  · intro sql hsql
    refine ⟨indent d ++ shift d sql, ?_, textLines_shift d sql⟩
    rw [hmoved, Asked.map, hsql]
    rfl
  · rintro left right criteria outer text rfl h
    refine compile_join_eq_ok hb ?_ ?_ h
    · exact fun s hs => hq s (List.mem_append_left _ (List.mem_append_left _ hs))
    · exact fun s hs => hq s (List.mem_append_left _ (List.mem_append_right _ hs))

end Query

/-- A backend in which every statement has the column `id` and nothing is run. -/
def idOnly : Backend := ⟨fun _ => .ok [⟨"id", "INTEGER"⟩], fun _ _ => .error (.run .refused)⟩

/-- A sample joined with a join, two steps deep. -/
theorem Query.compile_at_depth_cascade :
    let left := (Query.table "a").sample 3
    let right := Query.join (.table "b") (.table "c") [.shared "id"]
    let q := Query.join left right [⟨"id", "<", "id"⟩]
    idOnly.Unbroken ∧ q.Unbroken ∧
      (q.compile idOnly true 2).calls = (q.toSql idOnly).calls ∧
      (q.toSql idOnly).calls.length = 6 ∧
      ∃ sql text, (q.toSql idOnly).result = .ok sql ∧ (textLines sql).length = 11 ∧
        (q.compile idOnly true 2).result = .ok text ∧
        textLines text = (textLines sql).map (indent 2 ++ ·) ∧
        ∃ rightSql rightSource, (right.toSql idOnly).result = .ok rightSql ∧
          rightSql ∈ (q.compile idOnly true 2).calls ∧ right.EmbedsAt 2 rightSql rightSource := by
  intro left right q
  have hb : idOnly.Unbroken := by
    intro sql columns h c hc
    cases h
    obtain rfl := List.mem_singleton.mp hc
    decide
  have hq : q.Unbroken := by
    unfold Query.Unbroken
    decide
  obtain ⟨hcalls, -, hlines, -, hsides⟩ := Query.compile_at_depth hb hq 2
  refine ⟨hb, hq, hcalls, by decide +kernel, ?_⟩
  cases hsql : (q.toSql idOnly).result with
  | error e => cases hsql
  | ok sql =>
    obtain ⟨text, htext, heq⟩ := hlines sql hsql
    obtain ⟨-, rightSql, -, -, -, rightSource, -, hright, -, -, -, hcall, -, hembeds, -⟩ :=
      hsides left right _ true text rfl htext
    refine ⟨sql, text, rfl, ?_, htext, heq, rightSql, rightSource, hright, hcall, hembeds⟩
    cases hsql
    decide +kernel

end QuerySteps
