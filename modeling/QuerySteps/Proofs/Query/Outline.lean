import QuerySteps.Proofs.Decimal.Numerals
import QuerySteps.Proofs.Query.Conservation
import QuerySteps.Proofs.Query.SchemaCalls

/-!
# A statement shows its levels

The statement of a query without joins can be taken apart again.  `Outline.read?` does so with the
parentheses alone: it looks at no indentation, and takes for the clauses of a level what stands
before the parenthesis that closes it.  What it finds is the `Outline` of the query, the table in
the middle and the text of every clause of every level around it (`read?_toSql`), so queries with
the same statement have the same outline.

Two things have to be seen.  On the writing side, that a source put into FROM contributes its lines
between a line that ends in an opening parenthesis and one that is a closing one
(`unindented_compile`).  On the reading side, that no clause is taken for another and none is taken
from the level above: the clauses of a level begin with different words, and what follows them is
the end of the text or a closing parenthesis (`Closed`).
-/

namespace QuerySteps

/-! ## Outlines -/

/-- What stands in the clauses of a level: the list of SELECT, the conditions, the group keys and
the rows of the sample. -/
structure LevelText where
  columns : String
  filters : Option String
  keys : Option String
  sample : Option Nat
  deriving DecidableEq

/-- What can be seen of a statement. -/
inductive Outline where
  | table (name : String)
  | level (source : Outline) (text : LevelText)
  deriving DecidableEq

namespace Outline

/-- The levels, the innermost first. -/
def levels : Outline → List LevelText
  | table _ => []
  | level source text => source.levels ++ [text]

/-- The table below all levels. -/
def tableName : Outline → String
  | table name => name
  | level source _ => source.tableName

/-- Whether there is no level. -/
def isTable : Outline → Bool
  | table _ => true
  | level _ _ => false

end Outline

namespace Clauses

variable (c : Clauses)

/-- The list between SELECT and FROM. -/
def columnsText : String := joinWith ", " c.projection

/-- The conditions behind WHERE, if there are any. -/
def filtersText? : Option String :=
  if c.filters.isEmpty then none else some (joinWith " AND " (c.filters.map (·.sql)))

/-- The keys behind GROUP BY, if there are any. -/
def keysText? : Option String :=
  if c.groupBy.isEmpty then none else some (joinWith ", " (c.groupBy.map quoteName))

/-- The text of the clauses. -/
def text : LevelText := ⟨c.columnsText, c.filtersText?, c.keysText?, c.sample⟩

/-- The lines behind FROM. -/
def tail : List String := c.filterLine ++ c.groupLine ++ c.sampleLine

end Clauses

namespace Query

/-- The outline of a query without joins. -/
def outline? : Query → Option Outline
  | table name => some (.table name)
  | level source c => source.outline?.map (.level · c.text)
  | join _ _ _ => none

/-- The tables of the query have identifiers as names: a letter or an underscore, then letters,
digits, underscores and points. -/
def NamesTables : Query → Prop
  | table name => ∃ c rest, name.toList = c :: rest ∧ Formula.startsName c ∧
      ∀ c' ∈ rest, Formula.isNameChar c'
  | level source _ => source.NamesTables
  | join left right _ => left.NamesTables ∧ right.NamesTables

theorem exists_outline {q : Query} (h : q.JoinFree) : ∃ o, q.outline? = some o := by
  induction q with
  | table name => exact ⟨_, rfl⟩
  | level source c ih =>
    obtain ⟨o, ho⟩ := ih h
    exact ⟨.level o c.text, by rw [outline?, ho, Option.map_some]⟩
  | join left right criteria => exact h.elim

/-- What the outline of a query shows. -/
theorem outline_spec {q : Query} {o : Outline} (h : q.outline? = some o) :
    q.bottom = .table o.tableName ∧ q.chain.map Clauses.text = o.levels ∧
      q.isTable = o.isTable := by
  induction q generalizing o with
  | table name =>
    cases h
    exact ⟨rfl, rfl, rfl⟩
  | level source c ih =>
    obtain ⟨inner, hinner, rfl⟩ := Option.map_eq_some_iff.mp h
    obtain ⟨hbottom, hlevels, -⟩ := ih hinner
    refine ⟨hbottom, ?_, rfl⟩
    rw [chain, List.map_append, hlevels]
    rfl
  | join left right criteria => cases h

end Query

/-! ## Reading -/

namespace Outline

/-- A line without the spaces at its front. -/
def unindent (line : String) : String :=
  String.ofList (line.toList.dropWhile (· == ' '))

/-- The text behind a word at the front of a line. -/
def after? (word line : String) : Option String :=
  (line.toList.dropPrefix? word.toList).map String.ofList

/-- The text of a clause that may be missing, and the lines behind it. -/
def takeClause (word : String) : List String → Option String × List String
  | [] => (none, [])
  | line :: lines =>
    match after? word line with
    | some text => (some text, lines)
    | none => (none, line :: lines)

/-- The rows of a sample. -/
def rows? (text : String) : Option Nat :=
  if (Numeral.takeDigits text.toList).2 = " ROWS".toList then
    some (Decimal.ofDigits (Numeral.takeDigits text.toList).1)
  else none

/-- The clauses behind FROM, and the lines behind them. -/
def takeClauses (columns : String) (lines : List String) : Option (LevelText × List String) :=
  let (filters, lines) := takeClause "WHERE " lines
  let (keys, lines) := takeClause "GROUP BY " lines
  let (sample, lines) := takeClause "USING SAMPLE " lines
  match sample with
  | none => some (⟨columns, filters, keys, none⟩, lines)
  | some text => (rows? text).map fun rows => (⟨columns, filters, keys, some rows⟩, lines)

/-- The level at the front of the lines, and the lines behind it.  A source in parentheses is read
up to the parenthesis that closes it. -/
def readLevel? : List String → Option (Outline × List String)
  | first :: second :: lines => do
    let columns ← after? "SELECT " first
    let source ← after? "FROM " second
    if source = "(" then
      match readLevel? lines with
      | some (inner, closing :: lines) =>
        if closing = ")" then (takeClauses columns lines).map fun (text, lines) =>
          (level inner text, lines)
        else none
      | _ => none
    else
      (takeClauses columns lines).map fun (text, lines) => (level (table source) text, lines)
  | _ => none

/-- The outline of a statement. -/
def read? (sql : String) : Option Outline :=
  match (textLines sql).map unindent with
  | [line] => (after? "SELECT * FROM " line).map table
  | lines =>
    match readLevel? lines with
    | some (outline, []) => some outline
    | _ => none

theorem after?_append (word text : String) : after? word (word ++ text) = some text := by
  rw [after?, String.toList_append, List.dropPrefix?_append_of_beq _ BEq.rfl, Option.map_some,
    String.ofList_toList]

/-- A word does not stand at the front of a line that begins with another letter. -/
theorem after?_of_head {word line : String} {c : Char} (hword : word.toList.head? = some c)
    (hline : line.toList.head? ≠ some c) : after? word line = none := by
  cases hdrop : line.toList.dropPrefix? word.toList with
  | none => rw [after?, hdrop, Option.map_none]
  | some rest =>
    obtain ⟨front, hsplit, hfront⟩ := List.dropPrefix?_eq_some_iff.mp hdrop
    rw [eq_of_beq hfront] at hsplit
    exact absurd (by rw [hsplit, List.head?_append, hword, Option.some_or]) hline

/-- The first of the lines, if there is any, does not begin with the letter. -/
def Avoids (c : Char) (lines : List String) : Prop :=
  ∀ line ∈ lines.head?, line.toList.head? ≠ some c

/-- What may stand behind the clauses of a level: nothing, or a closing parenthesis. -/
def Closed (lines : List String) : Prop := ∀ line ∈ lines.head?, line = ")"

theorem Closed.avoids {lines : List String} (h : Closed lines) {c : Char} (hc : c ≠ ')') :
    Avoids c lines := by
  intro line hline
  obtain rfl := h line hline
  simpa using hc.symm

section

variable {word : String} {text : Option String} {lines : List String} {c d : Char}

/-- A clause that may be missing, followed by other lines. -/
theorem avoids_clause (hword : word.toList.head? = some c) (hne : c ≠ d) (h : Avoids d lines) :
    Avoids d ((text.map (word ++ ·)).toList ++ lines) := by
  cases text with
  | none => exact h
  | some text =>
    intro line hline
    obtain rfl : word ++ text = line := Option.some.inj hline
    rw [String.toList_append, List.head?_append, hword, Option.some_or]
    exact fun heq => hne (Option.some.inj heq)

/-- A clause is read with its text if it is there, and is missing if the next line begins with
another letter. -/
theorem takeClause_clause (hword : word.toList.head? = some c) (h : Avoids c lines) :
    takeClause word ((text.map (word ++ ·)).toList ++ lines) = (text, lines) := by
  cases text with
  | some text =>
    change takeClause word ((word ++ text) :: lines) = _
    rw [takeClause, after?_append]
  | none =>
    cases lines with
    | nil => rfl
    | cons line lines =>
      change takeClause word (line :: lines) = _
      rw [takeClause, after?_of_head hword (h line rfl)]

end

theorem rows?_written (n : Nat) : rows? (toString n ++ " ROWS") = some n := by
  have hdigits : ∀ c ∈ Nat.toDigits 10 n, c.isDigit := fun c hc =>
    Nat.isDigit_of_mem_toDigits (by decide) (by decide) hc
  have htext : (toString n ++ " ROWS").toList = Nat.toDigits 10 n ++ " ROWS".toList := by
    rw [String.toList_append]
    exact congrArg (· ++ _) Nat.toList_repr
  have htake := Numeral.takeDigits_digits (k := " ROWS".toList) hdigits (by simp)
  rw [rows?, htext, htake, if_pos rfl, Formula.ofDigits_digitsOf]

/-- **The clauses of a level are read as they are**, and no line behind them is taken for one. -/
theorem takeClauses_tail (c : Clauses) {lines : List String} (h : Closed lines) :
    takeClauses c.columnsText (c.tail ++ lines) = some (c.text, lines) := by
  let rows := c.sample.map fun n => toString n ++ " ROWS"
  have hfilter : c.filterLine = (c.filtersText?.map ("WHERE " ++ ·)).toList := by
    unfold Clauses.filterLine Clauses.filtersText?
    split <;> rfl
  have hgroup : c.groupLine = (c.keysText?.map ("GROUP BY " ++ ·)).toList := by
    unfold Clauses.groupLine Clauses.keysText?
    split <;> rfl
  have hsample : c.sampleLine = (rows.map ("USING SAMPLE " ++ ·)).toList := by
    unfold Clauses.sampleLine rows
    cases c.sample with
    | none => rfl
    | some n => simp [String.append_assoc]
  -- the three words begin with three letters, and none of them is a parenthesis
  have hrows : takeClause "USING SAMPLE " (c.sampleLine ++ lines) = (rows, lines) :=
    hsample ▸ takeClause_clause rfl (h.avoids (by decide))
  have havoids : ∀ d : Char, 'U' ≠ d → d ≠ ')' → Avoids d (c.sampleLine ++ lines) :=
    fun d hd hclosing => hsample ▸ avoids_clause rfl hd (h.avoids hclosing)
  have hkeys : takeClause "GROUP BY " (c.groupLine ++ (c.sampleLine ++ lines)) =
      (c.keysText?, c.sampleLine ++ lines) :=
    hgroup ▸ takeClause_clause rfl (havoids 'G' (by decide) (by decide))
  have hfilters : takeClause "WHERE " (c.filterLine ++ (c.groupLine ++ (c.sampleLine ++ lines))) =
      (c.filtersText?, c.groupLine ++ (c.sampleLine ++ lines)) :=
    hfilter ▸ takeClause_clause rfl
      (hgroup ▸ avoids_clause rfl (by decide) (havoids 'W' (by decide) (by decide)))
  rw [Clauses.tail, List.append_assoc, List.append_assoc]
  simp only [takeClauses, hfilters, hkeys, hrows, rows]
  cases hn : c.sample with
  | none => simp [Clauses.text, hn]
  | some n => simpa [Clauses.text, hn] using rows?_written n

end Outline

/-! ## The lines of a query -/

namespace Query

open Outline (unindent Closed)

/-- The lines by which a source with the given lines stands in FROM. -/
def sourceLines (lines : List String) : Query → List String
  | table name => ["FROM " ++ name]
  | _ => "FROM (" :: lines ++ [")"]

/-- The lines of a query without their indentation. -/
def plainLines : Query → List String
  | table name => ["SELECT * FROM " ++ name]
  | level source c =>
    ("SELECT " ++ c.columnsText) :: source.sourceLines source.plainLines ++ c.tail
  | join _ _ _ => []

variable {b : Backend} {q : Query}

theorem unindent_indent (depth : Nat) {line : String} (h : line.toList.head? ≠ some ' ') :
    unindent (indent depth ++ line) = line := by
  have hspaces : ∀ c ∈ (indent depth).toList, (c == ' ') = true := by
    intro c hc
    rw [indent, String.toList_ofList] at hc
    rw [List.eq_of_mem_replicate hc]
    rfl
  have hline : line.toList.dropWhile (· == ' ') = line.toList := by
    cases hchars : line.toList with
    | nil => rfl
    | cons c rest =>
      have hc : c ≠ ' ' := fun heq => h (by rw [hchars, heq, List.head?_cons])
      simp [hc]
  rw [unindent, String.toList_append, List.dropWhile_append_of_pos hspaces, hline,
    String.ofList_toList]

/-- Single lines that begin with a word are found again behind the indentation. -/
theorem unindented_lines (depth : Nat) (lines : List String)
    (h : ∀ line ∈ lines, OneLine line ∧ line.toList.head? ≠ some ' ') :
    ((lines.map (indent depth ++ ·)).flatMap textLines).map unindent = lines := by
  induction lines with
  | nil => rfl
  | cons line lines ih =>
    obtain ⟨hline, hword⟩ := h line List.mem_cons_self
    have hrest := ih fun line hline => h line (List.mem_cons_of_mem _ hline)
    have hindented : OneLine (indent depth ++ line) := oneLine_append.mpr ⟨oneLine_indent _, hline⟩
    rw [List.map_cons, List.flatMap_cons, textLines_of_oneLine hindented, List.map_append, hrest,
      List.map_singleton, unindent_indent depth hword, List.singleton_append]

private theorem head_of_mem_tail {c : Clauses} {line : String} (h : line ∈ c.tail) :
    line.toList.head? ≠ some ' ' := by
  rcases List.mem_append.mp h with h | h
  · rcases List.mem_append.mp h with h | h
    · unfold Clauses.filterLine at h
      split at h <;> simp_all
    · unfold Clauses.groupLine at h
      split at h <;> simp_all
  · unfold Clauses.sampleLine at h
    split at h <;> simp_all

/-- The lines of a level, whose clauses stand on lines of their own. -/
theorem unindented_bodyText {c : Clauses} (h : ∀ s ∈ c.texts, OneLine s) (depth : Nat)
    (source : String) :
    (textLines (bodyText depth (c.lines source))).map unindent =
      ("SELECT " ++ c.columnsText) :: (textLines (indent depth ++ ("FROM " ++ source))).map unindent
        ++ c.tail := by
  have hselect : OneLine ("SELECT " ++ c.columnsText) :=
    oneLine_append.mpr ⟨by decide, oneLine_joinWith (by decide) (c.oneLine_projection h)⟩
  have hfirst := unindented_lines depth ["SELECT " ++ c.columnsText] fun line hline => by
    rw [List.mem_singleton.mp hline]
    exact ⟨hselect, by simp⟩
  have htail := unindented_lines depth c.tail fun line hline =>
    ⟨c.oneLine_tail h line hline, head_of_mem_tail hline⟩
  have hlines : c.lines source =
      ["SELECT " ++ c.columnsText] ++ (["FROM " ++ source] ++ c.tail) := by
    simp only [Clauses.lines, Clauses.tail, Clauses.columnsText, List.append_assoc]
    rfl
  rw [bodyText, hlines, List.map_append, List.map_append, textLines_joinWith_flatMap (by simp),
    List.flatMap_append, List.flatMap_append, List.map_append, List.map_append, hfirst, htail]
  simp

/-- **The lines of a query are those of its levels**, each source between parentheses. -/
theorem unindented_compile (hfree : q.JoinFree) (hq : q.Unbroken) (depth : Nat) {text : String}
    (h : (q.compile b true depth).result = .ok text) :
    (textLines text).map unindent = q.plainLines := by
  induction q generalizing depth text with
  | table name =>
    cases h
    have hline : OneLine (indent depth ++ ("SELECT * FROM " ++ name)) :=
      oneLine_append.mpr ⟨oneLine_indent _, oneLine_append.mpr
        ⟨by decide, hq name List.mem_cons_self⟩⟩
    rw [if_pos rfl, String.append_assoc, textLines_of_oneLine hline, List.map_singleton,
      unindent_indent depth (by simp), plainLines]
  | level source c ih =>
    have hsource : source.Unbroken := fun s hs => hq s (List.mem_append_left _ hs)
    have hclauses : ∀ s ∈ c.texts, OneLine s := fun s hs => hq s (List.mem_append_right _ hs)
    rw [compile_level] at h
    obtain ⟨sourceText, hsourceText, rfl⟩ := Asked.map_eq_ok h
    rw [placed, if_pos rfl, unindented_bodyText hclauses, plainLines]
    -- a table stands in FROM by its name, a level by its lines
    suffices hlines : (textLines (indent depth ++ ("FROM " ++ sourceText))).map unindent =
        source.sourceLines source.plainLines by rw [hlines]
    cases source with
    | table name =>
      cases hsourceText
      have hname : OneLine (indent depth ++ ("FROM " ++ name)) :=
        oneLine_append.mpr ⟨oneLine_indent _, oneLine_append.mpr
          ⟨by decide, hsource name List.mem_cons_self⟩⟩
      rw [if_neg Bool.false_ne_true, textLines_of_oneLine hname, List.map_singleton,
        unindent_indent depth (by simp), sourceLines]
    | level inner c' =>
      rw [compile_source b rfl] at hsourceText
      obtain ⟨body, hbody, rfl⟩ := Asked.map_eq_ok hsourceText
      have hinner := ih hfree hsource (depth + 1) hbody
      have hopening := unindented_lines depth ["FROM ("] fun line hline => by
        rw [List.mem_singleton.mp hline]
        decide
      have hclosing := unindented_lines depth [")"] fun line hline => by
        rw [List.mem_singleton.mp hline]
        decide
      have htext : indent depth ++ ("FROM " ++ ("(\n" ++ body ++ "\n" ++ indent depth ++ ")")) =
          (indent depth ++ "FROM (") ++ "\n" ++ body ++ "\n" ++ (indent depth ++ ")") := by
        rw [← String.toList_inj]
        simp
      simp only [List.map_singleton, List.flatMap_singleton] at hopening hclosing
      rw [htext, textLines_append, textLines_append, List.map_append, List.map_append, hinner,
        hopening, hclosing]
      rfl
    | join left right criteria => exact hfree.elim
  | join left right criteria => exact hfree.elim

/-! ## Reading the lines of a query -/

/-- **The lines of a level are read as its outline**, up to the end of its parentheses. -/
theorem readLevel?_plainLines {o : Outline} (htable : q.isTable = false) (ho : q.outline? = some o)
    (hnames : q.NamesTables) (lines : List String) (hclosed : Closed lines) :
    Outline.readLevel? (q.plainLines ++ lines) = some (o, lines) := by
  induction q generalizing o lines with
  | table name => cases htable
  | join left right criteria => cases ho
  | level source c ih =>
    obtain ⟨inner, hinner, rfl⟩ := Option.map_eq_some_iff.mp ho
    have hclauses := Outline.takeClauses_tail c hclosed
    have hselect := Outline.after?_append "SELECT " c.columnsText
    cases source with
    | join left right criteria => cases hinner
    | table name =>
      cases hinner
      have hname : name ≠ "(" := by
        obtain ⟨first, rest, hchars, hfirst, -⟩ := hnames
        rintro rfl
        obtain ⟨rfl, -⟩ := List.cons.inj hchars
        exact absurd hfirst (by decide)
      simp only [plainLines, sourceLines, List.cons_append, List.nil_append, Outline.readLevel?,
        hselect, Outline.after?_append "FROM " name, Option.bind_eq_bind, Option.bind_some,
        if_neg hname, hclauses, Option.map_some]
    | level innerSource c' =>
      -- the lines of the source end at its own closing parenthesis
      have hread := ih rfl hinner hnames (")" :: (c.tail ++ lines)) fun line hline =>
        (Option.some.inj hline).symm
      have hlines : (level (level innerSource c') c).plainLines ++ lines =
          ("SELECT " ++ c.columnsText) :: ("FROM " ++ "(") ::
            ((level innerSource c').plainLines ++ (")" :: (c.tail ++ lines))) := by
        simp [plainLines, sourceLines]
      rw [hlines]
      simp only [Outline.readLevel?, hselect, Outline.after?_append "FROM " "(",
        Option.bind_eq_bind, Option.bind_some, if_true, hread, hclauses, Option.map_some]

/-- **The outline of a statement is that of its query.** -/
theorem read?_toSql {o : Outline} (hq : q.Unbroken) (hnames : q.NamesTables)
    (ho : q.outline? = some o) (hfree : q.JoinFree) {sql : String}
    (h : (q.toSql b).result = .ok sql) : Outline.read? sql = some o := by
  have hlines := unindented_compile hfree hq 0 h
  rw [Outline.read?, hlines]
  cases q with
  | join left right criteria => cases ho
  | table name =>
    cases ho
    simp only [plainLines, Outline.after?_append, Option.map_some]
  | level source c =>
    have hread := readLevel?_plainLines rfl ho hnames [] fun line hline => by cases hline
    rw [List.append_nil] at hread
    -- a level has at least the lines of SELECT and FROM
    obtain ⟨first, second, rest, hcons⟩ : ∃ first second rest,
        (level source c).plainLines = first :: second :: rest := by
      cases source <;> exact ⟨_, _, _, rfl⟩
    simp only [hcons] at hread ⊢
    rw [hread]

/-- **A statement determines every clause of every level.**  Two queries without joins that have the
same statement are both tables or neither, stand over the same table, have as many levels as each
other, and have level by level the same list of columns, the same conditions, the same group keys
and the same sample.  The clauses are found by the parentheses: each is read back inside the
parentheses of its own level. -/
theorem statement_determines_clauses {q q' : Query} {b b' : Backend} {sql : String}
    (hfree : q.JoinFree) (hfree' : q'.JoinFree) (hnames : q.NamesTables) (hnames' : q'.NamesTables)
    (hq : q.Unbroken) (hq' : q'.Unbroken) (h : (q.toSql b).result = .ok sql)
    (h' : (q'.toSql b').result = .ok sql) :
    q.isTable = q'.isTable ∧ q.bottom = q'.bottom ∧ q.chain.length = q'.chain.length ∧
      q.chain.map Clauses.text = q'.chain.map Clauses.text ∧
      ∃ o, Outline.read? sql = some o ∧ q.bottom = .table o.tableName ∧
        q.chain.map Clauses.text = o.levels := by
  obtain ⟨o, ho⟩ := exists_outline hfree
  obtain ⟨o', ho'⟩ := exists_outline hfree'
  have hread := read?_toSql hq hnames ho hfree h
  have hread' := read?_toSql hq' hnames' ho' hfree' h'
  obtain rfl : o = o' := Option.some.inj (hread.symm.trans hread')
  obtain ⟨hbottom, hlevels, htable⟩ := outline_spec ho
  obtain ⟨hbottom', hlevels', htable'⟩ := outline_spec ho'
  refine ⟨htable.trans htable'.symm, hbottom.trans hbottom'.symm, ?_,
    hlevels.trans hlevels'.symm, o, hread, hbottom, hlevels⟩
  have hlength := congrArg List.length (hlevels.trans hlevels'.symm)
  rwa [List.length_map, List.length_map] at hlength

/-- A filter over a summary of a sample, once by a comparison and once by a column whose name is
spelt like it: two queries with one statement, read back as three levels. -/
theorem statement_determines_clauses_spelling :
    let query (condition : Expr) := (((Query.table "t").sample 10).summarise ["k"]
      [⟨"COUNT", "*", "n"⟩]).filter (some condition)
    let q := query (.binary (.named "n") ">" (.literal (.integer 1)))
    let q' := query (.named "( n > 1 )")
    q ≠ q' ∧ q.JoinFree ∧ q'.JoinFree ∧ q.NamesTables ∧ q'.NamesTables ∧
      q.Unbroken ∧ q'.Unbroken ∧
      ∃ sql, (q.toSql idOnly).result = .ok sql ∧ (q'.toSql idOnly).result = .ok sql ∧
        q.chain.map Clauses.text = q'.chain.map Clauses.text ∧
        (Outline.read? sql).map Outline.levels = some [⟨"*", none, none, some 10⟩,
          ⟨"k AS \"k\", COUNT(*) AS \"n\"", none, some "\"k\"", none⟩,
          ⟨"*", some "( n > 1 )", none, none⟩] := by
  intro query q q'
  have hne : q ≠ q' := fun h => absurd (congrArg (fun q => q.texts.length) h) (by decide)
  have hnames : ∀ condition, (query condition).NamesTables := fun _ =>
    ⟨'t', [], rfl, by decide, fun _ h => (List.not_mem_nil h).elim⟩
  have hq : q.Unbroken := by
    unfold Query.Unbroken
    decide
  have hq' : q'.Unbroken := by
    unfold Query.Unbroken
    decide
  obtain ⟨sql, hsql⟩ := compile_joinFree (q := q) trivial true 0
  have hsame : q'.toSql idOnly = q.toSql idOnly := rfl
  have h : (q.toSql idOnly).result = .ok sql := congrArg Asked.result (hsql idOnly)
  have h' : (q'.toSql idOnly).result = .ok sql := hsame ▸ h
  have hfree : q.JoinFree := trivial
  have hfree' : q'.JoinFree := trivial
  obtain ⟨-, -, -, htexts, o, hread, -, hlevels⟩ :=
    statement_determines_clauses hfree hfree' (hnames _) (hnames _) hq hq' h h'
  refine ⟨hne, hfree, hfree', hnames _, hnames _, hq, hq', sql, h, h', htexts, ?_⟩
  rw [hread, Option.map_some, ← hlevels]
  decide +kernel

end Query

end QuerySteps
