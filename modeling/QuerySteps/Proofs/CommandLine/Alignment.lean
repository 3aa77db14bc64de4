import QuerySteps.CommandLine.Report
import QuerySteps.Proofs.Formula.FailurePlaces
import QuerySteps.Proofs.Query.OneLine

/-!
# What stands under what

Two things that are printed have to stand under each other: the cells of a table, and the caret under
a formula that cannot be read.  Both places are counts of bytes, and both are filled with spaces,
which are characters.  A text has no fewer bytes than characters, and as many only if all its
characters are ASCII (`Text.byteLength_eq_length_iff`).

For a table this does no harm.  Wide columns are columns still: what has to be seen is that each cell
has room in its column (`fits_widths`), and then every line has its dividers at the places that the
widths alone determine (`laid_cellLine`, `laid_ruleLine`).  For the caret it does: one place per byte
leads past the error as soon as a character before it is not ASCII (`caret_under_error_iff`).
-/

namespace QuerySteps

namespace Text

/-! ## Characters and bytes -/

theorem length_le_byteLength (s : List Char) : s.length ≤ byteLength s := by
  induction s with
  | nil => exact Nat.le_refl 0
  | cons c s ih =>
    have hpos := c.utf8Size_pos
    simp only [byteLength, List.length_cons]
    omega

/-- A text has as many bytes as characters exactly if all of them are ASCII. -/
theorem byteLength_eq_length_iff {s : List Char} :
    byteLength s = s.length ↔ ∀ c ∈ s, c.toNat < 128 := by
  induction s with
  | nil => simp [byteLength]
  | cons c s ih =>
    have hone : c.utf8Size = 1 ↔ c.toNat < 128 := by
      rw [Char.utf8Size_eq_one_iff, UInt32.le_iff_toNat_le]
      exact Nat.lt_succ_iff.symm
    have hpos := c.utf8Size_pos
    have hrest := length_le_byteLength s
    rw [List.forall_mem_cons, ← ih, ← hone, byteLength, List.length_cons]
    omega

theorem length_le_utf8ByteSize (s : String) : s.length ≤ s.utf8ByteSize := by
  rw [← byteLength_toList, ← String.length_toList]
  exact length_le_byteLength s.toList

end Text

namespace CommandLine

/-! ## Printed lines -/

/-- The lines of what is printed are the lines that were meant, and the end of the last one. -/
theorem textLines_lines (ls : List String) : textLines (lines ls) = ls.flatMap textLines ++ [""] := by
  induction ls with
  | nil => rfl
  | cons l ls ih =>
    have hcons : lines (l :: ls) = l ++ "\n" ++ lines ls := String.join_cons
    rw [hcons, textLines_append, ih, List.flatMap_cons, List.append_assoc]

theorem flatMap_textLines_of_oneLine {ls : List String} (h : ∀ l ∈ ls, OneLine l) :
    ls.flatMap textLines = ls := by
  have hlines : ∀ l ∈ ls, textLines l = [l] := fun l hl => textLines_of_oneLine (h l hl)
  rw [List.flatMap_congr hlines, List.flatMap_singleton']

/-! ## The caret -/

/-- The line that points, below a text with the same margin, at the character behind the given
ones. -/
def caretUnder (before : List Char) : String :=
  "  " ++ String.ofList (before.map fun _ => ' ') ++ "^"

theorem caretLine_eq_caretUnder_iff {position : Nat} {before : List Char} :
    caretLine position = caretUnder before ↔ position = before.length := by
  rw [caretUnder, List.map_const']
  refine ⟨fun h => ?_, fun h => h ▸ rfl⟩
  have hlength := congrArg String.length h
  simpa [caretLine] using hlength

/-- **The caret stands under the error exactly if the text before it is ASCII.**  A formula that
cannot be read is printed with a caret below it, behind one space for each byte before the place where
reading failed.  That is the line that points at the first character of what is wrong if and only if
every character before it is ASCII. -/
theorem caret_under_error_iff {ops : Formula.Operators} {formula : String} {e : Formula.ParseError}
    (h : Formula.parse ops formula = .error e) (hline : OneLine formula) :
    ∃ before wrong, formula.toList = before ++ wrong ∧
      Formula.read ops formula.toList = .error ⟨wrong, e.cause⟩ ∧
      textLines (formulaOutcome ops formula).errors =
        textLines ("Parse Error: " ++ e.cause.message) ++
          ["  " ++ formula, caretLine (Text.byteLength before), ""] ∧
      (caretLine (Text.byteLength before) = caretUnder before ↔ ∀ c ∈ before, c.toNat < 128) := by
  obtain ⟨before, failure, htext, hread, rfl⟩ := Formula.exists_before_error h
  refine ⟨before, failure.rest, htext, hread, ?_, ?_⟩
  · have hformula : OneLine ("  " ++ formula) := oneLine_append.mpr ⟨by decide, hline⟩
    have hcaret : OneLine (caretLine (Text.byteLength before)) := by
      simp [OneLine, caretLine]
    have herrors : (formulaOutcome ops formula).errors =
        lines ["Parse Error: " ++ failure.cause.message, "  " ++ formula,
          caretLine (Text.byteLength before)] := by
      rw [formulaOutcome, h]
      rfl
    rw [herrors, textLines_lines, List.flatMap_cons, List.flatMap_cons, List.flatMap_cons,
      textLines_of_oneLine hformula, textLines_of_oneLine hcaret]
    simp
  · rw [caretLine_eq_caretUnder_iff, Text.byteLength_eq_length_iff]

/-- An error behind an ASCII letter, and one behind an accented letter: the caret stands under the
first, and beside the second. -/
theorem caret_under_error_accented :
    Formula.parse .default "e b" = .error ⟨2, .operatorExpected "b"⟩ ∧ OneLine "e b" ∧
      Formula.parse .default "é b" = .error ⟨3, .operatorExpected "b"⟩ ∧ OneLine "é b" ∧
      (∃ before wrong, "e b".toList = before ++ wrong ∧
        Formula.read .default "e b".toList = .error ⟨wrong, .operatorExpected "b"⟩ ∧
        caretLine (Text.byteLength before) = caretUnder before) ∧
      ∃ before wrong, "é b".toList = before ++ wrong ∧
        Formula.read .default "é b".toList = .error ⟨wrong, .operatorExpected "b"⟩ ∧
        caretLine (Text.byteLength before) ≠ caretUnder before := by
  have hplain : Formula.parse .default "e b" = .error ⟨2, .operatorExpected "b"⟩ := rfl
  have haccented : Formula.parse .default "é b" = .error ⟨3, .operatorExpected "b"⟩ := rfl
  refine ⟨hplain, by decide, haccented, by decide, ?_, ?_⟩
  · obtain ⟨before, wrong, htext, hread, -, hcaret⟩ :=
      caret_under_error_iff hplain (by decide)
    refine ⟨before, wrong, htext, hread, hcaret.mpr fun c hc => ?_⟩
    have hmem : c ∈ "e b".toList := htext ▸ List.mem_append_left wrong hc
    have hascii : ∀ c ∈ "e b".toList, c.toNat < 128 := by simp
    exact hascii c hmem
  · obtain ⟨before, wrong, htext, hread, -, hcaret⟩ :=
      caret_under_error_iff haccented (by decide)
    refine ⟨before, wrong, htext, hread, fun hunder => ?_⟩
    cases hread
    have hsplit : before ++ ['b'] = ['é', ' '] ++ ['b'] := htext.symm
    have hbefore : before = ['é', ' '] := List.append_cancel_right hsplit
    have hascii := hcaret.mp hunder 'é' (hbefore ▸ List.mem_cons_self)
    exact absurd hascii (by decide)

/-- Behind an accented letter the caret stands one place too far to the right. -/
theorem caret_beside_error :
    Formula.read .default "é b".toList = .error ⟨"b".toList, .operatorExpected "b"⟩ ∧
      "é b".toList = "é ".toList ++ "b".toList ∧ OneLine "é b" ∧
      (formulaOutcome .default "é b").errors =
        "Parse Error: operator expected before 'b'\n  é b\n     ^\n" ∧
      "     ^" ≠ caretUnder "é ".toList := by
  exact ⟨rfl, rfl, by decide, rfl, by decide⟩

end CommandLine

/-! ## Lines in columns -/

/-- Where a column begins: behind the columns before it and the three characters between any two. -/
def columnStart (widths : List Nat) (j : Nat) : Nat := (widths.take j).sum + 3 * j

/-- Where the divider behind a column stands: in the middle of the three characters. -/
def dividerPlace (widths : List Nat) (j : Nat) : Nat := (widths.take (j + 1)).sum + 3 * j + 1

/-- How long a line in columns is. -/
def lineWidth (widths : List Nat) : Nat := widths.sum + 3 * (widths.length - 1)

theorem columnStart_zero (widths : List Nat) : columnStart widths 0 = 0 := rfl

theorem columnStart_succ (width : Nat) (widths : List Nat) (j : Nat) :
    columnStart (width :: widths) (j + 1) = width + 3 + columnStart widths j := by
  simp only [columnStart, List.take_succ_cons, List.sum_cons]
  omega

theorem dividerPlace_zero (width : Nat) (widths : List Nat) :
    dividerPlace (width :: widths) 0 = width + 1 := by
  simp [dividerPlace]

theorem dividerPlace_succ (width : Nat) (widths : List Nat) (j : Nat) :
    dividerPlace (width :: widths) (j + 1) = width + 3 + dividerPlace widths j := by
  simp only [dividerPlace, List.take_succ_cons, List.sum_cons]
  omega

theorem lineWidth_cons (width next : Nat) (widths : List Nat) :
    lineWidth (width :: next :: widths) = width + 3 + lineWidth (next :: widths) := by
  simp only [lineWidth, List.sum_cons, List.length_cons]
  omega

/-- A line in columns of the given widths: it has the length and the dividers that belong to them,
and at the beginning of each column its cell stands as a whole, filled with spaces up to the width. -/
structure Laid (widths : List Nat) (mark : Char) (cells : List String) (line : String) : Prop where
  length : line.length = lineWidth widths
  divider : ∀ j, j + 1 < widths.length → line.toList[dividerPlace widths j]? = some mark
  cell : ∀ j cell, cells[j]? = some cell → ∃ width blanks, widths[j]? = some width ∧
    cell.length + blanks = width ∧ (line.toList.drop (columnStart widths j)).take width =
      cell.toList ++ List.replicate blanks ' '

section Parts

variable {separator : String} {before mark behind : Char} {parts : List String} {widths : List Nat}

/-- Texts that are exactly as long as the columns are wide. -/
abbrev FillColumns (parts : List String) (widths : List Nat) : Prop :=
  List.Forall₂ (fun part width => part.length = width) parts widths

theorem length_joinWith (hseparator : separator.toList = [before, mark, behind])
    (h : FillColumns parts widths) : (joinWith separator parts).length = lineWidth widths := by
  have hthree : separator.length = 3 := by
    rw [← String.length_toList, hseparator]
    rfl
  induction h with
  | nil => rfl
  | @cons part width parts widths hpart hparts ih =>
    cases hparts with
    | nil =>
      simp only [lineWidth, List.sum_singleton, List.length_singleton, ← hpart]
      rfl
    | cons hnext hparts =>
      rw [joinWith_cons, String.length_append, String.length_append, ih, hthree, hpart,
        lineWidth_cons]

/-- Behind the first part and the separator, the line goes on as the line of the other parts. -/
theorem drop_joinWith_cons (hseparator : separator.toList = [before, mark, behind])
    (part next : String) (parts : List String) (k : Nat) :
    (joinWith separator (part :: next :: parts)).toList.drop (part.length + 3 + k) =
      (joinWith separator (next :: parts)).toList.drop k := by
  have hlength : part.length + 3 = (part.toList ++ [before, mark, behind]).length := by
    simp [String.length_toList]
  rw [joinWith_cons, String.toList_append, String.toList_append, hseparator, hlength,
    List.drop_append, List.drop_of_length_le (by omega), List.nil_append, Nat.add_sub_cancel_left]

theorem divider_joinWith (hseparator : separator.toList = [before, mark, behind])
    (h : FillColumns parts widths) {j : Nat} (hj : j + 1 < widths.length) :
    (joinWith separator parts).toList[dividerPlace widths j]? = some mark := by
  induction h generalizing j with
  | nil => cases hj
  | @cons part width parts widths hpart hparts ih =>
    cases hparts with
    | nil => simp at hj
    | @cons next _ parts widths hnext hparts =>
      subst hpart
      cases j with
      | zero =>
        rw [dividerPlace_zero, joinWith_cons, String.toList_append, String.toList_append,
          hseparator]
        simp [← String.length_toList]
      | succ j =>
        rw [dividerPlace_succ, ← List.head?_drop, drop_joinWith_cons hseparator, List.head?_drop]
        exact ih (Nat.lt_of_succ_lt_succ hj)

theorem cell_joinWith (hseparator : separator.toList = [before, mark, behind])
    (h : FillColumns parts widths) {j : Nat} {part : String} (hj : parts[j]? = some part) :
    ((joinWith separator parts).toList.drop (columnStart widths j)).take part.length =
      part.toList := by
  induction h generalizing j with
  | nil => cases hj
  | @cons first width parts widths hfirst hparts ih =>
    subst hfirst
    cases j with
    | zero =>
      obtain rfl : first = part := by simpa using hj
      have hrest : ∃ rest, (joinWith separator (first :: parts)).toList = first.toList ++ rest := by
        cases parts with
        | nil => exact ⟨[], (List.append_nil _).symm⟩
        | cons next parts =>
          exact ⟨_, by rw [joinWith_cons, String.append_assoc, String.toList_append]⟩
      obtain ⟨rest, hrest⟩ := hrest
      rw [columnStart_zero, List.drop_zero, hrest, ← String.length_toList, List.take_left]
    | succ j =>
      cases hparts with
      | nil => simp at hj
      | @cons next _ parts widths hnext hparts =>
        rw [columnStart_succ, drop_joinWith_cons hseparator]
        exact ih hj

end Parts

/-! ## The columns of a table -/

namespace Result

/-- Texts that have room in columns of the given widths, counted in bytes. -/
abbrev Fits (cells : List String) (widths : List Nat) : Prop :=
  List.Forall₂ (fun cell width => cell.utf8ByteSize ≤ width) cells widths

variable {names cells more : List String} {ws : List Nat} {rows : List (List String)}

theorem length_widen (ws : List Nat) (cells : List String) : (widen ws cells).length = ws.length := by
  induction ws generalizing cells with
  | nil => rfl
  | cons width ws ih =>
    cases cells with
    | nil => rfl
    | cons cell cells => simp only [widen, List.length_cons, ih]

/-- What has room keeps it when columns are made wider. -/
theorem Fits.widen (h : Fits cells ws) (more : List String) : Fits cells (widen ws more) := by
  induction h generalizing more with
  | nil => exact .nil
  | cons hcell hcells ih =>
    cases more with
    | nil => exact .cons hcell hcells
    | cons next more => exact .cons (Nat.le_trans hcell (Nat.le_max_left _ _)) (ih more)

theorem Fits.foldl_widen (h : Fits cells ws) (rows : List (List String)) :
    Fits cells (rows.foldl Result.widen ws) := by
  induction rows generalizing ws with
  | nil => exact h
  | cons row rows ih => exact ih (h.widen row)

/-- Columns that are made wider for a row have room for it. -/
theorem fits_widen (h : cells.length = ws.length) : Fits cells (widen ws cells) := by
  induction ws generalizing cells with
  | nil =>
    obtain rfl := List.length_eq_zero_iff.mp h
    exact .nil
  | cons width ws ih =>
    obtain ⟨cell, cells, rfl⟩ := List.exists_cons_of_length_eq_add_one h
    exact .cons (Nat.le_max_right _ _) (ih (Nat.succ.inj h))

/-- **Every name and every cell has room in its column.** -/
theorem fits_widths (heven : ∀ row ∈ rows, row.length = names.length) :
    ∀ cells ∈ names :: rows, Fits cells (widths names rows) := by
  have hnames : Fits names (names.map String.utf8ByteSize) := by
    rw [Fits, List.forall₂_map_right_iff, List.forall₂_same]
    exact fun _ _ => Nat.le_refl _
  have hrows : ∀ (rows : List (List String)) (ws : List Nat), (∀ row ∈ rows, row.length = ws.length) →
      ∀ row ∈ rows, Fits row (rows.foldl widen ws) := by
    intro rows
    induction rows with
    | nil => exact fun _ _ _ h => (List.not_mem_nil h).elim
    | cons first rows ih =>
      intro ws hlength
      obtain ⟨hfirst, hothers⟩ := List.forall_mem_cons.mp hlength
      refine List.forall_mem_cons.mpr ⟨(fits_widen hfirst).foldl_widen rows, ?_⟩
      exact ih _ fun row hrow => by rw [hothers row hrow, length_widen]
  refine List.forall_mem_cons.mpr ⟨hnames.foldl_widen rows, hrows rows _ fun row hrow => ?_⟩
  rw [heven row hrow, List.length_map]

theorem toList_pad (width : Nat) (s : String) :
    (pad width s).toList = s.toList ++ List.replicate (width - s.length) ' ' := by
  simp [pad]

/-- Filled with spaces, what has room in a column is as long as the column is wide. -/
theorem length_pad {width : Nat} {s : String} (h : s.utf8ByteSize ≤ width) :
    (pad width s).length = width := by
  have hroom := Nat.le_trans (Text.length_le_utf8ByteSize s) h
  rw [← String.length_toList, toList_pad, List.length_append, String.length_toList,
    List.length_replicate]
  omega

theorem fillColumns_pad (h : Fits cells ws) : FillColumns (List.zipWith pad ws cells) ws := by
  induction h with
  | nil => exact .nil
  | cons hcell _ ih => exact .cons (length_pad hcell) ih

theorem toList_divider : divider.toList = [' ', '│', ' '] := rfl

theorem toList_crossing : crossing.toList = ['─', '┼', '─'] := rfl

/-- **A line of cells is laid out by the widths alone.** -/
theorem laid_cellLine (h : Fits cells ws) : Laid ws '│' cells (cellLine ws cells) := by
  have hfill := fillColumns_pad h
  refine ⟨length_joinWith toList_divider hfill, fun j => divider_joinWith toList_divider hfill, ?_⟩
  intro j cell hcell
  obtain ⟨hj, rfl⟩ := List.getElem?_eq_some_iff.mp hcell
  have hwidth : j < ws.length := h.length_eq ▸ hj
  have hroom : cells[j].utf8ByteSize ≤ ws[j] := h.get hj hwidth
  have hpart : (List.zipWith pad ws cells)[j]? = some (pad ws[j] cells[j]) := by
    rw [List.getElem?_zipWith, List.getElem?_eq_getElem hwidth, hcell]
  have hplace := cell_joinWith toList_divider hfill hpart
  rw [length_pad hroom, toList_pad] at hplace
  refine ⟨ws[j], ws[j] - cells[j].length, List.getElem?_eq_getElem hwidth, ?_, hplace⟩
  have := Text.length_le_utf8ByteSize cells[j]
  omega

theorem laid_ruleLine (ws : List Nat) : Laid ws '┼' (ws.map rule) (ruleLine ws) := by
  have hfill : FillColumns (ws.map rule) ws := by
    rw [FillColumns, List.forall₂_map_left_iff, List.forall₂_same]
    simp [rule]
  refine ⟨length_joinWith toList_crossing hfill, fun j => divider_joinWith toList_crossing hfill, ?_⟩
  intro j cell hcell
  have hplace := cell_joinWith toList_crossing hfill hcell
  obtain ⟨width, hwidth, rfl⟩ : ∃ width, ws[j]? = some width ∧ rule width = cell := by
    simpa using hcell
  have hlength : (rule width).length = width := by simp [rule]
  refine ⟨width, 0, hwidth, hlength, ?_⟩
  rwa [hlength, ← List.append_nil (rule width).toList] at hplace

theorem oneLine_pad (width : Nat) {s : String} (h : OneLine s) : OneLine (pad width s) := by
  refine oneLine_append.mpr ⟨h, oneLine_ofList.mpr fun hbreak => ?_⟩
  cases List.eq_of_mem_replicate hbreak

theorem oneLine_cellLine (ws : List Nat) (h : ∀ cell ∈ cells, OneLine cell) :
    OneLine (cellLine ws cells) := by
  refine oneLine_joinWith (by decide) fun part hpart => ?_
  obtain ⟨j, hj, rfl⟩ := List.getElem_of_mem hpart
  rw [List.getElem_zipWith]
  exact oneLine_pad _ (h _ (List.getElem_mem _))

theorem oneLine_ruleLine (ws : List Nat) : OneLine (ruleLine ws) := by
  refine oneLine_joinWith (by decide) fun part hpart => ?_
  obtain ⟨width, -, rfl⟩ := List.mem_map.mp hpart
  refine oneLine_ofList.mpr fun hbreak => ?_
  cases List.eq_of_mem_replicate hbreak

end Result

open Result CommandLine

/-- **Printed tables line up.**  A result with rows, each of which has a cell for every column, is
printed as a line of names, a line that separates, a line for each row, and the number of rows, if no
name and no cell has a line break.  There are widths by which all these lines are laid out: so they
have the same length and their dividers at the same places, and no name and no cell is cut. -/
theorem ResultSet.lines_line_up (r : ResultSet) (hrows : r.rows ≠ [])
    (heven : ∀ row ∈ r.rows, row.length = r.columns.length)
    (hnames : ∀ name ∈ r.columns, OneLine name)
    (hcells : ∀ row ∈ r.rows, ∀ cell ∈ row, OneLine (cellText cell)) :
    ∃ (widths : List Nat) (names separator : String) (rows : List String),
      textLines (rowsText .table r) =
        names :: separator :: rows ++ ["", toString r.rowCount ++ " row(s) returned", ""] ∧
      widths.length = r.columns.length ∧ Laid widths '│' r.columns names ∧
      Laid widths '┼' (widths.map rule) separator ∧
      List.Forall₂ (Laid widths '│') r.shownRows rows := by
  have hshown : ∀ cells ∈ r.shownRows, cells.length = r.columns.length ∧
      ∀ cell ∈ cells, OneLine cell := by
    intro cells hmem
    obtain ⟨row, hrow, rfl⟩ := List.mem_map.mp hmem
    refine ⟨by rw [List.length_map, heven row hrow], fun cell hcell => ?_⟩
    obtain ⟨value, hvalue, rfl⟩ := List.mem_map.mp hcell
    exact hcells row hrow value hvalue
  have hfits := fits_widths fun cells hmem => (hshown cells hmem).1
  generalize hws : widths r.columns r.shownRows = ws at hfits
  have hheader := hfits _ List.mem_cons_self
  refine ⟨ws, cellLine ws r.columns, ruleLine ws, r.shownRows.map (cellLine ws), ?_,
    hheader.length_eq.symm, laid_cellLine hheader, laid_ruleLine ws, ?_⟩
  · have htext : rowsText .table r =
        lines (r.tableLines ++ ["", toString r.rowCount ++ " row(s) returned"]) := by
      have hne : r.isEmpty = false := by simpa [ResultSet.isEmpty] using hrows
      simp only [rowsText, hne, Bool.false_eq_true, if_false]
    have hcount : OneLine (toString r.rowCount ++ " row(s) returned") :=
      oneLine_append.mpr ⟨oneLine_natRepr _, by decide⟩
    rw [htext, textLines_lines, flatMap_textLines_of_oneLine]
    · simp [ResultSet.tableLines, hws]
    · simp only [ResultSet.tableLines, hws, List.forall_mem_append, List.forall_mem_cons,
        List.forall_mem_map]
      exact ⟨⟨oneLine_cellLine _ hnames, oneLine_ruleLine _,
        fun cells hmem => oneLine_cellLine _ (hshown cells hmem).2⟩, by decide, hcount, by simp⟩
  · rw [List.forall₂_map_right_iff, List.forall₂_same]
    exact fun cells hmem => laid_cellLine (hfits _ (List.mem_cons_of_mem _ hmem))

/-- Names and cells of several bytes to a character, numbers, a null and an empty text. -/
def wideResult : ResultSet where
  columns := ["名", "n", "é│"]
  rows := [[.scalar (.text "値│値"), .scalar (.integer 30000), .scalar (.text "")],
    [.scalar (.text "abc"), .scalar .null, .scalar (.bool true)]]
  columnTypes := ["TEXT", "INTEGER", "TEXT"]

theorem ResultSet.lines_line_up_wide :
    wideResult.rows ≠ [] ∧ (∀ row ∈ wideResult.rows, row.length = wideResult.columns.length) ∧
      (∀ name ∈ wideResult.columns, OneLine name) ∧
      (∀ row ∈ wideResult.rows, ∀ cell ∈ row, OneLine (cellText cell)) ∧
      ∃ (widths : List Nat) (names separator : String) (rows : List String),
        textLines (rowsText .table wideResult) =
          names :: separator :: rows ++ ["", "2 row(s) returned", ""] ∧
        widths.length = 3 ∧ Laid widths '│' ["名", "n", "é│"] names ∧
        Laid widths '┼' (widths.map rule) separator ∧
        List.Forall₂ (Laid widths '│') [["値│値", "30000", ""], ["abc", "NULL", "true"]] rows := by
  have hrows : wideResult.rows ≠ [] := List.cons_ne_nil _ _
  have heven : ∀ row ∈ wideResult.rows, row.length = wideResult.columns.length := by decide
  have hnames : ∀ name ∈ wideResult.columns, OneLine name := by decide
  have hcells : ∀ row ∈ wideResult.rows, ∀ cell ∈ row, OneLine (cellText cell) := by decide
  exact ⟨hrows, heven, hnames, hcells, lines_line_up wideResult hrows heven hnames hcells⟩

end QuerySteps
