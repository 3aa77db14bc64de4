import QuerySteps.Proofs.Calendar.Range
import QuerySteps.Result.Temporal

/-!
# The cells that a conversion changes

Dates and times are converted in place, column by column.  Whatever the rows look like, a cell
changes only if its column has a temporal type and the cell is a text that an instant is read from
(`StandsFor`); then it becomes the seconds of the instant.  The shape of the result stays, and so
does every other cell.  A converted cell is no text any more, so a second conversion finds nothing
to do.

A row is followed by recursion together with the types.  It may be longer than the list of types,
or shorter; beyond the shorter of the two nothing happens.
-/

namespace QuerySteps

open Calendar (epochSeconds? isFinite_of_epochSeconds?)

/-- A type of dates or times, whatever its case. -/
def IsTemporal (type : String) : Prop :=
  Text.upper type = "DATE" ∨ Text.upper type = "DATETIME" ∨
    (Text.upper type).startsWith "TIMESTAMP"

/-- A cell of a column with the given type, if any, is a text that stands for the given seconds. -/
def StandsFor (type : Option String) (cell : Json) (seconds : Float) : Prop :=
  (∃ name, type = some name ∧ IsTemporal name) ∧
    ∃ text, cell = .scalar (.text text) ∧ epochSeconds? text = some seconds

variable {types : List String} {row : List Json} {cell : Json} {type : String} {x : Float}

theorem isTemporalType_iff : isTemporalType type = true ↔ IsTemporal type := by
  simp only [isTemporalType, IsTemporal, Bool.or_eq_true, beq_iff_eq, or_assoc]

/-! ## One cell -/

/-- A cell in a column of the given type, after the conversion. -/
def convertAt (type : Option String) (cell : Json) : Json :=
  if type.any isTemporalType then convertCell cell else cell

theorem convertCell_text {text : String} (h : epochSeconds? text = some x) :
    convertCell (.scalar (.text text)) = .scalar (.float x) := by
  simp only [convertCell, h, isFinite_of_epochSeconds? h, if_true]

/-- A cell that stands for an instant becomes its seconds. -/
theorem convertAt_of_standsFor {type : Option String} (h : StandsFor type cell x) :
    convertAt type cell = .scalar (.float x) := by
  obtain ⟨⟨name, rfl, htype⟩, text, rfl, htext⟩ := h
  have htemporal : (some name).any isTemporalType := isTemporalType_iff.mpr htype
  rw [convertAt, if_pos htemporal, convertCell_text htext]

/-- Any other cell stays. -/
theorem convertAt_of_not {type : Option String} (h : ∀ x, ¬ StandsFor type cell x) :
    convertAt type cell = cell := by
  unfold convertAt
  split
  · next htemporal =>
    obtain ⟨name, hname, htype⟩ := (Option.any_eq_true _ _).mp htemporal
    unfold convertCell
    split
    · next text =>
      split
      · next x hx => exact absurd ⟨⟨name, hname, isTemporalType_iff.mp htype⟩, text, rfl, hx⟩ (h x)
      · rfl
    · rfl
  · rfl

/-- **A cell changes exactly if it stands for an instant.** -/
theorem convertAt_ne_iff {type : Option String} :
    convertAt type cell ≠ cell ↔ ∃ x, StandsFor type cell x := by
  constructor
  · intro h
    by_contra hnone
    exact h (convertAt_of_not (not_exists.mp hnone))
  · rintro ⟨x, h⟩
    rw [convertAt_of_standsFor h]
    obtain ⟨-, text, rfl, -⟩ := h
    intro heq
    cases heq

/-- A second conversion of a cell does nothing. -/
theorem convertAt_convertAt (type : Option String) (cell : Json) :
    convertAt type (convertAt type cell) = convertAt type cell := by
  by_cases h : ∃ x, StandsFor type cell x
  · obtain ⟨x, hx⟩ := h
    rw [convertAt_of_standsFor hx]
    apply convertAt_of_not
    rintro y ⟨-, text, htext, -⟩
    cases htext
  · have hstays := convertAt_of_not (not_exists.mp h)
    rw [hstays, hstays]

/-! ## Rows -/

/-- A row keeps its length. -/
theorem length_convertRow (types : List String) (row : List Json) :
    (convertRow types row).length = row.length := by
  induction types generalizing row with
  | nil => rfl
  | cons type types ih =>
    cases row with
    | nil => rfl
    | cons cell row => simp only [convertRow, List.length_cons, ih]

/-- **Each cell of a row is converted with its own type**, if there is one. -/
theorem getElem?_convertRow (types : List String) (row : List Json) (j : Nat) :
    (convertRow types row)[j]? = row[j]?.map (convertAt types[j]?) := by
  induction types generalizing row j with
  | nil =>
    have hstays : convertAt none = id := rfl
    rw [convertRow, List.getElem?_nil, hstays, Option.map_id, id]
  | cons type types ih =>
    cases row with
    | nil => rfl
    | cons cell row =>
      cases j with
      | zero => rfl
      | succ j =>
        rw [convertRow, List.getElem?_cons_succ, List.getElem?_cons_succ, List.getElem?_cons_succ]
        exact ih row j

theorem convertRow_convertRow (types : List String) (row : List Json) :
    convertRow types (convertRow types row) = convertRow types row := by
  apply List.ext_getElem?
  intro j
  rw [getElem?_convertRow, getElem?_convertRow, Option.map_map]
  congr 1
  funext cell
  exact convertAt_convertAt types[j]? cell

/-! ## Results -/

namespace ResultSet

/-- **A conversion changes the cells that stand for an instant, and nothing else.**  The columns,
their types, the number of rows and the length of each row stay; a cell that stands for an instant
becomes its seconds, and these are the only cells that change; a second conversion does nothing. -/
theorem convertTemporal_cells (r : ResultSet) :
    r.convertTemporal.columns = r.columns ∧ r.convertTemporal.columnTypes = r.columnTypes ∧
      r.convertTemporal.rows.length = r.rows.length ∧
      (∀ (i : Nat) (row : List Json), r.rows[i]? = some row →
        ∃ row' : List Json, r.convertTemporal.rows[i]? = some row' ∧ row'.length = row.length ∧
          ∀ (j : Nat) (cell : Json), row[j]? = some cell → ∃ cell', row'[j]? = some cell' ∧
            (∀ x, StandsFor r.columnTypes[j]? cell x → cell' = .scalar (.float x)) ∧
            (cell' ≠ cell ↔ ∃ x, StandsFor r.columnTypes[j]? cell x)) ∧
      r.convertTemporal.convertTemporal = r.convertTemporal := by
  refine ⟨rfl, rfl, List.length_map _, ?_, ?_⟩
  · intro i row hrow
    refine ⟨convertRow r.columnTypes row, ?_, length_convertRow _ _, ?_⟩
    · rw [convertTemporal, List.getElem?_map, hrow]
      rfl
    · intro j cell hcell
      refine ⟨convertAt r.columnTypes[j]? cell, ?_, fun x => convertAt_of_standsFor,
        convertAt_ne_iff⟩
      rw [getElem?_convertRow, hcell]
      rfl
  · have hrows : (r.rows.map (convertRow r.columnTypes)).map (convertRow r.columnTypes) =
        r.rows.map (convertRow r.columnTypes) := by
      rw [List.map_map]
      exact List.map_congr_left fun row _ => convertRow_convertRow _ row
    unfold convertTemporal
    rw [hrows]

/-- A row that is longer than the list of types: its date becomes a number, the date beyond the
types does not. -/
theorem convertTemporal_cells_ragged :
    let r : ResultSet := ⟨["d"], [[], [.scalar (.text "1970-01-02"), .scalar (.text "1970-01-02")]],
      ["Date"]⟩
    ∃ row' : List Json, r.convertTemporal.rows[1]? = some row' ∧ row'.length = 2 ∧
      row'[0]? = some (.scalar (.float 86400.0)) ∧
      row'[1]? = some (.scalar (.text "1970-01-02")) := by
  intro r
  obtain ⟨row', hrow, hlength, hcells⟩ := r.convertTemporal_cells.2.2.2.1 1 _ rfl
  obtain ⟨first, hfirst, hbecomes, -⟩ := hcells 0 _ rfl
  obtain ⟨second, hsecond, -, hchanges⟩ := hcells 1 _ rfl
  have hdate : StandsFor (some "Date") (.scalar (.text "1970-01-02")) 86400.0 :=
    ⟨⟨"Date", rfl, .inl (by decide +kernel)⟩, "1970-01-02", rfl, by decide +kernel⟩
  have hbeyond : ¬ ∃ x, StandsFor none (.scalar (.text "1970-01-02")) x := by
    rintro ⟨x, ⟨name, hname, -⟩, -⟩
    cases hname
  rw [hbecomes _ hdate] at hfirst
  rw [not_not.mp (mt hchanges.mp hbeyond)] at hsecond
  exact ⟨row', hrow, hlength, hfirst, hsecond⟩

end ResultSet

end QuerySteps
