import QuerySteps.Proofs.Query.RowMeaning

/-!
# Where names are looked up

Rows with named cells, and expressions whose names are looked up in them.
Inside a level a name means the cell of the source row; only if that row has no
such cell does it mean an output of the level, of those written before.  On a
summary the row is one of the group, and the arguments of aggregate functions
are taken on every row of the group.

`Values.reading` is the meaning of levels under these rules; what operators,
functions, joins, groups and samples do stays arbitrary, as long as a sample
chooses rows by their position and groups consist of the rows there are.

`value_congr` says that the value of an expression depends on its names and,
where it aggregates, on the group.  `lookup_output_of_keeps` says which names
mean the same outside a level as inside: those that the level puts out as the
very cells of the source.
-/

namespace QuerySteps

/-- A row whose cells have names. -/
abbrev Cells (V : Type) := List (String × V)

namespace Expr

mutual

/-- The names that an expression looks up. -/
def names : Expr → List String
  | column name table => [columnSql name table]
  | literal _ => []
  | binary left _ right => left.names ++ right.names
  | unary _ operand => operand.names
  | call _ args => argNames args
  | cast operand _ => operand.names

/-- The names in arguments. -/
def argNames : List Expr → List String
  | [] => []
  | arg :: args => arg.names ++ argNames args

end

mutual

/-- Whether one of the given functions is called in an expression. -/
def calls (isAggregate : String → Bool) : Expr → Bool
  | column _ _ => false
  | literal _ => false
  | binary left _ right => left.calls isAggregate || right.calls isAggregate
  | unary _ operand => operand.calls isAggregate
  | call f args => isAggregate f || argCalls isAggregate args
  | cast operand _ => operand.calls isAggregate

/-- Whether one of the given functions is called in arguments. -/
def argCalls (isAggregate : String → Bool) : List Expr → Bool
  | [] => false
  | arg :: args => arg.calls isAggregate || argCalls isAggregate args

end

/-- Whether an expression is the column of the given name and nothing else. -/
def isColumn (n : String) : Expr → Bool
  | column name table => columnSql name table == n
  | _ => false

end Expr

/-- One item of a SELECT list: every column of the source, or one value under
a name. -/
inductive OutputItem where
  | everything
  | named (name : String) (e : Expr)

/-- The item of a selected column; without a new name a column keeps its own and
any other expression is named by its text. -/
def Selected.item (s : Selected) : OutputItem :=
  match s.newName, s.expr with
  | some newName, e => .named newName e
  | none, .column name table => if name = "*" then .everything else .named name (.column name table)
  | none, e => .named e.sql e

/-- The items that a projection lists. -/
def Projection.listed (p : Projection) : List OutputItem :=
  (if p.includesAll then [.everything] else []) ++ p.columns.map (·.item) ++
    p.derived.map fun column => .named column.1 column.2

/-- The items of a SELECT list; an empty projection stands for everything. -/
def Projection.items (p : Projection) : List OutputItem :=
  if p.listed.isEmpty then [.everything] else p.listed

/-- Whether an item puts out a cell of the given name, if the source has one. -/
def OutputItem.puts (n : String) : OutputItem → Bool
  | everything => true
  | named name _ => name == n

/-- Whether an item puts out the cell of the given name as the source has it. -/
def OutputItem.copies (n : String) : OutputItem → Bool
  | everything => true
  | named _ e => e.isColumn n

/-- Whether a name that the source has means the same among the outputs. -/
def Projection.keeps (p : Projection) (n : String) : Bool :=
  (p.items.find? (·.puts n)).any (·.copies n)

/-- A projection that includes every column keeps every name. -/
theorem Projection.keeps_of_includesAll {p : Projection} (h : p.includesAll = true) (n : String) :
    p.keeps n = true := by
  simp [keeps, items, listed, h, OutputItem.puts, OutputItem.copies]

/-- Whether an item calls one of the given functions. -/
def OutputItem.calls (isAggregate : String → Bool) : OutputItem → Bool
  | everything => false
  | named _ e => e.calls isAggregate

/-- What names mean at some place, and on the rows of the group there, if there
is one. -/
structure Scope (V : Type) where
  cell : String → Option V
  group : Option (List (String → Option V))

/-- A name inside a level: a cell of the source row, else an output. -/
def visible {V : Type} (row out : Cells V) (n : String) : Option V :=
  (row.lookup n).or (out.lookup n)

/-- The scope inside a level, after some of its outputs. -/
def Scope.inside {V : Type} (row out : Cells V) (group : Option (List (Cells V))) : Scope V :=
  ⟨visible row out, group.map fun rows => rows.map fun member => visible member out⟩

/-- The scope of a finished row. -/
def Scope.row {V : Type} (row : Cells V) : Scope V := ⟨fun n => row.lookup n, none⟩

/-- What the parts of expressions and queries do. -/
structure Values (V : Type) where
  table : String → List (Cells V)
  join : List Criterion → List (Cells V) → List (Cells V) → List (Cells V)
  literal : Scalar → V
  binary : String → V → V → V
  unary : String → V → V
  call : String → List V → V
  cast : String → V → V
  /-- The value of a name that nothing in scope has. -/
  unknown : V
  holds : V → Bool
  isAggregate : String → Bool
  /-- An aggregate function of the arguments on every row of a group. -/
  aggregate : String → List (List V) → V
  /-- The groups under the given keys; whether the level aggregates is known. -/
  group : List String → Bool → List (Cells V) → List (List (Cells V))
  /-- The row in which names are looked up for a group. -/
  representative : List (Cells V) → Cells V
  /-- The positions that a sample of so many rows takes out of so many. -/
  pick : Nat → Nat → List Nat
  representative_mem : ∀ rows, representative rows ∈ rows ∨ representative rows = []
  mem_of_group : ∀ {keys aggregates rows members row},
    members ∈ group keys aggregates rows → row ∈ members → row ∈ rows

namespace Values

variable {V : Type} (S : Values V)

mutual

/-- The value of an expression in a scope. -/
def value (σ : Scope V) : Expr → V
  | .column name table => (σ.cell (Expr.columnSql name table)).getD S.unknown
  | .literal v => S.literal v
  | .binary left op right => S.binary op (value σ left) (value σ right)
  | .unary op operand => S.unary op (value σ operand)
  | .call f args =>
    match S.isAggregate f, σ.group with
    | true, some members => S.aggregate f (members.map fun member => values ⟨member, none⟩ args)
    | _, _ => S.call f (values σ args)
  | .cast operand typeName => S.cast typeName (value σ operand)

/-- The values of arguments in a scope. -/
def values (σ : Scope V) : List Expr → List V
  | [] => []
  | arg :: args => value σ arg :: values σ args

end

/-- The outputs after one more item. -/
def put (row : Cells V) (group : Option (List (Cells V))) (out : Cells V) :
    OutputItem → Cells V
  | .everything => out ++ row
  | .named name e => out ++ [(name, S.value (.inside row out group) e)]

/-- The row that a level puts out for a row or for a group. -/
def output (p : Projection) (row : Cells V) (group : Option (List (Cells V))) : Cells V :=
  p.items.foldl (S.put row group) []

/-- Whether a filter of a level holds on a row of its source. -/
def passes (p : Projection) (e : Expr) (row : Cells V) : Bool :=
  S.holds (S.value (.inside row (S.output p row none) none) e)

/-- Rows at the positions that a sample takes. -/
def sample (n : Nat) (rows : List (Cells V)) : List (Cells V) :=
  (S.pick n rows.length).filterMap (rows[·]?)

/-- The meaning of levels under these rules. -/
def reading : Reading (Cells V) (List (Cells V)) where
  table := S.table
  join := S.join
  holds := S.passes
  project p row := S.output p row none
  group keys p rows := S.group keys (p.items.any (·.calls S.isAggregate)) rows
  summary p members := S.output p (S.representative members) (some members)
  sample := S.sample
  project_all row := by simp [output, Projection.items, Projection.listed, Projection.all, put]

/-- The rows of a query under these rules. -/
def rows (q : Query) : List (Cells V) := S.reading.rows q

mutual

/-- The value of an expression depends on its names and, if it aggregates, on
the group. -/
theorem value_congr {σ τ : Scope V} : ∀ e : Expr,
    (∀ n ∈ e.names, σ.cell n = τ.cell n) →
    (σ.group = τ.group ∨ e.calls S.isAggregate = false) →
    S.value σ e = S.value τ e
  | .column name table, hnames, _ => by
    simp only [value, hnames _ (List.mem_singleton.mpr rfl)]
  | .literal v, _, _ => rfl
  | .binary left op right, hnames, hgroup => by
    have hcalls : σ.group = τ.group ∨
        left.calls S.isAggregate = false ∧ right.calls S.isAggregate = false := by
      simpa [Expr.calls] using hgroup
    have hleft := value_congr left
      (fun n hn => hnames n (List.mem_append_left _ hn)) (hcalls.imp_right And.left)
    have hright := value_congr right
      (fun n hn => hnames n (List.mem_append_right _ hn)) (hcalls.imp_right And.right)
    simp only [value, hleft, hright]
  | .unary op operand, hnames, hgroup => by
    simp only [value, value_congr operand hnames hgroup]
  | .call f args, hnames, hgroup => by
    have hcalls : σ.group = τ.group ∨
        S.isAggregate f = false ∧ Expr.argCalls S.isAggregate args = false := by
      simpa [Expr.calls] using hgroup
    have hargs := values_congr args hnames (hcalls.imp_right And.right)
    rcases hcalls with hsame | ⟨hplain, _⟩
    · simp only [value, hsame, hargs]
    · simp only [value, hplain, hargs]
  | .cast operand typeName, hnames, hgroup => by
    simp only [value, value_congr operand hnames hgroup]

/-- The same for arguments. -/
theorem values_congr {σ τ : Scope V} : ∀ args : List Expr,
    (∀ n ∈ Expr.argNames args, σ.cell n = τ.cell n) →
    (σ.group = τ.group ∨ Expr.argCalls S.isAggregate args = false) →
    S.values σ args = S.values τ args
  | [], _, _ => rfl
  | arg :: args, hnames, hgroup => by
    have hcalls : σ.group = τ.group ∨
        arg.calls S.isAggregate = false ∧ Expr.argCalls S.isAggregate args = false := by
      simpa [Expr.argCalls] using hgroup
    have hhead := value_congr arg
      (fun n hn => hnames n (List.mem_append_left _ hn)) (hcalls.imp_right And.left)
    have htail := values_congr args
      (fun n hn => hnames n (List.mem_append_right _ hn)) (hcalls.imp_right And.right)
    simp only [values, hhead, htail]

end

/-- A cell that is put out stays the first of its name. -/
theorem lookup_foldl_put_of_some {row : Cells V} {group : Option (List (Cells V))}
    {n : String} {v : V} (items : List OutputItem) {out : Cells V}
    (h : out.lookup n = some v) : (items.foldl (S.put row group) out).lookup n = some v := by
  induction items generalizing out with
  | nil => exact h
  | cons item items ih =>
    apply ih
    cases item <;> simp [put, List.lookup_append, h]

/-- If the first item that puts out a name copies it, the name means the cell of
the source row among the outputs. -/
theorem lookup_foldl_put {row : Cells V} {group : Option (List (Cells V))}
    {n : String} {v : V} (hrow : row.lookup n = some v) (items : List OutputItem)
    {out : Cells V} (hout : out.lookup n = none)
    (h : (items.find? (·.puts n)).any (·.copies n) = true) :
    (items.foldl (S.put row group) out).lookup n = some v := by
  induction items generalizing out with
  | nil => simp at h
  | cons item items ih =>
    by_cases hputs : item.puts n = true
    · have hcopies : item.copies n = true := by simpa [List.find?_cons, hputs] using h
      rw [List.foldl_cons]
      apply S.lookup_foldl_put_of_some
      cases item with
      | everything => simp [put, List.lookup_append, hout, hrow]
      | named name e =>
        have hname : name = n := by simpa [OutputItem.puts] using hputs
        have hvalue : S.value (.inside row out group) e = v := by
          cases e with
          | column c table =>
            have hc : Expr.columnSql c table = n := by
              simpa [OutputItem.copies, Expr.isColumn] using hcopies
            simp [value, hc, Scope.inside, visible, hrow]
          | _ => simp [OutputItem.copies, Expr.isColumn] at hcopies
        simp [put, List.lookup_append, hout, hname, hvalue]
    · have hfind : (items.find? (·.puts n)).any (·.copies n) = true := by
        simpa [List.find?_cons, hputs] using h
      cases item with
      | everything => simp [OutputItem.puts] at hputs
      | named name e =>
        have hname : n ≠ name := by
          intro heq
          simp [OutputItem.puts, heq] at hputs
        refine ih ?_ hfind
        simp [put, List.lookup_append, hout, hname]

/-- A name that a level keeps and the source has means that cell among the
outputs too. -/
theorem lookup_output_of_keeps {p : Projection} {row : Cells V}
    {group : Option (List (Cells V))} {n : String} (hkeeps : p.keeps n = true)
    (hrow : (row.lookup n).isSome) : (S.output p row group).lookup n = row.lookup n := by
  obtain ⟨v, hv⟩ := Option.isSome_iff_exists.mp hrow
  rw [hv]
  exact S.lookup_foldl_put hv p.items rfl hkeeps

/-- An expression whose names, as far as the source row has them, are kept has
the same value on the finished row as inside the level. -/
theorem value_row_output {p : Projection} {row : Cells V} {group : Option (List (Cells V))}
    {e : Expr} (hkeeps : ∀ n ∈ e.names, (row.lookup n).isSome → p.keeps n = true)
    (hgroup : group = none ∨ e.calls S.isAggregate = false) :
    S.value (.inside row (S.output p row group) group) e =
      S.value (.row (S.output p row group)) e := by
  apply S.value_congr e
  · intro n hn
    show (row.lookup n).or ((S.output p row group).lookup n) = (S.output p row group).lookup n
    cases hrow : row.lookup n with
    | none => rfl
    | some v =>
      have hsome : (row.lookup n).isSome := by simp [hrow]
      rw [S.lookup_output_of_keeps (hkeeps n hn hsome) hsome, hrow]
      rfl
  · exact hgroup.imp_left fun hnone => by rw [hnone]; rfl

/-- A sample takes the same rows before and after each row is changed. -/
theorem sample_map (f : Cells V → Cells V) (n : Nat) (rows : List (Cells V)) :
    S.sample n (rows.map f) = (S.sample n rows).map f := by
  simp only [sample, List.length_map, List.map_filterMap, List.getElem?_map]

end Values

end QuerySteps
