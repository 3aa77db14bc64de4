import Mathlib.Data.List.Induction
import QuerySteps.Proofs.Formula.Expression
import QuerySteps.Proofs.Formula.RoundTrip
import QuerySteps.Proofs.Query.Depth
import QuerySteps.Query.Level

/-!
# Filters that come together

The filters of a level are written behind WHERE one after the other, with AND between them and no
parentheses around them.  Read as one formula, that text is the conjunction of the filters from the
left, and no filter captures a part of its neighbour (`where_reads_back`).

What makes this work is that the SQL of a formula is always one operand (`ReadsAs`): operators stand
in parentheses of their own, and a bare name, a call or a literal stops at the blank before AND.  So
the text is a chain of operands whose links all have the operator AND, wherever the table puts it,
and the rightmost operator of lowest precedence is always the last one (`splitTree_and`).  The
filters themselves are collected by an induction over the list: a fresh level has neither a sample
nor a summary, and a filter adds none (`filterAll_eq`).
-/

namespace QuerySteps

open Formula

variable {ops : Operators}

/-! ## Reading a conjunction -/

/-- Trees joined by AND, from the left. -/
def Tree.conjunction (first : Tree) (more : List Tree) : Tree :=
  more.foldl (fun left right => .operator "AND" [left, right]) first

/-- A chain whose links all have the operator AND is split at its end. -/
theorem Formula.splitTree_and (precedence : String → Nat) (first : Tree) (trees : List Tree) :
    splitTree precedence first (trees.map (Link.mk "AND")) = first.conjunction trees := by
  induction trees using List.reverseRecOn with
  | nil => exact splitTree_nil precedence first
  | append_singleton trees tree ih =>
    have hbefore : ∀ link ∈ trees.map (Link.mk "AND"), precedence "AND" ≤ precedence link.op := by
      intro link hlink
      obtain ⟨-, -, rfl⟩ := List.mem_map.mp hlink
      exact Nat.le_refl _
    have hsplit : splitTree precedence first (trees.map (Link.mk "AND") ++ [⟨"AND", tree⟩]) =
        .operator "AND" [splitTree precedence first (trees.map (Link.mk "AND")),
          splitTree precedence tree []] :=
      splitTree_split first hbefore fun _ h => (List.not_mem_nil h).elim
    rw [List.map_append, List.map_singleton, hsplit, ih, splitTree_nil, Tree.conjunction,
      Tree.conjunction, List.foldl_append]
    rfl

/-- Further conditions, each with AND before it. -/
private def andText (filters : List Expr) : List Char :=
  filters.flatMap fun e => ' ' :: ("AND".toList ++ ' ' :: e.sql.toList)

private theorem toList_joinWith_and (first : Expr) (more : List Expr) :
    (joinWith " AND " ((first :: more).map (·.sql))).toList = first.sql.toList ++ andText more := by
  induction more generalizing first with
  | nil => exact (List.append_nil _).symm
  | cons next more ih =>
    have hrest := ih next
    rw [List.map_cons] at hrest
    rw [List.map_cons, List.map_cons, joinWith_cons]
    simp [hrest, andText]

private theorem stops_andText (hext : ops.ExtendsDefault) (filters : List Expr) :
    Stops (andText filters) := by
  cases filters with
  | nil => exact .nil
  | cons e filters =>
    have hand : "AND" ∈ ops.keys := hext.mem_keys (by decide)
    have hspells : Spells "AND" "AND".toList := by decide
    have hstops := stops_operator (hext.regular.binary _ hand) hspells
      (' ' :: (e.sql.toList ++ andText filters))
    simpa [andText] using hstops

/-- The conditions behind the first one are read as links. -/
private theorem links_andText (hext : ops.ExtendsDefault) {filters : List Expr} {trees : List Tree}
    (h : List.Forall₂ (fun e tree => ReadsAs ops e.sql.toList tree) filters trees) {d : Nat}
    (hd : (andText filters).length ≤ d) :
    Links ops (operandAt ops d) ops.levels (andText filters) (trees.map (Link.mk "AND")) [] := by
  induction h with
  | nil => exact .done []
  | @cons e tree filters trees hread _ ih =>
    have hcons : andText (e :: filters) =
        ' ' :: ("AND".toList ++ ' ' :: (e.sql.toList ++ andText filters)) := by
      simp [andText]
    rw [hcons] at hd ⊢
    simp only [List.length_cons, List.length_append] at hd
    have hand : "AND" ∈ ops.keys := hext.mem_keys (by decide)
    obtain ⟨p, hlevel, hprec⟩ := Operators.lookup_of_mem_keys hand
    have hnext := next?_written hext.regular hand (w := "AND".toList) (by decide)
      (e.sql.toList ++ andText filters)
    have hoperand := hread.read (d := d) (by omega) (stops_andText hext filters)
    exact .link hnext hprec hlevel (operandAt_blank hext.regular hoperand) (ih (by omega))

/-- **Conditions with AND between them are read as their conjunction.** -/
theorem Formula.parse_joinWith_and (hext : ops.ExtendsDefault) {first : Expr} {tree : Tree}
    {more : List Expr} {trees : List Tree} (hfirst : ReadsAs ops first.sql.toList tree)
    (hmore : List.Forall₂ (fun e tree => ReadsAs ops e.sql.toList tree) more trees) :
    parse ops (joinWith " AND " ((first :: more).map (·.sql))) = .ok (tree.conjunction trees) := by
  have htext := toList_joinWith_and first more
  have hd : first.sql.toList.length ≤
        (joinWith " AND " ((first :: more).map (·.sql))).toList.length ∧
      (andText more).length ≤ (joinWith " AND " ((first :: more).map (·.sql))).toList.length := by
    rw [htext, List.length_append]
    constructor <;> omega
  have hread : read ops (joinWith " AND " ((first :: more).map (·.sql))).toList =
      .ok (tree.conjunction trees) := by
    rw [read_eq_ok_iff]
    refine ⟨[], (formula_succ_eq_ok_iff hext.regular).mpr ⟨tree, andText more,
      trees.map (Link.mk "AND"), ?_, links_andText hext hmore hd.2, next?_nil hext.regular,
      (splitTree_and _ tree trees).symm⟩, fun _ h => (List.not_mem_nil h).elim⟩
    have hoperand := hfirst.read hd.1 (stops_andText hext more)
    rwa [← htext] at hoperand
  rw [parse, hread]

/-! ## Collecting filters -/

/-- What stands behind WHERE. -/
def Clauses.conditions (c : Clauses) : String := joinWith " AND " (c.filters.map (·.sql))

namespace Level

/-- The level with one filter for each formula, or the error of the first that cannot be read. -/
def filterAll (ops : Operators) : Level → List String → Except Error Level
  | l, [] => .ok l
  | l, text :: texts =>
    match expression ops text with
    | .error e => .error e
    | .ok e => filterAll ops (l.filter e) texts

/-- The level with more filters. -/
def withFilters (l : Level) (filters : List Expr) : Level :=
  { l with clauses := { l.clauses with filters := l.clauses.filters ++ filters } }

/-- Filters gather on a level that has neither a sample nor a summary. -/
theorem filterAll_eq {texts : List String} {filters : List Expr}
    (h : List.Forall₂ (fun text e => expression ops text = .ok e) texts filters) {l : Level}
    (hsample : l.clauses.sample = none) (hplain : l.clauses.summarised = false) :
    l.filterAll ops texts = .ok (l.withFilters filters) := by
  induction h generalizing l with
  | nil => simp [filterAll, withFilters]
  | @cons text e texts filters hread _ ih =>
    have hfilter : l.filter e = l.withFilter e := by
      rw [Level.filter, hsample, hplain]
      rfl
    have hrest := ih (l := l.withFilter e) hsample hplain
    rw [filterAll, hread]
    simp only [hfilter, hrest]
    simp [withFilters, withFilter]

end Level

/-- A formula without single quotes in its texts has an expression, and its SQL is one operand. -/
private theorem exists_reads_sql (hext : ops.ExtendsDefault) {text : String} {tree : Tree}
    (accepted : parse ops text = .ok tree) (unquoted : tree.Unquoted) :
    ∃ e, expression ops text = .ok e ∧ ReadsAs ops e.sql.toList tree := by
  obtain ⟨e, he, hreads⟩ := reads_sql hext (wellFormed_of_parse accepted) unquoted
  exact ⟨e, by simp only [expression, accepted, he], hreads⟩

private theorem exists_filters (hext : ops.ExtendsDefault) {texts : List String} {trees : List Tree}
    (accepted : List.Forall₂ (fun text tree => parse ops text = .ok tree) texts trees)
    (unquoted : ∀ tree ∈ trees, tree.Unquoted) :
    ∃ filters, List.Forall₂ (fun text e => expression ops text = .ok e) texts filters ∧
      List.Forall₂ (fun e tree => ReadsAs ops e.sql.toList tree) filters trees := by
  induction accepted with
  | nil => exact ⟨[], .nil, .nil⟩
  | cons first _ ih =>
    obtain ⟨e, he, hreads⟩ := exists_reads_sql hext first (unquoted _ List.mem_cons_self)
    obtain ⟨filters, hfilters, hall⟩ := ih fun tree h => unquoted tree (List.mem_cons_of_mem _ h)
    exact ⟨e :: filters, .cons he hfilters, .cons hreads hall⟩

/-- **Filters that come together are their conjunction.**  A fresh level takes the filters of any
formulas; at every depth and on every backend it is written as everything of its source with one
line for WHERE, and what stands there, read as one formula, is the conjunction of the formulas from
the left. -/
theorem Level.where_reads_back (hext : ops.ExtendsDefault) (source : Query) {texts : List String}
    {first : Tree} {more : List Tree}
    (accepted : List.Forall₂ (fun text tree => parse ops text = .ok tree) texts (first :: more))
    (unquoted : ∀ tree ∈ first :: more, tree.Unquoted) :
    ∃ l, (Level.wrap source).filterAll ops texts = .ok l ∧
      (∀ b outer depth, l.toQuery.compile b outer depth =
        (source.compile b false (depth + 1)).map fun text => placed outer depth
          (bodyText depth ["SELECT *", "FROM " ++ text, "WHERE " ++ l.clauses.conditions])) ∧
      parse ops l.clauses.conditions = .ok (first.conjunction more) := by
  obtain ⟨filters, hfilters, hreads⟩ := exists_filters hext accepted unquoted
  cases hreads with
  | @cons e _ filters _ hfirst hmore =>
    refine ⟨(Level.wrap source).withFilters (e :: filters), filterAll_eq hfilters rfl rfl, ?_,
      parse_joinWith_and hext hfirst hmore⟩
    intro b outer depth
    exact Query.compile_level b source _ outer depth

/-- Formulas that AND could tear apart: it binds tighter than OR, and NOT and the minus sign stand
where an operand ends. -/
private def looseTrees : List Tree :=
  [.operator "OR" [.name "a", .name "b"], .operator "NOT" [.name "c"], .literal (.integer (-1)),
    .operator "-" [.function "f" [.name "x", .literal (.text "y")]]]

/-- Four filters of a level, read as one formula. -/
theorem Level.where_reads_back_loose :
    Operators.default.ExtendsDefault ∧
      List.Forall₂ (fun text tree => parse .default text = .ok tree)
        ["a OR b", "NOT c", "-1", "-f(x, 'y')"] looseTrees ∧
      (∀ tree ∈ looseTrees, tree.Unquoted) ∧
      ∃ l, (Level.wrap (.table "t")).filterAll .default
          ["a OR b", "NOT c", "-1", "-f(x, 'y')"] = .ok l ∧
        parse .default l.clauses.conditions = .ok (.operator "AND" [.operator "AND"
          [.operator "AND" [.operator "OR" [.name "a", .name "b"], .operator "NOT" [.name "c"]],
            .literal (.integer (-1))],
          .operator "-" [.function "f" [.name "x", .literal (.text "y")]]]) := by
  have haccepted : List.Forall₂ (fun text tree => parse .default text = .ok tree)
      ["a OR b", "NOT c", "-1", "-f(x, 'y')"] looseTrees :=
    .cons rfl (.cons rfl (.cons rfl (.cons rfl .nil)))
  have hunquoted : ∀ tree ∈ looseTrees, tree.Unquoted := by
    intro tree htree s hs
    simp only [looseTrees, List.mem_cons, List.not_mem_nil, or_false] at htree
    rcases htree with rfl | rfl | rfl | rfl <;> simp [Tree.literals, Tree.literalsOf] at hs
    rw [hs]
    decide
  obtain ⟨l, hl, -, hparse⟩ :=
    Level.where_reads_back .usual (.table "t") haccepted hunquoted
  exact ⟨.usual, haccepted, hunquoted, l, hl, hparse⟩

end QuerySteps
