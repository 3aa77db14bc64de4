import Mathlib.Algebra.Order.Ring.Nat
import Mathlib.Tactic.Ring
import QuerySteps.Proofs.Query.SchemaCalls

/-!
# How often a query asks the backend

A join writes each of its sides twice, once to ask for the columns of the side and once to put it
into FROM, and everything that writing the side asks is asked both times.  So the calls double with
every join that stands over another one.  `Query.asks` is that recurrence, by recursion on the
query, and `length_calls` says that it counts the calls of a query whenever none is refused.

Tables that are joined one after the other (`Query.joinAll`) are the worst case.  `asks_joinAll`
solves the recurrence for them, `asks_le` bounds it by the same number for every query with as many
joins, and no multiple of the number of joins bounds it (`calls_not_linear`).
-/

namespace QuerySteps

namespace Query

/-- The number of joins in a query. -/
def joins : Query → Nat
  | table _ => 0
  | level source _ => source.joins
  | join left right _ => left.joins + right.joins + 1

/-- The number of calls that writing a query makes when none is refused: a join asks about both
sides, and twice over what the sides ask. -/
def asks : Query → Nat
  | table _ => 0
  | level source _ => source.asks
  | join left right _ => 2 * (left.asks + right.asks + 1)

/-- A query joined with one table after the other. -/
def joinTables (q : Query) (sides : List (String × List Criterion)) : Query :=
  sides.foldl (fun q side => .join q (.table side.1) side.2) q

/-- A table joined with one table after the other. -/
def joinAll (first : String) (sides : List (String × List Criterion)) : Query :=
  (Query.table first).joinTables sides

variable {b : Backend}

/-! ## Counting the calls -/

/-- A query is written after its whole trace, if every statement on it is described. -/
theorem toSql_of_described {q : Query} (h : ∀ sql ∈ q.trace b, b.Describes sql) :
    ∃ text, q.toSql b = ⟨q.trace b, .ok text⟩ := by
  have hfollows : (q.toSql b).Follows b (q.trace b) := compile_follows b q true 0
  obtain ⟨text, htext⟩ := hfollows.exists_ok_iff.mpr h
  generalize q.toSql b = work at hfollows htext
  cases hfollows with
  | finished text _ => exact ⟨text, rfl⟩
  | refused split _ error => cases htext

/-- A query whose trace is described has a statement. -/
private theorem length_statement? {q : Query} (h : ∀ sql ∈ q.trace b, b.Describes sql) :
    (q.statement? b).toList.length = 1 := by
  obtain ⟨text, htext⟩ := toSql_of_described h
  rw [statement?, htext]
  rfl

theorem length_trace {q : Query} (h : ∀ sql ∈ q.trace b, b.Describes sql) :
    (q.trace b).length = q.asks := by
  induction q with
  | table name => rfl
  | level source c ih => exact ih h
  | join left right criteria ihLeft ihRight =>
    have hleft : ∀ sql ∈ left.trace b, b.Describes sql := by
      intro sql hsql
      exact h sql (by simp [Query.trace, hsql])
    have hright : ∀ sql ∈ right.trace b, b.Describes sql := by
      intro sql hsql
      exact h sql (by simp [Query.trace, hsql])
    simp only [Query.trace, List.length_append, length_statement? hleft, length_statement? hright,
      ihLeft hleft, ihRight hright, asks]
    omega

/-- A backend that describes every statement is asked as often as the recurrence says. -/
theorem length_calls (answers : ∀ sql, b.Describes sql) (q : Query) :
    ∃ text, (q.toSql b).result = .ok text ∧ (q.toSql b).calls.length = q.asks := by
  have hdescribed : ∀ sql ∈ q.trace b, b.Describes sql := fun sql _ => answers sql
  obtain ⟨text, htext⟩ := toSql_of_described hdescribed
  rw [htext]
  exact ⟨text, rfl, length_trace hdescribed⟩

/-! ## Solving the recurrence -/

/-- Every table that is joined doubles the calls, with two more. -/
theorem asks_joinTables (q : Query) (sides : List (String × List Criterion)) :
    (q.joinTables sides).asks + 2 = 2 ^ sides.length * (q.asks + 2) := by
  induction sides generalizing q with
  | nil => simp [joinTables]
  | cons side sides ih =>
    calc (q.joinTables (side :: sides)).asks + 2
        = 2 ^ sides.length * ((Query.join q (.table side.1) side.2).asks + 2) := ih _
      _ = 2 ^ sides.length * (2 * (q.asks + 2)) := by
        rw [asks, asks]
        ring
      _ = 2 ^ (side :: sides).length * (q.asks + 2) := by
        rw [List.length_cons, pow_succ]
        ring

theorem asks_joinAll (first : String) (sides : List (String × List Criterion)) :
    (joinAll first sides).asks = 2 ^ (sides.length + 1) - 2 := by
  have h : (joinAll first sides).asks + 2 = 2 ^ sides.length * 2 := asks_joinTables _ sides
  rw [pow_succ]
  omega

/-- No query with as many joins asks more often than tables joined one after the other. -/
theorem asks_le (q : Query) : q.asks + 2 ≤ 2 ^ (q.joins + 1) := by
  induction q with
  | table name => exact Nat.le_refl 2
  | level source c ih => exact ih
  | join left right criteria ihLeft ihRight =>
    obtain ⟨x, hx⟩ : ∃ x, 2 ^ left.joins = x + 1 :=
      Nat.exists_eq_succ_of_ne_zero (pow_ne_zero _ two_ne_zero)
    obtain ⟨y, hy⟩ : ∃ y, 2 ^ right.joins = y + 1 :=
      Nat.exists_eq_succ_of_ne_zero (pow_ne_zero _ two_ne_zero)
    have hpow : 2 ^ ((join left right criteria).joins + 1) = 4 * (x * y + x + y + 1) := by
      rw [joins, pow_succ, pow_succ, pow_add, hx, hy]
      ring
    rw [pow_succ, hx] at ihLeft
    rw [pow_succ, hy] at ihRight
    rw [hpow, asks]
    have := Nat.zero_le (x * y)
    omega

/-- **The calls of tables joined one after the other.**  With every further table the calls double
and two are added, so that `n` joins make exactly `2 ^ (n + 1) - 2` of them, and no query with as
many joins makes more. -/
theorem length_calls_joinAll (answers : ∀ sql, b.Describes sql) (first : String)
    (sides : List (String × List Criterion)) :
    (∃ text, ((joinAll first sides).toSql b).result = .ok text ∧
      ((joinAll first sides).toSql b).calls.length = 2 ^ (sides.length + 1) - 2) ∧
    ∀ q : Query, q.joins = sides.length →
      (q.toSql b).calls.length ≤ 2 ^ (sides.length + 1) - 2 := by
  constructor
  · obtain ⟨text, htext, hcalls⟩ := length_calls answers (joinAll first sides)
    exact ⟨text, htext, hcalls.trans (asks_joinAll first sides)⟩
  · intro q hq
    obtain ⟨-, -, hcalls⟩ := length_calls answers q
    have hle := asks_le q
    rw [hq] at hle
    omega

/-- A backend that has one and the same column for every statement. -/
private def constant : Backend := ⟨fun _ => .ok [⟨"id", "INTEGER"⟩], fun _ _ => .error .json⟩

private theorem constant_describes (sql : String) : constant.Describes sql := ⟨_, rfl⟩

/-- Three tables: the inner join asks about its sides once for its columns and once in FROM. -/
theorem length_calls_joinAll_three :
    let sides := [("b", [Criterion.shared "id"]), ("c", [])]
    let inner := "SELECT T1.\"id\"\nFROM a T1, b T2\nWHERE ( T1.\"id\" = T2.\"id\" )"
    (∀ sql, constant.Describes sql) ∧
      (∃ text, ((joinAll "a" sides).toSql constant).result = .ok text ∧
        ((joinAll "a" sides).toSql constant).calls.length = 2 ^ 3 - 2) ∧
      ((joinAll "a" sides).toSql constant).calls =
        ["SELECT * FROM a", "SELECT * FROM b", inner, "SELECT * FROM c", "SELECT * FROM a",
          "SELECT * FROM b"] ∧
      ((joinAll "x" [("y", []), ("z", [])]).toSql constant).calls.length ≤ 2 ^ 3 - 2 := by
  intro sides inner
  obtain ⟨hexact, hmost⟩ := length_calls_joinAll constant_describes "a" sides
  exact ⟨constant_describes, hexact, rfl, hmost (joinAll "x" [("y", []), ("z", [])]) rfl⟩

/-- **No multiple of the number of joins bounds the calls**, not even for tables joined one after
the other on a backend that refuses nothing. -/
theorem calls_not_linear :
    ¬ ∃ c, ∀ b : Backend, (∀ sql, b.Describes sql) →
      ∀ (first : String) (sides : List (String × List Criterion)),
        ((joinAll first sides).toSql b).calls.length ≤ c * sides.length := by
  rintro ⟨c, hlinear⟩
  -- twice the constant, and two, is enough: half of the joins alone pay for the factor
  have hbound := hlinear constant constant_describes "t" (List.replicate (2 * (c + 1)) ("u", []))
  obtain ⟨-, -, hcalls⟩ := length_calls constant_describes
    (joinAll "t" (List.replicate (2 * (c + 1)) ("u", [])))
  rw [hcalls, asks_joinAll, List.length_replicate] at hbound
  have hsquare : 2 ^ (2 * (c + 1) + 1) = 2 * (2 ^ (c + 1) * 2 ^ (c + 1)) := by
    rw [← pow_add]
    ring
  have hpow : c + 2 ≤ 2 ^ (c + 1) := Nat.lt_two_pow_self
  have hgrowth : (c + 2) * (c + 2) ≤ 2 ^ (c + 1) * 2 ^ (c + 1) := Nat.mul_le_mul hpow hpow
  have hexpand : (c + 2) * (c + 2) = c * c + 4 * c + 4 := by ring
  have hlinearSide : c * (2 * (c + 1)) = 2 * (c * c) + 2 * c := by ring
  omega

end Query

end QuerySteps
