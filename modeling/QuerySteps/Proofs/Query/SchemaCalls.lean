import QuerySteps.Proofs.Query.Depth

/-!
# What a query asks the backend

Only a join asks the backend anything, and it asks a lot: writing a join asks for the columns of
both sides by their statements, and the statement of a side that holds a join has to be written
first, with the calls of that join, and once more when the side is put into FROM.  `Query.trace`
says which statements these are, by recursion on the query alone.

`Asked.Follows` relates work to such a list: either every statement on it is described and the work
has a result, or the work ends at the first one that is refused, with the very error of the backend.
Going on with other work appends the lists (`Follows.bind`), since after an error nothing is asked;
so the trace of a query is put together as its compilation is, and neither the depth nor the place
of a query in its parent matters (`Query.compile_follows`).
-/

namespace QuerySteps

/-- The backend knows the columns of a statement. -/
def Backend.Describes (b : Backend) (sql : String) : Prop :=
  ∃ columns, b.describe sql = .ok columns

/-! ## Asking along a list -/

namespace Asked

variable {α β : Type} {b : Backend} {trace more : List String}

/-- The statements of the list are asked about in order, up to and including the first that is
refused; its error is the result. -/
inductive Follows (b : Backend) (trace : List String) : Asked α → Prop
  | finished (a : α) (described : ∀ sql ∈ trace, b.Describes sql) : Follows b trace ⟨trace, .ok a⟩
  | refused {asked rest : List String} {sql : String} {e : Error}
      (split : trace = asked ++ sql :: rest) (described : ∀ s ∈ asked, b.Describes s)
      (error : b.describe sql = .error e) : Follows b trace ⟨asked ++ [sql], .error e⟩

theorem follows_pure (b : Backend) (a : α) : (Asked.pure a).Follows b [] :=
  .finished a fun _ hsql => (List.not_mem_nil hsql).elim

theorem follows_describe (b : Backend) (sql : String) : (describe b sql).Follows b [sql] := by
  cases h : b.describe sql with
  | error e =>
    have hwork : describe b sql = ⟨[] ++ [sql], .error e⟩ := by rw [describe, h, List.nil_append]
    rw [hwork]
    exact .refused (List.nil_append [sql]).symm (fun _ hs => (List.not_mem_nil hs).elim) h
  | ok columns =>
    have hwork : describe b sql = ⟨[sql], .ok columns⟩ := by rw [describe, h]
    rw [hwork]
    refine .finished columns fun s hs => ?_
    obtain rfl := List.mem_singleton.mp hs
    exact ⟨columns, h⟩

/-- Work that follows a list goes on with work that follows another one. -/
theorem Follows.bind {first : Asked α} {next : α → Asked β} (h : first.Follows b trace)
    (hnext : ∀ a, first.result = .ok a → (next a).Follows b more) :
    (first.bind next).Follows b (trace ++ more) := by
  cases h with
  | refused split described error =>
    exact .refused (by rw [split, List.append_assoc, List.cons_append]) described error
  | finished a described =>
    have hrest := hnext a rfl
    have hwork : Asked.bind ⟨trace, .ok a⟩ next = ⟨trace ++ (next a).calls, (next a).result⟩ := rfl
    rw [hwork]
    generalize next a = second at hrest ⊢
    cases hrest with
    | finished c described' =>
      refine .finished c fun sql hsql => ?_
      rcases List.mem_append.mp hsql with hsql | hsql
      · exact described sql hsql
      · exact described' sql hsql
    | @refused asked rest sql e split described' error =>
      have hcalls : trace ++ (asked ++ [sql]) = (trace ++ asked) ++ [sql] :=
        (List.append_assoc _ _ _).symm
      simp only [hcalls]
      have hsplit : trace ++ more = (trace ++ asked) ++ sql :: rest := by
        rw [split, List.append_assoc]
      refine .refused hsplit (fun s hs => ?_) error
      rcases List.mem_append.mp hs with hs | hs
      · exact described s hs
      · exact described' s hs

theorem Follows.map {first : Asked α} (h : first.Follows b trace) (f : α → β) :
    (first.map f).Follows b trace := by
  have hbind : (first.bind fun a => Asked.pure (f a)).Follows b (trace ++ []) :=
    h.bind fun a _ => follows_pure b (f a)
  rwa [bind_pure, List.append_nil] at hbind

/-- Work has a result exactly if every statement on its list is described. -/
theorem Follows.exists_ok_iff {work : Asked α} (h : work.Follows b trace) :
    (∃ a, work.result = .ok a) ↔ ∀ sql ∈ trace, b.Describes sql := by
  cases h with
  | finished a described => exact ⟨fun _ => described, fun _ => ⟨a, rfl⟩⟩
  | @refused asked rest sql e split described error =>
    constructor
    · rintro ⟨a, ha⟩
      cases ha
    · intro hall
      obtain ⟨columns, hcolumns⟩ := hall sql (by simp [split])
      rw [error] at hcolumns
      cases hcolumns

end Asked

/-! ## The trace of a query -/

namespace Query

/-- The statement of a query, if it can be written. -/
def statement? (b : Backend) (q : Query) : Option String := (q.toSql b).result.toOption

/-- The statements that writing a query asks about.  A side without a statement adds none: then
one of the statements before it is refused. -/
def trace (b : Backend) : Query → List String
  | table _ => []
  | level source _ => source.trace b
  | join left right _ =>
    left.trace b ++ (left.statement? b).toList ++ right.trace b ++ (right.statement? b).toList ++
      left.trace b ++ right.trace b

/-- No join stands anywhere in the query. -/
def JoinFree : Query → Prop
  | table _ => True
  | level source _ => source.JoinFree
  | join _ _ _ => False

variable {b : Backend} {q : Query} {trace : List String}

/-- Asking for the columns of a query asks about its statement after all that writing it asks. -/
private theorem schema_follows (h : (q.toSql b).Follows b trace) :
    (q.schema b).Follows b (trace ++ (q.statement? b).toList) := by
  refine h.bind fun sql hsql => ?_
  have hstatement : (q.statement? b).toList = [sql] := by
    rw [statement?, hsql]
    rfl
  rw [hstatement]
  exact Asked.follows_describe b sql

/-- **Writing a query asks along its trace**, wherever the query stands. -/
theorem compile_follows (b : Backend) (q : Query) (outer : Bool) (depth : Nat) :
    (q.compile b outer depth).Follows b (q.trace b) := by
  induction q generalizing outer depth with
  | table name => exact Asked.follows_pure b _
  | level source c ih =>
    rw [compile_level]
    exact (ih false (depth + 1)).map _
  | join left right criteria ihLeft ihRight =>
    have hleft := schema_follows (ihLeft true 0)
    have hright := schema_follows (ihRight true 0)
    -- the trace is nested to the left, the calls of the join to the right
    have htrace : (join left right criteria).trace b =
        (left.trace b ++ (left.statement? b).toList) ++
          ((right.trace b ++ (right.statement? b).toList) ++ (left.trace b ++ right.trace b)) := by
      simp only [Query.trace, List.append_assoc]
    rw [compile_join, htrace]
    refine hleft.bind fun leftColumns _ => hright.bind fun rightColumns _ => ?_
    exact (ihLeft false (depth + 1)).bind fun leftText _ => (ihRight false (depth + 1)).map _

/-- A query without joins is written without a backend. -/
theorem compile_joinFree (h : q.JoinFree) (outer : Bool) (depth : Nat) :
    ∃ text, ∀ b : Backend, q.compile b outer depth = Asked.pure text := by
  induction q generalizing outer depth with
  | table name => exact ⟨_, fun _ => rfl⟩
  | level source c ih =>
    obtain ⟨text, htext⟩ := ih h false (depth + 1)
    refine ⟨placed outer depth (bodyText depth (c.lines text)), fun b => ?_⟩
    rw [compile_level, htext]
    rfl
  | join left right criteria => exact h.elim

/-- **A query asks about exactly the statements of its trace.**  Up to the first one that the
backend refuses, whose error is the result as it is; if none is refused, the query is written after
the whole trace.  A query without joins asks nothing, never fails and has the same text with every
backend. -/
theorem toSql_asks_trace (b : Backend) (q : Query) :
    ((∃ asked sql rest e, q.trace b = asked ++ sql :: rest ∧ (∀ s ∈ asked, b.Describes s) ∧
        b.describe sql = .error e ∧ q.toSql b = ⟨asked ++ [sql], .error e⟩) ∨
      ((∀ s ∈ q.trace b, b.Describes s) ∧ ∃ text, q.toSql b = ⟨q.trace b, .ok text⟩)) ∧
    (q.JoinFree → ∃ text, ∀ b' : Backend, q.toSql b' = ⟨[], .ok text⟩) := by
  refine ⟨?_, fun h => compile_joinFree h true 0⟩
  have hfollows := compile_follows b q true 0
  change (q.toSql b).Follows b (q.trace b) at hfollows
  generalize q.toSql b = work at hfollows ⊢
  cases hfollows with
  | finished text described => exact .inr ⟨described, text, rfl⟩
  | refused split described error => exact .inl ⟨_, _, _, _, split, described, error, rfl⟩

end Query

end QuerySteps
