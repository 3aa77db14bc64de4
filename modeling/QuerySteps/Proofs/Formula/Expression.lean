import QuerySteps.Pipeline.Basic
import QuerySteps.Proofs.Formula.WellFormed

/-!
# The expressions of formulas

A formula is turned into an expression in two steps: its text is read as a tree, and the tree is
converted.  Conversion refuses an operator that has neither one nor two arguments.  The reader
never makes such a node: what it reads is well-formed, and a well-formed tree has an expression.  So
the second step never fails, and whatever is wrong with a formula is wrong with its text.

`expression` is the two steps in one; pipelines take them too (`resolve_text`).  The operators are
arbitrary.
-/

namespace QuerySteps

namespace Formula

variable {ops : Operators} {tree : Tree}

/-- The expression of a formula. -/
def expression (ops : Operators) (text : String) : Except Error Expr :=
  match parse ops text with
  | .error e => .error (.formula e)
  | .ok tree =>
    match tree.toExpr with
    | .error e => .error (.expression e)
    | .ok expr => .ok expr

/-- A formula in a pipeline stands for its expression, unless the text is blank. -/
theorem resolve_text (ops : Operators) (text : String) :
    (FormulaText.text text).resolve ops =
      if Text.isBlankText text then .ok none else (expression ops text).map some := by
  rw [FormulaText.resolve]
  split
  · rfl
  · rw [expression]
    cases parse ops text with
    | error e => rfl
    | ok tree => cases h : tree.toExpr <;> simp only [h, Except.map]

/-- The expression of a formula is that of its tree. -/
theorem expression_of_parse {text : String} (h : parse ops text = .ok tree) :
    ∃ e, tree.toExpr = .ok e ∧ expression ops text = .ok e := by
  obtain ⟨e, he⟩ := (wellFormed_of_parse h).exists_toExpr
  exact ⟨e, he, by simp only [expression, h, he]⟩

/-- **A formula without an expression cannot be read.** -/
theorem expression_eq_error {text : String} {error : Error}
    (h : expression ops text = .error error) :
    ∃ e, parse ops text = .error e ∧ error = .formula e := by
  cases hparse : parse ops text with
  | error e =>
    rw [expression, hparse] at h
    cases h
    exact ⟨e, rfl, rfl⟩
  | ok tree =>
    obtain ⟨e, -, he⟩ := expression_of_parse hparse
    rw [he] at h
    cases h

/-- **Every tree that is read is well-formed and has an expression**, whatever the operators; so the
only error of a formula is that it cannot be read. -/
theorem parse_wellFormed (ops : Operators) (text : String) :
    (∀ tree, parse ops text = .ok tree →
      WellFormed ops tree ∧ ∃ e, tree.toExpr = .ok e ∧ expression ops text = .ok e) ∧
    ∀ error, expression ops text = .error error →
      ∃ e, parse ops text = .error e ∧ error = .formula e := by
  refine ⟨fun tree h => ⟨wellFormed_of_parse h, expression_of_parse h⟩, ?_⟩
  intro error h
  exact expression_eq_error h

/-- The usual operators, and a word that is both a binary and a unary operator. -/
private def doubled : Operators :=
  (Operators.default.addBinary "is" 9).addUnary "is"

/-- The tree of `Is f(-(- 2), -x) is 'it' 'is' OR isx - -3`. -/
private def doubledTree : Tree :=
  .operator "OR"
    [.operator "IS"
      [.operator "IS" [.function "f" [.literal (.integer 2), .operator "-" [.name "x"]]],
        .literal (.text "itis")],
      .operator "-" [.name "isx", .literal (.integer (-3))]]

/-- A word as a unary operator, as a binary one and as the beginning of a name; minus signs that
belong to numbers and one that does not. -/
theorem parse_wellFormed_doubled :
    parse doubled "Is f(-(- 2), -x) is 'it' 'is' OR isx - -3" = .ok doubledTree ∧
      WellFormed doubled doubledTree ∧
      (∃ e, doubledTree.toExpr = .ok e ∧
        expression doubled "Is f(-(- 2), -x) is 'it' 'is' OR isx - -3" = .ok e) ∧
      expression doubled "f(-x) is" =
        .error (.formula ⟨8, .expressionExpected ""⟩) ∧
      ∃ e, parse doubled "f(-x) is" = .error e ∧
        Error.formula ⟨8, .expressionExpected ""⟩ = .formula e := by
  have hparse : parse doubled "Is f(-(- 2), -x) is 'it' 'is' OR isx - -3" = .ok doubledTree := rfl
  have herror : expression doubled "f(-x) is" =
      .error (.formula ⟨8, .expressionExpected ""⟩) := rfl
  obtain ⟨hwellFormed, hexpression⟩ := (parse_wellFormed doubled _).1 doubledTree hparse
  exact ⟨hparse, hwellFormed, hexpression, herror, (parse_wellFormed doubled _).2 _ herror⟩

end Formula

end QuerySteps
