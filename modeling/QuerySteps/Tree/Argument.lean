import QuerySteps.Tree.Json
import QuerySteps.Text.Class

/-!
# Arguments that stand for expressions

Where a query takes an expression, the caller may give a text, a JSON value, a tree or the
expression itself.  Nothing, a blank text and null stand for "no expression"; a step that gets none
leaves its query as it is.
-/

namespace QuerySteps

/-- What a caller gives in place of an expression. -/
inductive ExprArgument where
  | nothing
  | expr (e : Expr)
  | tree (t : Tree)
  /-- The JSON text of a tree. -/
  | text (s : String)
  | json (value : Json)

namespace ExprArgument

/-- The expression that a text stands for. -/
def ofText (s : String) : Except ExprError (Option Expr) :=
  if Text.isBlankText s then .ok none
  else do
    let tree ← Tree.parseJson s
    return some (← tree.toExpr)

/-- The expression that a JSON value stands for. -/
def ofJson : Json → Except ExprError (Option Expr)
  | .scalar .null => .ok none
  | .scalar (.text s) => ofText s
  | value =>
    match Tree.ofJson? value with
    | none => .error .unrecognised
    | some node => node.toExpr.map some

/-- The expression that is meant, if any. -/
def resolve : ExprArgument → Except ExprError (Option Expr)
  | nothing => .ok none
  | expr e => .ok (some e)
  | tree t => t.toExpr.map some
  | text s => ofText s
  | json value => ofJson value

end ExprArgument

end QuerySteps
