import QuerySteps.Expr.Basic
import QuerySteps.Json.Basic

/-!
# Expression trees

A tree is an expression as programs exchange it: an operator or a function over argument trees, a
literal or a name.  It says less than an expression, since an operator may have any number of
arguments; `Tree.toExpr` accepts one or two.  Arguments are converted first, so the error reported
is that of the first bad node in depth-first order.
-/

namespace QuerySteps

/-- An expression in exchange form. -/
inductive Tree where
  | operator (op : String) (args : List Tree)
  | function (name : String) (args : List Tree)
  | literal (value : Scalar)
  | name (name : String)
  deriving BEq, Inhabited

/-- Why something is not an expression. -/
inductive ExprError where
  /-- An operator that has neither one nor two arguments. -/
  | arity (op : String) (count : Nat)
  /-- A text or value that is not a tree. -/
  | unrecognised
  deriving DecidableEq

/-- The explanation shown to users.  Of a text or value that is not a tree, the detail that the JSON
reader appends after a colon is left out. -/
def ExprError.message : ExprError → String
  | arity op count => s!"operator '{op}' takes 1 or 2 arguments, got {count}"
  | unrecognised => "unrecognised expression tree"

namespace Tree

mutual

/-- The expression of a tree. -/
def toExpr : Tree → Except ExprError Expr
  | operator op args =>
    match toExprs args with
    | .error e => .error e
    | .ok [operand] => .ok (.unary op operand)
    | .ok [left, right] => .ok (.binary left op right)
    | .ok args => .error (.arity op args.length)
  | function f args =>
    match toExprs args with
    | .error e => .error e
    | .ok args => .ok (.call f args)
  | literal value => .ok (.literal value)
  | name n => .ok (.named n)

/-- The expressions of trees, or the first error among them. -/
def toExprs : List Tree → Except ExprError (List Expr)
  | [] => .ok []
  | tree :: trees =>
    match tree.toExpr with
    | .error e => .error e
    | .ok expr =>
      match toExprs trees with
      | .error e => .error e
      | .ok exprs => .ok (expr :: exprs)

end

end Tree

end QuerySteps
