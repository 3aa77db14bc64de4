import QuerySteps.Scalar

/-!
# Expressions

An expression is a column, a literal, an operator between or before operands, a function call or a
conversion.  `Expr.sql` writes it as SQL text.  Operators are put between parentheses and spaces, so
that the text shows the structure and no operator captures part of its neighbour; names are written
as they are.
-/

namespace QuerySteps

/-- An expression over columns. -/
inductive Expr where
  /-- A column, perhaps with the table it belongs to; the name `*` stands for all columns. -/
  | column (name : String) (table : Option String)
  | literal (value : Scalar)
  | binary (left : Expr) (op : String) (right : Expr)
  | unary (op : String) (operand : Expr)
  | call (function : String) (args : List Expr)
  /-- A conversion that gives null where it fails. -/
  | cast (operand : Expr) (typeName : String)
  deriving BEq, Inhabited

namespace Expr

/-- A column of the only table at hand. -/
def named (name : String) : Expr := column name none

/-- A column of the given table. -/
def qualified (table name : String) : Expr := column name (some table)

/-- An aggregate of one column, such as `SUM(price)` or `COUNT(*)`. -/
def aggregate (function columnName : String) : Expr := call function [named columnName]

/-- Whether an expression stands for all columns. -/
def isWildcard : Expr → Bool
  | column name _ => name == "*"
  | _ => false

/-- A column in SQL; the wildcard is never qualified. -/
def columnSql (name : String) (table : Option String) : String :=
  if name = "*" then "*"
  else match table with
    | some table => table ++ "." ++ name
    | none => name

mutual

/-- An expression as SQL text. -/
def sql : Expr → String
  | column name table => columnSql name table
  | literal value => value.sql
  | binary left op right => "( " ++ left.sql ++ " " ++ op ++ " " ++ right.sql ++ " )"
  | unary op operand => "( " ++ op ++ " " ++ operand.sql ++ " )"
  | call function args => function ++ "(" ++ argsSql args ++ ")"
  | cast operand typeName => "TRY_CAST( " ++ operand.sql ++ " AS " ++ typeName ++ " )"

/-- Arguments with commas between them. -/
def argsSql : List Expr → String
  | [] => ""
  | [arg] => arg.sql
  | arg :: args => arg.sql ++ ", " ++ argsSql args

end

end Expr

/-- A name between double quotes, as SQL writes the names of outputs. -/
def quoteName (name : String) : String := "\"" ++ name ++ "\""

end QuerySteps
