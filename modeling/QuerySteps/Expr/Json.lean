import QuerySteps.Error
import QuerySteps.Expr.Basic
import QuerySteps.Json.Reader
import QuerySteps.Json.Record
import QuerySteps.Json.Writer

/-!
# Expressions in JSON

An expression is written as an object with one key, the kind of the expression; its value is the
record of that kind, and for a literal the scalar itself.
-/

namespace QuerySteps.Expr

open Json (fields? strictForm)

mutual

/-- An expression as a JSON value. -/
def toJson : Expr → Json
  | column name table =>
    .object [("Column", .object [("name", .text name),
      ("table", match table with | some t => .text t | none => .scalar .null)])]
  | literal value => .object [("Literal", .scalar value)]
  | binary left op right =>
    .object [("Binary", .object [("left", left.toJson), ("op", .text op),
      ("right", right.toJson)])]
  | unary op operand => .object [("Unary", .object [("op", .text op), ("expr", operand.toJson)])]
  | call function args =>
    .object [("Function", .object [("name", .text function), ("args", .array (argsToJson args))])]
  | cast operand typeName =>
    .object [("Cast", .object [("expr", operand.toJson), ("type_name", .text typeName)])]

/-- Arguments as JSON values. -/
def argsToJson : List Expr → List Json
  | [] => []
  | arg :: args => arg.toJson :: argsToJson args

end

/-- The expression that a JSON value writes, in values nested at most `depth` deep. -/
def readJson? : Nat → Json → Option Expr
  | 0, _ => none
  | depth + 1, value => do
    let (kind, record) ← value.choice?
    let fields (known : List String) := fields? strictForm known record
    match kind with
    | "Column" =>
      match ← fields ["name", "table"] with
      | (asArray, [some name, table]) =>
        if asArray && table.isNone then none
        else return column (← name.text?) (← Json.optionalText? table)
      | _ => none
    | "Literal" =>
      match record with
      | .scalar v => some (literal v)
      | _ => none
    | "Binary" =>
      match ← fields ["left", "op", "right"] with
      | (_, [some left, some op, some right]) =>
        return binary (← readJson? depth left) (← op.text?) (← readJson? depth right)
      | _ => none
    | "Unary" =>
      match ← fields ["op", "expr"] with
      | (_, [some op, some operand]) => return unary (← op.text?) (← readJson? depth operand)
      | _ => none
    | "Function" =>
      match ← fields ["name", "args"] with
      | (_, [some name, some args]) => return call (← name.text?) (← args.all? (readJson? depth))
      | _ => none
    | "Cast" =>
      match ← fields ["expr", "type_name"] with
      | (_, [some operand, some typeName]) =>
        return cast (← readJson? depth operand) (← typeName.text?)
      | _ => none
    | _ => none

/-- The expression that a JSON value writes. -/
def ofJson? (value : Json) : Option Expr :=
  readJson? (value.height + 1) value

/-- The expression that a JSON text writes. -/
def parseJson (s : String) : Except Error Expr :=
  match (Json.parse? s).bind ofJson? with
  | none => .error .json
  | some e => .ok e

/-- An expression as JSON text. -/
def toJsonText (e : Expr) : String := e.toJson.compact

end QuerySteps.Expr
