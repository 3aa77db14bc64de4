import QuerySteps.Tree.Basic
import QuerySteps.Json.Record
import QuerySteps.Json.Reader
import QuerySteps.Json.Writer

/-!
# Expression trees in JSON

A node is written as an object that has the keys of its kind: `operator` and `args`, `function` and
`args`, `literal`, or `name`.  Other keys are passed over, as editors attach positions.  A node with
the keys of several kinds is of the first kind that it fits, in that order; a kind whose own key is
repeated does not fit.
-/

namespace QuerySteps.Tree

open Json (objectFields?)

mutual

/-- A tree as a JSON value. -/
def toJson : Tree → Json
  | operator op args => .object [("operator", .text op), ("args", .array (argsToJson args))]
  | function f args => .object [("function", .text f), ("args", .array (argsToJson args))]
  | literal value => .object [("literal", .scalar value)]
  | name n => .object [("name", .text n)]

/-- Arguments as JSON values. -/
def argsToJson : List Tree → List Json
  | [] => []
  | arg :: args => arg.toJson :: argsToJson args

end

/-- A tree as JSON text. -/
def toJsonText (tree : Tree) : String := tree.toJson.compact

/-- The operator node of an object. -/
def operatorOf? (args? : Json → Option (List Tree)) (members : List (String × Json)) :
    Option Tree := do
  match ← objectFields? ["operator", "args"] members with
  | [some op, some args] => return operator (← op.text?) (← args? args)
  | _ => none

/-- The function node of an object; without arguments it is a call of none. -/
def functionOf? (args? : Json → Option (List Tree)) (members : List (String × Json)) :
    Option Tree := do
  match ← objectFields? ["function", "args"] members with
  | [some f, some args] => return function (← f.text?) (← args? args)
  | [some f, none] => return function (← f.text?) []
  | _ => none

/-- The literal node of an object. -/
def literalOf? (members : List (String × Json)) : Option Tree := do
  match ← objectFields? ["literal"] members with
  | [some (.scalar v)] => return literal v
  | _ => none

/-- The name node of an object. -/
def nameOf? (members : List (String × Json)) : Option Tree := do
  match ← objectFields? ["name"] members with
  | [some value] => return name (← value.text?)
  | _ => none

/-- The tree that a JSON value writes, in values nested at most `depth` deep. -/
def readJson? : Nat → Json → Option Tree
  | depth + 1, .object members =>
    let args? := Json.all? (readJson? depth)
    operatorOf? args? members <|> functionOf? args? members <|> literalOf? members <|>
      nameOf? members
  | _, _ => none

/-- The tree that a JSON value writes; every part of the value must be readable. -/
def ofJson? (value : Json) : Option Tree :=
  if value.readable then readJson? value.height value else none

/-- The tree that a JSON text writes. -/
def parseJson (s : String) : Except ExprError Tree :=
  match Json.parse? s with
  | none => .error .unrecognised
  | some value =>
    match ofJson? value with
    | none => .error .unrecognised
    | some tree => .ok tree

end QuerySteps.Tree
