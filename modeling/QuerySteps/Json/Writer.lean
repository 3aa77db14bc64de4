import QuerySteps.Json.Basic

/-!
# Writing JSON

Two forms are written: the compact one without any space, and the indented one with two spaces for
each level.  Quotes, backslashes and control characters are escaped, all other characters stand for
themselves.
-/

namespace QuerySteps.Json

/-- The lower-case hexadecimal digit of a number below sixteen. -/
def hexChar (n : Nat) : Char :=
  (Nat.toDigits 16 n).getD 0 '0'

/-- A character as it stands between the quotes of a text. -/
def escape (c : Char) : List Char :=
  match c with
  | '"' => ['\\', '"']
  | '\\' => ['\\', '\\']
  | '\x08' => ['\\', 'b']
  | '\x0c' => ['\\', 'f']
  | '\n' => ['\\', 'n']
  | '\r' => ['\\', 'r']
  | '\t' => ['\\', 't']
  | c =>
    if c.toNat < 0x20 then
      ['\\', 'u', '0', '0', hexChar (c.toNat / 16), hexChar (c.toNat % 16)]
    else [c]

/-- A text with its quotes. -/
def quote (s : String) : String :=
  String.ofList ('"' :: s.toList.flatMap escape ++ ['"'])

/-- A scalar; infinities and "not a number" are written as null. -/
def writeScalar : Scalar → String
  | .null => "null"
  | .bool true => "true"
  | .bool false => "false"
  | .integer n => toString n
  | .float x => Decimal.writeFloat Decimal.jsonLayout x
  | .text s => quote s

mutual

/-- A value without any space. -/
def compact : Json → String
  | scalar v => writeScalar v
  | array items => "[" ++ compactItems items ++ "]"
  | object members => "\x7b" ++ compactMembers members ++ "\x7d"
  | unreadable => "null"

/-- Items with commas between them. -/
def compactItems : List Json → String
  | [] => ""
  | [item] => item.compact
  | item :: items => item.compact ++ "," ++ compactItems items

/-- Members with commas between them. -/
def compactMembers : List (String × Json) → String
  | [] => ""
  | [(key, value)] => quote key ++ ":" ++ value.compact
  | (key, value) :: members => quote key ++ ":" ++ value.compact ++ "," ++ compactMembers members

end

/-- A new line at a level of indentation. -/
def newLine (level : Nat) : String :=
  String.ofList ('\n' :: List.replicate (2 * level) ' ')

mutual

/-- A value over several lines, its parts indented by two spaces more than itself. -/
def indented (level : Nat) : Json → String
  | scalar v => writeScalar v
  | array [] => "[]"
  | array (item :: items) =>
    "[" ++ indentedItems (level + 1) (item :: items) ++ newLine level ++ "]"
  | object [] => "\x7b\x7d"
  | object (member :: members) =>
    "\x7b" ++ indentedMembers (level + 1) (member :: members) ++ newLine level ++ "\x7d"
  | unreadable => "null"

/-- Items, each on a line of its own. -/
def indentedItems (level : Nat) : List Json → String
  | [] => ""
  | [item] => newLine level ++ item.indented level
  | item :: items => newLine level ++ item.indented level ++ "," ++ indentedItems level items

/-- Members, each on a line of its own. -/
def indentedMembers (level : Nat) : List (String × Json) → String
  | [] => ""
  | [(key, value)] => newLine level ++ quote key ++ ": " ++ value.indented level
  | (key, value) :: members =>
    newLine level ++ quote key ++ ": " ++ value.indented level ++ "," ++
      indentedMembers level members

end

/-- A value over several lines. -/
def pretty (v : Json) : String :=
  v.indented 0

end QuerySteps.Json
