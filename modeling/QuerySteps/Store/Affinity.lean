import QuerySteps.Store.Value

/-!
# Types of columns

The declared type of a column does not bind its cells, it only prefers a kind of values: the
*affinity* of the column.  A value that is stored, or compared with the column, is brought to that
kind if nothing is lost.  Results report the declared type under one of a few names.
-/

namespace QuerySteps.Store

/-- Upper case of ASCII letters; names and types are compared without regard to it. -/
def upperAscii (s : String) : String :=
  String.ofList (s.toList.map Char.toUpper)

/-- Whether two names are the same up to the case of ASCII letters. -/
def sameName (a b : String) : Bool :=
  upperAscii a == upperAscii b

/-- Whether a word occurs in a text. -/
def occurs (word : List Char) : List Char → Bool
  | [] => word.isEmpty
  | c :: s => word.isPrefixOf (c :: s) || occurs word s

/-- Whether one of the words occurs in a type. -/
def mentions (type : String) (words : List String) : Bool :=
  words.any fun word => occurs word.toList type.toList

/-- The kind of values that a column prefers. -/
inductive Affinity where
  | blob
  | text
  | numeric
  | integer
  | real
  deriving DecidableEq, Inhabited

namespace Affinity

/-- The affinity of a column, by words that occur in its declared type. -/
def ofType (type : String) : Affinity :=
  let type := upperAscii type
  if mentions type ["INT"] then integer
  else if mentions type ["CHAR", "CLOB", "TEXT"] then text
  else if type == "" || mentions type ["BLOB"] then blob
  else if mentions type ["REAL", "FLOA", "DOUB"] then real
  else numeric

/-- Whether numbers are preferred. -/
def isNumeric : Affinity → Bool
  | numeric => true
  | integer => true
  | real => true
  | _ => false

end Affinity

namespace Value

/-- A double without a fraction as an integer, if it is well inside the integers of 64 bits. -/
def withoutFraction (x : Float) : Value :=
  let n := truncated x
  if Float.ofInt n == x && Scalar.leastInteger < n && n < Scalar.greatestSigned then integer n
  else real x

/-- A text that writes a number as that number; other values stay. -/
def numberIfText : Value → Value
  | text s => (wholeNumber? s).getD (text s)
  | v => v

/-- A number as a text; other values stay. -/
def textIfNumber : Value → Value
  | integer n => text (toString n)
  | real x => text (Decimal.writeRounded x)
  | v => v

/-- A value as a column of the given affinity keeps it.  A column of doubles keeps no minus sign of
zero. -/
def stored (affinity : Affinity) (v : Value) : Value :=
  match affinity with
  | .blob => v
  | .text => v.textIfNumber
  | .real =>
    match v.numberIfText with
    | integer n => real (Float.ofInt n)
    | real x => real (if x == 0.0 then 0.0 else x)
    | v => v
  | .numeric | .integer =>
    match v.numberIfText with
    | real x => withoutFraction x
    | v => v

end Value

/-- The name under which results report a declared type, if it has one. -/
def reportedType? (type : String) : Option String :=
  let type := upperAscii type
  if type == "BOOLEAN" || type == "BOOL" then some "BOOLEAN"
  else if type == "DATE" || type == "TIME" then some type
  else if type == "DATETIME" || type == "TIMESTAMP" then some "DATETIME"
  else if mentions type ["INT"] then some "INTEGER"
  else if mentions type ["CHAR", "CLOB", "TEXT"] then some "TEXT"
  else if mentions type ["BLOB"] then some "BLOB"
  else if mentions type ["REAL", "FLOA", "DOUB"] then some "REAL"
  else none

end QuerySteps.Store
