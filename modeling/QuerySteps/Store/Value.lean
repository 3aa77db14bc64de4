import QuerySteps.Decimal.Rounded
import QuerySteps.Json.Basic
import QuerySteps.Numeral

/-!
# Values of a store

A cell of a table holds a value of one of five kinds, whatever the type of its column.  Integers
have 64 bits.  Values of different kinds are ordered too: null first, then numbers, then texts, then
bytes; a whole number and a double are compared exactly.
-/

namespace QuerySteps.Store

/-- The kinds of values. -/
inductive Kind where
  | null
  | integer
  | real
  | text
  | blob
  deriving DecidableEq, Inhabited

/-- The name of a kind as the type of a column. -/
def Kind.typeName : Kind → String
  | null => "NULL"
  | integer => "INTEGER"
  | real => "REAL"
  | text => "TEXT"
  | blob => "BLOB"

/-- What a cell holds. -/
inductive Value where
  | null
  | integer (n : Int)
  | real (x : Float)
  | text (s : String)
  | blob (bytes : List UInt8)
  deriving DecidableEq, Inhabited

/-- The values of a row, in the order of the columns. -/
abbrev Row := List Value

/-- Whether a number is an integer of 64 bits. -/
def isWord (n : Int) : Bool :=
  Scalar.leastInteger ≤ n && n ≤ Scalar.greatestSigned

namespace Value

/-- The kind of a value. -/
def kind : Value → Kind
  | null => .null
  | integer _ => .integer
  | real _ => .real
  | text _ => .text
  | blob _ => .blob

/-- A truth value as a number. -/
def ofBool (b : Bool) : Value := integer (if b then 1 else 0)

/-- A double as a value; "not a number" is null. -/
def ofFloat (x : Float) : Value := if x.isNaN then null else real x

/-- A whole number as a value; one without 64 bits becomes a double. -/
def ofInt (n : Int) : Value := if isWord n then integer n else real (Float.ofInt n)

/-- A value in a result.  Infinities and bytes are not shown. -/
def toJson : Value → Json
  | null => .scalar .null
  | integer n => .scalar (.integer n)
  | real x => .scalar (if x.isFinite then .float x else .null)
  | text s => .text s
  | blob _ => .scalar .null

/-- The text that bytes write; bytes that write none become one replacement character. -/
def textOfBytes (bytes : List UInt8) : String :=
  (String.fromUTF8? ⟨bytes.toArray⟩).getD "\ufffd"

/-- Bytes read one by one as characters, which is enough to find a number in them. -/
def charsOfBytes (bytes : List UInt8) : String :=
  String.ofList (bytes.map fun byte => Char.ofNat byte.toNat)

/-- A value as a text; null has none. -/
def asText? : Value → Option String
  | null => none
  | integer n => some (toString n)
  | real x => some (Decimal.writeRounded x)
  | text s => some s
  | blob bytes => some (textOfBytes bytes)

end Value

/-! ## Numbers in texts -/

/-- White space around numbers. -/
def isPadding (c : Char) : Bool :=
  c == ' ' || ('\t' ≤ c && c ≤ '\r')

/-- The nearest double of a numeral; one beyond all doubles is infinite. -/
def floatOf (minus : Bool) (n : Numeral) : Float :=
  let x := n.decimal.toFloat?.getD (1.0 / 0.0)
  if minus then -x else x

/-- The value of a numeral: an integer if it is written as one and has 64 bits. -/
def numberOf (minus : Bool) (n : Numeral) : Value :=
  let whole : Int := Decimal.ofDigits n.whole
  let signed := if minus then -whole else whole
  if n.isWhole ∧ isWord signed then .integer signed else .real (floatOf minus n)

/-- The number at the front of a text, with the text after it. -/
def leadingNumber? (s : String) : Option (Value × List Char) :=
  let (minus, rest) := Numeral.takeSign (s.toList.dropWhile isPadding)
  (Numeral.take? rest).map fun (n, rest) => (numberOf minus n, rest)

/-- The number that a whole text writes. -/
def wholeNumber? (s : String) : Option Value := do
  let (v, rest) ← leadingNumber? s
  if rest.all isPadding then some v else none

namespace Value

/-- A value as an operand of arithmetic: of a text the number at its front counts, and a text
without one is zero.  Null stays null. -/
def asNumber : Value → Value
  | text s => ((leadingNumber? s).map (·.1)).getD (integer 0)
  | blob bytes => ((leadingNumber? (charsOfBytes bytes)).map (·.1)).getD (integer 0)
  | v => v

/-- A number as a double. -/
def asFloat (v : Value) : Float :=
  match v.asNumber with
  | integer n => Float.ofInt n
  | real x => x
  | _ => 0.0

/-- A double without its fraction, as an integer of 64 bits. -/
def truncated (x : Float) : Int := x.toInt64.toInt

/-- The integer of 64 bits that is nearest. -/
def nearestWord (n : Int) : Int :=
  max Scalar.leastInteger (min Scalar.greatestSigned n)

/-- The integer that the digits at the front of a text write; without digits it is zero. -/
def leadingInteger (s : String) : Int :=
  let (minus, rest) := Numeral.takeSign (s.toList.dropWhile isPadding)
  let n : Int := Decimal.ofDigits (rest.takeWhile Char.isDigit)
  nearestWord (if minus then -n else n)

/-- A value as an integer of 64 bits.  Of a text only the digits at its front count, not a fraction
or an exponent. -/
def asInt : Value → Int
  | null => 0
  | integer n => n
  | real x => truncated x
  | text s => leadingInteger s
  | blob bytes => leadingInteger (charsOfBytes bytes)

/-- Whether a value counts as true; null is neither true nor false. -/
def truth? (v : Value) : Option Bool :=
  match v.asNumber with
  | null => none
  | integer n => some (n != 0)
  | real x => some (x != 0.0)
  | _ => some false

/-! ## Order -/

/-- The place of a kind in the order of values. -/
def rank : Value → Nat
  | null => 0
  | integer _ => 1
  | real _ => 1
  | text _ => 2
  | blob _ => 3

/-- The order of two doubles. -/
def compareFloats (x y : Float) : Ordering :=
  if x < y then .lt else if y < x then .gt else .eq

/-- The order of an integer and a double. -/
def compareMixed (n : Int) (x : Float) : Ordering :=
  if x < -9223372036854775808.0 then .gt
  else if 9223372036854775808.0 ≤ x then .lt
  else if n < truncated x then .lt
  else if truncated x < n then .gt
  else compareFloats (Float.ofInt n) x

/-- The order of two runs of bytes. -/
def compareBytes : List UInt8 → List UInt8 → Ordering
  | [], [] => .eq
  | [], _ :: _ => .lt
  | _ :: _, [] => .gt
  | a :: as, b :: bs => if a < b then .lt else if b < a then .gt else compareBytes as bs

/-- The order of two values. -/
def compare : Value → Value → Ordering
  | integer m, integer n => Ord.compare m n
  | integer n, real x => compareMixed n x
  | real x, integer n => (compareMixed n x).swap
  | real x, real y => compareFloats x y
  | text s, text t => Ord.compare s t
  | blob a, blob b => compareBytes a b
  | a, b => Ord.compare a.rank b.rank

/-- The order of two rows, by the first values that differ. -/
def compareRows : Row → Row → Ordering
  | a :: as, b :: bs => (compare a b).then (compareRows as bs)
  | _, _ => .eq

end Value

end QuerySteps.Store
