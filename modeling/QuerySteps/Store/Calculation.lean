import QuerySteps.Store.Select

/-!
# Calculations

A term whose names are resolved is a calculation: it refers to the cells of a row by their places.
Its value depends on a row and, where it summarises, on the rows of a group.  Only a sum of integers
can fail, by leaving the integers of 64 bits; then there is no value.

Logic is three-valued: null is neither true nor false, and an operand that is null makes arithmetic,
comparison and concatenation null.
-/

namespace QuerySteps.Store

/-- Functions of all values of a group. -/
inductive Summary where
  | count
  | sum
  | average
  | least
  | greatest
  deriving DecidableEq

/-- A term without names. -/
inductive Calculation where
  | constant (v : Value)
  /-- A cell of the row, with the affinity of its column and the kind it is declared for. -/
  | cell (place : Nat) (affinity : Option Affinity) (kind : Kind)
  | unary (op : UnaryOp) (operand : Calculation)
  | binary (op : BinaryOp) (left right : Calculation)
  /-- The lesser or the greater of two values. -/
  | extreme (greater : Bool) (left right : Calculation)
  | countRows
  | summary (function : Summary) (operand : Calculation)
  deriving Inhabited

namespace Value

/-! ## Operations on values -/

/-- The number with the opposite sign. -/
def minus (v : Value) : Value :=
  match v.asNumber with
  | integer n => ofInt (-n)
  | real x => ofFloat (0.0 - x)
  | v => v

/-- An operation on two integers, unless 64 bits do not hold its result; division by zero is
null. -/
def integerArithmetic? (op : Arithmetic) (m n : Int) : Option Value :=
  let held (n : Int) : Option Value := if isWord n then some (integer n) else none
  match op with
  | .add => held (m + n)
  | .subtract => held (m - n)
  | .multiply => held (m * n)
  | .divide => if n == 0 then some null else held (m.tdiv n)
  | .remainder => if n == 0 then some null else held (m.tmod n)

/-- An operation on two values as doubles; a remainder is that of their whole parts. -/
def floatArithmetic (op : Arithmetic) (a b : Value) : Value :=
  match op with
  | .add => ofFloat (a.asFloat + b.asFloat)
  | .subtract => ofFloat (a.asFloat - b.asFloat)
  | .multiply => ofFloat (a.asFloat * b.asFloat)
  | .divide => if b.asFloat == 0.0 then null else ofFloat (a.asFloat / b.asFloat)
  | .remainder => if b.asInt == 0 then null else real (Float.ofInt (a.asInt.tmod b.asInt))

/-- An operation on two values: on integers if both are, and otherwise on doubles. -/
def arithmetic (op : Arithmetic) (a b : Value) : Value :=
  match a.asNumber, b.asNumber with
  | null, _ => null
  | _, null => null
  | integer m, integer n => (integerArithmetic? op m n).getD (floatArithmetic op a b)
  | _, _ => floatArithmetic op a b

/-- One text after the other. -/
def concatenation (a b : Value) : Value :=
  match a.asText?, b.asText? with
  | some s, some t => text (s ++ t)
  | _, _ => null

/-- A truth value that may be missing, as a value. -/
def ofTruth : Option Bool → Value
  | none => null
  | some b => ofBool b

/-- Whether both hold, as far as it is known. -/
def both : Option Bool → Option Bool → Option Bool
  | some false, _ => some false
  | _, some false => some false
  | some true, some true => some true
  | _, _ => none

/-- Whether one of two holds, as far as it is known. -/
def either : Option Bool → Option Bool → Option Bool
  | some true, _ => some true
  | _, some true => some true
  | some false, some false => some false
  | _, _ => none

/-- Whether an order meets a comparison. -/
def meets (c : Comparison) (o : Ordering) : Bool :=
  match c with
  | .equal => o == .eq
  | .different => o != .eq
  | .less => o == .lt
  | .atMost => o != .gt
  | .greater => o == .gt
  | .atLeast => o != .lt

/-- Whether a value is null. -/
def isNull (v : Value) : Bool := v == null

/-- Whether a value is a text. -/
def isText (v : Value) : Bool := v.kind == .text

/-- Two values as they are compared: with a number column texts that write numbers become numbers,
with a text column and a text on one side numbers become texts. -/
def forComparison (affinity : Option Affinity) (a b : Value) : Value × Value :=
  match affinity with
  | some .text => if a.isText || b.isText then (a.textIfNumber, b.textIfNumber) else (a, b)
  | some affinity => if affinity.isNumeric then (a.numberIfText, b.numberIfText) else (a, b)
  | none => (a, b)

/-- The outcome of a comparison. -/
def comparison (c : Comparison) (affinity : Option Affinity) (a b : Value) : Value :=
  if a.isNull || b.isNull then null
  else
    let (a, b) := forComparison affinity a b
    ofBool (meets c (compare a b))

/-- Whether a text fits a pattern, where `_` stands for one character and `%` for any number of
them; the case of ASCII letters does not matter. -/
def fits : List Char → List Char → Bool
  | [], s => s.isEmpty
  | '%' :: pattern, [] => fits pattern []
  | '%' :: pattern, c :: s => fits pattern (c :: s) || fits ('%' :: pattern) s
  | _ :: _, [] => false
  | p :: pattern, c :: s => (p == '_' || p.toUpper == c.toUpper) && fits pattern s
termination_by pattern s => pattern.length + s.length

/-- Whether the text of a value fits the pattern of another. -/
def like (a pattern : Value) : Value :=
  match a.asText?, pattern.asText? with
  | some s, some p => ofBool (fits p.toList s.toList)
  | _, _ => null

/-- The lesser or the greater of two values; null if one of them is. -/
def extreme (greater : Bool) (a b : Value) : Value :=
  if a.isNull || b.isNull then null
  else match greater, compare a b with
    | true, .lt => b
    | true, _ => a
    | false, .lt => a
    | false, _ => b

/-- The value of an operator before a value. -/
def unary (op : UnaryOp) (v : Value) : Value :=
  match op with
  | .opposite => ofTruth (v.truth?.map (!·))
  | .minus => v.minus
  | .plus => v

/-- The value of an operator between two values; comparisons use an affinity. -/
def binary (op : BinaryOp) (affinity : Option Affinity) (a b : Value) : Value :=
  match op with
  | .either => ofTruth (either a.truth? b.truth?)
  | .both => ofTruth (both a.truth? b.truth?)
  | .comparison c => comparison c affinity a b
  | .like => like a b
  | .arithmetic op => arithmetic op a b
  | .concatenation => concatenation a b

end Value

/-! ## Summaries -/

/-- A sum that is carried on.  It is a whole number until a double comes in; from then on it is a
double, with the error of its rounding beside it. -/
inductive Sum where
  | whole (n : Int)
  | float (total error : Float) (overflowed : Bool)

namespace Sum

/-- From this magnitude, the 52nd power of two, an integer is added in two parts, which are exact
doubles. -/
def splitFrom : Int := 4503599627370496

/-- The modulus of the smaller part, the 14th power of two. -/
def partSize : Int := 16384

/-- The sum after a double is added; what rounding loses goes into the error. -/
def addFloat (total error : Float) (overflowed : Bool) (x : Float) : Sum :=
  let next := total + x
  let lost := if x.abs < total.abs then (total - next) + x else (x - next) + total
  float next (error + lost) overflowed

/-- The sum after an integer is added to a double. -/
def addWhole (total error : Float) (overflowed : Bool) (n : Int) : Sum :=
  if splitFrom ≤ n.natAbs then
    let small := n.tmod partSize
    match addFloat total error overflowed (Float.ofInt (n - small)) with
    | float total error _ => addFloat total error overflowed (Float.ofInt small)
    | whole n => whole n
  else addFloat total error overflowed (Float.ofInt n)

/-- A whole sum as one of doubles. -/
def startFloat (n : Int) : Float × Float :=
  if splitFrom ≤ n.natAbs then
    (Float.ofInt (n - n.tmod partSize), Float.ofInt (n.tmod partSize))
  else (Float.ofInt n, 0.0)

/-- The sum after a value that is not null. -/
def add (s : Sum) (v : Value) : Sum :=
  match s, v.numberIfText with
  | whole m, .integer n =>
    if isWord (m + n) then whole (m + n)
    else addWhole (startFloat m).1 (startFloat m).2 true n
  | whole m, v => addFloat (startFloat m).1 (startFloat m).2 false v.asFloat
  | float total error overflowed, .integer n => addWhole total error overflowed n
  | float total error _, v => addFloat total error false v.asFloat

/-- The double that a sum comes to. -/
def toFloat : Sum → Float
  | whole n => Float.ofInt n
  | float total error _ => if error.isFinite then total + error else total

/-- The value of a sum, if integers did not overflow. -/
def value? : Sum → Option Value
  | whole n => some (.integer n)
  | float total error overflowed =>
    if overflowed then none else some (.ofFloat (toFloat (float total error overflowed)))

end Sum

/-- The sum of values. -/
def sumOf (values : List Value) : Sum :=
  values.foldl Sum.add (.whole 0)

namespace Summary

/-- The value of a function of the values of a group; nulls do not count. -/
def value? (f : Summary) (values : List Value) : Option Value :=
  let values := values.filter (!·.isNull)
  match f, values with
  | count, values => some (.integer values.length)
  | _, [] => some .null
  | sum, values => (sumOf values).value?
  | average, values => some (.ofFloat ((sumOf values).toFloat / Float.ofNat values.length))
  | least, v :: values =>
    some (values.foldl (fun a b => if Value.compare b a == .lt then b else a) v)
  | greatest, v :: values =>
    some (values.foldl (fun a b => if Value.compare a b == .lt then b else a) v)

end Summary

namespace Calculation

/-- The affinity of a calculation: that of a column if it is one. -/
def affinity? : Calculation → Option Affinity
  | cell _ affinity _ => affinity
  | _ => none

/-- The affinity under which two calculations are compared. -/
def comparisonAffinity (a b : Calculation) : Option Affinity :=
  match a.affinity?, b.affinity? with
  | some a, some b => if a.isNumeric || b.isNumeric then some .numeric else some .blob
  | some a, none => some a
  | none, b => b

/-- Whether a calculation depends on the rows of a group. -/
def summarises : Calculation → Bool
  | constant _ => false
  | cell .. => false
  | unary _ c => c.summarises
  | binary _ a b => a.summarises || b.summarises
  | extreme _ a b => a.summarises || b.summarises
  | countRows => true
  | summary .. => true

/-- The value on a row, with the rows of its group, unless a sum overflows. -/
def value? (group : List Row) (row : Row) : Calculation → Option Value
  | constant v => some v
  | cell place _ _ => some (row.getD place .null)
  | unary op c => do return (← c.value? group row).unary op
  | binary op a b => do
    return Value.binary op (comparisonAffinity a b) (← a.value? group row) (← b.value? group row)
  | extreme greater a b => do
    return Value.extreme greater (← a.value? group row) (← b.value? group row)
  | countRows => some (.integer group.length)
  | summary f c => do f.value? (← group.mapM fun row => c.value? [] row)

/-- The kind of value that a calculation has where no row shows one. -/
def kind : Calculation → Kind
  | constant v => v.kind
  | cell _ _ kind => kind
  | unary _ c => c.kind
  | binary op a b =>
    match op with
    | .arithmetic _ | .concatenation => if b.kind == .null then a.kind else b.kind
    | .like => .null
    | _ => .integer
  | extreme .. => .null
  | countRows => .integer
  | summary f c =>
    match f with
    | .count => .integer
    | .sum => if c.kind == .integer then .integer else .real
    | _ => c.kind

end Calculation

end QuerySteps.Store
