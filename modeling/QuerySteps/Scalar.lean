import QuerySteps.Decimal.Layout

/-!
# Scalars

A scalar is a value without parts: what a literal of an expression, a leaf of a JSON text and a cell
of a result hold.  Integers and doubles are different scalars.  The integers that are read lie
between `-2 ^ 63` and `2 ^ 64 - 1`; numbers outside are doubles.
-/

namespace QuerySteps

/-- A value without parts. -/
inductive Scalar where
  | null
  | bool (b : Bool)
  | integer (n : Int)
  | float (x : Float)
  | text (s : String)
  deriving BEq, DecidableEq, Inhabited

namespace Scalar

/-- The least integer that is kept exactly. -/
def leastInteger : Int := -9223372036854775808

/-- The greatest signed integer of 64 bits; integers above it are unsigned. -/
def greatestSigned : Int := 9223372036854775807

/-- The greatest integer that is kept exactly. -/
def greatestInteger : Int := 18446744073709551615

/-- Whether an integer is kept exactly when it is read. -/
def inRange (n : Int) : Bool :=
  leastInteger ≤ n && n ≤ greatestInteger

/-- Numbers, of either kind. -/
def isNumeric : Scalar → Bool
  | integer _ => true
  | float _ => true
  | _ => false

/-- The negative of a number; an integer whose negative is out of range becomes a double.  Other
scalars stay as they are.

Integers up to `greatestSigned` are negated in signed arithmetic of 64 bits, where the negation of
the least one overflows.  A build that checks for overflow stops there; in one that does not the
integer wraps round to itself, and this is the value given here. -/
def negated : Scalar → Scalar
  | integer n =>
    if n = leastInteger then integer n
    else if leastInteger ≤ -n then integer (-n)
    else float (-Float.ofInt n)
  | float x => float (-x)
  | v => v

/-- The scalar as an SQL literal.  A text is put between single quotes as it is. -/
def sql : Scalar → String
  | null => "NULL"
  | bool true => "TRUE"
  | bool false => "FALSE"
  | integer n => toString n
  | float x => Decimal.writeFloat Decimal.sqlLayout x
  | text s => "'" ++ s ++ "'"

end Scalar

end QuerySteps
