/-!
# Decimal numbers

A decimal number is a whole number times a power of ten.  `Decimal.toFloat?` gives the nearest
double; a number beyond the doubles has none, and one far below them is zero.  The size of the
number is looked at first, so that an exponent of many digits costs nothing.
-/

namespace QuerySteps

/-- The number `digits * 10 ^ exponent`. -/
structure Decimal where
  digits : Nat
  exponent : Int
  deriving DecidableEq

namespace Decimal

/-- The value of a run of decimal digits. -/
def ofDigits (s : List Char) : Nat :=
  s.foldl (fun n c => 10 * n + (c.toNat - '0'.toNat)) 0

/-- The decimal digits of a number, the highest first. -/
def digitsOf (n : Nat) : List Char :=
  Nat.toDigits 10 n

/-- The power of ten just above the number: `10 ^ (size - 1) ≤ d < 10 ^ size` unless `d` is zero. -/
def size (d : Decimal) : Int :=
  (digitsOf d.digits).length + d.exponent

/-- The nearest double, if the number is not beyond all doubles. -/
def toFloat? (d : Decimal) : Option Float :=
  if d.digits = 0 ∨ d.size < -400 then
    some 0.0
  else if 310 < d.size then
    none
  else
    let x := Float.ofScientific d.digits (decide (d.exponent < 0)) d.exponent.natAbs
    if x.isFinite then some x else none

/-- The double that a decimal number is read as is finite. -/
theorem isFinite_of_toFloat? {d : Decimal} {x : Float} (h : d.toFloat? = some x) :
    x.isFinite := by
  unfold toFloat? at h
  split at h
  · cases h
    decide
  · split at h
    · cases h
    · simp only at h
      split at h
      · next hfinite =>
        cases h
        exact hfinite
      · cases h

end Decimal

end QuerySteps
