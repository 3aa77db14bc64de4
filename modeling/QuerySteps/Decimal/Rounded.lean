import QuerySteps.Decimal.Layout

/-!
# Doubles with a fixed number of digits

Where a double becomes part of a text value it keeps fifteen significant digits, not its shortest
ones.  Trailing zeros are left out, one digit stays after the point, and numbers with a leading
digit below `10 ^ -4` or above `10 ^ 14` are written with an exponent of at least two digits.
-/

namespace QuerySteps.Decimal

/-- How many digits are kept. -/
def keptDigits : Nat := 15

/-- The multiple of `10 ^ power` nearest to a positive double, halves going up. -/
def roundedAt (x : Float) (power : Int) : Nat :=
  let i := Interval.ofFloat x
  (2 * (i.value * i.scale power) + i.grid power) / (2 * i.grid power)

/-- A positive double with `keptDigits` digits. -/
def rounded (x : Float) : Decimal :=
  let power := (shortest x).size - keptDigits
  let n := roundedAt x power
  if n < Nat.pow 10 (keptDigits - 1) then ⟨roundedAt x (power - 1), power - 1⟩ else ⟨n, power⟩

/-- Digits without the zeros at their end. -/
def trimZeros (digits : List Char) : List Char :=
  (digits.reverse.dropWhile (· == '0')).reverse

/-- A number of at least two digits. -/
def twoDigits (n : Nat) : List Char :=
  if n < 10 then '0' :: digitsOf n else digitsOf n

/-- A decimal number with its trailing zeros left out. -/
def writeTrimmed (d : Decimal) : List Char :=
  let digits := trimZeros (digitsOf d.digits)
  let leading := d.size - 1
  if -4 ≤ leading ∧ leading < keptDigits then
    plainText digits (leading + 1 - digits.length)
  else
    let fraction := if digits.length ≤ 1 then ['0'] else digits.drop 1
    digits.take 1 ++ '.' :: fraction ++
      'e' :: (if leading < 0 then '-' else '+') :: twoDigits leading.natAbs

/-- A double as part of a text value. -/
def writeRounded (x : Float) : String :=
  if x.isNaN then "NaN"
  else if x.isInf then (if signBit x then "-Inf" else "Inf")
  else if x == 0.0 then "0.0"
  else String.ofList ((if signBit x then ['-'] else []) ++ writeTrimmed (rounded x.abs))

end QuerySteps.Decimal
