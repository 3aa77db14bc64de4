import QuerySteps.Decimal.Shortest

/-!
# Written forms of doubles

A double is written with its shortest digits, either in plain positional notation or with an
exponent.  What differs between SQL text and JSON text is collected in a `Layout`: where positional
notation begins, whether a positive exponent has a sign, and what stands for infinities and for
"not a number".
-/

namespace QuerySteps.Decimal

/-- How doubles are written. -/
structure Layout where
  /-- The least exponent of the leading digit that is written positionally. -/
  leastPlain : Int
  /-- Whether a positive exponent is written with a plus sign. -/
  plusSign : Bool
  infinity : String
  minusInfinity : String
  notANumber : String

/-- Doubles in SQL: positional from 0.0001 on, `1e16`, `inf`, `NaN`. -/
def sqlLayout : Layout := ⟨-4, false, "inf", "-inf", "NaN"⟩

/-- Doubles in JSON: positional from 0.00001 on, `1e+16`; other values are null. -/
def jsonLayout : Layout := ⟨-5, true, "null", "null", "null"⟩

/-- The exponent of the leading digit from which on no double is written positionally. -/
def firstLarge : Int := 16

/-- A run of zeros. -/
def zeros (n : Nat) : List Char := List.replicate n '0'

/-- Positional notation with at least one digit on each side of the point. -/
def plainText (digits : List Char) (exponent : Int) : List Char :=
  let whole := (digits.length : Int) + exponent
  if 0 ≤ exponent then
    digits ++ zeros exponent.toNat ++ ['.', '0']
  else if 0 < whole then
    digits.take whole.toNat ++ '.' :: digits.drop whole.toNat
  else
    '0' :: '.' :: zeros (-whole).toNat ++ digits

/-- Notation with an exponent; one digit stands before the point, which is left out if no digit
follows it. -/
def exponentText (plusSign : Bool) (digits : List Char) (leading : Int) : List Char :=
  let fraction := digits.drop 1
  let sign := if leading < 0 then ['-'] else if plusSign then ['+'] else []
  digits.take 1 ++ (if fraction.isEmpty then [] else '.' :: fraction) ++
    'e' :: sign ++ digitsOf leading.natAbs

/-- A decimal number in the given layout. -/
def write (layout : Layout) (d : Decimal) : List Char :=
  let digits := digitsOf d.digits
  let leading := (digits.length : Int) + d.exponent - 1
  if d.digits = 0 then ['0', '.', '0']
  else if layout.leastPlain ≤ leading ∧ leading < firstLarge then plainText digits d.exponent
  else exponentText layout.plusSign digits leading

/-- Whether the sign bit, the highest of 64, of a double is set; also minus zero has it. -/
def signBit (x : Float) : Bool :=
  decide (9223372036854775808 ≤ x.toBits.toNat)

/-- A double in the given layout. -/
def writeFloat (layout : Layout) (x : Float) : String :=
  if x.isNaN then layout.notANumber
  else if x.isInf then (if signBit x then layout.minusInfinity else layout.infinity)
  else
    let size := if x == 0.0 then ⟨0, 0⟩ else shortest x.abs
    String.ofList ((if signBit x then ['-'] else []) ++ write layout size)

end QuerySteps.Decimal
