import QuerySteps.Scalar

/-!
# Numerals

A numeral is a number as it is written: a run of digits, perhaps a fraction, perhaps an exponent.
`Numeral.take?` splits it off a text; formulas and JSON then ask for more (a formula allows a bare
point on either side of which digits stand, JSON forbids it and forbids leading zeros).
`Numeral.value?` is its meaning: a whole number in range is an integer, any other number is the
nearest double, and a number beyond all doubles has no meaning.

Not every reader of numbers takes the trouble to find the nearest double.  A `Numeral.Rounding` is
what a reader does instead, of which no more is known than that it comes to finite doubles;
`Numeral.valueBy?` is the meaning of a numeral to such a reader.
-/

namespace QuerySteps

/-- A number as it is written, without its sign. -/
structure Numeral where
  whole : List Char
  /-- The digits after the point, if there is a point. -/
  fraction : Option (List Char)
  /-- The digits of the exponent and whether a minus stands before them. -/
  exponent : Option (Bool × List Char)
  deriving DecidableEq

namespace Numeral

/-- The digits at the front of a text, and what follows them. -/
def takeDigits (s : List Char) : List Char × List Char :=
  (s.takeWhile Char.isDigit, s.dropWhile Char.isDigit)

/-- The sign at the front of a text, whether it is a minus, and what follows; it may be missing. -/
def takeSign : List Char → Bool × List Char
  | '-' :: s => (true, s)
  | '+' :: s => (false, s)
  | s => (false, s)

/-- The fraction at the front of a text: a point and any number of digits. -/
def takeFraction : List Char → Option (List Char) × List Char
  | '.' :: s => (some (takeDigits s).1, (takeDigits s).2)
  | s => (none, s)

/-- The digits of an exponent after its letter and sign; without digits it is no exponent. -/
def exponentDigits (minus : Bool) (s : List Char) : Option ((Bool × List Char) × List Char) :=
  if (takeDigits s).1.isEmpty then none else some ((minus, (takeDigits s).1), (takeDigits s).2)

/-- The exponent after its letter: an optional sign and digits. -/
def signedExponent (s : List Char) : Option ((Bool × List Char) × List Char) :=
  exponentDigits (takeSign s).1 (takeSign s).2

/-- The exponent at the front of a text, if a whole one stands there. -/
def takeExponent : List Char → Option (Bool × List Char) × List Char
  | c :: s =>
    if c = 'e' ∨ c = 'E' then
      match signedExponent s with
      | some (e, rest) => (some e, rest)
      | none => (none, c :: s)
    else
      (none, c :: s)
  | [] => (none, [])

/-- The numeral at the front of a text: digits on at least one side of the point, and an exponent
if one follows. -/
def take? (s : List Char) : Option (Numeral × List Char) :=
  let (whole, afterWhole) := takeDigits s
  let (fraction, afterFraction) := takeFraction afterWhole
  if whole.isEmpty ∧ (fraction.getD []).isEmpty then
    none
  else
    let (exponent, rest) := takeExponent afterFraction
    some (⟨whole, fraction, exponent⟩, rest)

/-- A numeral with neither point nor exponent. -/
def isWhole (n : Numeral) : Bool :=
  n.fraction.isNone && n.exponent.isNone

/-- The power of ten that the exponent stands for. -/
def power (n : Numeral) : Int :=
  match n.exponent with
  | none => 0
  | some (minus, ds) => if minus then -(Decimal.ofDigits ds : Int) else Decimal.ofDigits ds

/-- The number that is written. -/
def decimal (n : Numeral) : Decimal :=
  let fraction := n.fraction.getD []
  ⟨Decimal.ofDigits (n.whole ++ fraction), n.power - fraction.length⟩

/-- A way to come from numerals to doubles. -/
structure Rounding where
  double? : Numeral → Option Float
  isFinite : ∀ {n : Numeral} {x : Float}, double? n = some x → x.isFinite

/-- To the nearest double. -/
def Rounding.nearest : Rounding := ⟨fun n => n.decimal.toFloat?, Decimal.isFinite_of_toFloat?⟩

/-- The meaning of a numeral, with a minus before it or not, where a rounding gives the doubles. -/
def valueBy? (rounding : Rounding) (minus : Bool) (n : Numeral) : Option Scalar :=
  let whole : Int := Decimal.ofDigits n.whole
  let signed := if minus then -whole else whole
  if n.isWhole ∧ Scalar.inRange signed then
    some (.integer signed)
  else
    (rounding.double? n).map fun x => .float (if minus then -x else x)

/-- The meaning of a numeral, with a minus before it or not. -/
def value? (minus : Bool) (n : Numeral) : Option Scalar :=
  n.valueBy? .nearest minus

/-- The words for infinity. -/
def infinityWords : List String := ["inf", "infinity"]

/-- The double that a whole text without a sign writes, as a number or as a word in any case. -/
def unsignedFloat? (s : List Char) : Option Float :=
  let word := String.ofList (s.map Char.toLower)
  if infinityWords.contains word then some (1.0 / 0.0)
  else if word = "nan" then some (0.0 / 0.0)
  else match take? s with
    | some (n, []) => some (n.decimal.toFloat?.getD (1.0 / 0.0))
    | _ => none

/-- The double that a whole text writes, with an optional sign. -/
def float? (s : List Char) : Option Float :=
  (unsignedFloat? (takeSign s).2).map fun x => if (takeSign s).1 then -x else x

end Numeral

end QuerySteps
