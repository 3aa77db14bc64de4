import QuerySteps.Numeral
import QuerySteps.Json.Basic
import QuerySteps.Text.Hex
import QuerySteps.Calendar.Instant

/-!
# Numbers, dates and times in TOML

Whole numbers are written in base ten with an optional sign, or in base 16, 8 or 2 without; they
must be signed integers of 64 bits.  Single underscores may stand between digits.  A number with a
fraction or an exponent, an infinity or "not a number" is a double; the digits may not give more
than the greatest double.

Dates and times are read and checked, but no field takes them.
-/

namespace QuerySteps.Toml

open Calendar (Date Time exactDigits)

/-- Digits at the front, single underscores between them dropped. -/
def moreDigits (isDigit : Char → Bool) : List Char → List Char × List Char
  | '_' :: c :: rest =>
    if isDigit c then (c :: (moreDigits isDigit rest).1, (moreDigits isDigit rest).2)
    else ([], '_' :: c :: rest)
  | c :: rest =>
    if isDigit c then (c :: (moreDigits isDigit rest).1, (moreDigits isDigit rest).2)
    else ([], c :: rest)
  | [] => ([], [])

/-- A run of digits, which does not begin with an underscore. -/
def digits? (isDigit : Char → Bool) (s : List Char) : Option (List Char × List Char) :=
  match s with
  | c :: _ => if isDigit c then some (moreDigits isDigit s) else none
  | [] => none

/-- A run of decimal digits without needless zeros. -/
def wholeDigits? (s : List Char) : Option (List Char × List Char) :=
  match s with
  | '0' :: rest => some (['0'], rest)
  | s => digits? Char.isDigit s

/-- A number as a signed integer of 64 bits. -/
def integerOf? (n : Int) : Option Json :=
  if Scalar.leastInteger ≤ n ∧ n ≤ Scalar.greatestSigned then some (.scalar (.integer n)) else none

/-- The digits of a base, by the characters that write them. -/
def isDigitOf (base : Nat) (c : Char) : Bool :=
  match Text.hexDigit? c with
  | some n => n < base
  | none => false

/-- The value of digits of a base. -/
def valueOf (base : Nat) (digits : List Char) : Nat :=
  digits.foldl (fun n c => base * n + (Text.hexDigit? c).getD 0) 0

/-- A whole number of a base after its mark. -/
def based? (base : Nat) (s : List Char) : Option (Json × List Char) := do
  let (digits, rest) ← digits? (isDigitOf base) s
  return (← integerOf? (valueOf base digits), rest)

/-- The exponent at the front, if there is one. -/
def exponent? : List Char → Option (Option (Bool × List Char) × List Char)
  | c :: s =>
    if c = 'e' ∨ c = 'E' then do
      let (minus, s) := Numeral.takeSign s
      let (digits, rest) ← digits? Char.isDigit s
      return (some (minus, digits), rest)
    else some (none, c :: s)
  | [] => some (none, [])

/-- A numeral in base ten at the front. -/
def numeral? (s : List Char) : Option (Numeral × List Char) := do
  let (whole, rest) ← wholeDigits? s
  match rest with
  | '.' :: rest =>
    let (fraction, rest) ← digits? Char.isDigit rest
    let (exponent, rest) ← exponent? rest
    return (⟨whole, some fraction, exponent⟩, rest)
  | rest =>
    let (exponent, rest) ← exponent? rest
    return (⟨whole, none, exponent⟩, rest)

/-- The meaning of a numeral.  One too great for a double is minus infinity after a minus, and
otherwise has no meaning. -/
def numeralValue? (minus : Bool) (n : Numeral) : Option Json :=
  if n.isWhole then
    integerOf? (if minus then -(Decimal.ofDigits n.whole : Int) else Decimal.ofDigits n.whole)
  else
    match n.decimal.toFloat? with
    | some x => some (.scalar (.float (if minus then -x else x)))
    | none => if minus then some (.scalar (.float (-1.0 / 0.0))) else none

/-- A number at the front. -/
def number? (s : List Char) : Option (Json × List Char) :=
  match s with
  | '0' :: 'x' :: rest => based? 16 rest
  | '0' :: 'o' :: rest => based? 8 rest
  | '0' :: 'b' :: rest => based? 2 rest
  | s =>
    let (minus, rest) := Numeral.takeSign s
    match rest with
    | 'i' :: 'n' :: 'f' :: rest =>
      some (.scalar (.float (if minus then -1.0 / 0.0 else 1.0 / 0.0)), rest)
    | 'n' :: 'a' :: 'n' :: rest => some (.scalar (.float (0.0 / 0.0)), rest)
    | rest => do
      let (n, rest) ← numeral? rest
      return (← numeralValue? minus n, rest)

/-- What follows a date at the front. -/
def date? (s : List Char) : Option (List Char) := do
  let (year, s) ← exactDigits 4 s
  let s ← Calendar.literal '-' s
  let (month, s) ← exactDigits 2 s
  let s ← Calendar.literal '-' s
  let (day, s) ← exactDigits 2 s
  if (Date.mk year month day).isValid then some s else none

/-- What follows the fraction of a second at the front, which may be absent. -/
def secondFraction : List Char → List Char
  | '.' :: c :: s => if c.isDigit then s.dropWhile Char.isDigit else '.' :: c :: s
  | s => s

/-- What follows a time of day at the front. -/
def time? (s : List Char) : Option (List Char) := do
  let (hour, s) ← exactDigits 2 s
  let s ← Calendar.literal ':' s
  let (minute, s) ← exactDigits 2 s
  let s ← Calendar.literal ':' s
  let (second, s) ← exactDigits 2 s
  if (Time.mk hour minute second 0).isValid then some (secondFraction s) else none

/-- What follows an offset from universal time at the front. -/
def offset? : List Char → Option (List Char)
  | [] => none
  | sign :: s =>
    if sign = 'Z' ∨ sign = 'z' then some s
    else if sign = '+' ∨ sign = '-' then do
      let (hour, s) ← exactDigits 2 s
      let s ← Calendar.literal ':' s
      let (minute, s) ← exactDigits 2 s
      if (Time.mk hour minute 0 0).isValid then some s else none
    else none

/-- What follows a time of day with its mark, and perhaps an offset, after a date. -/
def timeAfterDate? : List Char → Option (List Char)
  | [] => none
  | mark :: s =>
    if mark = 'T' ∨ mark = 't' ∨ mark = ' ' then
      (time? s).map fun rest => (offset? rest).getD rest
    else none

/-- What follows a date, a time of day, or both at the front. -/
def moment? (s : List Char) : Option (List Char) :=
  match date? s with
  | some rest => some ((timeAfterDate? rest).getD rest)
  | none => time? s

/-- A date or time as a value: a record with a key that no reader asks for. -/
def momentValue : Json :=
  .object [("", .scalar .null)]

end QuerySteps.Toml
