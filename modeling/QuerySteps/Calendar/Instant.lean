import QuerySteps.Calendar.Date
import QuerySteps.Decimal.Basic
import QuerySteps.Text.Class

/-!
# Instants

A point in time is read from a text, in one of these forms and in this order:

* RFC 3339, a date and a time with an offset from universal time, every field with its full width;
* a date and a time of day without offset, with a blank or a `T` between them;
* a date and a time of day without seconds;
* a date alone, which stands for its midnight.

Only the first form is strict; in the others a number may be shorter than its field and have blanks
before it.  A second 60 is taken as the second after 59.  Times are cut to microseconds, and
`epochSeconds?` is the number of seconds since the beginning of 1970.
-/

namespace QuerySteps.Calendar

open Text (trim trimStart)

/-- A time of day; the fraction of the second is in nanoseconds. -/
structure Time where
  hour : Nat
  minute : Nat
  second : Nat
  nanosecond : Nat
  deriving DecidableEq, Inhabited

/-- Whether a day has the time; second 60 is allowed. -/
def Time.isValid (t : Time) : Bool :=
  t.hour < 24 && t.minute < 60 && t.second ≤ 60

/-- Microseconds since the beginning of 1970 at a date and time, with seconds of offset from
universal time. -/
def microseconds (d : Date) (t : Time) (offset : Int) : Int :=
  let seconds := 86400 * d.dayNumber + (3600 * t.hour + 60 * t.minute + t.second : Nat) - offset
  1000000 * seconds + (t.nanosecond / 1000 : Nat)

/-- What follows a character in a text that starts with it. -/
def literal (c : Char) : List Char → Option (List Char)
  | [] => none
  | d :: s => if d == c then some s else none

/-- A number of exactly `n` digits. -/
def exactDigits (n : Nat) (s : List Char) : Option (Nat × List Char) :=
  let digits := s.take n
  if digits.length = n ∧ digits.all Char.isDigit then some (Decimal.ofDigits digits, s.drop n)
  else none

/-- A number of one to `n` digits. -/
def someDigits (n : Nat) (s : List Char) : Option (Nat × List Char) :=
  let digits := (s.take n).takeWhile Char.isDigit
  if digits.isEmpty then none else some (Decimal.ofDigits digits, s.drop digits.length)

/-- The nanoseconds that the digits after a point write; digits after the ninth are dropped. -/
def nanoseconds (digits : List Char) : Nat :=
  let kept := digits.take 9
  Decimal.ofDigits kept * Nat.pow 10 (9 - kept.length)

/-- The fraction of a second: nothing, or a point and at least one digit. -/
def fraction : List Char → Option (Nat × List Char)
  | '.' :: s =>
    let digits := s.takeWhile Char.isDigit
    if digits.isEmpty then none else some (nanoseconds digits, s.drop digits.length)
  | s => some (0, s)

/-- The offset of RFC 3339 in seconds: `Z`, or a sign, hours and minutes. -/
def offset : List Char → Option (Int × List Char)
  | 'Z' :: s => some (0, s)
  | 'z' :: s => some (0, s)
  | sign :: s => do
    if !(sign == '+' || sign == '-' || sign == '\u2212') then failure
    let (hours, s) ← exactDigits 2 s
    let s ← literal ':' s
    let (minutes, s) ← exactDigits 2 s
    if !(hours < 24 && minutes < 60) then failure
    let seconds : Int := (3600 * hours + 60 * minutes : Nat)
    return (if sign == '+' then seconds else -seconds, s)
  | [] => none

/-- The character between date and time in RFC 3339. -/
def separator : List Char → Option (List Char)
  | c :: s => if c == 'T' || c == 't' || c == ' ' then some s else none
  | [] => none

/-- A whole text of RFC 3339, as microseconds since the beginning of 1970. -/
def strict? (s : List Char) : Option Int := do
  let (year, s) ← exactDigits 4 s
  let s ← literal '-' s
  let (month, s) ← exactDigits 2 s
  let s ← literal '-' s
  let (day, s) ← exactDigits 2 s
  let s ← separator s
  let (hour, s) ← exactDigits 2 s
  let s ← literal ':' s
  let (minute, s) ← exactDigits 2 s
  let s ← literal ':' s
  let (second, s) ← exactDigits 2 s
  let (nanosecond, s) ← fraction s
  let (offset, s) ← offset s
  let date : Date := ⟨year, month, day⟩
  let time : Time := ⟨hour, minute, second, nanosecond⟩
  if s.isEmpty && date.isValid && time.isValid then some (microseconds date time offset) else none

/-- A year: one to four digits, or any number of digits after a sign. -/
def year (s : List Char) : Option (Int × List Char) :=
  match trimStart s with
  | '+' :: s => (someDigits s.length s).map fun (n, rest) => ((n : Int), rest)
  | '-' :: s => (someDigits s.length s).map fun (n, rest) => (-(n : Int), rest)
  | s => (someDigits 4 s).map fun (n, rest) => ((n : Int), rest)

/-- A number of one or two digits, after any blanks. -/
def pair (s : List Char) : Option (Nat × List Char) := someDigits 2 (trimStart s)

/-- A date, each of whose numbers may be short. -/
def date (s : List Char) : Option (Date × List Char) := do
  let (year, s) ← year s
  let s ← literal '-' s
  let (month, s) ← pair s
  let s ← literal '-' s
  let (day, s) ← pair s
  return (⟨year, month, day⟩, s)

/-- Hours and minutes. -/
def clock (s : List Char) : Option ((Nat × Nat) × List Char) := do
  let (hour, s) ← pair s
  let s ← literal ':' s
  let (minute, s) ← pair s
  return ((hour, minute), s)

/-- A time of day to the second and below. -/
def fullTime (s : List Char) : Option (Time × List Char) := do
  let ((hour, minute), s) ← clock s
  let s ← literal ':' s
  let (second, s) ← pair s
  let (nanosecond, s) ← fraction s
  return (⟨hour, minute, second, nanosecond⟩, s)

/-- A time of day to the minute. -/
def shortTime (s : List Char) : Option (Time × List Char) := do
  let ((hour, minute), s) ← clock s
  return (⟨hour, minute, 0, 0⟩, s)

/-- Date and time without offset, as microseconds since the beginning of 1970. -/
def local? (between : List Char → Option (List Char)) (time : List Char → Option (Time × List Char))
    (s : List Char) : Option Int := do
  let (date, s) ← date s
  let s ← between s
  let (time, s) ← time s
  if s.isEmpty && date.isValid && time.isValid then some (microseconds date time 0) else none

/-- A date alone, as the number of its day. -/
def dateOnly? (s : List Char) : Option Int := do
  let (date, s) ← date s
  if s.isEmpty && date.isValid then some date.dayNumber else none

/-- Microseconds as seconds. -/
def secondsOfMicroseconds (n : Int) : Float := Float.ofInt n / 1000000.0

/-- The seconds since the beginning of 1970 that a text stands for. -/
def epochSeconds? (text : String) : Option Float :=
  let s := trim text.toList
  let blanks (s : List Char) : Option (List Char) := some (trimStart s)
  let instant := strict? s <|> local? blanks fullTime s <|> local? (literal 'T') fullTime s <|>
    local? blanks shortTime s
  match instant with
  | some n => some (secondsOfMicroseconds n)
  | none => (dateOnly? s).map fun n => Float.ofInt (86400 * n)

end QuerySteps.Calendar
