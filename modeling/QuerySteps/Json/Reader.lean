import QuerySteps.Json.Basic
import QuerySteps.Numeral
import QuerySteps.Text.Class
import QuerySteps.Text.Hex

/-!
# Reading JSON

The grammar is that of RFC 8259 and nothing more: no comments, no trailing commas, no leading zeros,
no control characters in texts.  Escapes of surrogates are joined in pairs.  `Json.parse?` reads a
whole text; it fails only if the text is malformed, and marks with `Json.unreadable` what is well
formed but has no value.

Readers of JSON differ in the doubles that they come to: a quick one may miss the nearest double of
a decimal by a place.  So the rounding is an argument of the readers here, and `Json.parseBy?` takes
any; `Json.parse?` takes the nearest double, and stands for the quick ones only where they find it.
-/

namespace QuerySteps.Json

open Text (skipSpace hex4?)

/-- One element of a quoted text: a character, or a UTF-16 unit of a surrogate pair. -/
inductive Piece where
  | char (c : Char)
  | half (unit : Nat)
  deriving DecidableEq

/-- The first units of surrogate pairs. -/
def isHighHalf (n : Nat) : Bool := 0xd800 ≤ n && n ≤ 0xdbff

/-- The second units of surrogate pairs. -/
def isLowHalf (n : Nat) : Bool := 0xdc00 ≤ n && n ≤ 0xdfff

/-- A UTF-16 unit as an element of a text. -/
def Piece.ofUnit (n : Nat) : Piece :=
  if isHighHalf n || isLowHalf n then .half n else .char (Char.ofNat n)

/-- The character that a one-letter escape stands for. -/
def escaped? (c : Char) : Option Char :=
  match c with
  | '"' => some '"'
  | '\\' => some '\\'
  | '/' => some '/'
  | 'b' => some '\x08'
  | 'f' => some '\x0c'
  | 'n' => some '\n'
  | 'r' => some '\r'
  | 't' => some '\t'
  | _ => none

/-- The elements of a quoted text up to its closing quote, and what follows. -/
def pieces? : List Char → Option (List Piece × List Char)
  | [] => none
  | '"' :: rest => some ([], rest)
  | '\\' :: 'u' :: a :: b :: c :: d :: rest => do
    let unit ← hex4? a b c d
    let (pieces, after) ← pieces? rest
    return (Piece.ofUnit unit :: pieces, after)
  | '\\' :: e :: rest => do
    let c ← escaped? e
    let (pieces, after) ← pieces? rest
    return (.char c :: pieces, after)
  | c :: rest =>
    if c.toNat < 0x20 then none
    else do
      let (pieces, after) ← pieces? rest
      return (.char c :: pieces, after)

/-- The text of the elements: halves must stand in pairs, the high one first. -/
def joined? : List Piece → Option (List Char)
  | [] => some []
  | .char c :: rest => (joined? rest).map (c :: ·)
  | .half high :: .half low :: rest =>
    if isHighHalf high && isLowHalf low then
      (joined? rest).map (Char.ofNat (0x10000 + (high - 0xd800) * 0x400 + (low - 0xdc00)) :: ·)
    else none
  | .half _ :: _ => none

/-- A text after its opening quote; the inner option is empty if half of a pair stands alone. -/
def quoted? (s : List Char) : Option (Option String × List Char) := do
  let (pieces, rest) ← pieces? s
  return ((joined? pieces).map String.ofList, rest)

/-- Whether a numeral is one of JSON: digits before the point, no needless zero, digits after. -/
def wellFormed (n : Numeral) : Bool :=
  !n.whole.isEmpty && (n.whole.head? != some '0' || n.whole.length == 1) && n.fraction != some []

section

variable (rounding : Numeral.Rounding)

/-- The value of a number; minus zero is a double. -/
def numberValue (minus : Bool) (n : Numeral) : Json :=
  if minus && n.isWhole && Decimal.ofDigits n.whole == 0 then scalar (.float (-0.0))
  else match n.valueBy? rounding minus with
    | some v => scalar v
    | none => unreadable

/-- A letter of an exponent that no numeral took in means that the number is malformed. -/
def startsExponent : List Char → Bool
  | c :: _ => c == 'e' || c == 'E'
  | [] => false

/-- A number, after its sign. -/
def number? (minus : Bool) (s : List Char) : Option (Json × List Char) :=
  match Numeral.take? s with
  | none => none
  | some (n, rest) =>
    if wellFormed n && !startsExponent rest then
      some (numberValue rounding minus n, rest)
    else
      none

/-- Brackets at the given nesting; too deep ones have no value. -/
def nested (depth : Nat) (v : Json) : Json :=
  if depth < deepest then v else unreadable

/-- The object with the given members, if all its keys can be read. -/
def ofMembers (members : List (Option String × Json)) : Json :=
  if members.all (·.1.isSome) then
    object (members.map fun member => (member.1.getD "", member.2))
  else
    unreadable

mutual

/-- The value at the front of a text, inside `depth` brackets. -/
def readValue? : Nat → Nat → List Char → Option (Json × List Char)
  | 0, _, _ => none
  | fuel + 1, depth, s =>
    match skipSpace s with
    | 'n' :: 'u' :: 'l' :: 'l' :: rest => some (scalar .null, rest)
    | 't' :: 'r' :: 'u' :: 'e' :: rest => some (scalar (.bool true), rest)
    | 'f' :: 'a' :: 'l' :: 's' :: 'e' :: rest => some (scalar (.bool false), rest)
    | '"' :: rest => do
      let (s, after) ← quoted? rest
      return (match s with | some s => text s | none => unreadable, after)
    | '[' :: rest =>
      match skipSpace rest with
      | ']' :: after => some (nested depth (array []), after)
      | rest => do
        let (items, after) ← readItems? fuel (depth + 1) rest
        return (nested depth (array items), after)
    | '\x7b' :: rest =>
      match skipSpace rest with
      | '\x7d' :: after => some (nested depth (object []), after)
      | rest => do
        let (members, after) ← readMembers? fuel (depth + 1) rest
        return (nested depth (ofMembers members), after)
    | '-' :: rest => number? rounding true rest
    | rest => number? rounding false rest

/-- The items up to the closing bracket. -/
def readItems? : Nat → Nat → List Char → Option (List Json × List Char)
  | 0, _, _ => none
  | fuel + 1, depth, s => do
    let (item, rest) ← readValue? fuel depth s
    match skipSpace rest with
    | ',' :: rest => do
      let (items, after) ← readItems? fuel depth rest
      return (item :: items, after)
    | ']' :: after => some ([item], after)
    | _ => none

/-- The members up to the closing brace. -/
def readMembers? : Nat → Nat → List Char → Option (List (Option String × Json) × List Char)
  | 0, _, _ => none
  | fuel + 1, depth, s =>
    match skipSpace s with
    | '"' :: rest => do
      let (key, rest) ← quoted? rest
      match skipSpace rest with
      | ':' :: rest => do
        let (value, rest) ← readValue? fuel depth rest
        match skipSpace rest with
        | ',' :: rest => do
          let (members, after) ← readMembers? fuel depth rest
          return ((key, value) :: members, after)
        | '\x7d' :: after => some ([(key, value)], after)
        | _ => none
      | _ => none
    | _ => none

end

/-- The value that a whole text writes, where a rounding gives the doubles. -/
def parseBy? (s : String) : Option Json := do
  let input := s.toList
  let (value, rest) ← readValue? rounding (2 * input.length + 1) 0 input
  if (skipSpace rest).isEmpty then some value else none

end

/-- The value that a whole text writes. -/
def parse? (s : String) : Option Json :=
  parseBy? .nearest s

/-- The value that a whole text writes, if every part of it can be read. -/
def parseReadable? (s : String) : Option Json := do
  let value ← parse? s
  if value.readable then some value else none

end QuerySteps.Json
