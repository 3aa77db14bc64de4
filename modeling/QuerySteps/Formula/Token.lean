import QuerySteps.Formula.Operators
import QuerySteps.Numeral

/-!
# Tokens of formulas

The parts of a formula that have no formulas inside: quoted texts, numbers and names.  Each reader
answers `none` if no such token stands at the front of the text, the token and what follows it, or a
failure at the place where the token goes wrong.

A text is a run of quoted pieces, which are joined; each is closed by the quote that opened it.  A
number must not run into a name.
-/

namespace QuerySteps.Formula

open Text (isLetter isLetterOrNumber skipSpace)

/-- Why a text is not a formula. -/
inductive Cause where
  /-- Where an expression should stand there is the given text, or the end. -/
  | expressionExpected (found : String)
  | closingExpected
  | argumentEndExpected
  | unterminatedText
  | invalidNumber
  | operatorUnexpected (name : String)
  | operatorExpected (found : String)
  deriving DecidableEq

/-- The explanation shown to users. -/
def Cause.message : Cause → String
  | expressionExpected found =>
    if found.isEmpty then "expression expected" else s!"expression expected at '{found}'"
  | closingExpected => "')' expected"
  | argumentEndExpected => "',' or ')' expected"
  | unterminatedText => "unterminated string"
  | invalidNumber => "invalid number"
  | operatorUnexpected name => s!"operator '{name}' unexpected"
  | operatorExpected found => s!"operator expected before '{found}'"

/-- A failure, with the part of the text that begins where it was noticed. -/
structure Failure where
  rest : List Char
  cause : Cause
  deriving DecidableEq

/-- The two quotes. -/
def isQuote (c : Char) : Bool := c == '\'' || c == '"'

/-- One quoted piece. -/
def piece? : List Char → Except Failure (Option (List Char × List Char))
  | [] => .ok none
  | quote :: s =>
    if isQuote quote then
      match s.dropWhile (· != quote) with
      | [] => .error ⟨quote :: s, .unterminatedText⟩
      | _ :: rest => .ok (some (s.takeWhile (· != quote), rest))
    else
      .ok none

/-- The pieces that go on a text, at most `fuel` of them. -/
def morePieces : Nat → List Char → List Char → Except Failure (List Char × List Char)
  | 0, read, s => .ok (read, s)
  | fuel + 1, read, s =>
    match piece? (skipSpace s) with
    | .error e => .error e
    | .ok none => .ok (read, s)
    | .ok (some (more, rest)) => morePieces fuel (read ++ more) rest

/-- A text: quoted pieces that follow each other. -/
def text? (s : List Char) : Except Failure (Option (String × List Char)) :=
  match piece? s with
  | .error e => .error e
  | .ok none => .ok none
  | .ok (some (first, rest)) =>
    match morePieces rest.length first rest with
    | .error e => .error e
    | .ok (read, rest) => .ok (some (String.ofList read, rest))

/-- Whether a number would run into a name. -/
def runsIntoName : List Char → Bool
  | [] => false
  | c :: _ => isLetterOrNumber c || c == '_'

/-- A number without a sign. -/
def number? (s : List Char) : Except Failure (Option (Scalar × List Char)) :=
  match Numeral.take? s with
  | none => .ok none
  | some (n, rest) =>
    if runsIntoName rest then .error ⟨s, .invalidNumber⟩
    else match n.value? false with
      | none => .error ⟨s, .invalidNumber⟩
      | some v => .ok (some (v, rest))

/-- A name: a letter or underscore, then letters, numbers, underscores and points. -/
def name? : List Char → Option (String × List Char)
  | [] => none
  | c :: s =>
    if isLetter c || c == '_' then
      some (String.ofList (c :: s.takeWhile isNameChar), s.dropWhile isNameChar)
    else
      none

end QuerySteps.Formula
