import QuerySteps.Numeral
import QuerySteps.Text.Hex

/-!
# Tokens of SQL

SQL text is a sequence of words, quoted names, quoted texts, bytes, numbers and marks.  Inside
quotes the quote itself is written twice.  A token keeps the text it was read from, so that a column
can be named by the text of its expression.
-/

namespace QuerySteps.Store

/-- One token. -/
inductive Token where
  /-- A bare word: a keyword or a name. -/
  | word (s : String)
  /-- A quoted name. -/
  | name (s : String)
  | text (s : String)
  | blob (bytes : List UInt8)
  | number (n : Numeral)
  /-- A punctuation mark or an operator. -/
  | mark (s : String)
  deriving DecidableEq

/-- A token with its text and the blanks before it. -/
structure Lexeme where
  blanks : List Char
  written : List Char
  token : Token

/-- White space between tokens. -/
def isGap (c : Char) : Bool :=
  c == ' ' || c == '\t' || c == '\n' || c == '\x0c' || c == '\r'

/-- The first characters of words. -/
def startsWord (c : Char) : Bool :=
  c.isAlpha || c == '_' || 0x80 ≤ c.toNat

/-- The further characters of words. -/
def continuesWord (c : Char) : Bool :=
  startsWord c || c.isDigit || c == '$'

/-- The text up to the closing quote, where two quotes stand for one, and what follows. -/
def quoted? (quote : Char) : List Char → Option (List Char × List Char)
  | [] => none
  | [c] => if c = quote then some ([], []) else none
  | c :: d :: rest =>
    if c = quote then
      if d = quote then (quoted? quote rest).map fun read => (quote :: read.1, read.2)
      else some ([], d :: rest)
    else (quoted? quote (d :: rest)).map fun read => (c :: read.1, read.2)

/-- The bytes that pairs of hexadecimal digits write. -/
def bytesOf? : List Char → Option (List UInt8)
  | [] => some []
  | [_] => none
  | a :: b :: rest => do
    let high ← Text.hexDigit? a
    let low ← Text.hexDigit? b
    return UInt8.ofNat (16 * high + low) :: (← bytesOf? rest)

/-- The marks of two characters. -/
def longMarks : List (Char × Char) :=
  [('|', '|'), ('<', '='), ('>', '='), ('<', '>'), ('!', '='), ('=', '=')]

/-- The marks of one character. -/
def shortMarks : List Char :=
  ['(', ')', ',', '.', ';', '*', '+', '-', '/', '%', '<', '>', '=', '~']

/-- A mark at the front. -/
def mark? : List Char → Option (Token × List Char)
  | c :: d :: rest =>
    if longMarks.contains (c, d) then some (.mark (String.ofList [c, d]), rest)
    else if shortMarks.contains c then some (.mark (String.ofList [c]), d :: rest)
    else none
  | [c] => if shortMarks.contains c then some (.mark (String.ofList [c]), []) else none
  | [] => none

/-- A number at the front; no word may go on from it. -/
def number? (s : List Char) : Option (Token × List Char) :=
  match Numeral.take? s with
  | none => none
  | some (n, rest) =>
    if rest.head?.any continuesWord then none else some (.number n, rest)

/-- Whether a number starts at the front: a digit, perhaps after a point. -/
def startsNumber : List Char → Bool
  | '.' :: c :: _ => c.isDigit
  | c :: _ => c.isDigit
  | [] => false

/-- The token at the front. -/
def token? (s : List Char) : Option (Token × List Char) :=
  if startsNumber s then number? s
  else match s with
    | '\'' :: rest => (quoted? '\'' rest).map fun read => (.text (String.ofList read.1), read.2)
    | '"' :: rest => (quoted? '"' rest).map fun read => (.name (String.ofList read.1), read.2)
    | 'x' :: '\'' :: rest => blob? rest
    | 'X' :: '\'' :: rest => blob? rest
    | c :: rest =>
      if startsWord c then
        some (.word (String.ofList (c :: rest.takeWhile continuesWord)),
          rest.dropWhile continuesWord)
      else mark? s
    | [] => none
where
  /-- Bytes after their opening quote. -/
  blob? (s : List Char) : Option (Token × List Char) := do
    let (digits, rest) ← quoted? '\'' s
    return (.blob (← bytesOf? digits), rest)

/-- The tokens of a text, at most `fuel` of them. -/
def tokensOf? : Nat → List Char → Option (List Lexeme)
  | 0, _ => none
  | fuel + 1, s =>
    match s.dropWhile isGap with
    | [] => some []
    | start => do
      let (token, rest) ← token? start
      let lexeme := ⟨s.takeWhile isGap, start.take (start.length - rest.length), token⟩
      return lexeme :: (← tokensOf? fuel rest)

/-- The tokens of a whole text. -/
def tokens? (s : String) : Option (List Lexeme) :=
  tokensOf? (s.length + 1) s.toList

/-- The text of tokens, without the blanks before the first. -/
def writtenText : List Lexeme → String
  | [] => ""
  | first :: rest =>
    String.ofList (first.written ++ rest.flatMap fun lexeme => lexeme.blanks ++ lexeme.written)

end QuerySteps.Store
