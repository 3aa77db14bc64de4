import QuerySteps.Text.Hex

/-!
# Texts and keys in TOML

Texts stand between double quotes, where a backslash begins an escape, or between single quotes,
where every character stands for itself.  Three quotes open a text over several lines: a line break
right after them is dropped, every line break counts as one line feed, and up to two quotes may
stand before the closing three.  Between three double quotes a backslash at the end of a line drops
the break and all blanks and breaks after it.

A key is a bare word or a quoted text; a dotted key is a path of them.
-/

namespace QuerySteps.Toml

/-- Space and tab, the blanks within a line. -/
def isSpacing (c : Char) : Bool :=
  c == ' ' || c == '\t'

/-- Drops the blanks at the front. -/
def skipSpacing (s : List Char) : List Char :=
  s.dropWhile isSpacing

/-- Characters that may stand in comments and texts: all but control characters, the tab apart. -/
def isPlain (c : Char) : Bool :=
  c == '\t' || (0x20 ≤ c.toNat && c.toNat != 0x7f)

/-- What follows the line break at the front: a line feed, perhaps after a carriage return. -/
def lineBreak? : List Char → Option (List Char)
  | '\n' :: rest => some rest
  | '\r' :: '\n' :: rest => some rest
  | _ => none

/-- A text without the line break at its front, if there is one. -/
def dropLineBreak (s : List Char) : List Char :=
  (lineBreak? s).getD s

/-- The character with a code point, if there is one. -/
def charOf? (n : Nat) : Option Char :=
  if n.isValidChar then some (Char.ofNat n) else none

/-- The character that a one-letter escape stands for. -/
def escaped? (c : Char) : Option Char :=
  match c with
  | '"' => some '"'
  | '\\' => some '\\'
  | 'b' => some '\x08'
  | 'f' => some '\x0c'
  | 'n' => some '\n'
  | 'r' => some '\r'
  | 't' => some '\t'
  | _ => none

/-- The character of an escape with four hexadecimal digits. -/
def shortEscape? (a b c d : Char) : Option Char :=
  (Text.hex4? a b c d).bind charOf?

/-- The character of an escape with eight hexadecimal digits. -/
def longEscape? (a b c d e f g h : Char) : Option Char := do
  let high ← Text.hex4? a b c d
  let low ← Text.hex4? e f g h
  charOf? (high * 0x10000 + low)

/-- A character before the text read after it. -/
def before (c : Char) (read : List Char × List Char) : List Char × List Char :=
  (c :: read.1, read.2)

/-- The text up to a closing double quote, and what follows. -/
def basic? : List Char → Option (List Char × List Char)
  | [] => none
  | '"' :: rest => some ([], rest)
  | '\\' :: 'u' :: a :: b :: c :: d :: rest => do
    let x ← shortEscape? a b c d
    (basic? rest).map (before x)
  | '\\' :: 'U' :: a :: b :: c :: d :: e :: f :: g :: h :: rest => do
    let x ← longEscape? a b c d e f g h
    (basic? rest).map (before x)
  | '\\' :: e :: rest => do
    let x ← escaped? e
    (basic? rest).map (before x)
  | c :: rest => if isPlain c then (basic? rest).map (before c) else none

/-- The text up to a closing single quote, and what follows. -/
def literal? : List Char → Option (List Char × List Char)
  | [] => none
  | '\'' :: rest => some ([], rest)
  | c :: rest => if isPlain c then (literal? rest).map (before c) else none

/-- Whether only blanks stand before the next line break. -/
def endsLine (s : List Char) : Bool :=
  (lineBreak? (skipSpacing s)).isSome

/-- The text up to three closing double quotes, and what follows.  The flag says that a backslash at
the end of a line stands before, so that blanks and line breaks are dropped. -/
def longBasic? : Bool → List Char → Option (List Char × List Char)
  | _, [] => none
  | _, '"' :: '"' :: '"' :: '"' :: '"' :: rest => some (['"', '"'], rest)
  | _, '"' :: '"' :: '"' :: '"' :: rest => some (['"'], rest)
  | _, '"' :: '"' :: '"' :: rest => some ([], rest)
  | joining, '\r' :: '\n' :: rest =>
    if joining then longBasic? true rest else (longBasic? false rest).map (before '\n')
  | _, '\\' :: 'u' :: a :: b :: c :: d :: rest => do
    let x ← shortEscape? a b c d
    (longBasic? false rest).map (before x)
  | _, '\\' :: 'U' :: a :: b :: c :: d :: e :: f :: g :: h :: rest => do
    let x ← longEscape? a b c d e f g h
    (longBasic? false rest).map (before x)
  | _, '\\' :: e :: rest =>
    if endsLine (e :: rest) then longBasic? true rest
    else do
      let x ← escaped? e
      (longBasic? false rest).map (before x)
  | joining, c :: rest =>
    if joining && (isSpacing c || c == '\n') then longBasic? true rest
    else if isPlain c || c == '\n' then (longBasic? false rest).map (before c)
    else none

/-- The text up to three closing single quotes, and what follows. -/
def longLiteral? : List Char → Option (List Char × List Char)
  | [] => none
  | '\'' :: '\'' :: '\'' :: '\'' :: '\'' :: rest => some (['\'', '\''], rest)
  | '\'' :: '\'' :: '\'' :: '\'' :: rest => some (['\''], rest)
  | '\'' :: '\'' :: '\'' :: rest => some ([], rest)
  | '\r' :: '\n' :: rest => (longLiteral? rest).map (before '\n')
  | c :: rest =>
    if isPlain c || c == '\n' then (longLiteral? rest).map (before c) else none

/-- A quoted text of any of the four kinds at the front. -/
def text? : List Char → Option (List Char × List Char)
  | '"' :: '"' :: '"' :: rest => longBasic? false (dropLineBreak rest)
  | '"' :: rest => basic? rest
  | '\'' :: '\'' :: '\'' :: rest => longLiteral? (dropLineBreak rest)
  | '\'' :: rest => literal? rest
  | _ => none

/-- The characters of bare keys. -/
def isBare (c : Char) : Bool :=
  c.isAlphanum || c == '_' || c == '-'

/-- A path of keys, split into its last key and those before it. -/
structure Key where
  path : List String
  last : String
  deriving DecidableEq

/-- How many keys a dotted key may have. -/
def longestKey : Nat := 79

/-- A key without dots at the front. -/
def simpleKey? : List Char → Option (String × List Char)
  | '"' :: rest => (basic? rest).map fun read => (String.ofList read.1, read.2)
  | '\'' :: rest => (literal? rest).map fun read => (String.ofList read.1, read.2)
  | s =>
    if (s.takeWhile isBare).isEmpty then none
    else some (String.ofList (s.takeWhile isBare), s.dropWhile isBare)

/-- A dotted key of at most `count` keys, with the blanks around them. -/
def keyOf? : Nat → List Char → Option (Key × List Char)
  | 0, _ => none
  | count + 1, s => do
    let (first, rest) ← simpleKey? (skipSpacing s)
    match skipSpacing rest with
    | '.' :: rest => do
      let (key, after) ← keyOf? count rest
      return (⟨first :: key.path, key.last⟩, after)
    | rest => some (⟨[], first⟩, rest)

/-- The key at the front, with the blanks around it. -/
def key? (s : List Char) : Option (Key × List Char) :=
  keyOf? longestKey s

end QuerySteps.Toml
