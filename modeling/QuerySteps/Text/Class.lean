import QuerySteps.Text.LetterTable
import QuerySteps.Text.NumberTable

/-!
# Classes of characters

Which characters are letters, numbers and white space.  Names in formulas are made of letters and
numbers of any script, so the classes are those of Unicode; below U+0080 they are decided without
the tables.

Two kinds of white space occur.  `isBlank` is the Unicode property *White_Space*: a text of blanks
only says nothing.  `isSpace` holds of the four characters that may stand between the tokens of a
formula or of a JSON text.
-/

namespace QuerySteps.Text

/-- Whether a code point lies in one of the closed ranges. -/
def inRanges (ranges : List (Nat × Nat)) (n : Nat) : Bool :=
  ranges.any fun range => range.1 ≤ n && n ≤ range.2

/-- A letter of any script. -/
def isLetter (c : Char) : Bool :=
  if c.toNat < 0x80 then c.isAlpha else inRanges letterRanges c.toNat

/-- A number of any script: a digit, a letter number, a fraction and the like. -/
def isNumber (c : Char) : Bool :=
  if c.toNat < 0x80 then c.isDigit else inRanges numberRanges c.toNat

/-- A letter or a number of any script. -/
def isLetterOrNumber (c : Char) : Bool :=
  isLetter c || isNumber c

/-- The white space of Unicode, as closed ranges of code points. -/
def blankRanges : List (Nat × Nat) :=
  [(0x9, 0xd), (0x20, 0x20), (0x85, 0x85), (0xa0, 0xa0), (0x1680, 0x1680), (0x2000, 0x200a),
    (0x2028, 0x2029), (0x202f, 0x202f), (0x205f, 0x205f), (0x3000, 0x3000)]

/-- White space of any kind. -/
def isBlank (c : Char) : Bool :=
  inRanges blankRanges c.toNat

/-- Space, tab, carriage return and line feed: what may separate tokens. -/
def isSpace (c : Char) : Bool :=
  c == ' ' || c == '\t' || c == '\r' || c == '\n'

/-- Drops the separators at the front. -/
def skipSpace (s : List Char) : List Char :=
  s.dropWhile isSpace

/-- Drops the white space at the front. -/
def trimStart (s : List Char) : List Char :=
  s.dropWhile isBlank

/-- Drops the white space at both ends. -/
def trim (s : List Char) : List Char :=
  (trimStart (trimStart s).reverse).reverse

/-- Whether a text consists of white space only. -/
def isBlankText (s : String) : Bool :=
  s.toList.all isBlank

/-- The length of a text in bytes of UTF-8, the unit in which positions are counted. -/
def byteLength : List Char → Nat
  | [] => 0
  | c :: s => c.utf8Size + byteLength s

/-- The length of a text put together is the sum of the lengths. -/
theorem byteLength_append (s t : List Char) :
    byteLength (s ++ t) = byteLength s + byteLength t := by
  induction s with
  | nil => simp [byteLength]
  | cons c s ih => simp [byteLength, ih, Nat.add_assoc]

/-- The bytes of a text are those that its characters have. -/
theorem byteLength_toList (s : String) : byteLength s.toList = s.utf8ByteSize := by
  suffices h : ∀ cs : List Char, byteLength cs = (String.ofList cs).utf8ByteSize by
    simpa using h s.toList
  intro cs
  induction cs with
  | nil => rfl
  | cons c cs ih =>
    have hcons : String.ofList (c :: cs) = String.singleton c ++ String.ofList cs := by
      rw [String.singleton_eq_ofList, ← String.ofList_append]
      rfl
    rw [byteLength, ih, hcons, String.utf8ByteSize_append, String.utf8ByteSize_singleton]

end QuerySteps.Text
