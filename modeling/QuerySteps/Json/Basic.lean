import QuerySteps.Scalar

/-!
# JSON values

A JSON value is a scalar, an array or an object.  The members of an object are kept in order and
with their repetitions, since it depends on the reader of the object whether a repeated key is an
error.

One more form, `unreadable`, stands for text that is well formed but has no value: a number beyond
all doubles, a text with half of a surrogate pair, or brackets nested deeper than `Json.deepest`.
Such a part may be skipped, as the value of a key that nobody asks for, but it cannot be read.
-/

namespace QuerySteps

/-- A JSON value. -/
inductive Json where
  | scalar (v : Scalar)
  | array (items : List Json)
  | object (members : List (String × Json))
  | unreadable
  deriving Inhabited

namespace Json

/-- How deep arrays and objects may be nested. -/
def deepest : Nat := 127

mutual

/-- Whether every part of a value can be read. -/
def readable : Json → Bool
  | scalar _ => true
  | array items => readableItems items
  | object members => readableMembers members
  | unreadable => false

/-- Whether every item can be read. -/
def readableItems : List Json → Bool
  | [] => true
  | item :: items => item.readable && readableItems items

/-- Whether every member can be read. -/
def readableMembers : List (String × Json) → Bool
  | [] => true
  | (_, value) :: members => value.readable && readableMembers members

end

mutual

/-- How deep arrays and objects are nested in a value. -/
def height : Json → Nat
  | scalar _ => 0
  | array items => heightItems items + 1
  | object members => heightMembers members + 1
  | unreadable => 0

/-- The greatest height of the items. -/
def heightItems : List Json → Nat
  | [] => 0
  | item :: items => max item.height (heightItems items)

/-- The greatest height of the members. -/
def heightMembers : List (String × Json) → Nat
  | [] => 0
  | (_, value) :: members => max value.height (heightMembers members)

end

/-- A text as a JSON value. -/
def text (s : String) : Json := scalar (.text s)

/-- An array of texts. -/
def texts (ss : List String) : Json := array (ss.map text)

/-- The text that a value is, if it is one. -/
def text? : Json → Option String
  | scalar (.text s) => some s
  | _ => none

/-- The items of an array. -/
def items? : Json → Option (List Json)
  | array items => some items
  | _ => none

mutual

/-- The value in which a later member takes the place of an earlier one with the same key. -/
def lastWins : Json → Json
  | scalar v => scalar v
  | array items => array (lastWinsItems items)
  | object members => object (lastWinsMembers members)
  | unreadable => unreadable

/-- The items, each with its last members. -/
def lastWinsItems : List Json → List Json
  | [] => []
  | item :: items => item.lastWins :: lastWinsItems items

/-- The members that no later member replaces. -/
def lastWinsMembers : List (String × Json) → List (String × Json)
  | [] => []
  | (key, value) :: members =>
    let kept := lastWinsMembers members
    if members.any (·.1 == key) then kept else (key, value.lastWins) :: kept

end

end Json

end QuerySteps
