import QuerySteps.Json.Basic

/-!
# Records in JSON

A record with named fields is written as an object, or as an array of its fields in order.
`fields?` brings both forms into one: for each field name its value, if it is there.  Unknown keys
of an object are passed over, a known key that is repeated is an error.  A choice between several
records is an object with one key, the name of the choice (`choice?`).

Two notations use these records.  They differ in two points (`Form`): whether an array may be
longer than the record, and whether the record of a choice may have unknown keys.
-/

namespace QuerySteps.Json

/-- What a notation allows of its records. -/
structure Form where
  /-- An array may hold more values than the record has fields. -/
  longArrays : Bool
  /-- The object of a choice may have keys that the record does not know. -/
  unknownChoiceKeys : Bool

/-- Records in JSON text. -/
def strictForm : Form := ⟨false, true⟩

/-- Whether no known key occurs twice. -/
def distinctKeys (known : List String) (members : List (String × Json)) : Bool :=
  known.all fun key => (members.filter (·.1 == key)).length ≤ 1

/-- The values of the known keys of an object. -/
def objectFields? (known : List String) (members : List (String × Json)) :
    Option (List (Option Json)) :=
  if distinctKeys known members then some (known.map fun key => members.lookup key) else none

/-- The values of an array as those of the first fields of a record. -/
def arrayFields? (longArrays : Bool) (known : List String) (items : List Json) :
    Option (List (Option Json)) :=
  if items.length ≤ known.length || longArrays then
    some ((List.range known.length).map fun n => items[n]?)
  else
    none

/-- The fields of a record, and whether it is written as an array. -/
def fields? (form : Form) (known : List String) : Json →
    Option (Bool × List (Option Json))
  | object members => (objectFields? known members).map (false, ·)
  | array items => (arrayFields? form.longArrays known items).map (true, ·)
  | _ => none

/-- The fields of the record of a choice. -/
def choiceFields? (form : Form) (known : List String) (value : Json) :
    Option (Bool × List (Option Json)) :=
  match value with
  | object members =>
    if form.unknownChoiceKeys || members.all (known.contains ·.1) then
      fields? form known value
    else none
  | _ => fields? form known value

/-- The name and the value of a choice. -/
def choice? : Json → Option (String × Json)
  | object [(key, value)] => some (key, value)
  | _ => none

/-- The values of all items, if each item has one. -/
def all? {α : Type} (read : Json → Option α) (value : Json) : Option (List α) :=
  match value with
  | array items => items.mapM read
  | _ => none

/-- A text or nothing, as the value of a field that may be null or absent. -/
def optionalText? : Option Json → Option (Option String)
  | none => some none
  | some (scalar .null) => some none
  | some (scalar (.text s)) => some (some s)
  | some _ => none

end QuerySteps.Json
