import QuerySteps.Json.Basic
import QuerySteps.Toml.Text

/-!
# Tables of a TOML document

A document is a tree of tables that its lines extend.  What may still be added to a table depends on
how it came to be (`Origin`): a table with its own header or written as a value is complete for
dotted keys, a table that a header only passed through may still get its header, and a table made by
a dotted key is extended by dotted keys alone.

`within?` walks to a table along a path, makes the tables that are missing, and changes the table
at the end.  `put?` adds a value under a dotted key, `openTable?` and `openItem?` do what the
headers `[…]` and `[[…]]` say.
-/

namespace QuerySteps.Toml

/-- How a table came to be. -/
inductive Origin where
  /-- By its own header, or as a value. -/
  | defined
  /-- On the way of a header to a table below it. -/
  | implied
  /-- By a dotted key. -/
  | dotted
  deriving DecidableEq, Inhabited

/-- What a key of a table stands for.  Of an array of tables the last one is first. -/
inductive Node where
  | value (v : Json)
  | table (origin : Origin) (members : List (String × Node))
  | tables (latestFirst : List (List (String × Node)))
  deriving Inhabited

/-- The members of a table. -/
abbrev Members := List (String × Node)

/-- The members with another node under a key they have. -/
def replace (key : String) (node : Node) (members : Members) : Members :=
  members.map fun member => if member.1 == key then (key, node) else member

/-- The origin of the tables that are made on the way. -/
def originOnTheWay (dotted : Bool) : Origin :=
  if dotted then .dotted else .implied

/-- Changes the table at the end of a path.  Dotted keys do not enter complete tables, headers enter
the last table of an array; a value is never entered. -/
def within? (dotted : Bool) (change : Origin → Members → Option Members) :
    List String → Origin → Members → Option Members
  | [], origin, members => change origin members
  | key :: path, _, members =>
    match members.lookup key with
    | none => do
      let made := originOnTheWay dotted
      let inner ← within? dotted change path made []
      return members ++ [(key, .table made inner)]
    | some (.table origin inner) =>
      if dotted && origin == .defined then none
      else do
        let inner ← within? dotted change path origin inner
        return replace key (.table origin inner) members
    | some (.tables (latest :: earlier)) => do
      let inner ← within? dotted change path .defined latest
      return replace key (.tables (inner :: earlier)) members
    | some _ => none

/-- Adds a node under a new key; at the end of a dotted path only to a table of dotted keys. -/
def add? (path : List String) (key : String) (node : Node) (origin : Origin) (members : Members) :
    Option Members :=
  if (path.isEmpty || origin == .dotted) && (members.lookup key).isNone then
    some (members ++ [(key, node)])
  else
    none

/-- Adds a value under a dotted key. -/
def put? (key : Key) (v : Json) (members : Members) : Option Members :=
  within? true (add? key.path key.last (.value v)) key.path .defined members

/-- Makes the table of a header `[…]`, or completes one that was only passed through. -/
def openTable? (key : Key) (members : Members) : Option Members :=
  within? false (fun _ members =>
    match members.lookup key.last with
    | none => some (members ++ [(key.last, .table .defined [])])
    | some (.table .implied inner) => some (replace key.last (.table .defined inner) members)
    | some _ => none) key.path .defined members

/-- Adds a table to the array of a header `[[…]]`. -/
def openItem? (key : Key) (members : Members) : Option Members :=
  within? false (fun _ members =>
    match members.lookup key.last with
    | none => some (members ++ [(key.last, .tables [[]])])
    | some (.tables items) => some (replace key.last (.tables ([] :: items)) members)
    | some _ => none) key.path .defined members

mutual

/-- A node as a JSON value. -/
def Node.toJson : Node → Json
  | .value v => v
  | .table _ members => .object (membersToJson members)
  | .tables items => .array (tablesToJson items).reverse

/-- The members of a table as those of an object. -/
def membersToJson : List (String × Node) → List (String × Json)
  | [] => []
  | (key, node) :: members => (key, node.toJson) :: membersToJson members

/-- Each of the tables as an object. -/
def tablesToJson : List (List (String × Node)) → List Json
  | [] => []
  | members :: items => .object (membersToJson members) :: tablesToJson items

end

end QuerySteps.Toml
