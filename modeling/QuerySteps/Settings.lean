import QuerySteps.Files
import QuerySteps.Toml.Reader

/-!
# Settings

What a user may set in a file: the database, how results are printed, whether dates in them become
numbers, and further operators for formulas.  Every setting has a default, and keys that are not
settings are passed over.

The file may be named.  If it is not, the first file at one of two usual places is read, and without
any file all settings have their defaults.
-/

namespace QuerySteps

open Json (fields?)

/-- How results are printed. -/
inductive OutputFormat where
  | table
  | json
  deriving DecidableEq, Inhabited

/-- The format with a name. -/
def OutputFormat.ofName? (name : String) : Option OutputFormat :=
  match name with
  | "table" => some table
  | "json" => some json
  | _ => none

/-- What a user may set. -/
structure Settings where
  databaseUrl : Option String
  format : OutputFormat
  convertDates : Bool
  /-- Further binary operators with their precedence, in the order of their names. -/
  binary : List (String × Nat)
  /-- Further unary operators. -/
  unary : List String
  deriving DecidableEq, Inhabited

namespace Settings

/-- The settings without any file. -/
def default : Settings := ⟨none, .table, false, [], []⟩

/-- The operators of formulas: the usual ones, then the binary and the unary ones that are set. -/
def operators (s : Settings) : Formula.Operators :=
  s.unary.foldl (·.addUnary ·)
    (s.binary.foldl (fun ops op => ops.addBinary op.1 op.2) .default)

/-- The greatest precedence that may be set. -/
def greatestPrecedence : Int := 255

/-- Whether a value is an empty array or object. -/
def isEmptyValue : Json → Bool
  | .array [] => true
  | .object [] => true
  | _ => false

/-- The format that a value names, as a text or as the only key of an object. -/
def formatOf? : Json → Option OutputFormat
  | .scalar (.text name) => OutputFormat.ofName? name
  | .object [(name, value)] => if isEmptyValue value then OutputFormat.ofName? name else none
  | _ => none

/-- The truth value that a value is. -/
def boolOf? : Json → Option Bool
  | .scalar (.bool b) => some b
  | _ => none

/-- The precedence that a value is. -/
def precedenceOf? : Json → Option Nat
  | .scalar (.integer n) => if 0 ≤ n ∧ n ≤ greatestPrecedence then some n.toNat else none
  | _ => none

/-- Operators with their precedence, in the order of their names. -/
def binaryOf? : Json → Option (List (String × Nat))
  | .object members => do
    let ops ← members.mapM fun member => do return (member.1, ← precedenceOf? member.2)
    return ops.mergeSort fun a b => a.1 ≤ b.1
  | _ => none

/-- The value of a field, or its default if the field is absent. -/
def orElse? {α : Type} (read : Json → Option α) (absent : α) : Option Json → Option α
  | none => some absent
  | some value => read value

/-- The binary and unary operators that a value sets. -/
def operatorsOf? (value : Json) : Option (List (String × Nat) × List String) := do
  match ← fields? Toml.form ["binary", "unary"] value with
  | (_, [binary, unary]) =>
    return (← orElse? binaryOf? [] binary, ← orElse? (·.all? Json.text?) [] unary)
  | _ => none

/-- The settings that a value holds. -/
def ofJson? (value : Json) : Option Settings := do
  match ← fields? Toml.form ["database_url", "format", "convert_datetimes", "operators"] value with
  | (_, [databaseUrl, format, convertDates, operators]) =>
    let (binary, unary) ← orElse? operatorsOf? ([], []) operators
    return { databaseUrl := ← orElse? (fun value => value.text?.map some) none databaseUrl
             format := ← orElse? formatOf? .table format
             convertDates := ← orElse? boolOf? false convertDates
             binary
             unary }
  | _ => none

/-- The settings that a text writes. -/
def parse (s : String) : Except Error Settings :=
  match (Toml.parse? s).bind ofJson? with
  | none => .error (.settings .malformed)
  | some settings => .ok settings

/-- Where settings are looked for, relative to the working directory and to the home directory. -/
def usualPaths : List String :=
  ["sqlweave.toml", ".config/sqlweave/config.toml"]

/-- The settings in the file at a path. -/
def ofFile (files : Files) (path : String) : Except Error Settings :=
  match files.read path with
  | .error e => .error (.settings (.unreadable path e))
  | .ok s => parse s

/-- The settings in the named file, or in the first of the usual files, or the defaults. -/
def load (files : Files) (named : Option String) : Except Error Settings :=
  match named with
  | some path => ofFile files path
  | none =>
    match usualPaths.find? files.isFile with
    | some path => ofFile files path
    | none => .ok default

end Settings

end QuerySteps
