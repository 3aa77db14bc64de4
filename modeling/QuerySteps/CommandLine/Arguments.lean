import QuerySteps.Settings

/-!
# Arguments of the command line

The arguments name one command and what it works on.  Options may stand before and after the
command name; what stands after it counts more.  On either side each option stands at most once.  An
argument that begins with a hyphen is an option, unless it is the hyphen alone or stands after `--`.
The value of an option is the next argument, or follows directly: `--format=json`, `-fjson`,
`-f=json`.
-/

namespace QuerySteps.CommandLine

/-- What to do. -/
inductive Command where
  /-- Print the statement of a pipeline. -/
  | compile (path : String)
  /-- Print the columns of a pipeline. -/
  | schema (path : String)
  /-- Print the rows of a pipeline. -/
  | run (path : String) (convertDates : Bool)
  /-- Print how a formula is read. -/
  | parse (formula : String)
  /-- Print the types that casts may name. -/
  | types
  deriving DecidableEq

/-- The options on one side of the command name. -/
structure Options where
  databaseUrl : Option String
  config : Option String
  format : Option OutputFormat
  verbose : Bool
  convertDates : Bool
  deriving DecidableEq

/-- No options. -/
def Options.none : Options := ⟨.none, .none, .none, false, false⟩

/-- A command with its options. -/
structure Invocation where
  databaseUrl : Option String
  config : Option String
  format : Option OutputFormat
  verbose : Bool
  command : Command
  deriving DecidableEq

/-- The options that take a value. -/
inductive ValueOption where
  | databaseUrl
  | config
  | format
  deriving DecidableEq

/-- The options that take none. -/
inductive Switch where
  | verbose
  | convertDates
  deriving DecidableEq

namespace Options

/-- The options with one more that takes a value; not one that is there already, nor one with a
value it cannot have. -/
def set? (o : Options) (option : ValueOption) (value : String) : Option Options :=
  match option with
  | .databaseUrl =>
    if o.databaseUrl.isSome then .none else some { o with databaseUrl := some value }
  | .config =>
    if o.config.isSome || value == "" then .none else some { o with config := some value }
  | .format =>
    if o.format.isSome then .none
    else (OutputFormat.ofName? value).map fun format => { o with format := some format }

/-- The options with one more that takes no value. -/
def switch? (o : Options) (switch : Switch) : Option Options :=
  match switch with
  | .verbose => if o.verbose then .none else some { o with verbose := true }
  | .convertDates => if o.convertDates then .none else some { o with convertDates := true }

end Options

/-- Whether an argument is an option. -/
def isOption (arg : String) : Bool :=
  match arg.toList with
  | '-' :: _ :: _ => true
  | _ => false

/-- The long options with a value. -/
def longValueOption? (name : String) : Option ValueOption :=
  match name with
  | "database-url" => some .databaseUrl
  | "config" => some .config
  | "format" => some .format
  | _ => none

/-- The long options without a value. -/
def longSwitch? (name : String) : Option Switch :=
  match name with
  | "verbose" => some .verbose
  | "convert-datetimes" => some .convertDates
  | _ => none

/-- The short options with a value. -/
def shortValueOption? (c : Char) : Option ValueOption :=
  match c with
  | 'c' => some .config
  | 'f' => some .format
  | _ => none

/-- Options and the arguments after them. -/
abbrev Taken := Option (Options × List String)

/-- Takes a value for an option from the next argument. -/
def takeValue (o : Options) (option : ValueOption) (rest : List String) : Taken :=
  match rest with
  | [] => none
  | value :: rest => if isOption value then none else (o.set? option value).map (·, rest)

/-- Takes a long option after its two hyphens. -/
def takeLong (o : Options) (written : List Char) (rest : List String) : Taken :=
  let name := String.ofList (written.takeWhile (· != '='))
  match written.dropWhile (· != '=') with
  | _ :: value =>
    (longValueOption? name).bind fun option =>
      (o.set? option (String.ofList value)).map (·, rest)
  | [] =>
    match longValueOption? name with
    | some option => takeValue o option rest
    | none => (longSwitch? name).bind fun switch => (o.switch? switch).map (·, rest)

/-- Takes short options after their hyphen; an option with a value ends them. -/
def takeShort (o : Options) : List Char → List String → Taken
  | [], rest => some (o, rest)
  | 'v' :: more, rest => (o.switch? .verbose).bind fun o => takeShort o more rest
  | c :: more, rest =>
    (shortValueOption? c).bind fun option =>
      match more with
      | [] => takeValue o option rest
      | '=' :: value => (o.set? option (String.ofList value)).map (·, rest)
      | value => (o.set? option (String.ofList value)).map (·, rest)

/-- Takes the option that an argument writes. -/
def takeOption (o : Options) (arg : String) (rest : List String) : Taken :=
  match arg.toList with
  | '-' :: '-' :: written => takeLong o written rest
  | '-' :: written => takeShort o written rest
  | _ => none

/-- The options before the command name, the name and the arguments after it. -/
def leading? : Nat → Options → List String → Option (Options × String × List String)
  | 0, _, _ => none
  | _ + 1, _, [] => none
  | fuel + 1, o, arg :: rest =>
    if isOption arg then
      (takeOption o arg rest).bind fun (o, rest) => leading? fuel o rest
    else some (o, arg, rest)

/-- The options after the command name, and the other arguments. -/
def following? : Nat → Options → List String → Option (Options × List String)
  | 0, _, _ => none
  | _ + 1, o, [] => some (o, [])
  | fuel + 1, o, arg :: rest =>
    if arg == "--" then some (o, rest)
    else if isOption arg then
      (takeOption o arg rest).bind fun (o, rest) => following? fuel o rest
    else (following? fuel o rest).map fun (o, others) => (o, arg :: others)

/-- The only argument, which must not be empty. -/
def path? : List String → Option String
  | [path] => if path == "" then none else some path
  | _ => none

/-- The command with a name and arguments. -/
def command? (name : String) (convertDates : Bool) (args : List String) : Option Command :=
  match name, convertDates, args with
  | "compile", false, args => (path? args).map .compile
  | "schema", false, args => (path? args).map .schema
  | "run", convertDates, args => (path? args).map (.run · convertDates)
  | "parse", false, [formula] => some (.parse formula)
  | "types", false, [] => some .types
  | _, _, _ => none

/-- What the arguments ask for, if they are well formed. -/
def Invocation.ofArgs? (args : List String) : Option Invocation := do
  let fuel := args.length + 1
  let (before, name, rest) ← leading? fuel .none args
  let (after, others) ← following? fuel .none rest
  if before.convertDates then none
  else
    return { databaseUrl := after.databaseUrl <|> before.databaseUrl
             config := after.config <|> before.config
             format := after.format <|> before.format
             verbose := after.verbose || before.verbose
             command := ← command? name after.convertDates others }

end QuerySteps.CommandLine
