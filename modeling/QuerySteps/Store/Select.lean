import QuerySteps.Store.Affinity
import QuerySteps.Store.Token

/-!
# SELECT statements

A SELECT has output columns, origins of rows (tables and nested SELECTs, each perhaps under another
name), a condition on rows and keys that group them.  `Select.parse?` reads one from its text; what
is not such a statement is refused.
-/

namespace QuerySteps.Store

/-- Comparisons. -/
inductive Comparison where
  | equal
  | different
  | less
  | atMost
  | greater
  | atLeast
  deriving DecidableEq

/-- Operations on numbers. -/
inductive Arithmetic where
  | add
  | subtract
  | multiply
  | divide
  | remainder
  deriving DecidableEq

/-- Operators between two terms. -/
inductive BinaryOp where
  | either
  | both
  | comparison (c : Comparison)
  | like
  | arithmetic (op : Arithmetic)
  | concatenation
  deriving DecidableEq

/-- Operators before a term. -/
inductive UnaryOp where
  | opposite
  | minus
  | plus
  deriving DecidableEq

/-- An expression as it is written. -/
inductive Term where
  | constant (v : Value)
  /-- A column, perhaps of a named origin; a quoted name without such a column is a text. -/
  | column (origin : Option String) (name : String) (quoted : Bool)
  | unary (op : UnaryOp) (operand : Term)
  | binary (op : BinaryOp) (left right : Term)
  | call (function : String) (args : List Term)
  /-- A call with a star in place of arguments. -/
  | callStar (function : String)
  deriving Inhabited

/-- One item of the output: all columns, or a term with its name and its text. -/
inductive Output where
  | all
  | term (t : Term) (given : Option String) (written : String)

mutual

/-- A SELECT statement. -/
inductive Select where
  | mk (outputs : List Output) (origins : List Origin) (condition : Option Term)
    (keys : List Term)

/-- Where rows come from, perhaps under another name. -/
inductive Origin where
  | table (name : String) (given : Option String)
  | nested (select : Select) (given : Option String)

end

/-! ## Reading terms -/

/-- Words that cannot be names. -/
def reservedWords : List String :=
  ["ADD", "ALL", "ALTER", "AND", "AS", "AUTOINCREMENT", "BETWEEN", "CASE", "CHECK", "COLLATE",
    "COMMIT", "CONSTRAINT", "CREATE", "DEFAULT", "DEFERRABLE", "DELETE", "DISTINCT", "DROP", "ELSE",
    "ESCAPE", "EXCEPT", "EXISTS", "FOREIGN", "FROM", "GROUP", "HAVING", "IN", "INDEX", "INSERT",
    "INTERSECT", "INTO", "IS", "ISNULL", "JOIN", "LIMIT", "NOT", "NOTHING", "NOTNULL", "NULL", "ON",
    "OR", "ORDER", "PRIMARY", "REFERENCES", "RETURNING", "SELECT", "SET", "TABLE", "THEN", "TO",
    "TRANSACTION", "UNION", "UNIQUE", "UPDATE", "USING", "VALUES", "WHEN", "WHERE"]

/-- Whether a word cannot be a name. -/
def isReserved (word : String) : Bool :=
  reservedWords.contains (upperAscii word)

/-- What follows a keyword at the front. -/
def keyword? (keyword : String) : List Lexeme → Option (List Lexeme)
  | ⟨_, _, .word w⟩ :: rest => if upperAscii w == keyword then some rest else none
  | _ => none

/-- What follows a mark at the front. -/
def afterMark? (mark : String) : List Lexeme → Option (List Lexeme)
  | ⟨_, _, .mark m⟩ :: rest => if m == mark then some rest else none
  | _ => none

/-- The name at the front, and whether it is quoted. -/
def identifier? : List Lexeme → Option ((String × Bool) × List Lexeme)
  | ⟨_, _, .word w⟩ :: rest => if isReserved w then none else some ((w, false), rest)
  | ⟨_, _, .name s⟩ :: rest => some ((s, true), rest)
  | _ => none

/-- The operators that are written as marks, with their precedence. -/
def markOperators : List (String × Nat × BinaryOp) :=
  [("=", 4, .comparison .equal), ("==", 4, .comparison .equal),
    ("!=", 4, .comparison .different), ("<>", 4, .comparison .different),
    ("<", 5, .comparison .less), ("<=", 5, .comparison .atMost),
    (">", 5, .comparison .greater), (">=", 5, .comparison .atLeast),
    ("+", 6, .arithmetic .add), ("-", 6, .arithmetic .subtract),
    ("*", 7, .arithmetic .multiply), ("/", 7, .arithmetic .divide),
    ("%", 7, .arithmetic .remainder), ("||", 8, .concatenation)]

/-- The operators that are written as words, with their precedence. -/
def wordOperators : List (String × Nat × BinaryOp) :=
  [("OR", 1, .either), ("AND", 2, .both), ("LIKE", 4, .like)]

/-- The precedence down to which the operand of NOT reaches. -/
def oppositeReach : Nat := 3

/-- The operator at the front, with its precedence. -/
def binaryOp? : List Lexeme → Option ((Nat × BinaryOp) × List Lexeme)
  | ⟨_, _, .mark m⟩ :: rest => (markOperators.lookup m).map (·, rest)
  | ⟨_, _, .word w⟩ :: rest => (wordOperators.lookup (upperAscii w)).map (·, rest)
  | _ => none

/-- Whether a term is a written zero. -/
def Term.isZero : Term → Bool
  | .constant (.integer n) => n == 0
  | _ => false

/-- An operator between two terms.  A conjunction with a written zero is zero, and its other term is
not looked at. -/
def Term.operation (left : Term) (op : BinaryOp) (right : Term) : Term :=
  if op = .both ∧ (left.isZero ∨ right.isZero) then .constant (.integer 0)
  else .binary op left right

mutual

/-- The term at the front whose operators bind at least as tightly as `least`. -/
def termAt? : Nat → Nat → List Lexeme → Option (Term × List Lexeme)
  | 0, _, _ => none
  | fuel + 1, least, s => do
    let (left, rest) ← operand? fuel s
    more? fuel least left rest

/-- The operators and terms that go on from a term. -/
def more? : Nat → Nat → Term → List Lexeme → Option (Term × List Lexeme)
  | 0, _, _, _ => none
  | fuel + 1, least, left, s =>
    match binaryOp? s with
    | none => some (left, s)
    | some ((precedence, op), rest) =>
      if least ≤ precedence then do
        let (right, rest) ← termAt? fuel (precedence + 1) rest
        more? fuel least (left.operation op right) rest
      else some (left, s)

/-- A term without operators between terms. -/
def operand? : Nat → List Lexeme → Option (Term × List Lexeme)
  | 0, _ => none
  | fuel + 1, s =>
    match s with
    | ⟨_, _, .number n⟩ :: rest => some (.constant (numberOf false n), rest)
    | ⟨_, _, .text t⟩ :: rest => some (.constant (.text t), rest)
    | ⟨_, _, .blob bytes⟩ :: rest => some (.constant (.blob bytes), rest)
    | ⟨_, _, .mark "("⟩ :: rest => do
      let (t, rest) ← termAt? fuel 0 rest
      return (t, ← afterMark? ")" rest)
    | ⟨_, _, .mark "-"⟩ :: ⟨_, _, .number n⟩ :: rest => some (.constant (numberOf true n), rest)
    | ⟨_, _, .mark "-"⟩ :: rest => do
      let (t, rest) ← operand? fuel rest
      return (.unary .minus t, rest)
    | ⟨_, _, .mark "+"⟩ :: rest => do
      let (t, rest) ← operand? fuel rest
      return (.unary .plus t, rest)
    | s =>
      match keyword? "NOT" s with
      | some rest => do
        let (t, rest) ← termAt? fuel oppositeReach rest
        return (.unary .opposite t, rest)
      | none =>
        match keyword? "NULL" s with
        | some rest => some (.constant .null, rest)
        | none => do
          let ((name, quoted), rest) ← identifier? s
          afterName? fuel name quoted rest

/-- What a name begins: a call, a column of a named origin, or a column. -/
def afterName? : Nat → String → Bool → List Lexeme → Option (Term × List Lexeme)
  | 0, _, _, _ => none
  | fuel + 1, name, quoted, s =>
    match s with
    | ⟨_, _, .mark "("⟩ :: ⟨_, _, .mark ")"⟩ :: rest => some (.call name [], rest)
    | ⟨_, _, .mark "("⟩ :: ⟨_, _, .mark "*"⟩ :: ⟨_, _, .mark ")"⟩ :: rest =>
      some (.callStar name, rest)
    | ⟨_, _, .mark "("⟩ :: rest => do
      let (args, rest) ← terms? fuel rest
      return (.call name args, ← afterMark? ")" rest)
    | ⟨_, _, .mark "."⟩ :: rest => do
      let ((column, columnQuoted), rest) ← identifier? rest
      return (.column (some name) column columnQuoted, rest)
    | s => some (.column none name quoted, s)

/-- Terms with commas between them. -/
def terms? : Nat → List Lexeme → Option (List Term × List Lexeme)
  | 0, _ => none
  | fuel + 1, s => do
    let (t, rest) ← termAt? fuel 0 s
    match afterMark? "," rest with
    | some rest => do
      let (more, rest) ← terms? fuel rest
      return (t :: more, rest)
    | none => some ([t], rest)

end

/-! ## Reading statements -/

/-- The name after an item, if there is one: a name, perhaps after AS. -/
def givenName? (s : List Lexeme) : Option (Option String × List Lexeme) :=
  match keyword? "AS" s with
  | some (⟨_, _, .text t⟩ :: rest) => some (some t, rest)
  | some rest => (identifier? rest).map fun read => (some read.1.1, read.2)
  | none =>
    match s with
    | ⟨_, _, .text t⟩ :: rest => some (some t, rest)
    | s =>
      match identifier? s with
      | some ((name, _), rest) => some (some name, rest)
      | none => some (none, s)

/-- One item of the output. -/
def output? (fuel : Nat) (s : List Lexeme) : Option (Output × List Lexeme) :=
  match afterMark? "*" s with
  | some rest => some (.all, rest)
  | none => do
    let (t, rest) ← termAt? fuel 0 s
    let written := writtenText (s.take (s.length - rest.length))
    let (name, rest) ← givenName? rest
    return (.term t name written, rest)

/-- The items of the output, with commas between them. -/
def outputs? : Nat → List Lexeme → Option (List Output × List Lexeme)
  | 0, _ => none
  | fuel + 1, s => do
    let (item, rest) ← output? fuel s
    match afterMark? "," rest with
    | some rest => do
      let (items, rest) ← outputs? fuel rest
      return (item :: items, rest)
    | none => some ([item], rest)

/-- The condition at the front, if there is one. -/
def condition? (fuel : Nat) (s : List Lexeme) : Option (Option Term × List Lexeme) :=
  match keyword? "WHERE" s with
  | some rest => (termAt? fuel 0 rest).map fun read => (some read.1, read.2)
  | none => some (none, s)

/-- The group keys at the front, if there are any. -/
def keys? (fuel : Nat) (s : List Lexeme) : Option (List Term × List Lexeme) :=
  match keyword? "GROUP" s with
  | some rest => (keyword? "BY" rest).bind (terms? fuel)
  | none => some ([], s)

mutual

/-- The SELECT at the front. -/
def select? : Nat → List Lexeme → Option (Select × List Lexeme)
  | 0, _ => none
  | fuel + 1, s => do
    let rest ← keyword? "SELECT" s
    let (outputs, rest) ← outputs? fuel rest
    let rest ← keyword? "FROM" rest
    let (origins, rest) ← origins? fuel rest
    let (condition, rest) ← condition? fuel rest
    let (keys, rest) ← keys? fuel rest
    return (.mk outputs origins condition keys, rest)

/-- Origins with commas between them. -/
def origins? : Nat → List Lexeme → Option (List Origin × List Lexeme)
  | 0, _ => none
  | fuel + 1, s => do
    let (origin, rest) ← origin? fuel s
    match afterMark? "," rest with
    | some rest => do
      let (more, rest) ← origins? fuel rest
      return (origin :: more, rest)
    | none => some ([origin], rest)

/-- The origin at the front, with its other name. -/
def origin? : Nat → List Lexeme → Option (Origin × List Lexeme)
  | 0, _ => none
  | fuel + 1, s =>
    match afterMark? "(" s with
    | some rest => do
      let (select, rest) ← select? fuel rest
      let (name, rest) ← givenName? (← afterMark? ")" rest)
      return (.nested select name, rest)
    | none => do
      let ((table, _), rest) ← identifier? s
      let (name, rest) ← givenName? rest
      return (.table table name, rest)

end

/-- The SELECT that a text writes. -/
def Select.parse? (sql : String) : Option Select := do
  let lexemes ← tokens? sql
  let (select, rest) ← select? (4 * lexemes.length + 8) lexemes
  if rest.isEmpty then some select else none

end QuerySteps.Store
