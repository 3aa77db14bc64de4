import QuerySteps.Formula.Token
import QuerySteps.Tree.Basic

/-!
# Reading formulas

A formula is a chain of operands and binary operators.  Operators of higher precedence bind tighter,
operators of one precedence group from the left, and unary operators belong to the operand that
follows them.  An operand is a parenthesised formula, a text, a number, a name or a call.

The grammar is built in layers, each on the one below:

* `primary` reads an operand without its unary operators, given a reader of formulas for what stands
  in parentheses;
* `operand` reads the unary operators before it and folds a minus sign into a number;
* `chain` reads the chains of all precedences, the loosest outside;
* `formula` closes the circle, one level of parentheses at a time.

Loops are bounded by the length of the text they work on, and so are the levels of parentheses;
every step of a loop takes at least one character unless a unary operator is empty.
`parse` asks that nothing but white space is left over and turns a failure into a position.
-/

namespace QuerySteps.Formula

open Text (skipSpace trimStart byteLength)

/-- What a reader of trees answers: the tree and what follows it, or a failure. -/
abbrev Read := Except Failure (Tree × List Char)

/-- The failure where an expression should begin. -/
def expected (s : List Char) : Failure :=
  ⟨s, .expressionExpected (String.ofList s)⟩

/-- The arguments of a call up to the closing parenthesis, at most `fuel` of them. -/
def arguments (formula : List Char → Read) :
    Nat → List Char → Except Failure (List Tree × List Char)
  | 0, s => .error (expected s)
  | fuel + 1, s =>
    match formula s with
    | .error e => .error e
    | .ok (arg, rest) =>
      match skipSpace rest with
      | ',' :: rest =>
        match arguments formula fuel rest with
        | .error e => .error e
        | .ok (args, rest) => .ok (arg :: args, rest)
      | ')' :: rest => .ok ([arg], rest)
      | rest => .error ⟨rest, .argumentEndExpected⟩

/-- A call, after its opening parenthesis. -/
def call (formula : List Char → Read) (function : String) (s : List Char) : Read :=
  match skipSpace s with
  | ')' :: rest => .ok (.function function [], rest)
  | s =>
    match arguments formula (s.length + 1) s with
    | .error e => .error e
    | .ok (args, rest) => .ok (.function function args, rest)

/-- A name or a call. -/
def named (ops : Operators) (formula : List Char → Read) (s : List Char) : Read :=
  match name? s with
  | none => .error (expected s)
  | some (name, rest) =>
    if ops.reserves name then .error ⟨s, .operatorUnexpected name⟩
    else match skipSpace rest with
      | '(' :: args => call formula name args
      | _ => .ok (.name name, rest)

/-- A formula after its opening parenthesis. -/
def parenthesised (formula : List Char → Read) (s : List Char) : Read :=
  match formula s with
  | .error e => .error e
  | .ok (tree, rest) =>
    match skipSpace rest with
    | ')' :: rest => .ok (tree, rest)
    | rest => .error ⟨rest, .closingExpected⟩

/-- An operand without unary operators; it begins at the first character. -/
def primaryHere (ops : Operators) (formula : List Char → Read) (s : List Char) : Read :=
  match s with
  | '(' :: rest => parenthesised formula rest
  | s =>
    match text? s with
    | .error e => .error e
    | .ok (some (text, rest)) => .ok (.literal (.text text), rest)
    | .ok none =>
      match number? s with
      | .error e => .error e
      | .ok (some (value, rest)) => .ok (.literal value, rest)
      | .ok none => named ops formula s

/-- An operand without unary operators. -/
def primary (ops : Operators) (formula : List Char → Read) (s : List Char) : Read :=
  primaryHere ops formula (skipSpace s)

/-- A unary operator over its operand; a minus sign before a number belongs to the number. -/
def applyUnary (op : String) : Tree → Tree
  | .literal value =>
    if op == "-" && value.isNumeric then .literal value.negated else .operator op [.literal value]
  | tree => .operator op [tree]

/-- An operand with the unary operators before it, at most `fuel` of them. -/
def operand (ops : Operators) (primary : List Char → Read) : Nat → List Char → Read
  | 0, s => .error (expected s)
  | fuel + 1, s =>
    match longestMatch ops.unary (skipSpace s) with
    | none => primary (skipSpace s)
    | some (op, rest) =>
      match operand ops primary fuel rest with
      | .error e => .error e
      | .ok (tree, rest) => .ok (applyUnary op tree, rest)

/-- The operators of one precedence that follow a tree, with operands that bind tighter; at most
`fuel` of them. -/
def more (ops : Operators) (tighter : List Char → Read) (precedence : Nat) :
    Nat → Tree → List Char → Read
  | 0, left, s => .ok (left, s)
  | fuel + 1, left, s =>
    match longestMatch (ops.binary.map (·.1)) (skipSpace s) with
    | none => .ok (left, s)
    | some (op, rest) =>
      if ops.binary.lookup op = some precedence then
        match tighter rest with
        | .error e => .error e
        | .ok (right, rest) => more ops tighter precedence fuel (.operator op [left, right]) rest
      else
        .ok (left, s)

/-- A chain of operators of the given precedences. -/
def chain (ops : Operators) (operand : List Char → Read) : List Nat → List Char → Read
  | [], s => operand s
  | precedence :: tighter, s =>
    match chain ops operand tighter s with
    | .error e => .error e
    | .ok (left, rest) =>
      more ops (chain ops operand tighter) precedence (rest.length + 1) left rest

/-- A formula with at most `depth` levels of parentheses. -/
def formula (ops : Operators) : Nat → List Char → Read
  | 0, s => .error (expected s)
  | depth + 1, s =>
    chain ops (fun s => operand ops (primary ops (formula ops depth)) (s.length + 1) s)
      ops.levels s

/-- Why and where a text is not a formula; the position counts bytes. -/
structure ParseError where
  position : Nat
  cause : Cause
  deriving DecidableEq

/-- The error of a failure that left over a part of the input. -/
def Failure.toError (input : List Char) (e : Failure) : ParseError :=
  ⟨byteLength input - byteLength e.rest, e.cause⟩

/-- A whole text as a formula: after it only white space may follow. -/
def read (ops : Operators) (input : List Char) : Except Failure Tree :=
  match formula ops (input.length + 1) input with
  | .error e => .error e
  | .ok (tree, rest) =>
    match trimStart rest with
    | [] => .ok tree
    | rest => .error ⟨rest, .operatorExpected (String.ofList rest)⟩

/-- The tree of a formula. -/
def parse (ops : Operators) (s : String) : Except ParseError Tree :=
  match read ops s.toList with
  | .error e => .error (e.toError s.toList)
  | .ok tree => .ok tree

end QuerySteps.Formula
