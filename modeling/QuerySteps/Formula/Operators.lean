import QuerySteps.Text.Class
import QuerySteps.Text.Upper

/-!
# Operators of formulas

Which operators a formula may use: binary ones with a precedence, of which the higher binds tighter,
and unary ones.  Operators made of letters are words; they are kept in upper case (`canonical`) and
recognised whatever the case of their ASCII letters, but only where the word ends.  All other
operators are recognised as they are written.

`longestMatch` finds the operator at the front of a text, so that `<=` is not read as `<`.
-/

namespace QuerySteps.Formula

open Text (isLetter isLetterOrNumber upper)

/-- The operators of a formula. -/
structure Operators where
  /-- Binary operators with their precedences; no operator occurs twice. -/
  binary : List (String × Nat)
  unary : List String
  deriving DecidableEq, Inhabited

/-- Whether an operator is a word. -/
def isWord (op : String) : Bool :=
  op.toList.all isLetter

/-- The form in which an operator is kept. -/
def canonical (op : String) : String :=
  if isWord op then upper op else op

/-- What a name may go on with; a word operator ends before any other character. -/
def isNameChar (c : Char) : Bool :=
  isLetterOrNumber c || c == '_' || c == '.'

namespace Operators

/-- No operators. -/
def empty : Operators := ⟨[], []⟩

/-- Adds a binary operator or gives it another precedence. -/
def addBinary (ops : Operators) (op : String) (precedence : Nat) : Operators :=
  { ops with binary := (canonical op, precedence) :: ops.binary.filter (·.1 != canonical op) }

/-- Adds a unary operator. -/
def addUnary (ops : Operators) (op : String) : Operators :=
  { ops with unary := canonical op :: ops.unary.filter (· != canonical op) }

/-- The precedence of a binary operator. -/
def precedence? (ops : Operators) (op : String) : Option Nat :=
  ops.binary.lookup (canonical op)

/-- Whether an operator is unary. -/
def isUnary (ops : Operators) (op : String) : Bool :=
  ops.unary.contains (canonical op)

/-- The usual operators of SQL. -/
def default : Operators :=
  let binary := [("OR", 1), ("AND", 2)] ++
    ["=", "==", "!=", "<>", "<", "<=", ">", ">=", "LIKE"].map (·, 3) ++
    ["+", "-", "||"].map (·, 4) ++ ["*", "/", "%"].map (·, 5)
  ⟨binary, ["NOT", "-"]⟩

/-- Whether a name is taken by an operator. -/
def reserves (ops : Operators) (name : String) : Bool :=
  (ops.binary.lookup (upper name)).isSome || ops.unary.contains (upper name)

/-- Increasing precedences with one more, which is put into its place unless it is there. -/
def insertLevel (precedence : Nat) : List Nat → List Nat
  | [] => [precedence]
  | level :: levels =>
    if precedence < level then precedence :: level :: levels
    else if precedence = level then level :: levels
    else level :: insertLevel precedence levels

/-- The precedences in use, the lowest first. -/
def levels (ops : Operators) : List Nat :=
  ops.binary.foldr (fun entry levels => insertLevel entry.2 levels) []

end Operators

/-- What follows `op` in a text that starts with it, up to the case of ASCII letters. -/
def stripLetters : List Char → List Char → Option (List Char)
  | [], s => some s
  | _ :: _, [] => none
  | o :: op, c :: s => if o.toUpper == c.toUpper then stripLetters op s else none

/-- What follows `op` in a text that starts with it. -/
def stripExact : List Char → List Char → Option (List Char)
  | [], s => some s
  | _ :: _, [] => none
  | o :: op, c :: s => if o == c then stripExact op s else none

/-- Whether a name goes on at the front of a text. -/
def continuesName : List Char → Bool
  | [] => false
  | c :: _ => isNameChar c

/-- What follows an operator in a text that starts with it; after a word no name may go on. -/
def stripOperator (op : String) (s : List Char) : Option (List Char) :=
  if isWord op then
    match stripLetters op.toList s with
    | some rest => if continuesName rest then none else some rest
    | none => none
  else
    stripExact op.toList s

/-- The longest of the operators at the front of a text, and what follows it. -/
def longestMatch : List String → List Char → Option (String × List Char)
  | [], _ => none
  | op :: ops, s =>
    match stripOperator op s, longestMatch ops s with
    | none, best => best
    | some rest, none => some (op, rest)
    | some rest, some best =>
      if best.1.utf8ByteSize < op.utf8ByteSize then some (op, rest) else some best

end QuerySteps.Formula
