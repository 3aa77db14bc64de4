import QuerySteps.Text.CaseTable

/-!
# Upper case of a text

Every character is replaced by its upper case, which may be longer than one character; nothing
depends on its neighbours.  Names of column types and operators written as words are compared in
upper case.
-/

namespace QuerySteps.Text

/-- The upper case that a run gives to a code point, if the run holds it. -/
def CaseRun.upper? (run : CaseRun) (n : Nat) : Option Nat :=
  if run.first ≤ n ∧ n ≤ run.last ∧ (n - run.first) % run.step = 0 then
    some (run.target + (n - run.first))
  else
    none

/-- The upper case of one character. -/
def upperChar (c : Char) : List Char :=
  if c.toNat < 0x80 then
    [c.toUpper]
  else
    match caseRuns.findSome? (·.upper? c.toNat) with
    | some n => [Char.ofNat n]
    | none =>
      match longUpperCases.lookup c.toNat with
      | some ns => ns.map Char.ofNat
      | none => [c]

/-- The upper case of a text. -/
def upper (s : String) : String :=
  String.ofList (s.toList.flatMap upperChar)

end QuerySteps.Text
