import QuerySteps.Proofs.Decimal.Integers
import QuerySteps.Proofs.Formula.Operands

/-!
# The trees of formulas

Not every tree is the tree of a formula.  `WellFormed` says which can be: operators with one or two
arguments that the table has as unary or binary ones, names and functions that no operator takes,
literals that can be written, and no minus sign over a number, since the reader makes it a part of
the number.  Every such tree has an expression (`WellFormed.exists_toExpr`).

`wellFormed_of_parse` shows that nothing else is ever read.  It goes through the layers of the
reader, like the results about where formulas end; the one step that is not structural is the
negative of a literal, which is a literal again.
-/

namespace QuerySteps

/-! ## Negatives -/

namespace Scalar

/-- Up to `2 ^ 63` in size, an integer has a negative integer, except for the least one. -/
theorem negated_integer {n : Int} (h : -n < 2 ^ 63) (h' : n ≤ 2 ^ 63) :
    negated (.integer n) = .integer (-n) := by
  have hwraps : n ≠ leastInteger := by
    unfold leastInteger
    omega
  have hleast : leastInteger ≤ -n := by
    unfold leastInteger
    omega
  rw [negated, if_neg hwraps, if_pos hleast]

theorem negated_large {n : Int} (h : 2 ^ 63 < n) :
    negated (.integer n) = .float (-Float.ofInt n) := by
  have hwraps : n ≠ leastInteger := by
    unfold leastInteger
    omega
  have hleast : ¬ leastInteger ≤ -n := by
    unfold leastInteger
    omega
  rw [negated, if_neg hwraps, if_neg hleast]

end Scalar

namespace Formula

open Text (skipSpace)

/-! ## Well-formed trees -/

/-- The literals of formulas: texts, integers that are kept exactly, and finite doubles. -/
inductive IsLiteral : Scalar → Prop
  | text (s : String) : IsLiteral (.text s)
  | integer {n : Int} (range : Scalar.inRange n) : IsLiteral (.integer n)
  | float {x : Float} (finite : x.isFinite) : IsLiteral (.float x)

/-- The trees that formulas stand for. -/
inductive WellFormed (ops : Operators) : Tree → Prop
  | literal {value : Scalar} (isLiteral : IsLiteral value) : WellFormed ops (.literal value)
  | name {name : String} (isName : IsName ops name) : WellFormed ops (.name name)
  | function {name : String} {args : List Tree} (isName : IsName ops name)
      (wellFormed : ∀ arg ∈ args, WellFormed ops arg) : WellFormed ops (.function name args)
  | unary {op : String} {operand : Tree} (mem : op ∈ ops.unary)
      (folded : op = "-" → ∀ value, operand = .literal value → value.isNumeric = false)
      (wellFormed : WellFormed ops operand) : WellFormed ops (.operator op [operand])
  | binary {op : String} {left right : Tree} (mem : op ∈ ops.keys)
      (wellFormedLeft : WellFormed ops left) (wellFormedRight : WellFormed ops right) :
      WellFormed ops (.operator op [left, right])

/-- Trees that each have an expression with a property have expressions together. -/
theorem exists_toExprs {P : Expr → Tree → Prop} {args : List Tree}
    (h : ∀ arg ∈ args, ∃ e, arg.toExpr = .ok e ∧ P e arg) :
    ∃ es, Tree.toExprs args = .ok es ∧ List.Forall₂ P es args := by
  induction args with
  | nil => exact ⟨[], rfl, .nil⟩
  | cons arg args ih =>
    obtain ⟨e, he, hP⟩ := h arg List.mem_cons_self
    obtain ⟨es, hes, hPs⟩ := ih fun arg harg => h arg (List.mem_cons_of_mem _ harg)
    exact ⟨e :: es, by simp only [Tree.toExprs, he, hes], .cons hP hPs⟩

/-- **A well-formed tree has an expression.** -/
theorem WellFormed.exists_toExpr {ops : Operators} {tree : Tree} (h : WellFormed ops tree) :
    ∃ e, tree.toExpr = .ok e := by
  induction h with
  | @literal value _ => exact ⟨.literal value, rfl⟩
  | @name name _ => exact ⟨.named name, rfl⟩
  | @function name args _ _ ih =>
    have hargs : ∀ arg ∈ args, ∃ e, arg.toExpr = .ok e ∧ True := by
      intro arg harg
      obtain ⟨e, he⟩ := ih arg harg
      exact ⟨e, he, trivial⟩
    obtain ⟨es, hes, -⟩ := exists_toExprs (P := fun _ _ => True) hargs
    exact ⟨.call name es, by simp only [Tree.toExpr, hes]⟩
  | @unary op operand _ _ _ ih =>
    obtain ⟨e, he⟩ := ih
    exact ⟨.unary op e, by simp only [Tree.toExpr, Tree.toExprs, he]⟩
  | @binary op left right _ _ _ ihLeft ihRight =>
    obtain ⟨l, hl⟩ := ihLeft
    obtain ⟨r, hr⟩ := ihRight
    exact ⟨.binary l op r, by simp only [Tree.toExpr, Tree.toExprs, hl, hr]⟩

variable {ops : Operators} {f : List Char → Read} {d fuel : Nat} {s r : List Char} {tree : Tree}

/-! ## Literals -/

theorem inRange_iff {n : Int} :
    Scalar.inRange n = true ↔ -9223372036854775808 ≤ n ∧ n ≤ 18446744073709551615 := by
  simp only [Scalar.inRange, Bool.and_eq_true, decide_eq_true_eq]
  rfl

/-- **The negative of a literal number is a literal number.** -/
theorem IsLiteral.negated {value : Scalar} (h : IsLiteral value) : IsLiteral value.negated := by
  cases h with
  | text s => exact .text s
  | float finite => exact .float (Decimal.isFinite_neg finite)
  | @integer n range =>
    obtain ⟨hlow, hhigh⟩ := inRange_iff.mp range
    have hleast : Scalar.leastInteger = -9223372036854775808 := rfl
    rw [Scalar.negated, hleast]
    split
    · exact .integer range
    · split
      · next h => exact .integer (inRange_iff.mpr ⟨h, by omega⟩)
      · have hfinite : (Float.ofInt n).isFinite := Decimal.isFinite_ofInt (by omega)
        exact .float (Decimal.isFinite_neg hfinite)

theorem isLiteral_of_number? {value : Scalar} (h : number? s = .ok (some (value, r))) :
    IsLiteral value := by
  unfold number? at h
  split at h
  · cases h
  · next n rest _ =>
    split at h
    · cases h
    · cases hv : n.value? false with
      | none => simp [hv] at h
      | some v =>
        obtain ⟨rfl, -⟩ : v = value ∧ rest = r := by simpa [hv] using h
        simp only [Numeral.value?, Numeral.valueBy?, Bool.false_eq_true, if_false] at hv
        split at hv
        · next hwhole =>
          cases hv
          exact .integer hwhole.2
        · obtain ⟨x, hx, rfl⟩ := Option.map_eq_some_iff.mp hv
          exact .float (Decimal.isFinite_of_toFloat? hx)

/-! ## Layers -/

private theorem isName_of_name? {name : String} (h : name? s = some (name, r))
    (hfree : ops.reserves name = false) : IsName ops name := by
  refine ⟨?_, hfree⟩
  cases s with
  | nil => cases h
  | cons c s =>
    rw [name?] at h
    split at h
    · next hc =>
      cases h
      refine ⟨c, s.takeWhile isNameChar, by simp, hc, ?_⟩
      intro c' hc'
      exact List.mem_takeWhile_imp hc'
    · cases h

private theorem arguments_wellFormed (hf : ∀ s tree r, f s = .ok (tree, r) → WellFormed ops tree)
    {args : List Tree} (h : arguments f fuel s = .ok (args, r)) :
    ∀ arg ∈ args, WellFormed ops arg := by
  induction fuel generalizing s args with
  | zero => cases h
  | succ fuel ih =>
    rw [arguments] at h
    split at h
    · cases h
    · next arg rest harg =>
      have hfirst := hf _ _ _ harg
      split at h
      · split at h
        · cases h
        · next args' r' hargs =>
          cases h
          intro a ha
          rcases List.mem_cons.mp ha with rfl | ha
          · exact hfirst
          · exact ih hargs a ha
      · cases h
        intro a ha
        rcases List.mem_cons.mp ha with rfl | ha
        · exact hfirst
        · exact (List.not_mem_nil ha).elim
      · cases h

private theorem call_wellFormed (hf : ∀ s tree r, f s = .ok (tree, r) → WellFormed ops tree)
    {name : String} (hname : IsName ops name) (h : call f name s = .ok (tree, r)) :
    WellFormed ops tree := by
  rw [call] at h
  split at h
  · cases h
    exact .function hname fun _ h => (List.not_mem_nil h).elim
  · split at h
    · cases h
    · next args rest hargs =>
      cases h
      exact .function hname (arguments_wellFormed hf hargs)

private theorem named_wellFormed (hf : ∀ s tree r, f s = .ok (tree, r) → WellFormed ops tree)
    (h : named ops f s = .ok (tree, r)) : WellFormed ops tree := by
  rw [named] at h
  split at h
  · cases h
  · next name rest hname? =>
    split at h
    · cases h
    · next hfree =>
      have hname := isName_of_name? hname? (by simpa using hfree)
      split at h
      · exact call_wellFormed hf hname h
      · cases h
        exact .name hname

private theorem primaryHere_wellFormed (hf : ∀ s tree r, f s = .ok (tree, r) → WellFormed ops tree)
    (h : primaryHere ops f s = .ok (tree, r)) : WellFormed ops tree := by
  by_cases hopening : ∃ rest, s = '(' :: rest
  · obtain ⟨rest, rfl⟩ := hopening
    change parenthesised f rest = _ at h
    rw [parenthesised] at h
    split at h
    · cases h
    · next inner after hinner =>
      split at h
      · cases h
        exact hf _ _ _ hinner
      · cases h
  · rw [primaryHere_token ops f fun rest hs => hopening ⟨rest, hs⟩] at h
    split at h
    · cases h
    · cases h
      exact .literal (.text _)
    · split at h
      · cases h
      · next value rest hnumber =>
        cases h
        exact .literal (isLiteral_of_number? hnumber)
      · exact named_wellFormed hf h

/-- A unary operator over a well-formed tree, with the minus sign of a number folded into it. -/
theorem applyUnary_wellFormed {op : String} (hop : op ∈ ops.unary) (h : WellFormed ops tree) :
    WellFormed ops (applyUnary op tree) := by
  cases tree with
  | literal value =>
    rw [applyUnary]
    split
    · cases h with
      | literal isLiteral => exact .literal isLiteral.negated
    · next hfold =>
      refine .unary hop ?_ h
      rintro rfl value' hvalue
      cases hvalue
      simpa using hfold
  | operator op' args => exact .unary hop (fun _ _ h => Tree.noConfusion h) h
  | function name args => exact .unary hop (fun _ _ h => Tree.noConfusion h) h
  | name name => exact .unary hop (fun _ _ h => Tree.noConfusion h) h

private theorem operand_wellFormed (hf : ∀ s tree r, f s = .ok (tree, r) → WellFormed ops tree)
    (h : operand ops (primary ops f) fuel s = .ok (tree, r)) : WellFormed ops tree := by
  induction fuel generalizing s tree with
  | zero => cases h
  | succ fuel ih =>
    rw [operand] at h
    split at h
    · exact primaryHere_wellFormed hf h
    · next op rest hop =>
      split at h
      · cases h
      · next inner after hinner =>
        cases h
        exact applyUnary_wellFormed (mem_of_longestMatch hop).1 (ih hinner)

private theorem more_wellFormed {tighter : List Char → Read} {precedence : Nat} {left : Tree}
    (hf : ∀ s tree r, tighter s = .ok (tree, r) → WellFormed ops tree)
    (hleft : WellFormed ops left) (h : more ops tighter precedence fuel left s = .ok (tree, r)) :
    WellFormed ops tree := by
  induction fuel generalizing left s with
  | zero =>
    cases h
    exact hleft
  | succ fuel ih =>
    rw [more] at h
    split at h
    · cases h
      exact hleft
    · next op rest hop =>
      split at h
      · split at h
        · cases h
        · next right after hright =>
          have hmem : op ∈ ops.keys := (mem_of_longestMatch hop).1
          exact ih (.binary hmem hleft (hf _ _ _ hright)) h
      · cases h
        exact hleft

private theorem chain_wellFormed {operand : List Char → Read} {levels : List Nat}
    (hf : ∀ s tree r, operand s = .ok (tree, r) → WellFormed ops tree)
    (h : chain ops operand levels s = .ok (tree, r)) : WellFormed ops tree := by
  induction levels generalizing s tree r with
  | nil => exact hf _ _ _ h
  | cons precedence tighter ih =>
    rw [chain] at h
    split at h
    · cases h
    · next left rest hleft => exact more_wellFormed (fun _ _ _ => ih) (ih hleft) h

/-- Formulas of any depth have well-formed trees, whatever the operators. -/
theorem wellFormed_of_formula (h : formula ops d s = .ok (tree, r)) : WellFormed ops tree := by
  induction d generalizing s tree r with
  | zero => cases h
  | succ d ih =>
    have hoperand : ∀ s tree r, operandAt ops d s = .ok (tree, r) → WellFormed ops tree :=
      fun _ _ _ h => operand_wellFormed (fun _ _ _ h => ih h) h
    rw [formula_succ] at h
    exact chain_wellFormed hoperand h

/-- **Every tree that is read is well-formed.** -/
theorem wellFormed_of_parse {text : String} (h : parse ops text = .ok tree) :
    WellFormed ops tree := by
  unfold parse at h
  split at h
  · cases h
  · next found hread =>
    cases h
    obtain ⟨r, hformula, -⟩ := read_eq_ok_iff.mp hread
    exact wellFormed_of_formula hformula

end Formula

end QuerySteps
