import QuerySteps.Proofs.Formula.ReaderEnds
import QuerySteps.Proofs.Formula.TokenText

/-!
# What a reader leaves over

Whatever the operators are, even an empty unary one among them, every successful reader of a formula
takes at least one character off the front of its text and leaves over the rest (`Consumes`).  The
layers are followed one by one; `formula_consumes` is the induction on the depth.

So the loops of the reader never come to a place a second time, and what is said about all ends of a
text holds at every place to which a reader of that text comes.
-/

namespace QuerySteps.Formula

open Text (isSpace skipSpace)

/-- What follows at least one character of a text. -/
def Behind (s r : List Char) : Prop := r <:+ s ∧ r.length < s.length

/-- A reader that takes something off the front of its text. -/
def Consumes {α : Type} (f : List Char → Except Failure (α × List Char)) : Prop :=
  ∀ s a r, f s = .ok (a, r) → Behind s r

variable {ops : Operators} {f : List Char → Read} {s t r : List Char} {fuel d : Nat}

theorem Behind.trans (h : Behind s t) (h' : Behind t r) : Behind s r :=
  ⟨h'.1.trans h.1, Nat.lt_trans h'.2 h.2⟩

theorem Behind.of_suffix (h : t <:+ s) (h' : Behind t r) : Behind s r :=
  ⟨h'.1.trans h, Nat.lt_of_lt_of_le h'.2 h.length_le⟩

theorem Behind.suffix (h : Behind s t) (h' : r <:+ t) : Behind s r :=
  ⟨h'.trans h.1, Nat.lt_of_le_of_lt h'.length_le h.2⟩

theorem behind_append {u : List Char} (hu : u ≠ []) (r : List Char) : Behind (u ++ r) r := by
  have hpos := List.length_pos_iff.mpr hu
  refine ⟨List.suffix_append u r, ?_⟩
  simp only [List.length_append]
  omega

theorem behind_cons (c : Char) (r : List Char) : Behind (c :: r) r :=
  behind_append (List.cons_ne_nil c []) r

theorem skipSpace_suffix (s : List Char) : skipSpace s <:+ s :=
  List.dropWhile_suffix isSpace

/-- What follows a character that comes next. -/
theorem behind_of_skipSpace {c : Char} (h : skipSpace s = c :: r) : Behind s r :=
  .of_suffix (skipSpace_suffix s) (h ▸ behind_cons c r)

/-- An operator is taken off the front, if only of nothing. -/
theorem suffix_of_longestMatch {keys : List String} {op : String}
    (h : longestMatch keys s = some (op, r)) : r <:+ s := by
  obtain ⟨w, rfl, -, -⟩ := stripOperator_eq_some_iff.mp (mem_of_longestMatch h).2
  exact List.suffix_append w r

/-! ## Tokens -/

theorem behind_of_name? {name : String} (h : name? s = some (name, r)) : Behind s r := by
  obtain ⟨rfl, ⟨c, rest, hname, -, -⟩, -⟩ := name?_text h
  exact behind_append (by simp [hname]) r

theorem behind_of_number? {v : Scalar} (h : number? s = .ok (some (v, r))) : Behind s r := by
  obtain ⟨-, u, rfl, ⟨c, u', rfl, -⟩, -⟩ := number?_text h
  exact behind_append (List.cons_ne_nil c u') r

theorem behind_of_text? {text : String} (h : text? s = .ok (some (text, r))) : Behind s r := by
  obtain ⟨-, u, rfl, ⟨q, u', rfl, -⟩, -⟩ := text?_text h
  exact behind_append (List.cons_ne_nil q u') r

/-! ## Operands -/

theorem arguments_consumes (hf : Consumes f) (fuel : Nat) : Consumes (arguments f fuel) := by
  induction fuel with
  | zero =>
    intro s args r h
    cases h
  | succ fuel ih =>
    intro s args r h
    rw [arguments] at h
    split at h
    · cases h
    · next arg rest harg =>
      have hrest := hf _ _ _ harg
      split at h
      · next after hafter =>
        split at h
        · cases h
        · next args' r' hargs =>
          cases h
          exact (hrest.trans (behind_of_skipSpace hafter)).trans (ih _ _ _ hargs)
      · next after hafter =>
        cases h
        exact hrest.trans (behind_of_skipSpace hafter)
      · cases h

theorem call_consumes (hf : Consumes f) (name : String) : Consumes (call f name) := by
  intro s tree r h
  rw [call] at h
  split at h
  · next rest hrest =>
    cases h
    exact behind_of_skipSpace hrest
  · split at h
    · cases h
    · next args rest hargs =>
      cases h
      exact .of_suffix (skipSpace_suffix s) (arguments_consumes hf _ _ _ _ hargs)

theorem named_consumes (hf : Consumes f) : Consumes (named ops f) := by
  intro s tree r h
  rw [named] at h
  split at h
  · cases h
  · next name rest hname =>
    have hrest := behind_of_name? hname
    split at h
    · cases h
    · split at h
      · next args hargs =>
        exact (hrest.trans (behind_of_skipSpace hargs)).trans (call_consumes hf name _ _ _ h)
      · cases h
        exact hrest

theorem parenthesised_consumes (hf : Consumes f) : Consumes (parenthesised f) := by
  intro s tree r h
  rw [parenthesised] at h
  split at h
  · cases h
  · next inner rest hinner =>
    split at h
    · next after hafter =>
      cases h
      exact (hf _ _ _ hinner).trans (behind_of_skipSpace hafter)
    · cases h

theorem primaryHere_consumes (hf : Consumes f) : Consumes (primaryHere ops f) := by
  intro s tree r h
  by_cases hopening : ∃ rest, s = '(' :: rest
  · obtain ⟨rest, rfl⟩ := hopening
    exact (behind_cons '(' rest).trans (parenthesised_consumes hf _ _ _ h)
  · rw [primaryHere_token ops f fun rest hs => hopening ⟨rest, hs⟩] at h
    split at h
    · cases h
    · next htext =>
      cases h
      exact behind_of_text? htext
    · split at h
      · cases h
      · next hnumber =>
        cases h
        exact behind_of_number? hnumber
      · exact named_consumes hf _ _ _ h

theorem primary_consumes (hf : Consumes f) : Consumes (primary ops f) :=
  fun s tree r h => .of_suffix (skipSpace_suffix s) (primaryHere_consumes hf _ tree r h)

theorem operand_consumes (hf : Consumes f) (fuel : Nat) : Consumes (operand ops f fuel) := by
  induction fuel with
  | zero =>
    intro s tree r h
    cases h
  | succ fuel ih =>
    intro s tree r h
    rw [operand] at h
    split at h
    · exact .of_suffix (skipSpace_suffix s) (hf _ _ _ h)
    · next op rest hop =>
      split at h
      · cases h
      · next inner rest' hinner =>
        cases h
        have hrest : rest <:+ s := (suffix_of_longestMatch hop).trans (skipSpace_suffix s)
        exact .of_suffix hrest (ih _ _ _ hinner)

theorem operandAt_consumes_of (hf : Consumes (formula ops d)) : Consumes (operandAt ops d) :=
  fun s => operand_consumes (primary_consumes hf) (s.length + 1) s

/-! ## Chains and formulas -/

/-- A chain that has begun may end where it stands. -/
theorem suffix_of_more {tighter : List Char → Read} (hf : Consumes tighter) {precedence : Nat}
    {left tree : Tree} (h : more ops tighter precedence fuel left s = .ok (tree, r)) : r <:+ s := by
  induction fuel generalizing left s with
  | zero =>
    cases h
    exact List.suffix_rfl
  | succ fuel ih =>
    rw [more] at h
    split at h
    · cases h
      exact List.suffix_rfl
    · next op rest hop =>
      have hrest : rest <:+ s := (suffix_of_longestMatch hop).trans (skipSpace_suffix s)
      split at h
      · split at h
        · cases h
        · next right after hright => exact (ih h).trans ((hf _ _ _ hright).1.trans hrest)
      · cases h
        exact List.suffix_rfl

theorem chain_consumes {operand : List Char → Read} (hf : Consumes operand) (levels : List Nat) :
    Consumes (chain ops operand levels) := by
  induction levels with
  | nil => exact hf
  | cons precedence tighter ih =>
    intro s tree r h
    rw [chain] at h
    split at h
    · cases h
    · next left rest hleft => exact (ih _ _ _ hleft).suffix (suffix_of_more ih h)

/-- **Every formula that is read has been taken off the front of the text.** -/
theorem formula_consumes (ops : Operators) (d : Nat) : Consumes (formula ops d) := by
  induction d with
  | zero =>
    intro s tree r h
    cases h
  | succ d ih => exact chain_consumes (operandAt_consumes_of ih) ops.levels

theorem operandAt_consumes (ops : Operators) (d : Nat) : Consumes (operandAt ops d) :=
  operandAt_consumes_of (formula_consumes ops d)

end QuerySteps.Formula
