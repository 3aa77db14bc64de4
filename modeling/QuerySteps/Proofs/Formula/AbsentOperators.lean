import QuerySteps.Proofs.Formula.Alike
import QuerySteps.Proofs.Text.UpperCase

/-!
# Operators that a text does not contain

Adding an operator to a table changes nothing for the texts that do not contain it, whatever the
table is and wherever the operator is put.  It may compete with longer and shorter operators, move
the others to another level, or reserve a name; but to do any of this, it has to be in the text.

Two ways of containing are looked at, since operators are recognised in two ways: the text may
contain the operator, or its upper case that of the operator (`Absent` excludes both).  The case of
ASCII letters does not matter to a spelling, while names are compared in the upper case of Unicode.
That both come down to the upper case of the text is what `upper_upper` is needed for.
-/

namespace QuerySteps.Formula

open Text (upper upperChar toList_upper upper_upper flatMap_upperChar_congr)

/-- Neither is the operator contained in the text nor is its upper case in that of the text. -/
def Absent (op text : String) : Prop :=
  ¬ op.toList <:+: text.toList ∧ ¬ (upper op).toList <:+: (upper text).toList

variable {ops : Operators} {op text : String} {s t r : List Char}

/-! ## Where an absent operator is not found -/

/-- What a text contains, its upper case contains in upper case. -/
theorem infix_upper {w : List Char} (h : w <:+: text.toList) :
    w.flatMap upperChar <:+: (upper text).toList := by
  obtain ⟨before, behind, htext⟩ := h
  refine ⟨before.flatMap upperChar, behind.flatMap upperChar, ?_⟩
  rw [toList_upper, ← htext, List.flatMap_append, List.flatMap_append]

/-- A spelling of an operator as it is kept is the operator, or has its upper case. -/
theorem eq_or_upper_of_spells {w : List Char} (h : Spells (canonical op) w) :
    w = op.toList ∨ w.flatMap upperChar = (upper op).toList := by
  unfold Spells canonical at h
  by_cases hword : isWord op
  · rw [if_pos hword] at h
    right
    have hupper : w.flatMap upperChar = (upper (upper op)).toList := by
      rw [toList_upper (upper op)]
      split at h
      · exact flatMap_upperChar_congr h
      · rw [h]
    rw [hupper, upper_upper]
  · rw [if_neg hword, if_neg hword] at h
    exact .inl h

/-- An absent operator stands nowhere in the text. -/
theorem stripOperator_of_absent (h : Absent op text) (ht : t <:+ text.toList) :
    stripOperator (canonical op) t = none := by
  cases hstrip : stripOperator (canonical op) t with
  | none => rfl
  | some rest =>
    exfalso
    obtain ⟨w, rfl, hspells, -⟩ := stripOperator_eq_some_iff.mp hstrip
    have hinfix : w <:+: text.toList := (List.prefix_append w rest).isInfix.trans ht.isInfix
    rcases eq_or_upper_of_spells hspells with rfl | hupper
    · exact h.1 hinfix
    · have hcontained := infix_upper hinfix
      rw [hupper] at hcontained
      exact h.2 hcontained

/-- No name of the text is taken by an absent operator. -/
theorem upper_ne_of_absent (h : Absent op text) (ht : t <:+ text.toList) {name : String}
    (hname : name? t = some (name, r)) : upper name ≠ canonical op := by
  intro heq
  obtain ⟨rfl, -, -⟩ := name?_text hname
  have hinfix : name.toList <:+: text.toList :=
    (List.prefix_append name.toList r).isInfix.trans ht.isInfix
  have hupper : upper name = upper op := by
    unfold canonical at heq
    split at heq
    · exact heq
    · rw [← heq, upper_upper]
  have hcontained := infix_upper hinfix
  rw [← toList_upper, hupper] at hcontained
  exact h.2 hcontained

/-! ## Tables with and without an operator -/

/-- Operators that do not stand at the front of a text may be left out. -/
theorem longestMatch_filter {keys : List String} {keep : String → Bool}
    (h : ∀ op ∈ keys, keep op = false → stripOperator op s = none) :
    longestMatch (keys.filter keep) s = longestMatch keys s := by
  induction keys with
  | nil => rfl
  | cons op keys ih =>
    have ih := ih fun op hop => h op (List.mem_cons_of_mem _ hop)
    cases hkeep : keep op with
    | true => rw [List.filter_cons_of_pos hkeep, longestMatch, longestMatch, ih]
    | false =>
      have hnone := h op List.mem_cons_self hkeep
      rw [List.filter_cons_of_neg (by simp [hkeep]), ih, longestMatch, hnone]

/-- An operator that does not stand at the front of a text may be added or moved. -/
theorem longestMatch_add {keys : List String} (h : stripOperator op s = none) :
    longestMatch (op :: keys.filter (· != op)) s = longestMatch keys s := by
  have hfilter : longestMatch (keys.filter (· != op)) s = longestMatch keys s := by
    apply longestMatch_filter
    intro other _ hother
    obtain rfl : other = op := by simpa using hother
    exact h
  rw [longestMatch, h, hfilter]

theorem keys_addBinary (ops : Operators) (op : String) (precedence : Nat) :
    (ops.addBinary op precedence).keys =
      canonical op :: ops.keys.filter (· != canonical op) := by
  simp only [Operators.keys, Operators.addBinary, List.map_cons, List.filter_map]
  rfl

/-- Adding an operator leaves the precedences of the others. -/
theorem lookup_addBinary_of_ne {other : String} (h : other ≠ canonical op) (precedence : Nat) :
    (ops.addBinary op precedence).binary.lookup other = ops.binary.lookup other := by
  have hother : (other == canonical op) = false := by simpa using h
  simp only [Operators.addBinary, List.lookup_cons, hother]
  induction ops.binary with
  | nil => rfl
  | cons entry entries ih =>
    by_cases hentry : entry.1 = canonical op
    · have hne : (other == entry.1) = false := by simpa [hentry] using h
      rw [List.filter_cons_of_neg (by simp [hentry]), ih, List.lookup_cons, hne]
    · rw [List.filter_cons_of_pos (by simpa using hentry), List.lookup_cons, List.lookup_cons, ih]

/-- A text is read alike with another binary operator that it does not contain. -/
theorem alike_addBinary (h : Absent op text) (precedence : Nat) :
    Operators.Alike ops (ops.addBinary op precedence) text.toList := by
  refine ⟨?_, ?_, fun _ _ => rfl, ?_⟩
  · intro t ht
    rw [keys_addBinary, longestMatch_add (stripOperator_of_absent h ht)]
  · intro t ht found r hfound
    refine (lookup_addBinary_of_ne ?_ precedence).symm
    rintro rfl
    have hstrip := (mem_of_longestMatch hfound).2
    rw [stripOperator_of_absent h ht] at hstrip
    cases hstrip
  · intro t ht name r hname
    have hne := upper_ne_of_absent h ht hname
    simp only [Operators.reserves, lookup_addBinary_of_ne hne]
    rfl

/-- A text is read alike with another unary operator that it does not contain. -/
theorem alike_addUnary (h : Absent op text) :
    Operators.Alike ops (ops.addUnary op) text.toList := by
  refine ⟨fun _ _ => rfl, fun _ _ _ _ _ => rfl, ?_, ?_⟩
  · intro t ht
    rw [Operators.addUnary, longestMatch_add (stripOperator_of_absent h ht)]
  · intro t ht name r hname
    have hne := upper_ne_of_absent h ht hname
    have hunary : (ops.addUnary op).unary.contains (upper name) =
        ops.unary.contains (upper name) := by
      rw [Bool.eq_iff_iff]
      simp [Operators.addUnary, hne]
    simp only [Operators.reserves, hunary]
    rfl

/-- **Configuring operators is conservative.**  A table and the table with another operator, binary
of any precedence or unary, read every text alike that does not contain the operator: they give the
same tree, or the same cause at the same position.  The operator may be new, or one that the table
has already. -/
theorem parse_add_absent (ops : Operators) {op text : String} (h : Absent op text)
    (precedence : Nat) :
    parse (ops.addBinary op precedence) text = parse ops text ∧
      parse (ops.addUnary op) text = parse ops text :=
  ⟨(parse_alike (alike_addBinary h precedence)).symm, (parse_alike (alike_addUnary h)).symm⟩

/-- A word in a table where it moves another operator, and a text that has a part of it. -/
theorem parse_add_absent_like :
    Absent "Like" "NOT li = 2 + (li" ∧
      parse (Operators.default.addBinary "Like" 5) "NOT li = 2 + (li" =
        .error ⟨16, .closingExpected⟩ ∧
      parse (Operators.default.addUnary "Like") "NOT li = 2 + (li" =
        .error ⟨16, .closingExpected⟩ := by
  have habsent : Absent "Like" "NOT li = 2 + (li" := by
    refine ⟨?_, ?_⟩ <;> decide
  have herror : parse .default "NOT li = 2 + (li" = .error ⟨16, .closingExpected⟩ := rfl
  obtain ⟨hbinary, hunary⟩ := parse_add_absent .default habsent 5
  rw [herror] at hbinary hunary
  exact ⟨habsent, hbinary, hunary⟩

end QuerySteps.Formula
