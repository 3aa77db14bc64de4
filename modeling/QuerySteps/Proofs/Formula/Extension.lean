import QuerySteps.Proofs.Formula.ReaderEnds

/-!
# Extensions of the usual operators

Tables of operators that are made from the usual one by adding binary operators, each a word of
ASCII letters or a run of marks, at any precedence; an operator that is there already only changes
its precedence.  All their operators can be told from what stands around them
(`ExtendsDefault.regular`), and their unary operators are those of the usual table.
-/

namespace QuerySteps.Formula

open Text (isLetter upper upperChar)

/-! ## The form in which an operator is kept -/

/-- Operators that may be added to a table: words of ASCII letters and runs of marks. -/
def Addable (op : String) : Prop :=
  op ≠ "" ∧ ((∀ c ∈ op.toList, c.isAlpha) ∨ ∀ c ∈ op.toList, isMark c)

private theorem flatMap_upperChar {cs : List Char} (h : ∀ c ∈ cs, c.isAlpha) :
    cs.flatMap upperChar = cs.map Char.toUpper := by
  induction cs with
  | nil => rfl
  | cons c cs ih =>
    have hc : upperChar c = [c.toUpper] := by
      unfold Text.upperChar
      rw [if_pos (toNat_lt_of_isAlpha (h c List.mem_cons_self))]
    rw [List.flatMap_cons, hc, ih fun c' hc' => h c' (List.mem_cons_of_mem _ hc')]
    rfl

/-- The upper case of ASCII letters is taken letter by letter. -/
theorem toList_upper_of_isAlpha {s : String} (h : ∀ c ∈ s.toList, c.isAlpha) :
    (upper s).toList = s.toList.map Char.toUpper := by
  rw [Text.upper, String.toList_ofList, flatMap_upperChar h]

private theorem toList_ne_nil {op : String} (h : op ≠ "") : op.toList ≠ [] := by
  intro hnil
  apply h
  apply String.toList_injective
  simpa using hnil

/-- Operators that may be added can be told from what stands around them. -/
theorem Addable.spelled {op : String} (h : Addable op) : Spelled (canonical op) := by
  obtain ⟨hne, halpha | hmarks⟩ := h
  · have hword : isWord op = true := by
      rw [isWord, List.all_eq_true]
      exact fun c hc => isLetter_of_isAlpha (halpha c hc)
    rw [canonical, if_pos hword]
    apply Spelled.word
    · rw [toList_upper_of_isAlpha halpha]
      simpa using toList_ne_nil hne
    · rw [toList_upper_of_isAlpha halpha]
      intro c hc
      obtain ⟨c', hc', rfl⟩ := List.mem_map.mp hc
      exact isUpper_toUpper_iff.mpr (halpha c' hc')
  · have hword := isWord_of_marks (toList_ne_nil hne) hmarks
    rw [canonical, if_neg (by simp [hword])]
    exact .marks (toList_ne_nil hne) hmarks

/-! ## Tables -/

namespace Operators

variable {ops : Operators}

/-- The tables made from the usual one by adding binary operators. -/
inductive ExtendsDefault : Operators → Prop
  | usual : ExtendsDefault .default
  | add {ops : Operators} {op : String} (h : ExtendsDefault ops) (addable : Addable op)
      (precedence : Nat) : ExtendsDefault (ops.addBinary op precedence)

theorem ExtendsDefault.unary_eq (h : ExtendsDefault ops) : ops.unary = ["NOT", "-"] := by
  induction h with
  | usual => rfl
  | add _ _ _ ih => exact ih

private theorem spelled_of_all {op : String}
    (h : op.toList ≠ [] ∧ (op.toList.all Char.isUpper ∨ op.toList.all isMark)) : Spelled op := by
  obtain ⟨hne, hupper | hmark⟩ := h
  · exact .word hne (List.all_eq_true.mp hupper)
  · exact .marks hne (List.all_eq_true.mp hmark)

private theorem default_regular : Regular .default := by
  have hkeys : ∀ op ∈ Operators.default.keys,
      op.toList ≠ [] ∧ (op.toList.all Char.isUpper ∨ op.toList.all isMark) := by decide
  have hunary : ∀ op ∈ Operators.default.unary,
      op.toList ≠ [] ∧ (op.toList.all Char.isUpper ∨ op.toList.all isMark) := by decide
  exact ⟨fun op hop => spelled_of_all (hkeys op hop), fun op hop => spelled_of_all (hunary op hop)⟩

theorem mem_keys_addBinary {op added : String} {precedence : Nat}
    (h : op ∈ (ops.addBinary added precedence).keys) : op = canonical added ∨ op ∈ ops.keys := by
  simp only [keys, addBinary, List.map_cons, List.mem_cons] at h
  rcases h with rfl | h
  · exact .inl rfl
  · obtain ⟨entry, hentry, rfl⟩ := List.mem_map.mp h
    exact .inr (List.mem_map_of_mem (List.mem_filter.mp hentry).1)

/-- An operator stays in the table when another one is added. -/
theorem mem_keys_addBinary_of_mem {op added : String} {precedence : Nat} (h : op ∈ ops.keys) :
    op ∈ (ops.addBinary added precedence).keys := by
  obtain ⟨entry, hentry, rfl⟩ := List.mem_map.mp h
  by_cases hadded : entry.1 = canonical added
  · rw [hadded]
    exact List.mem_cons_self
  · exact List.mem_cons_of_mem _ (List.mem_map_of_mem (List.mem_filter.mpr ⟨hentry, by simpa⟩))

/-- Extensions keep the usual operators. -/
theorem ExtendsDefault.mem_keys (h : ExtendsDefault ops) {op : String}
    (hop : op ∈ Operators.default.keys) : op ∈ ops.keys := by
  induction h with
  | usual => exact hop
  | add _ _ _ ih => exact mem_keys_addBinary_of_mem ih

/-- **No extension of the usual table makes an operator run into its surroundings.** -/
theorem ExtendsDefault.regular (h : ExtendsDefault ops) : ops.Regular := by
  induction h with
  | usual => exact default_regular
  | add _ addable _ ih =>
    refine ⟨fun op hop => ?_, ih.unary⟩
    rcases mem_keys_addBinary hop with rfl | hop
    · exact addable.spelled
    · exact ih.binary op hop

end Operators

end QuerySteps.Formula
