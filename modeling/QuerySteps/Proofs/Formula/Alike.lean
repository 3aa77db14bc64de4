import QuerySteps.Proofs.Formula.Remainder

/-!
# Tables that read a text alike

A formula depends on the table of operators only through what the reader looks up in it: the longest
operators at the places of the text, the precedences of the binary ones among them, and whether the
names of the text are reserved.  Two tables that agree on these (`Alike`) read the text alike, down
to the place and the cause of a failure (`parse_alike`), even if one of them has precedences that
the other has not.

Layer by layer, two readers are shown to answer the same on all ends of the text (`AgreeOn`); that
they come to no other places is `Consumes`.  The precedences are where the layers differ in number:
one at which no operator of the text stands does nothing (`chain_alike`), so both tables may be
cut down to the precedences that they share.
-/

namespace QuerySteps.Formula

open Text (skipSpace)

/-- Two tables in which the reader of a text finds the same. -/
structure Operators.Alike (ops ops' : Operators) (s : List Char) : Prop where
  binary : ∀ t, t <:+ s → longestMatch ops.keys t = longestMatch ops'.keys t
  precedence : ∀ t, t <:+ s → ∀ op r, longestMatch ops.keys t = some (op, r) →
    ops.binary.lookup op = ops'.binary.lookup op
  unary : ∀ t, t <:+ s → longestMatch ops.unary t = longestMatch ops'.unary t
  reserves : ∀ t, t <:+ s → ∀ name r, name? t = some (name, r) →
    ops.reserves name = ops'.reserves name

/-- Two readers that answer the same on all ends of a text. -/
def AgreeOn {α : Type} (s : List Char) (f g : List Char → α) : Prop :=
  ∀ t, t <:+ s → f t = g t

variable {ops ops' : Operators} {f g : List Char → Read} {s t r : List Char} {fuel d : Nat}

open Operators (Alike)

theorem Operators.Alike.refl (ops : Operators) (s : List Char) : Alike ops ops s :=
  ⟨fun _ _ => rfl, fun _ _ _ _ _ => rfl, fun _ _ => rfl, fun _ _ _ _ _ => rfl⟩

theorem Operators.Alike.symm (h : Alike ops ops' s) : Alike ops' ops s := by
  refine ⟨fun t ht => (h.binary t ht).symm, ?_, fun t ht => (h.unary t ht).symm,
    fun t ht name r hname => (h.reserves t ht name r hname).symm⟩
  intro t ht op r hop
  exact (h.precedence t ht op r ((h.binary t ht).trans hop)).symm

/-! ## Operands -/

theorem arguments_alike (hf : Consumes f) (hagree : AgreeOn s f g) (fuel : Nat) :
    AgreeOn s (arguments f fuel) (arguments g fuel) := by
  induction fuel with
  | zero =>
    intro t _
    rfl
  | succ fuel ih =>
    intro t ht
    simp only [arguments, ← hagree t ht]
    split
    · rfl
    · next arg rest harg =>
      split
      · next after hafter =>
        have hbehind := (hf _ _ _ harg).trans (behind_of_skipSpace hafter)
        rw [ih after (hbehind.1.trans ht)]
      · rfl
      · rfl

theorem call_alike (hf : Consumes f) (hagree : AgreeOn s f g) (name : String) :
    AgreeOn s (call f name) (call g name) := by
  intro t ht
  unfold call
  split
  · rfl
  · rw [arguments_alike hf hagree _ _ ((skipSpace_suffix t).trans ht)]

theorem named_alike (h : Alike ops ops' s) (hf : Consumes f) (hagree : AgreeOn s f g) :
    AgreeOn s (named ops f) (named ops' g) := by
  intro t ht
  unfold named
  split
  · rfl
  · next name rest hname =>
    rw [h.reserves t ht name rest hname]
    split
    · rfl
    · split
      · next args hargs =>
        have hbehind := (behind_of_name? hname).trans (behind_of_skipSpace hargs)
        exact call_alike hf hagree name args (hbehind.1.trans ht)
      · rfl

theorem parenthesised_alike (hagree : AgreeOn s f g) :
    AgreeOn s (parenthesised f) (parenthesised g) := by
  intro t ht
  simp only [parenthesised, hagree t ht]

theorem primaryHere_alike (h : Alike ops ops' s) (hf : Consumes f) (hagree : AgreeOn s f g) :
    AgreeOn s (primaryHere ops f) (primaryHere ops' g) := by
  intro t ht
  by_cases hopening : ∃ rest, t = '(' :: rest
  · obtain ⟨rest, rfl⟩ := hopening
    exact parenthesised_alike hagree rest ((List.suffix_cons _ rest).trans ht)
  · have hopening : ∀ rest, t ≠ '(' :: rest := fun rest hs => hopening ⟨rest, hs⟩
    rw [primaryHere_token ops f hopening, primaryHere_token ops' g hopening,
      named_alike h hf hagree t ht]

theorem operand_alike (h : Alike ops ops' s) (hf : Consumes f) (hagree : AgreeOn s f g)
    (fuel : Nat) :
    AgreeOn s (operand ops (primary ops f) fuel) (operand ops' (primary ops' g) fuel) := by
  induction fuel with
  | zero =>
    intro t _
    rfl
  | succ fuel ih =>
    intro t ht
    have hskip : skipSpace t <:+ s := (skipSpace_suffix t).trans ht
    simp only [operand, ← h.unary _ hskip]
    split
    · exact primaryHere_alike h hf hagree _ ((skipSpace_suffix _).trans hskip)
    · next op rest hop =>
      rw [ih rest ((suffix_of_longestMatch hop).trans hskip)]

/-! ## Chains -/

theorem more_alike (h : Alike ops ops' s) (hf : Consumes f) (hagree : AgreeOn s f g)
    (precedence fuel : Nat) (left : Tree) :
    AgreeOn s (more ops f precedence fuel left) (more ops' g precedence fuel left) := by
  induction fuel generalizing left with
  | zero =>
    intro t _
    rfl
  | succ fuel ih =>
    intro t ht
    have hskip : skipSpace t <:+ s := (skipSpace_suffix t).trans ht
    have hbinary : longestMatch (ops'.binary.map (·.1)) (skipSpace t) =
        longestMatch (ops.binary.map (·.1)) (skipSpace t) := (h.binary _ hskip).symm
    simp only [more, hbinary]
    split
    · rfl
    · next op rest hop =>
      have hrest : rest <:+ s := (suffix_of_longestMatch hop).trans hskip
      rw [h.precedence _ hskip op rest hop]
      split
      · rw [hagree rest hrest]
        split
        · rfl
        · next right after hright =>
          rw [← hagree rest hrest] at hright
          exact ih _ after ((hf _ _ _ hright).1.trans hrest)
      · rfl

/-- The operators that stand in a text have only precedences with a property. -/
def Operators.Within (ops : Operators) (s : List Char) (keep : Nat → Bool) : Prop :=
  ∀ t, t <:+ s → ∀ op r p, longestMatch ops.keys t = some (op, r) →
    ops.binary.lookup op = some p → keep p

/-- A chain of a precedence that no operator of the text has does not begin. -/
theorem more_idle {keep : Nat → Bool} (hwithin : ops.Within s keep) {precedence : Nat}
    (hidle : keep precedence = false) (left : Tree) (ht : t <:+ s) :
    more ops f precedence (fuel + 1) left t = .ok (left, t) := by
  rw [more]
  split
  · rfl
  · next op rest hop =>
    have hskip : skipSpace t <:+ s := (skipSpace_suffix t).trans ht
    rw [if_neg]
    intro hprecedence
    have hkeep := hwithin _ hskip op rest precedence hop hprecedence
    rw [hidle] at hkeep
    cases hkeep

/-- **Precedences that no operator of the text has may be left out of a chain.** -/
theorem chain_alike (h : Alike ops ops' s) (hf : Consumes f) (hagree : AgreeOn s f g)
    {keep : Nat → Bool} (hwithin : ops.Within s keep) (levels : List Nat) :
    AgreeOn s (chain ops f levels) (chain ops' g (levels.filter keep)) := by
  induction levels with
  | nil => exact hagree
  | cons precedence tighter ih =>
    intro t ht
    have hconsumes : Consumes (chain ops f tighter) := chain_consumes hf tighter
    cases hkeep : keep precedence with
    | true =>
      rw [List.filter_cons_of_pos hkeep, chain, chain, ih t ht]
      split
      · rfl
      · next left rest hleft =>
        rw [← ih t ht] at hleft
        have hrest : rest <:+ s := (hconsumes _ _ _ hleft).1.trans ht
        exact more_alike h hconsumes ih precedence _ left rest hrest
    | false =>
      rw [List.filter_cons_of_neg (by simp [hkeep]), ← ih t ht, chain]
      split
      · next e he => exact he.symm
      · next left rest hleft =>
        have hrest : rest <:+ s := (hconsumes _ _ _ hleft).1.trans ht
        rw [more_idle hwithin hkeep left hrest, hleft]

/-! ## Formulas -/

/-- The operators that a text has in either table have precedences of the other. -/
theorem Operators.Alike.within (h : Alike ops ops' s) :
    ops.Within s fun p => decide (p ∈ ops'.levels) := by
  intro t ht op r p hop hp
  rw [h.precedence t ht op r hop] at hp
  obtain ⟨l₁, l₂, hbinary, -⟩ := List.lookup_eq_some_iff.mp hp
  exact decide_eq_true (mem_levels.mpr ⟨op, by simp [hbinary]⟩)

/-- Cut down to the precedences of each other, two tables have the same. -/
theorem levels_shared (ops ops' : Operators) :
    ops.levels.filter (fun p => decide (p ∈ ops'.levels)) =
      ops'.levels.filter fun p => decide (p ∈ ops.levels) := by
  refine List.Pairwise.eq_of_mem_iff (ops.levels_ordered.filter _) (ops'.levels_ordered.filter _) ?_
  intro p
  simp only [List.mem_filter, decide_eq_true_eq]
  exact and_comm

theorem formula_alike (h : Alike ops ops' s) (d : Nat) :
    AgreeOn s (formula ops d) (formula ops' d) := by
  induction d with
  | zero =>
    intro t _
    rfl
  | succ d ih =>
    have hoperand : AgreeOn s (operandAt ops d) (operandAt ops' d) :=
      fun t ht => operand_alike h (formula_consumes ops d) ih (t.length + 1) t ht
    have hleft := chain_alike h (operandAt_consumes ops d) hoperand h.within ops.levels
    have hright := chain_alike (.refl ops' s) (operandAt_consumes ops' d) (fun _ _ => rfl)
      h.symm.within ops'.levels
    intro t ht
    calc chain ops (operandAt ops d) ops.levels t
        = chain ops' (operandAt ops' d)
            (ops.levels.filter fun p => decide (p ∈ ops'.levels)) t := hleft t ht
      _ = chain ops' (operandAt ops' d)
            (ops'.levels.filter fun p => decide (p ∈ ops.levels)) t := by rw [levels_shared]
      _ = chain ops' (operandAt ops' d) ops'.levels t := (hright t ht).symm

/-- **Tables in which the reader finds the same read a text alike**: they give one tree or one
error. -/
theorem parse_alike {text : String} (h : Alike ops ops' text.toList) :
    parse ops text = parse ops' text := by
  have hread : read ops text.toList = read ops' text.toList := by
    unfold read
    rw [formula_alike h _ _ List.suffix_rfl]
  simp only [parse, hread]

end QuerySteps.Formula
