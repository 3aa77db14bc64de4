import QuerySteps.Proofs.Formula.Chain

/-!
# Where formulas end

The readers of formulas are built in layers.  For every layer it is shown here, given the same for
the layer below, that a successful reader takes at least one character and that it answers the same
with more text behind and more fuel (`Local`): an operand with anything that stops it, a formula if
in addition no operator follows it.

At the bottom stands the depth of parentheses, so `formula_local` is an induction on the depth.  Its
consequence `formula_succ_eq_ok_iff` describes a formula without its levels of precedence: one
operand, the links behind it as far as they go, and their tree.
-/

namespace QuerySteps.Formula

open Text (skipSpace isSpace)

/-! ## The operators of a table -/

namespace Operators

variable {ops : Operators} {k s : List Char}

/-- Every operator can be told from what stands around it. -/
structure Regular (ops : Operators) : Prop where
  binary : ∀ op ∈ ops.keys, Spelled op
  unary : ∀ op ∈ ops.unary, Spelled op

theorem mem_insertLevel {p q : Nat} {levels : List Nat} :
    q ∈ insertLevel p levels ↔ q = p ∨ q ∈ levels := by
  induction levels with
  | nil => simp [insertLevel]
  | cons level levels ih =>
    simp only [insertLevel]
    split
    · simp
    · split
      · next hp => simp [hp]
      · simp only [List.mem_cons, ih]
        exact or_left_comm

theorem insertLevel_ordered {p : Nat} {levels : List Nat} (h : levels.Pairwise (· < ·)) :
    (insertLevel p levels).Pairwise (· < ·) := by
  induction levels with
  | nil => simp [insertLevel]
  | cons level levels ih =>
    obtain ⟨hlt, hlevels⟩ := List.pairwise_cons.mp h
    simp only [insertLevel]
    split
    · next hp =>
      refine List.pairwise_cons.mpr ⟨?_, h⟩
      intro q hq
      rcases List.mem_cons.mp hq with rfl | hq
      · exact hp
      · exact Nat.lt_trans hp (hlt q hq)
    · split
      · exact h
      · refine List.pairwise_cons.mpr ⟨?_, ih hlevels⟩
        intro q hq
        rcases mem_insertLevel.mp hq with rfl | hq
        · omega
        · exact hlt q hq

/-- The levels increase. -/
theorem levels_ordered (ops : Operators) : ops.levels.Pairwise (· < ·) := by
  unfold levels
  induction ops.binary with
  | nil => exact .nil
  | cons entry entries ih => exact insertLevel_ordered ih

/-- The levels are the precedences of the binary operators. -/
theorem mem_levels {p : Nat} : p ∈ ops.levels ↔ ∃ op, (op, p) ∈ ops.binary := by
  unfold levels
  induction ops.binary with
  | nil => simp
  | cons entry entries ih =>
    obtain ⟨op, q⟩ := entry
    simp only [List.foldr_cons, mem_insertLevel, ih, List.mem_cons, Prod.mk.injEq]
    constructor
    · rintro (rfl | ⟨op', h⟩)
      · exact ⟨op, .inl ⟨rfl, rfl⟩⟩
      · exact ⟨op', .inr h⟩
    · rintro ⟨op', ⟨-, rfl⟩ | h⟩
      · exact .inl rfl
      · exact .inr ⟨op', h⟩

theorem lookup_of_mem_keys {op : String} (h : op ∈ ops.keys) :
    ∃ p ∈ ops.levels, ops.binary.lookup op = some p := by
  obtain ⟨entry, hentry, rfl⟩ := List.mem_map.mp h
  have hsome : (ops.binary.lookup entry.1).isSome := by
    rw [List.lookup_isSome_iff]
    exact ⟨entry, hentry, by simp⟩
  obtain ⟨p, hp⟩ := Option.isSome_iff_exists.mp hsome
  obtain ⟨l₁, l₂, hbinary, -⟩ := List.lookup_eq_some_iff.mp hp
  exact ⟨p, mem_levels.mpr ⟨entry.1, by simp [hbinary]⟩, hp⟩

/-- Where no operator of any level comes next, none comes at all. -/
theorem halts_levels_iff : Halts ops ops.levels k ↔ ops.next? k = none := by
  constructor
  · intro h
    cases hn : ops.next? k with
    | none => rfl
    | some found =>
      obtain ⟨p, hp, hlookup⟩ := lookup_of_mem_keys (mem_of_longestMatch hn).1
      exact absurd hlookup (h found.1 found.2 hn p hp)
  · intro h op rest hn
    rw [h] at hn
    cases hn

theorem next?_append_of_some (hreg : ops.Regular) (hk : endsToken k) {op : String}
    {rest : List Char} (h : ops.next? s = some (op, rest)) :
    ops.next? (s ++ k) = some (op, rest ++ k) := by
  unfold next? at *
  have hs : skipSpace s ≠ [] := by
    intro hs
    rw [hs] at h
    obtain ⟨hop, hstrip⟩ := mem_of_longestMatch h
    rw [stripOperator_nil (hreg.binary op hop)] at hstrip
    cases hstrip
  rw [skipSpace_append_of_ne_nil hs, longestMatch_append hreg.binary hk, h]
  rfl

theorem next?_append_of_none (hreg : ops.Regular) (hk : endsToken k) (h : ops.next? s = none)
    (hnext : skipSpace s ≠ [] ∨ ops.next? k = none) : ops.next? (s ++ k) = none := by
  by_cases hs : skipSpace s = []
  · unfold next? at *
    rw [skipSpace_append_of_eq_nil hs]
    exact hnext.resolve_left (absurd hs)
  · unfold next? at *
    rw [skipSpace_append_of_ne_nil hs, longestMatch_append hreg.binary hk, h]
    rfl

end Operators

/-! ## Layers -/

/-- Two readers that agree on operands: what the first one reads, the second reads with anything
behind it that stops an operand. -/
def LocalOperand (f g : List Char → Read) : Prop :=
  ∀ s tree r, f s = .ok (tree, r) →
    r.length < s.length ∧ ∀ k, Stops k → g (s ++ k) = .ok (tree, r ++ k)

/-- Two readers that agree on formulas: what stands behind a formula must not go on with an operator
either, unless the formula has stopped before. -/
def Local (ops : Operators) (f g : List Char → Read) : Prop :=
  ∀ s tree r, f s = .ok (tree, r) →
    r.length < s.length ∧
      ∀ k, Stops k → (skipSpace r ≠ [] ∨ ops.next? k = none) → g (s ++ k) = .ok (tree, r ++ k)

section

variable {ops : Operators} {f g : List Char → Read}

/-- A place at which a character stands that is not white space stays where it is. -/
private theorem skipSpace_append_cons {r rest : List Char} {c : Char} (h : skipSpace r = c :: rest)
    (k : List Char) : skipSpace (r ++ k) = c :: (rest ++ k) := by
  rw [skipSpace_append_of_ne_nil (by simp [h]), h]
  rfl

private theorem ne_nil_of_skipSpace_eq_cons {r rest : List Char} {c : Char}
    (h : skipSpace r = c :: rest) : skipSpace r ≠ [] := by
  simp [h]

private theorem length_of_skipSpace_eq_cons {r rest : List Char} {c : Char}
    (h : skipSpace r = c :: rest) : rest.length < r.length := by
  have := skipSpace_length_le r
  rw [h, List.length_cons] at this
  omega

theorem arguments_local (hf : Local ops f g) {fuel more : Nat} (hmore : fuel ≤ more)
    {s r : List Char} {args : List Tree} (h : arguments f fuel s = .ok (args, r)) :
    r.length < s.length ∧ ∀ k, Stops k → arguments g more (s ++ k) = .ok (args, r ++ k) := by
  induction fuel generalizing more s args with
  | zero => cases h
  | succ fuel ih =>
    obtain ⟨more, rfl⟩ : ∃ n, more = n + 1 := ⟨more - 1, by omega⟩
    rw [arguments] at h
    split at h
    · cases h
    · next arg rest harg =>
      obtain ⟨hlen, hg⟩ := hf _ _ _ harg
      split at h
      · next after hafter =>
        split at h
        · cases h
        · next args' r' hargs =>
          obtain ⟨rfl, rfl⟩ : arg :: args' = args ∧ r' = r := by simpa using h
          obtain ⟨hlen', hmoreArgs⟩ := ih (Nat.le_of_succ_le_succ hmore) hargs
          have hcomma := length_of_skipSpace_eq_cons hafter
          refine ⟨by omega, fun k hk => ?_⟩
          have hthis := hg k hk (.inl (ne_nil_of_skipSpace_eq_cons hafter))
          simp only [arguments, hthis, skipSpace_append_cons hafter k, hmoreArgs k hk]
      · next after hafter =>
        obtain ⟨rfl, rfl⟩ : [arg] = args ∧ after = r := by simpa using h
        have hclosing := length_of_skipSpace_eq_cons hafter
        refine ⟨by omega, fun k hk => ?_⟩
        have hthis := hg k hk (.inl (ne_nil_of_skipSpace_eq_cons hafter))
        simp only [arguments, hthis, skipSpace_append_cons hafter k]
      · cases h

theorem call_local (hf : Local ops f g) {name : String} {s r : List Char} {tree : Tree}
    (h : call f name s = .ok (tree, r)) :
    r.length < s.length ∧ ∀ k, Stops k → call g name (s ++ k) = .ok (tree, r ++ k) := by
  rw [call] at h
  split at h
  · next rest hrest =>
    obtain ⟨rfl, rfl⟩ : .function name [] = tree ∧ rest = r := by simpa using h
    have hclosing := length_of_skipSpace_eq_cons hrest
    refine ⟨by omega, fun k _ => ?_⟩
    simp only [call, skipSpace_append_cons hrest k]
  · next hopen =>
    split at h
    · cases h
    · next args rest hargs =>
      obtain ⟨rfl, rfl⟩ : .function name args = tree ∧ rest = r := by simpa using h
      have hskip := skipSpace_length_le s
      have hlen := (arguments_local hf (Nat.le_refl _) hargs).1
      refine ⟨by omega, fun k hk => ?_⟩
      have hne : skipSpace s ≠ [] := List.ne_nil_of_length_pos (Nat.zero_lt_of_lt hlen)
      have hmore : (skipSpace s).length + 1 ≤ (skipSpace s ++ k).length + 1 := by
        simp only [List.length_append]
        omega
      have hargs' := (arguments_local hf hmore hargs).2 k hk
      rw [call, skipSpace_append_of_ne_nil hne]
      split
      · next after hafter =>
        obtain ⟨c, cs, hs⟩ := List.exists_cons_of_ne_nil hne
        rw [hs] at hafter
        obtain ⟨rfl, -⟩ : c = ')' ∧ cs ++ k = after := by simpa using hafter
        exact absurd hs (hopen cs)
      · rw [hargs']

theorem named_local (hf : Local ops f g) {s r : List Char} {tree : Tree}
    (h : named ops f s = .ok (tree, r)) :
    r.length < s.length ∧ ∀ k, Stops k → named ops g (s ++ k) = .ok (tree, r ++ k) := by
  rw [named] at h
  split at h
  · cases h
  · next name rest hname =>
    have hlen := name?_length hname
    split at h
    · cases h
    · next hres =>
      split at h
      · next args hargs =>
        obtain ⟨hcall, hcall'⟩ := call_local hf h
        have hopening := length_of_skipSpace_eq_cons hargs
        refine ⟨by omega, fun k hk => ?_⟩
        simp only [named, name?_append hk.ends, hname, Option.map_some, if_neg hres,
          skipSpace_append_cons hargs k]
        exact hcall' k hk
      · next hopening =>
        obtain ⟨rfl, rfl⟩ : .name name = tree ∧ rest = r := by simpa using h
        refine ⟨hlen, fun k hk => ?_⟩
        simp only [named, name?_append hk.ends, hname, Option.map_some, if_neg hres]
        split
        · next args hargs =>
          by_cases hrest : skipSpace rest = []
          · rw [skipSpace_append_of_eq_nil hrest] at hargs
            exact absurd hargs (hk.opening args)
          · obtain ⟨c, cs, hcs⟩ := List.exists_cons_of_ne_nil hrest
            rw [skipSpace_append_cons hcs] at hargs
            obtain ⟨rfl, -⟩ : c = '(' ∧ cs ++ k = args := by simpa using hargs
            exact absurd hcs (hopening cs)
        · rfl

theorem parenthesised_local (hf : Local ops f g) {s r : List Char} {tree : Tree}
    (h : parenthesised f s = .ok (tree, r)) :
    r.length < s.length ∧ ∀ k, Stops k → parenthesised g (s ++ k) = .ok (tree, r ++ k) := by
  rw [parenthesised] at h
  split at h
  · cases h
  · next inner rest hinner =>
    obtain ⟨hlen, hg⟩ := hf _ _ _ hinner
    split at h
    · next after hafter =>
      obtain ⟨rfl, rfl⟩ : inner = tree ∧ after = r := by simpa using h
      have hclosing := length_of_skipSpace_eq_cons hafter
      refine ⟨by omega, fun k hk => ?_⟩
      have hthis := hg k hk (.inl (ne_nil_of_skipSpace_eq_cons hafter))
      simp only [parenthesised, hthis, skipSpace_append_cons hafter k]
    · cases h

/-- An operand that is not in parentheses is the token at its front. -/
theorem primaryHere_token (ops : Operators) (f : List Char → Read) {s : List Char}
    (hopening : ∀ rest, s ≠ '(' :: rest) :
    primaryHere ops f s =
      match text? s with
      | .error e => .error e
      | .ok (some (text, rest)) => .ok (.literal (.text text), rest)
      | .ok none =>
        match number? s with
        | .error e => .error e
        | .ok (some (value, rest)) => .ok (.literal value, rest)
        | .ok none => named ops f s := by
  unfold primaryHere
  split
  · next rest => exact absurd rfl (hopening rest)
  · rfl

private theorem append_ne_opening {s k : List Char} (hopening : ∀ rest, s ≠ '(' :: rest)
    (hk : Stops k) (rest : List Char) : s ++ k ≠ '(' :: rest := by
  intro hs
  cases s with
  | nil =>
    obtain rfl : k = '(' :: rest := hs
    exact hk.opening rest rfl
  | cons c s =>
    obtain ⟨rfl, -⟩ : c = '(' ∧ s ++ k = rest := by simpa using hs
    exact hopening s rfl

theorem primaryHere_local (hf : Local ops f g) :
    LocalOperand (primaryHere ops f) (primaryHere ops g) := by
  intro s tree r h
  by_cases hopening : ∃ rest, s = '(' :: rest
  · obtain ⟨rest, rfl⟩ := hopening
    obtain ⟨hlen, hg⟩ := parenthesised_local hf h
    refine ⟨by simp only [List.length_cons]; omega, fun k hk => ?_⟩
    exact hg k hk
  have hopening : ∀ rest, s ≠ '(' :: rest := fun rest hs => hopening ⟨rest, hs⟩
  rw [primaryHere_token ops f hopening] at h
  split at h
  · cases h
  · next text rest htext =>
    obtain ⟨rfl, rfl⟩ : .literal (.text text) = tree ∧ rest = r := by simpa using h
    refine ⟨text?_length htext, fun k hk => ?_⟩
    rw [primaryHere_token ops g (append_ne_opening hopening hk), text?_append hk htext]
    rfl
  · next htext =>
    split at h
    · cases h
    · next value rest hnumber =>
      obtain ⟨rfl, rfl⟩ : .literal value = tree ∧ rest = r := by simpa using h
      refine ⟨number?_length hnumber, fun k hk => ?_⟩
      rw [primaryHere_token ops g (append_ne_opening hopening hk), text?_append hk htext,
        number?_append hk.ends hnumber]
      rfl
    · next hnumber =>
      obtain ⟨hlen, hg⟩ := named_local hf h
      refine ⟨hlen, fun k hk => ?_⟩
      rw [primaryHere_token ops g (append_ne_opening hopening hk), text?_append hk htext,
        number?_append hk.ends hnumber]
      exact hg k hk

theorem primary_local (hf : Local ops f g) : LocalOperand (primary ops f) (primary ops g) := by
  intro s tree r h
  obtain ⟨hlen, hg⟩ := primaryHere_local hf _ _ _ h
  have hskip := skipSpace_length_le s
  refine ⟨by omega, fun k hk => ?_⟩
  have hne : skipSpace s ≠ [] := List.ne_nil_of_length_pos (Nat.zero_lt_of_lt hlen)
  rw [primary, skipSpace_append_of_ne_nil hne]
  exact hg k hk

theorem operand_local (hreg : ops.Regular) (hp : LocalOperand f g) {fuel more : Nat}
    (hmore : fuel ≤ more) :
    LocalOperand (operand ops f fuel) (operand ops g more) := by
  induction fuel generalizing more with
  | zero =>
    intro s tree r h
    cases h
  | succ fuel ih =>
    obtain ⟨more, rfl⟩ : ∃ n, more = n + 1 := ⟨more - 1, by omega⟩
    intro s tree r h
    have hskip := skipSpace_length_le s
    rw [operand] at h
    split at h
    · next hnone =>
      obtain ⟨hlen, hg⟩ := hp _ _ _ h
      refine ⟨by omega, fun k hk => ?_⟩
      have hne : skipSpace s ≠ [] := List.ne_nil_of_length_pos (Nat.zero_lt_of_lt hlen)
      rw [operand, skipSpace_append_of_ne_nil hne, longestMatch_append hreg.unary hk.ends, hnone]
      exact hg k hk
    · next op rest hsome =>
      obtain ⟨hop, hstrip⟩ := mem_of_longestMatch hsome
      split at h
      · cases h
      · next inner r' hinner =>
        obtain ⟨rfl, rfl⟩ : applyUnary op inner = tree ∧ r' = r := by simpa using h
        obtain ⟨hlen, hg⟩ := ih (Nat.le_of_succ_le_succ hmore) _ _ _ hinner
        have hrest := stripOperator_length hstrip
        refine ⟨by omega, fun k hk => ?_⟩
        have hne : skipSpace s ≠ [] := by
          intro hs
          rw [hs, stripOperator_nil (hreg.unary op hop)] at hstrip
          cases hstrip
        rw [operand, skipSpace_append_of_ne_nil hne, longestMatch_append hreg.unary hk.ends, hsome]
        simp only [Option.map_some, hg k hk]

end

/-! ## Operands and formulas of one depth -/

variable {ops : Operators} {d e : Nat}

/-- An operand with at most `d` levels of parentheses. -/
def operandAt (ops : Operators) (d : Nat) (s : List Char) : Read :=
  operand ops (primary ops (formula ops d)) (s.length + 1) s

theorem formula_succ (ops : Operators) (d : Nat) (s : List Char) :
    formula ops (d + 1) s = chain ops (operandAt ops d) ops.levels s :=
  rfl

theorem operandAt_local (hreg : ops.Regular) (hf : Local ops (formula ops d) (formula ops e)) :
    LocalOperand (operandAt ops d) (operandAt ops e) := by
  intro s tree r h
  obtain ⟨hlen, -⟩ := operand_local hreg (primary_local hf) (Nat.le_refl _) _ _ _ h
  refine ⟨hlen, fun k hk => ?_⟩
  have hmore : s.length + 1 ≤ (s ++ k).length + 1 := by simp
  exact (operand_local hreg (primary_local hf) hmore _ _ _ h).2 k hk

/-- Links stay links when something is put behind them. -/
theorem Links.extend (hreg : ops.Regular) {f g : List Char → Read} (hf : LocalOperand f g)
    {levels : List Nat} {s r k : List Char} {links : List Link} (hk : Stops k)
    (h : Links ops f levels s links r) : Links ops g levels (s ++ k) links (r ++ k) := by
  induction h with
  | done s => exact .done (s ++ k)
  | link next prec level read _ ih =>
    exact .link (Operators.next?_append_of_some hreg hk.ends next) prec level
      ((hf _ _ _ read).2 k hk) ih

private theorem chain_local (hreg : ops.Regular) (hf : LocalOperand (operandAt ops d)
    (operandAt ops e)) (hd : Advances (operandAt ops d)) (he : Advances (operandAt ops e)) :
    Local ops (formula ops (d + 1)) (formula ops (e + 1)) := by
  intro s tree r h
  rw [formula_succ, chain_eq_ok_iff hd ops.levels_ordered] at h
  obtain ⟨first, rest, links, hfirst, hlinks, hr, rfl⟩ := h
  constructor
  · have := hd _ _ _ hfirst
    have := hlinks.length_le hd
    omega
  · intro k hk hnext
    rw [formula_succ, chain_eq_ok_iff he ops.levels_ordered]
    refine ⟨first, rest ++ k, links, (hf _ _ _ hfirst).2 k hk, hlinks.extend hreg hf hk, ?_, rfl⟩
    rw [Operators.halts_levels_iff] at hr ⊢
    exact Operators.next?_append_of_none hreg hk.ends hr hnext

private theorem advances_of_local {f g : List Char → Read} (h : LocalOperand f g) : Advances f :=
  fun s tree r hs => (h s tree r hs).1

private theorem formula_self (hreg : ops.Regular) (d : Nat) :
    Local ops (formula ops d) (formula ops d) := by
  induction d with
  | zero =>
    intro s tree r h
    cases h
  | succ d ih =>
    have hoperand := operandAt_local hreg ih
    exact chain_local hreg hoperand (advances_of_local hoperand) (advances_of_local hoperand)

theorem operandAt_advances (hreg : ops.Regular) (d : Nat) : Advances (operandAt ops d) :=
  advances_of_local (operandAt_local hreg (formula_self hreg d))

/-- **A formula is read the same with more text behind it and more depth**, as long as neither an
operand nor an operator could go on. -/
theorem formula_local (hreg : ops.Regular) (hde : d ≤ e) :
    Local ops (formula ops d) (formula ops e) := by
  induction d generalizing e with
  | zero =>
    intro s tree r h
    cases h
  | succ d ih =>
    obtain ⟨e, rfl⟩ : ∃ n, e = n + 1 := ⟨e - 1, by omega⟩
    exact chain_local hreg (operandAt_local hreg (ih (Nat.le_of_succ_le_succ hde)))
      (operandAt_advances hreg d) (operandAt_advances hreg e)

/-- **An operand is read the same with more text behind it and more depth**, as long as what is
behind it stops it. -/
theorem operandAt_append (hreg : ops.Regular) (hde : d ≤ e) {s r k : List Char} {tree : Tree}
    (h : operandAt ops d s = .ok (tree, r)) (hk : Stops k) :
    operandAt ops e (s ++ k) = .ok (tree, r ++ k) :=
  (operandAt_local hreg (formula_local hreg hde) s tree r h).2 k hk

/-- **A formula is an operand and the links behind it, as far as operators go on**, and its tree is
the one that splitting them gives. -/
theorem formula_succ_eq_ok_iff (hreg : ops.Regular) {s k : List Char} {tree : Tree} :
    formula ops (d + 1) s = .ok (tree, k) ↔
      ∃ first rest links, operandAt ops d s = .ok (first, rest) ∧
        Links ops (operandAt ops d) ops.levels rest links k ∧ ops.next? k = none ∧
        tree = splitTree ops.precedence first links := by
  rw [formula_succ, chain_eq_ok_iff (operandAt_advances hreg d) ops.levels_ordered]
  simp only [Operators.halts_levels_iff]

end QuerySteps.Formula
