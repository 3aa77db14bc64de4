import QuerySteps.Proofs.Formula.Replacement

/-!
# Where a formula goes wrong

A text that is no formula is refused at the first place that went wrong: what stands before the
reported position is the beginning of some formula, and at the position there is the end of the text
or a character that is not white space (`parse_error_viable`).

For the formula that the text could have become, a completion is built from the failing run.  Where an
operand is missing, or a quoted text is not closed, an empty text goes on; where a parenthesis or a
call is not closed, a closing parenthesis does; and each level of parentheses around the failure adds
one more.  That the part before the position is read as it was, although something else stands
behind it, is what `Replacement` supplies.  The layers are followed once more, now for failures: no
layer fails because its fuel or its depth runs out.
-/

namespace QuerySteps.Formula

open Text (isBlank isSpace skipSpace trimStart byteLength byteLength_append)

variable {ops : Operators} {s r k p c gap : List Char} {d fuel : Nat} {tree : Tree} {e : Failure}

/-- At a place there is the end of the text or a character that is not white space. -/
def AtToken (r : List Char) : Prop := ∀ c ∈ r.head?, isSpace c = false

theorem atToken_skipSpace (s : List Char) : AtToken (skipSpace s) := by
  intro c hc
  obtain ⟨r, hr⟩ := List.head?_eq_some_iff.mp hc
  exact isSpace_of_skipSpace hr

theorem Stops.noQuoteNext (hk : Stops k) : NoQuoteNext k := by
  intro c hc
  obtain ⟨rest, hrest⟩ := List.head?_eq_some_iff.mp hc
  exact hk.quote c rest hrest

/-- What may complete a text: it ends the tokens before it. -/
structure Completes (c : List Char) : Prop where
  ends : endsToken c
  nonempty : c ≠ []

theorem Completes.append (h : Completes c) (k : List Char) : Completes (c ++ k) := by
  obtain ⟨d, c, rfl⟩ := List.exists_cons_of_ne_nil h.nonempty
  exact ⟨h.ends, List.cons_ne_nil d _⟩

theorem completes_closing : Completes [')'] := ⟨rfl, List.cons_ne_nil _ _⟩

theorem completes_emptyText : Completes emptyText := ⟨rfl, List.cons_ne_nil _ _⟩

/-- An empty text is an operand. -/
theorem operand_emptyText (hreg : ops.Regular) {f : List Char → Read} (hgap : gap.all isSpace)
    (hk : NoQuoteNext k) :
    operand ops (primary ops f) (fuel + 1) (gap ++ (emptyText ++ k)) =
      .ok (.literal (.text ""), k) := by
  have hpiece : piece? ('\'' :: '\'' :: k) = .ok (some ([], k)) :=
    piece?_eq_some_iff.mpr ⟨'\'', rfl, List.not_mem_nil, rfl⟩
  have htext : text? ('\'' :: '\'' :: k) = .ok (some ("", k)) := by
    simp only [text?, hpiece, morePieces_of_noQuoteNext hk]
  rw [operand_gap hgap]
  exact (operand_blank _).trans (operand_quote hreg rfl htext)

/-- A failure is at a token of its text, and what stands before it has a completion with which it
passes. -/
def Viable (s : List Char) (e : Failure) (passes : List Char → List Char → Prop) : Prop :=
  ∃ p c, s = p ++ e.rest ∧ AtToken e.rest ∧ Completes c ∧ passes p c

/-! ## Failures within parentheses -/

/-- A formula that fails has a beginning that can be completed, before anything that ends it. -/
def FormulaFailures (ops : Operators) (d : Nat) : Prop :=
  ∀ s e, formula ops d s = .error e → s.length < d → Viable s e fun p c =>
    ∀ n k, (p ++ c).length ≤ n → Stops k → ops.next? k = none →
      ∃ tree, formula ops (n + 1) (p ++ (c ++ k)) = .ok (tree, k)

/-- In a failing formula, the completion may be followed by a closing parenthesis. -/
theorem FormulaFailures.closed (hreg : ops.Regular) (hf : FormulaFailures ops d)
    (h : formula ops d s = .error e) (hd : s.length < d) :
    Viable s e fun p c => ∀ n k, (p ++ (c ++ [')'])).length ≤ n →
      ∃ tree, formula ops (n + 1) (p ++ (c ++ [')'] ++ k)) = .ok (tree, ')' :: k) := by
  obtain ⟨p, c, hs, hrest, hc, hagain⟩ := hf s e h hd
  refine ⟨p, c, hs, hrest, hc, ?_⟩
  intro n k hn
  simp only [List.length_append] at hn
  have hnext : ops.next? (')' :: k) = none := next?_of_head hreg rfl rfl rfl k
  obtain ⟨tree, hformula⟩ :=
    hagain n (')' :: k) (by rw [List.length_append]; omega) (.closing k) hnext
  exact ⟨tree, by simpa using hformula⟩

theorem parenthesised_viable (hreg : ops.Regular) (hf : FormulaFailures ops d)
    (h : parenthesised (formula ops d) s = .error e) (hd : s.length < d) :
    Viable s e fun p c => ∀ n k, (p ++ c).length ≤ n →
      ∃ tree, parenthesised (formula ops (n + 1)) (p ++ (c ++ k)) = .ok (tree, k) := by
  rw [parenthesised] at h
  split at h
  · next e' herror =>
    cases h
    obtain ⟨p, c, hs, hrest, hc, hagain⟩ := hf.closed hreg herror hd
    refine ⟨p, c ++ [')'], hs, hrest, hc.append _, ?_⟩
    intro n k hn
    obtain ⟨tree, hformula⟩ := hagain n k hn
    have hskip : skipSpace (')' :: k) = ')' :: k := rfl
    exact ⟨tree, by simp only [parenthesised, hformula, hskip]⟩
  · next inner rest hinner =>
    split at h
    · cases h
    · cases h
      obtain ⟨p, hs, hp⟩ := (formula_text hreg d).ended hreg hinner
      refine ⟨p, [')'], hs, atToken_skipSpace rest, completes_closing, ?_⟩
      intro n k hn
      rw [List.length_append] at hn
      obtain ⟨r', hformula, hskip⟩ := hp n ')' k (.inl rfl) (by omega)
      have htext : p ++ ([')'] ++ k) = p ++ ')' :: k := rfl
      exact ⟨inner, by simp only [htext, parenthesised, hformula, hskip]⟩

theorem arguments_viable (hreg : ops.Regular) (hf : FormulaFailures ops d)
    (h : arguments (formula ops d) fuel s = .error e) (hd : s.length < d) (hfuel : s.length < fuel) :
    Viable s e fun p c => ∀ n more k, (p ++ c).length ≤ n → (p ++ c).length ≤ more →
      ∃ args, arguments (formula ops (n + 1)) more (p ++ (c ++ k)) = .ok (args, k) := by
  induction fuel generalizing s with
  | zero => omega
  | succ fuel ih =>
    rw [arguments] at h
    split at h
    · next e' herror =>
      cases h
      obtain ⟨p, c, hs, hrest, hc, hagain⟩ := hf.closed hreg herror hd
      refine ⟨p, c ++ [')'], hs, hrest, hc.append _, ?_⟩
      intro n more k hn hmore
      obtain ⟨more, rfl⟩ : ∃ n, more = n + 1 :=
        ⟨more - 1, by simp only [List.length_append, List.length_cons] at hmore; omega⟩
      obtain ⟨tree, hformula⟩ := hagain n k hn
      have hskip : skipSpace (')' :: k) = ')' :: k := rfl
      exact ⟨[tree], by simp only [arguments, hformula, hskip]⟩
    · next arg rest harg =>
      obtain ⟨p, hs, hp⟩ := (formula_text hreg d).ended hreg harg
      split at h
      · next after hafter =>
        rw [hafter] at hs
        split at h
        · next e' herror =>
          cases h
          have hlength := congrArg List.length hs
          simp only [List.length_append, List.length_cons] at hlength
          obtain ⟨q, c, rfl, hrest, hc, hagain⟩ := ih herror (by omega) (by omega)
          refine ⟨p ++ ',' :: q, c, by simp [hs], hrest, hc, ?_⟩
          intro n more k hn hmore
          simp only [List.length_append, List.length_cons] at hn hmore
          obtain ⟨more, rfl⟩ : ∃ n, more = n + 1 := ⟨more - 1, by omega⟩
          obtain ⟨r', hfirst, hskip⟩ := hp n ',' (q ++ (c ++ k)) (.inr rfl) (by omega)
          obtain ⟨args, hothers⟩ := hagain n more k
            (by rw [List.length_append]; omega) (by rw [List.length_append]; omega)
          have htext : p ++ ',' :: q ++ (c ++ k) = p ++ ',' :: (q ++ (c ++ k)) := by simp
          exact ⟨arg :: args, by simp only [htext, arguments, hfirst, hskip, hothers]⟩
        · cases h
      · cases h
      · cases h
        refine ⟨p, [')'], hs, atToken_skipSpace rest, completes_closing, ?_⟩
        intro n more k hn hmore
        simp only [List.length_append, List.length_cons] at hn hmore
        obtain ⟨more, rfl⟩ : ∃ n, more = n + 1 := ⟨more - 1, by omega⟩
        obtain ⟨r', hlast, hskip⟩ := hp n ')' k (.inl rfl) (by omega)
        have htext : p ++ ([')'] ++ k) = p ++ ')' :: k := rfl
        exact ⟨[arg], by simp only [htext, arguments, hlast, hskip]⟩

theorem call_viable (hreg : ops.Regular) (hf : FormulaFailures ops d) {name : String}
    (h : call (formula ops d) name s = .error e) (hd : s.length < d) :
    Viable s e fun p c => ∀ n k, (p ++ c).length ≤ n →
      ∃ tree, call (formula ops (n + 1)) name (p ++ (c ++ k)) = .ok (tree, k) := by
  obtain ⟨gap, hgap, hs⟩ := exists_gap s
  rw [call] at h
  split at h
  · cases h
  · next hopen =>
    split at h
    · next e' herror =>
      cases h
      have hskip := skipSpace_length_le s
      obtain ⟨p, c, hp, hrest, hc, hagain⟩ :=
        arguments_viable hreg hf herror (by omega) (by omega)
      rw [hp] at hs
      cases p with
      | nil =>
        -- nothing of the first argument stands there, so the call may end at once
        refine ⟨gap, [')'], hs, hrest, completes_closing, ?_⟩
        intro n k _
        have hskip : skipSpace (gap ++ ([')'] ++ k)) = ')' :: k := skipSpace_gap_cons hgap rfl k
        exact ⟨.function name [], by simp only [call, hskip]⟩
      | cons a p =>
        refine ⟨gap ++ a :: p, c, by simp [hs], hrest, hc, ?_⟩
        intro n k hn
        rw [List.append_assoc, List.length_append] at hn
        have hspace : isSpace a = false := isSpace_of_skipSpace hp
        have hskip : skipSpace (gap ++ a :: p ++ (c ++ k)) = a :: (p ++ (c ++ k)) := by
          rw [List.append_assoc]
          exact skipSpace_gap_cons hgap hspace _
        obtain ⟨args, hargs⟩ := hagain n ((a :: (p ++ (c ++ k))).length + 1) k (by omega) (by
          simp only [List.length_append, List.length_cons]
          omega)
        refine ⟨.function name args, ?_⟩
        rw [call, hskip]
        split
        · next after hafter =>
          obtain ⟨rfl, -⟩ : a = ')' ∧ p ++ (c ++ k) = after := by simpa using hafter
          exact absurd hp (hopen _)
        · rw [List.cons_append] at hargs
          rw [hargs]
    · cases h

/-! ## Operands -/

/-- A name or call fails at its first character, or in the arguments. -/
theorem named_viable (hreg : ops.Regular) (hf : FormulaFailures ops d)
    (h : named ops (formula ops d) s = .error e) (hd : s.length ≤ d) :
    e.rest = s ∨ ∃ name rest, IsName ops name ∧ s = name.toList ++ rest ∧
      Viable rest e fun p c => ∀ n more k, (p ++ c).length < n →
        ∃ tree, operand ops (primary ops (formula ops n)) (more + 1)
          (name.toList ++ (p ++ (c ++ k))) = .ok (tree, k) := by
  rw [named] at h
  split at h
  · cases h
    exact .inl rfl
  · next name rest hname =>
    obtain ⟨rfl, hshape, -⟩ := name?_text hname
    split at h
    · cases h
      exact .inl rfl
    · next hfree =>
      have hisName : IsName ops name := ⟨hshape, by simpa using hfree⟩
      split at h
      · next args hargs =>
        obtain ⟨gap, hgap, hrest⟩ := exists_gap rest
        rw [hargs] at hrest
        have hshort : args.length < d := by
          rw [hrest] at hd
          simp only [List.length_append, List.length_cons] at hd
          omega
        obtain ⟨p, c, rfl, hat, hc, hagain⟩ := call_viable hreg hf h hshort
        refine .inr ⟨name, rest, hisName, rfl, gap ++ '(' :: p, c, by simp [hrest], hat, hc, ?_⟩
        intro n more k hn
        simp only [List.length_append, List.length_cons] at hn
        obtain ⟨n, rfl⟩ : ∃ m, n = m + 1 := ⟨n - 1, by omega⟩
        obtain ⟨tree, hcall⟩ := hagain n k (by rw [List.length_append]; omega)
        have htext : gap ++ '(' :: p ++ (c ++ k) = gap ++ '(' :: (p ++ (c ++ k)) := by simp
        refine ⟨tree, ?_⟩
        rw [htext, operand_name hreg hisName (continuesName_gap hgap rfl)]
        simp only [skipSpace_gap_cons hgap (c := '(') rfl, hcall]
      · cases h

/-- An operand without unary operators fails at its first character, or it has a beginning that can
be completed. -/
theorem primaryHere_viable (hreg : ops.Regular) (hf : FormulaFailures ops d)
    (h : primaryHere ops (formula ops d) s = .error e) (hd : s.length ≤ d) :
    e.rest = s ∨ ∃ a rest, s = a :: rest ∧
      Viable rest e fun p c => ∀ n more k, (p ++ c).length < n → Stops k →
        ∃ tree, operand ops (primary ops (formula ops n)) (more + 1) (a :: (p ++ (c ++ k))) =
          .ok (tree, k) := by
  by_cases hopening : ∃ rest, s = '(' :: rest
  · obtain ⟨rest, rfl⟩ := hopening
    obtain ⟨p, c, rfl, hrest, hc, hagain⟩ := parenthesised_viable hreg hf h hd
    refine .inr ⟨'(', _, rfl, p, c, rfl, hrest, hc, ?_⟩
    intro n more k hn _
    obtain ⟨n, rfl⟩ : ∃ m, n = m + 1 := ⟨n - 1, by omega⟩
    rw [operand_opening hreg]
    exact hagain n k (by omega)
  · rw [primaryHere_token ops _ fun rest hs => hopening ⟨rest, hs⟩] at h
    split at h
    · next e' htext =>
      cases h
      rcases text?_eq_error htext with hrest | ⟨⟨q', s', hrest, hq'⟩, q, u, text, hs, hq, hagain⟩
      · exact .inl hrest
      · have hquote : AtToken e.rest := by
          rw [hrest]
          intro c hc
          obtain rfl : q' = c := by simpa using hc
          rcases eq_of_isQuote hq' with rfl | rfl <;> rfl
        refine .inr ⟨q, _, hs, u, emptyText, rfl, hquote, completes_emptyText, ?_⟩
        intro n more k _ hk
        exact ⟨_, operand_quote hreg hq (hagain k hk.noQuoteNext)⟩
    · cases h
    · split at h
      · next e' hnumber =>
        cases h
        exact .inl (number?_eq_error hnumber)
      · cases h
      · rcases named_viable hreg hf h hd with
          hrest | ⟨name, rest, hname, rfl, p, c, rfl, hrest, hc, hagain⟩
        · exact .inl hrest
        · obtain ⟨a, v, hs, -⟩ := hname.spelled
          refine .inr ⟨a, v ++ (p ++ e.rest), by simp [hs], v ++ p, c, by simp, hrest, hc, ?_⟩
          intro n more k hn _
          obtain ⟨tree, hname'⟩ := hagain n more k
            (by simp only [List.length_append] at hn ⊢; omega)
          rw [hs, List.cons_append, ← List.append_assoc] at hname'
          exact ⟨tree, hname'⟩

/-- An operand that fails has a beginning that can be completed, before anything that stops it. -/
theorem operand_viable (hreg : ops.Regular) (hf : FormulaFailures ops d)
    (h : operand ops (primary ops (formula ops d)) fuel s = .error e) (hd : s.length ≤ d)
    (hfuel : s.length < fuel) :
    Viable s e fun p c => ∀ n more k, (p ++ c).length ≤ n → (p ++ c).length ≤ more → Stops k →
      ∃ tree, operand ops (primary ops (formula ops n)) more (p ++ (c ++ k)) =
        .ok (tree, k) := by
  induction fuel generalizing s with
  | zero => omega
  | succ fuel ih =>
    rw [operand] at h
    split at h
    · obtain ⟨gap, hgap, hs⟩ := exists_gap s
      have hskip := skipSpace_length_le s
      rw [primary, skipSpace_skipSpace] at h
      rcases primaryHere_viable hreg hf h (by omega) with
        hrest | ⟨a, rest, hp, p, c, rfl, hrest, hc, hagain⟩
      · refine ⟨gap, emptyText, by rw [hrest, ← hs], ?_, completes_emptyText, ?_⟩
        · rw [hrest]
          exact atToken_skipSpace s
        · intro n more k _ hmore hk
          simp only [emptyText, List.length_append, List.length_cons] at hmore
          obtain ⟨more, rfl⟩ : ∃ m, more = m + 1 := ⟨more - 1, by omega⟩
          exact ⟨_, operand_emptyText hreg hgap hk.noQuoteNext⟩
      · rw [hp] at hs
        refine ⟨gap ++ a :: p, c, by simp [hs], hrest, hc, ?_⟩
        intro n more k hn hmore hk
        simp only [List.length_append, List.length_cons] at hn hmore
        obtain ⟨more, rfl⟩ : ∃ m, more = m + 1 := ⟨more - 1, by omega⟩
        obtain ⟨tree, hoperand⟩ := hagain n more k (by rw [List.length_append]; omega) hk
        refine ⟨tree, ?_⟩
        rw [List.append_assoc, operand_gap hgap]
        exact hoperand
    · next op rest hop =>
      obtain ⟨q, rfl, hne, hunary⟩ := operand_replace hreg hop
      have hlength := List.length_pos_iff.mpr hne
      rw [List.length_append] at hd hfuel
      split at h
      · next e' herror =>
        cases h
        obtain ⟨p, c, rfl, hrest, hc, hagain⟩ := ih herror (by omega) (by omega)
        refine ⟨q ++ p, c, by simp, hrest, hc, ?_⟩
        intro n more k hn hmore hk
        simp only [List.length_append] at hn hmore
        obtain ⟨more, rfl⟩ : ∃ m, more = m + 1 := ⟨more - 1, by omega⟩
        obtain ⟨tree, hinner⟩ := hagain n more k (by rw [List.length_append]; omega)
          (by rw [List.length_append]; omega) hk
        have hbehind := behindOperator_of_endsToken (hc.append k).ends p e.rest
        refine ⟨applyUnary op tree, ?_⟩
        rw [List.append_assoc, hunary _ hbehind, hinner]
      · cases h

/-! ## Formulas -/

theorem operandAt_viable (hreg : ops.Regular) (hf : FormulaFailures ops d)
    (h : operandAt ops d s = .error e) (hd : s.length ≤ d) :
    Viable s e fun p c => ∀ n k, (p ++ c).length ≤ n → Stops k →
      ∃ tree, operandAt ops n (p ++ (c ++ k)) = .ok (tree, k) := by
  obtain ⟨p, c, hs, hrest, hc, hagain⟩ := operand_viable hreg hf h hd (Nat.lt_succ_self _)
  refine ⟨p, c, hs, hrest, hc, ?_⟩
  intro n k hn hk
  have hmore : (p ++ c).length ≤ (p ++ (c ++ k)).length + 1 := by
    simp only [List.length_append]
    omega
  exact hagain n _ k hn hmore hk

/-- **A formula that fails has a beginning that can be completed.** -/
theorem formula_viable (hreg : ops.Regular) (d : Nat) : FormulaFailures ops d := by
  induction d with
  | zero =>
    intro s e _ hd
    omega
  | succ d ih =>
    intro s e h hd
    rw [formula_succ] at h
    rcases chain_eq_error (operandAt_advances hreg d) ops.levels_ordered h with
      hfirst | ⟨first, rest, hfirst, links, k₀, op, after, level, hlinks, hnext, hprec, hlevel, hafter⟩
    · obtain ⟨p, c, hs, hrest, hc, hagain⟩ := operandAt_viable hreg ih hfirst (by omega)
      refine ⟨p, c, hs, hrest, hc, ?_⟩
      intro n k hn hk hnone
      obtain ⟨tree, hoperand⟩ := hagain n k hn hk
      exact ⟨_, (formula_succ_eq_ok_iff hreg).mpr ⟨tree, k, [], hoperand, .done k, hnone, rfl⟩⟩
    · obtain ⟨u, rfl, -, hu⟩ := operandAt_text hreg (formula_text hreg d) hfirst
      obtain ⟨v, rfl, hv⟩ := links_text hreg (formula_text hreg d) hlinks
      obtain ⟨q, rfl, hspace, hq⟩ := next?_replace hreg hnext
      simp only [List.length_append] at hd
      obtain ⟨p, c, rfl, hrest, hc, hagain⟩ := operandAt_viable hreg ih hafter (by omega)
      refine ⟨u ++ (v ++ (q ++ p)), c, by simp, hrest, hc, ?_⟩
      intro n k hn hk hnone
      simp only [List.length_append] at hn
      obtain ⟨tree, hlast⟩ := hagain n k (by rw [List.length_append]; omega) hk
      have hoperator := hq _ (behindOperator_of_endsToken (hc.append k).ends p e.rest)
      obtain ⟨hresembles, hlinks'⟩ := hv (q ++ (p ++ (c ++ k))) (resembles_append hspace _ _)
      have hall := (hlinks' n (by omega)).append (.link hoperator hprec hlevel hlast (.done k))
      have htext : u ++ (v ++ (q ++ p)) ++ (c ++ k) = u ++ (v ++ (q ++ (p ++ (c ++ k)))) := by simp
      rw [htext]
      exact ⟨_, (formula_succ_eq_ok_iff hreg).mpr
        ⟨first, _, _, hu n _ (by omega) hresembles, hall, hnone, rfl⟩⟩

/-! ## Whole texts -/

/-- No operator begins with white space. -/
theorem next?_blanks (hreg : ops.Regular) {blanks : List Char} (h : ∀ c ∈ blanks, isBlank c) :
    ops.next? blanks = none := by
  rw [Operators.next?]
  cases hskip : skipSpace blanks with
  | nil => exact next?_nil hreg
  | cons c rest =>
    have hmem : c ∈ blanks := (skipSpace_suffix blanks).mem (by simp [hskip])
    have hblank := h c hmem
    have halpha : c.isAlpha = false := by
      cases hc : c.isAlpha with
      | false => rfl
      | true =>
        rw [isBlank_of_isLetter (isLetter_of_isAlpha hc)] at hblank
        cases hblank
    exact longestMatch_of_head hreg.binary halpha (by simp [isMark, hblank]) rest

/-- A rest of white space may take the place of a rest that goes on behind it. -/
theorem resembles_blanks (blanks rest : List Char) : Resembles (blanks ++ rest) blanks := by
  by_cases hgap : blanks.all isSpace
  · have hresembles := Stops.nil.resembles hgap rest
    rwa [List.append_nil] at hresembles
  · have hother : ∃ c ∈ blanks, isSpace c = false := by simpa using hgap
    have hresembles := resembles_append hother rest []
    rwa [List.append_nil] at hresembles

theorem isBlank_of_isSpace {c : Char} (h : isSpace c) : isBlank c := by
  rcases eq_of_isSpace h with rfl | rfl | rfl | rfl <;> rfl

theorem read_error_viable (hreg : ops.Regular) (h : read ops s = .error e) :
    ∃ p c, s = p ++ e.rest ∧ AtToken e.rest ∧ ∃ tree, read ops (p ++ c) = .ok tree := by
  unfold read at h
  split at h
  · next e' herror =>
    cases h
    obtain ⟨p, c, hs, hrest, -, hagain⟩ := formula_viable hreg _ s e herror (Nat.lt_succ_self _)
    obtain ⟨tree, hformula⟩ := hagain (p ++ c).length [] (Nat.le_refl _) .nil (next?_nil hreg)
    rw [List.append_nil] at hformula
    exact ⟨p, c, hs, hrest, tree, read_eq_ok_iff.mpr ⟨[], hformula, by simp⟩⟩
  · next tree r hformula =>
    split at h
    · cases h
    · cases h
      obtain ⟨u, rfl, -, hagain⟩ := formula_text hreg _ _ _ _ hformula
      have hr : r.takeWhile isBlank ++ trimStart r = r := List.takeWhile_append_dropWhile
      have hblanks : ∀ c ∈ r.takeWhile isBlank, isBlank c := fun c hc => List.mem_takeWhile_imp hc
      have hresembles := resembles_blanks (r.takeWhile isBlank) (trimStart r)
      rw [hr] at hresembles
      refine ⟨u ++ r.takeWhile isBlank, [], ?_, ?_, tree, ?_⟩
      · rw [List.append_assoc, hr]
      · intro c hc
        have hnot := List.head?_dropWhile_not isBlank r
        have hhead : (r.dropWhile isBlank).head? = some c := hc
        rw [hhead] at hnot
        cases hspace : isSpace c with
        | false => rfl
        | true => simp [isBlank_of_isSpace hspace] at hnot
      · rw [List.append_nil, read_eq_ok_iff]
        have hlength : u.length ≤ (u ++ r.takeWhile isBlank).length := by
          rw [List.length_append]
          omega
        exact ⟨_, hagain _ _ hlength hresembles (next?_blanks hreg hblanks), hblanks⟩

/-- **Errors point at the first place that went wrong.**  The position of an error is the length in
bytes of a beginning of the text; there the text ends, or a character follows that is not white
space; and the beginning is that of some formula. -/
theorem parse_error_viable (hreg : ops.Regular) {text : String} {e : ParseError}
    (h : parse ops text = .error e) :
    ∃ before rest : String, text = before ++ rest ∧ e.position = byteLength before.toList ∧
      (∀ c ∈ rest.toList.head?, isSpace c = false) ∧
      ∃ completion tree, parse ops (before ++ completion) = .ok tree := by
  unfold parse at h
  split at h
  · next failure hread =>
    cases h
    obtain ⟨p, c, hs, hrest, tree, htree⟩ := read_error_viable hreg hread
    refine ⟨String.ofList p, String.ofList failure.rest, ?_, ?_, ?_, String.ofList c, tree, ?_⟩
    · apply String.toList_injective
      simp [hs]
    · rw [Failure.toError, hs, byteLength_append, String.toList_ofList]
      exact Nat.add_sub_cancel _ _
    · rwa [String.toList_ofList]
    · have htext : (String.ofList p ++ String.ofList c).toList = p ++ c := by simp
      simp only [parse, htext, htree]
  · cases h

/-- A call in a call that is broken off before a number that runs into a name. -/
theorem parse_error_viable_call :
    Operators.default.Regular ∧
      parse .default "f(a + g('x' , - 12ab" = .error ⟨16, .invalidNumber⟩ ∧
      ∃ before rest : String, "f(a + g('x' , - 12ab" = before ++ rest ∧
        16 = byteLength before.toList ∧ (∀ c ∈ rest.toList.head?, isSpace c = false) ∧
        ∃ completion tree, parse .default (before ++ completion) = .ok tree := by
  have hreg := Operators.ExtendsDefault.usual.regular
  have herror : parse .default "f(a + g('x' , - 12ab" = .error ⟨16, .invalidNumber⟩ := rfl
  exact ⟨hreg, herror, parse_error_viable hreg herror⟩

end QuerySteps.Formula
