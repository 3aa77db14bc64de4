import QuerySteps.Proofs.Formula.Remainder

/-!
# What may stand behind a formula instead

A reader takes a text off the front and leaves the rest.  Here the rest is replaced: the same text is
read before any other rest that does not go on what was read.  What may take the place of a rest is
told from its first character and from what comes next behind white space (`Resembles`): a text
would be joined with a quote that comes next, and a name would become a call before an opening
parenthesis.  A formula asks in addition that no operator comes next.

The operators are the part for which this is not a matter of one character: a longer operator
may reach beyond the shorter one that was found.  `longestMatch_replace` says that it does not, if the
marks at the front of the new text stood there before.

All layers keep count of the depth that they need: as many levels of parentheses as the text has
characters are enough.
-/

namespace QuerySteps.Formula

open Text (isSpace skipSpace)

variable {ops : Operators} {s r k u w x y gap : List Char} {d fuel : Nat} {tree : Tree}

/-! ## Rests -/

/-- What may take the place of a rest. -/
structure Resembles (r k : List Char) : Prop where
  head : endsToken k ∨ k.head? = r.head?
  next : ∀ c ∈ (skipSpace k).head?, isQuote c ∨ c = '(' → c ∈ (skipSpace r).head?

theorem Resembles.continuesName (h : Resembles r k) (hr : continuesName r = false) :
    Formula.continuesName k = false := by
  rcases h.head with hends | hsame
  · exact continuesName_of_endsToken hends
  · cases k with
    | nil => rfl
    | cons c k =>
      obtain ⟨r, rfl⟩ := List.head?_eq_some_iff.mp hsame.symm
      exact hr

theorem Resembles.runsIntoName (h : Resembles r k) (hr : runsIntoName r = false) :
    Formula.runsIntoName k = false := by
  rcases h.head with hends | hsame
  · exact runsIntoName_append hends []
  · cases k with
    | nil => rfl
    | cons c k =>
      obtain ⟨r, rfl⟩ := List.head?_eq_some_iff.mp hsame.symm
      exact hr

theorem Resembles.point (h : Resembles r k) (hk : k.head? = some '.') : r.head? = some '.' := by
  rcases h.head with hends | hsame
  · obtain ⟨k, rfl⟩ := List.head?_eq_some_iff.mp hk
    rcases endsToken_cons hends with hc | hc | hc <;> cases hc
  · exact hsame.symm.trans hk

theorem Resembles.noQuoteNext (h : Resembles r k) (hr : NoQuoteNext r) : NoQuoteNext k := by
  intro c hc
  cases hquote : isQuote c with
  | false => rfl
  | true =>
    have hnot := hr c (h.next c hc (.inl hquote))
    rw [hquote] at hnot
    exact hnot

theorem Resembles.opening (h : Resembles r k) (hr : ∀ args, skipSpace r ≠ '(' :: args)
    (args : List Char) : skipSpace k ≠ '(' :: args := by
  intro hk
  have hmem := h.next '(' (by simp [hk]) (.inr rfl)
  obtain ⟨args', hargs⟩ := List.head?_eq_some_iff.mp hmem
  exact hr args' hargs

/-- A rest keeps what stands up to a character that is not white space. -/
theorem resembles_append (h : ∃ c ∈ u, isSpace c = false) (r k : List Char) :
    Resembles (u ++ r) (u ++ k) := by
  obtain ⟨c, hc, hspace⟩ := h
  have hne : skipSpace u ≠ [] := by
    intro hnil
    have hall := List.dropWhile_eq_nil_iff.mp hnil c hc
    rw [hspace] at hall
    cases hall
  refine ⟨.inr ?_, ?_⟩
  · obtain ⟨d, u, rfl⟩ := List.exists_cons_of_ne_nil (List.ne_nil_of_mem hc)
    rfl
  · intro d hd _
    rw [skipSpace_append_of_ne_nil hne] at hd ⊢
    obtain ⟨e, v, hv⟩ := List.exists_cons_of_ne_nil hne
    rw [hv] at hd ⊢
    exact hd

/-- Behind white space, a rest may be replaced by what stops an operand. -/
theorem Stops.resembles (hk : Stops k) (hgap : gap.all isSpace) (r : List Char) :
    Resembles (gap ++ r) (gap ++ k) := by
  constructor
  · cases gap with
    | nil => exact .inl hk.ends
    | cons c gap => exact .inr rfl
  · intro c hc h
    rw [skipSpace_gap hgap] at hc
    obtain ⟨rest, hrest⟩ := List.head?_eq_some_iff.mp hc
    rcases h with hquote | rfl
    · have hnot := hk.quote c rest hrest
      rw [hquote] at hnot
      cases hnot
    · exact absurd hrest (hk.opening rest)

theorem isSpace_of_skipSpace {c : Char} (h : skipSpace s = c :: r) : isSpace c = false := by
  have hhead := List.head?_dropWhile_not isSpace s
  rw [← Text.skipSpace, h] at hhead
  simpa using hhead

theorem skipSpace_skipSpace (s : List Char) : skipSpace (skipSpace s) = skipSpace s :=
  List.dropWhile_idempotent isSpace s

theorem skipSpace_gap_cons {c : Char} (hgap : gap.all isSpace) (hc : isSpace c = false)
    (r : List Char) : skipSpace (gap ++ c :: r) = c :: r := by
  rw [skipSpace_gap hgap, skipSpace_cons_of_not_isSpace hc]

/-! ## Operators -/

/-- No operator at the front of a text is longer than the longest. -/
theorem le_of_longestMatch {keys : List String} {op other : String}
    (h : longestMatch keys s = some (op, r)) (hother : other ∈ keys)
    (hstrip : (stripOperator other s).isSome) : other.utf8ByteSize ≤ op.utf8ByteSize := by
  induction keys generalizing op r with
  | nil => cases hother
  | cons first keys ih =>
    rw [longestMatch] at h
    rcases List.mem_cons.mp hother with rfl | hother
    · split at h
      · next hnone =>
        rw [hnone] at hstrip
        cases hstrip
      · cases h
        exact Nat.le_refl _
      · split at h
        · cases h
          exact Nat.le_refl _
        · next hle =>
          cases h
          exact Nat.le_of_not_lt hle
    · split at h
      · exact ih h hother
      · next hnone =>
        rw [longestMatch_eq_none_iff.mp hnone other hother] at hstrip
        cases hstrip
      · next best _ hbest =>
        have hle : other.utf8ByteSize ≤ best.1.utf8ByteSize := ih (r := best.2) hbest hother
        split at h
        · next hlt =>
          cases h
          omega
        · cases h
          exact hle

/-- The marks at the front of a text, if they end within a part that stays. -/
theorem marks_stay (h : (∃ c ∈ u, isMark c = false) ∨ ∀ c ∈ y.head?, isMark c = false)
    (x : List Char) : (u ++ y).takeWhile isMark <+: u ++ x := by
  induction u with
  | nil =>
    have hhead : ∀ c ∈ y.head?, isMark c = false := by
      rcases h with ⟨c, hc, -⟩ | h
      · cases hc
      · exact h
    have hnil : y.takeWhile isMark = [] := by
      cases y with
      | nil => rfl
      | cons c y => simp [hhead c rfl]
    rw [List.nil_append, hnil]
    exact List.nil_prefix
  | cons c u ih =>
    rw [List.cons_append, List.takeWhile_cons]
    split
    · next hc =>
      have hu : (∃ c ∈ u, isMark c = false) ∨ ∀ c ∈ y.head?, isMark c = false := by
        refine h.imp ?_ id
        rintro ⟨d, hd, hmark⟩
        rcases List.mem_cons.mp hd with rfl | hd
        · rw [hmark] at hc
          cases hc
        · exact ⟨d, hd, hmark⟩
      exact List.cons_prefix_cons.mpr ⟨rfl, ih hu⟩
    · exact List.nil_prefix

/-- An operator that reaches into the text behind another one is made of marks, like the other. -/
private theorem marks_of_longer {op other : String} {v : List Char} (hop : Spelled op)
    (hother : Spelled other) (hw : Spells op w) (hv : Spells other (w ++ v)) (hne : v ≠ [])
    (hends : isWord op = true → continuesName v = false) :
    w = op.toList ∧ w ++ v = other.toList ∧ ∀ c ∈ v, isMark c := by
  obtain ⟨c, w', rfl, -⟩ := head_of_spells hop hw
  cases hother with
  | word nonempty letters =>
    have halpha := isAlpha_of_spells letters hv
    cases hop with
    | word _ letters' =>
      obtain ⟨d, v', rfl⟩ := List.exists_cons_of_ne_nil hne
      have hname : isNameChar d :=
        isNameChar_of_isLetter (isLetter_of_isAlpha (halpha d (by simp)))
      have hnot : isNameChar d = false := hends (isWord_of_letters letters')
      rw [hname] at hnot
      cases hnot
    | marks nonempty' marks =>
      have hmark : isMark c := marks c (by simp [← eq_of_spells_marks nonempty' marks hw])
      exact absurd hmark (not_isMark_of_isAlpha (halpha c (by simp)))
  | marks nonempty marks =>
    have hall := eq_of_spells_marks nonempty marks hv
    rw [← hall] at marks
    cases hop with
    | word _ letters =>
      have halpha := isAlpha_of_spells letters hw c List.mem_cons_self
      exact absurd (marks c (by simp)) (not_isMark_of_isAlpha halpha)
    | marks nonempty' marks' =>
      exact ⟨eq_of_spells_marks nonempty' marks' hw, hall, fun d hd => marks d (by simp [hd])⟩

/-- What may take the place of a text behind an operator. -/
structure BehindOperator (x y : List Char) : Prop where
  marks : y.takeWhile isMark <+: x
  ends : continuesName x = false → continuesName y = false

theorem behindOperator_append (h : ∃ c ∈ u, isMark c = false) (r k : List Char) :
    BehindOperator (u ++ r) (u ++ k) := by
  refine ⟨marks_stay (.inl h) r, ?_⟩
  obtain ⟨c, u, rfl⟩ := List.exists_cons_of_ne_nil (List.ne_nil_of_mem h.choose_spec.1)
  exact id

theorem behindOperator_of_endsToken (hy : endsToken y) (u x : List Char) :
    BehindOperator (u ++ x) (u ++ y) := by
  refine ⟨marks_stay (.inr (head_of_endsToken hy rfl rfl rfl)) x, ?_⟩
  intro hx
  cases u with
  | nil => exact continuesName_of_endsToken hy
  | cons c u => exact hx

/-- **The longest operator stays the longest** before another text, if the marks at the front of that
text stood there before. -/
theorem longestMatch_replace {keys : List String} (hkeys : ∀ op ∈ keys, Spelled op) {op : String}
    (h : longestMatch keys s = some (op, x)) :
    ∃ c w, s = c :: (w ++ x) ∧ (c.isAlpha ∨ isMark c) ∧
      ∀ y, BehindOperator x y → longestMatch keys (c :: (w ++ y)) = some (op, y) := by
  obtain ⟨hop, hstrip⟩ := mem_of_longestMatch h
  obtain ⟨w, rfl, hw, hx⟩ := stripOperator_eq_some_iff.mp hstrip
  have hlongest : ∀ y, BehindOperator x y → longestMatch keys (w ++ y) = some (op, y) := by
    intro y hy
    have hagain : stripOperator op (w ++ y) = some y :=
      stripOperator_eq_some_iff.mpr ⟨w, rfl, hw, fun hword => hy.ends (hx hword)⟩
    refine longestMatch_of_longest hop hagain ?_
    intro other hother hne hsome
    obtain ⟨z, hz⟩ := Option.isSome_iff_exists.mp hsome
    obtain ⟨w', hs, hw', hendsOther⟩ := stripOperator_eq_some_iff.mp hz
    rcases List.append_eq_append_iff.mp hs with ⟨v, rfl, rfl⟩ | ⟨v, rfl, rfl⟩
    · -- the other operator goes on behind this one, or is a spelling of the same length
      by_cases hv : v = []
      · subst hv
        rw [List.append_nil] at hw'
        have hfront : stripOperator other w = some [] :=
          stripOperator_eq_some_iff.mpr ⟨w, by simp, hw', fun _ => rfl⟩
        exact shorter_of_spelled (hkeys op hop) (hkeys other hother) hw hne (by simp [hfront])
      · have hends : isWord op = true → continuesName v = false := by
          intro hword
          obtain ⟨d, v', rfl⟩ := List.exists_cons_of_ne_nil hv
          exact hy.ends (hx hword)
        obtain ⟨hopText, hotherText, hall⟩ :=
          marks_of_longer (hkeys op hop) (hkeys other hother) hw hw' hv hends
        have hprefix : v <+: x := by
          have hmarks := hy.marks
          rw [List.takeWhile_append_of_pos hall] at hmarks
          exact (List.prefix_append v _).trans hmarks
        obtain ⟨x', rfl⟩ := hprefix
        have hnotWord : isWord other = true → continuesName x' = false := by
          intro hword
          obtain ⟨d, v', rfl⟩ := List.exists_cons_of_ne_nil hv
          have hletter := List.all_eq_true.mp hword d (by simp [← hotherText])
          rw [isLetter_of_isMark (hall d List.mem_cons_self)] at hletter
          cases hletter
        have hbefore : stripOperator other (w ++ (v ++ x')) = some x' :=
          stripOperator_eq_some_iff.mpr ⟨w ++ v, by simp, hw', hnotWord⟩
        have hle := le_of_longestMatch h hother (by simp [hbefore])
        have hlt : op.utf8ByteSize < other.utf8ByteSize :=
          utf8ByteSize_lt (by rw [← hotherText, hopText]) hv
        omega
    · have hfront : stripOperator other (w' ++ v) = some v := by
        refine stripOperator_eq_some_iff.mpr ⟨w', rfl, hw', fun hword => ?_⟩
        cases v with
        | nil => rfl
        | cons d v => exact hendsOther hword
      exact shorter_of_spelled (hkeys op hop) (hkeys other hother) hw hne (by simp [hfront])
  obtain ⟨c, w, rfl, hhead⟩ := head_of_spells (hkeys op hop) hw
  exact ⟨c, w, rfl, hhead, hlongest⟩

/-- The text of the operator that comes next, with the white space before it. -/
theorem next?_replace (hreg : ops.Regular) {op : String} (h : ops.next? s = some (op, x)) :
    ∃ p, s = p ++ x ∧ (∃ c ∈ p, isSpace c = false) ∧
      ∀ y, BehindOperator x y → ops.next? (p ++ y) = some (op, y) := by
  obtain ⟨gap, hgap, hs⟩ := exists_gap s
  obtain ⟨c, w, hw, hhead, hagain⟩ := longestMatch_replace hreg.binary h
  have hspace := (head_of_operator hhead).1
  rw [hw] at hs
  refine ⟨gap ++ c :: w, by simp [hs], ⟨c, by simp, hspace⟩, ?_⟩
  intro y hy
  rw [List.append_assoc, List.cons_append, Operators.next?, skipSpace_gap_cons hgap hspace]
  exact hagain y hy

/-- The text of a unary operator, with the white space before it. -/
theorem operand_replace (hreg : ops.Regular) {op : String}
    (h : longestMatch ops.unary (skipSpace s) = some (op, x)) :
    ∃ p, s = p ++ x ∧ p ≠ [] ∧ ∀ y, BehindOperator x y → ∀ (read : List Char → Read) (fuel : Nat),
      operand ops read (fuel + 1) (p ++ y) =
        match operand ops read fuel y with
        | .error e => .error e
        | .ok (tree, rest) => .ok (applyUnary op tree, rest) := by
  obtain ⟨gap, hgap, hs⟩ := exists_gap s
  obtain ⟨c, w, hw, hhead, hagain⟩ := longestMatch_replace hreg.unary h
  have hspace := (head_of_operator hhead).1
  rw [hw] at hs
  refine ⟨gap ++ c :: w, by simp [hs], by simp, ?_⟩
  intro y hy read fuel
  have hskip : skipSpace (gap ++ c :: w ++ y) = c :: (w ++ y) := by
    rw [List.append_assoc]
    exact skipSpace_gap_cons hgap hspace _
  rcases hinner : operand ops read fuel y with e | ⟨tree, rest⟩
  · simp only [operand, hskip, hagain y hy, hinner]
  · simp only [operand, hskip, hagain y hy, hinner]

/-! ## Operands -/

/-- What a formula of some depth is read from, it is read from at any sufficient depth and before any
rest that takes the place of its own. -/
def FormulaTexts (ops : Operators) (d : Nat) : Prop :=
  ∀ s tree r, formula ops d s = .ok (tree, r) →
    ∃ u, s = u ++ r ∧ (∃ c ∈ u, isMark c = false) ∧
      ∀ e k, u.length ≤ e → Resembles r k → ops.next? k = none →
        formula ops (e + 1) (u ++ k) = .ok (tree, k)

/-- A formula up to the next character that is not white space; there a closing parenthesis or a
comma may take the place of all that follows. -/
theorem FormulaTexts.ended (hreg : ops.Regular) (hf : FormulaTexts ops d)
    (h : formula ops d s = .ok (tree, r)) :
    ∃ p, s = p ++ skipSpace r ∧ ∀ e c k, c = ')' ∨ c = ',' → p.length ≤ e →
      ∃ r', formula ops (e + 1) (p ++ c :: k) = .ok (tree, r') ∧ skipSpace r' = c :: k := by
  obtain ⟨u, rfl, -, hu⟩ := hf _ _ _ h
  obtain ⟨gap, hgap, hr⟩ := exists_gap r
  refine ⟨u ++ gap, ?_, ?_⟩
  · rw [List.append_assoc, ← hr]
  · intro e c k hc he
    rw [List.length_append] at he
    have hspace : isSpace c = false := by rcases hc with rfl | rfl <;> rfl
    have hstops : Stops (c :: k) := by
      rcases hc with rfl | rfl
      · exact .closing k
      · exact .comma k
    have hnext : ops.next? (gap ++ c :: k) = none := by
      rw [Operators.next?, skipSpace_gap_cons hgap hspace]
      rcases hc with rfl | rfl <;> exact longestMatch_of_head hreg.binary rfl rfl k
    have hresembles := hstops.resembles hgap (skipSpace r)
    rw [← hr] at hresembles
    refine ⟨gap ++ c :: k, ?_, skipSpace_gap_cons hgap hspace k⟩
    rw [List.append_assoc]
    exact hu e _ (by omega) hresembles hnext

theorem parenthesised_text (hreg : ops.Regular) (hf : FormulaTexts ops d)
    (h : parenthesised (formula ops d) s = .ok (tree, r)) :
    ∃ u, s = u ++ r ∧ ∀ e k, u.length ≤ e →
      parenthesised (formula ops (e + 1)) (u ++ k) = .ok (tree, k) := by
  rw [parenthesised] at h
  split at h
  · cases h
  · next inner rest hinner =>
    split at h
    · next after hafter =>
      cases h
      obtain ⟨p, hs, hp⟩ := hf.ended hreg hinner
      rw [hafter] at hs
      refine ⟨p ++ [')'], by simp [hs], ?_⟩
      intro e k he
      rw [List.length_append] at he
      obtain ⟨r', hformula, hskip⟩ := hp e ')' k (.inl rfl) (by omega)
      have htext : p ++ [')'] ++ k = p ++ ')' :: k := by simp
      simp only [htext, parenthesised, hformula, hskip]
    · cases h

theorem arguments_text (hreg : ops.Regular) (hf : FormulaTexts ops d) {args : List Tree}
    (h : arguments (formula ops d) fuel s = .ok (args, r)) :
    ∃ u, s = u ++ r ∧ ∀ e more k, u.length ≤ e → u.length ≤ more →
      arguments (formula ops (e + 1)) more (u ++ k) = .ok (args, k) := by
  induction fuel generalizing s args with
  | zero => cases h
  | succ fuel ih =>
    rw [arguments] at h
    split at h
    · cases h
    · next arg rest harg =>
      obtain ⟨p, hs, hp⟩ := hf.ended hreg harg
      split at h
      · next after hafter =>
        split at h
        · cases h
        · next args' r' hargs =>
          cases h
          obtain ⟨u, rfl, hu⟩ := ih hargs
          rw [hafter] at hs
          refine ⟨p ++ ',' :: u, by simp [hs], ?_⟩
          intro e more k he hmore
          simp only [List.length_append, List.length_cons] at he hmore
          obtain ⟨more, rfl⟩ : ∃ n, more = n + 1 := ⟨more - 1, by omega⟩
          obtain ⟨r', hfirst, hskip⟩ := hp e ',' (u ++ k) (.inr rfl) (by omega)
          have hothers := hu e more k (by omega) (by omega)
          have htext : p ++ ',' :: u ++ k = p ++ ',' :: (u ++ k) := by simp
          simp only [htext, arguments, hfirst, hskip, hothers]
      · next after hafter =>
        cases h
        rw [hafter] at hs
        refine ⟨p ++ [')'], by simp [hs], ?_⟩
        intro e more k he hmore
        simp only [List.length_append, List.length_cons] at he hmore
        obtain ⟨more, rfl⟩ : ∃ n, more = n + 1 := ⟨more - 1, by omega⟩
        obtain ⟨r', hlast, hskip⟩ := hp e ')' k (.inl rfl) (by omega)
        have htext : p ++ [')'] ++ k = p ++ ')' :: k := by simp
        simp only [htext, arguments, hlast, hskip]
      · cases h

theorem call_text (hreg : ops.Regular) (hf : FormulaTexts ops d) {name : String}
    (h : call (formula ops d) name s = .ok (tree, r)) :
    ∃ u, s = u ++ r ∧ ∀ e k, u.length ≤ e →
      call (formula ops (e + 1)) name (u ++ k) = .ok (tree, k) := by
  obtain ⟨gap, hgap, hs⟩ := exists_gap s
  rw [call] at h
  split at h
  · next rest hrest =>
    cases h
    rw [hrest] at hs
    refine ⟨gap ++ [')'], by simp [hs], ?_⟩
    intro e k _
    have hskip : skipSpace (gap ++ [')'] ++ k) = ')' :: k := by
      rw [List.append_assoc]
      exact skipSpace_gap_cons hgap rfl k
    simp only [call, hskip]
  · next hopen =>
    split at h
    · cases h
    · next args rest hargs =>
      cases h
      have hshorter := (arguments_consumes (formula_consumes ops d) _ _ _ _ hargs).2
      obtain ⟨u, hu, hagain⟩ := arguments_text hreg hf hargs
      rw [hu] at hs
      refine ⟨gap ++ u, by simp [hs], ?_⟩
      intro e k he
      rw [List.length_append] at he
      cases u with
      | nil =>
        rw [hu] at hshorter
        exact absurd hshorter (Nat.lt_irrefl _)
      | cons c u =>
        have hskip : skipSpace (gap ++ c :: u ++ k) = c :: u ++ k := by
          rw [List.append_assoc]
          exact skipSpace_gap_cons hgap (isSpace_of_skipSpace hu) _
        have hmore : (c :: u).length ≤ (c :: u ++ k).length + 1 := by
          rw [List.length_append]
          omega
        rw [call, hskip]
        split
        · next after hafter =>
          obtain ⟨rfl, -⟩ : c = ')' ∧ u ++ k = after := by simpa using hafter
          exact absurd hu (hopen _)
        · rw [hagain e _ k (by omega) hmore]

/-- A name that is not reserved, and the calls of it. -/
theorem named_text (hreg : ops.Regular) (hf : FormulaTexts ops d)
    (h : named ops (formula ops d) s = .ok (tree, r)) :
    ∃ name u, IsName ops name ∧ s = name.toList ++ (u ++ r) ∧
      ∀ e more k, u.length < e → Resembles r k →
        operand ops (primary ops (formula ops e)) (more + 1) (name.toList ++ (u ++ k)) =
          .ok (tree, k) := by
  rw [named] at h
  split at h
  · cases h
  · next name rest hname =>
    obtain ⟨rfl, hshape, hends⟩ := name?_text hname
    split at h
    · cases h
    · next hfree =>
      have hisName : IsName ops name := ⟨hshape, by simpa using hfree⟩
      split at h
      · next args hargs =>
        obtain ⟨u, rfl, hu⟩ := call_text hreg hf h
        obtain ⟨gap, hgap, hrest⟩ := exists_gap rest
        rw [hargs] at hrest
        refine ⟨name, gap ++ '(' :: u, hisName, by simp [hrest], ?_⟩
        intro e more k he _
        simp only [List.length_append, List.length_cons] at he
        obtain ⟨e, rfl⟩ : ∃ n, e = n + 1 := ⟨e - 1, by omega⟩
        have htext : gap ++ '(' :: u ++ k = gap ++ '(' :: (u ++ k) := by simp
        have hcall := hu e k (by omega)
        rw [htext, operand_name hreg hisName (continuesName_gap hgap rfl)]
        simp only [skipSpace_gap_cons hgap (c := '(') rfl, hcall]
      · next hopening =>
        cases h
        refine ⟨name, [], hisName, rfl, ?_⟩
        intro e more k _ hk
        rw [List.nil_append, operand_name hreg hisName (hk.continuesName hends)]
        split
        · next args hargs =>
          exact absurd hargs (hk.opening (fun args hargs => hopening args hargs) args)
        · rfl

/-- An operand without unary operators. -/
theorem primaryHere_text (hreg : ops.Regular) (hf : FormulaTexts ops d)
    (h : primaryHere ops (formula ops d) s = .ok (tree, r)) :
    ∃ c u, s = c :: (u ++ r) ∧ isMark c = false ∧
      ∀ e more k, u.length < e → Resembles r k →
        operand ops (primary ops (formula ops e)) (more + 1) (c :: (u ++ k)) = .ok (tree, k) := by
  by_cases hopening : ∃ rest, s = '(' :: rest
  · obtain ⟨rest, rfl⟩ := hopening
    obtain ⟨u, rfl, hu⟩ := parenthesised_text hreg hf h
    refine ⟨'(', u, rfl, rfl, ?_⟩
    intro e more k he _
    obtain ⟨e, rfl⟩ : ∃ n, e = n + 1 := ⟨e - 1, by omega⟩
    rw [operand_opening hreg]
    exact hu e k (by omega)
  · rw [primaryHere_token ops _ fun rest hs => hopening ⟨rest, hs⟩] at h
    split at h
    · cases h
    · next text rest htext =>
      cases h
      obtain ⟨hr, u, rfl, ⟨q, u, rfl, hq⟩, hagain⟩ := text?_text htext
      have hmark : isMark q = false := by rcases eq_of_isQuote hq with rfl | rfl <;> rfl
      refine ⟨q, u, rfl, hmark, ?_⟩
      intro e more k _ hk
      exact operand_quote hreg hq (hagain k (hk.noQuoteNext hr))
    · split at h
      · cases h
      · next value rest hnumber =>
        cases h
        obtain ⟨hr, u, rfl, ⟨c, u, rfl, hc⟩, hagain⟩ := number?_text hnumber
        refine ⟨c, u, rfl, not_isMark_of_isNameChar (isNameChar_of_startsNumber hc), ?_⟩
        intro e more k _ hk
        have hnumber' := hagain k (hk.runsIntoName hr) hk.point
        rw [List.cons_append] at hnumber'
        rw [operand_number hreg hc, hnumber']
      · obtain ⟨name, u, hname, rfl, hagain⟩ := named_text hreg hf h
        obtain ⟨c, rest, hs, hc, -⟩ := hname.spelled
        refine ⟨c, rest ++ u, by simp [hs],
          not_isMark_of_isNameChar (isNameChar_of_startsName hc), ?_⟩
        intro e more k he hk
        rw [List.length_append] at he
        have hname' := hagain e more k (by omega) hk
        rwa [hs, List.cons_append, ← List.append_assoc] at hname'

/-- What an operand of some depth is read from, it is read from at any sufficient depth, with any
sufficient fuel, and before any rest that takes the place of its own. -/
theorem operand_text (hreg : ops.Regular) (hf : FormulaTexts ops d)
    (h : operand ops (primary ops (formula ops d)) fuel s = .ok (tree, r)) :
    ∃ u, s = u ++ r ∧ (∃ c ∈ u, isMark c = false) ∧
      ∀ e more k, u.length ≤ e → u.length ≤ more → Resembles r k →
        operand ops (primary ops (formula ops e)) more (u ++ k) = .ok (tree, k) := by
  induction fuel generalizing s tree with
  | zero => cases h
  | succ fuel ih =>
    obtain ⟨gap, hgap, hs⟩ := exists_gap s
    rw [operand] at h
    split at h
    · rw [primary, skipSpace_skipSpace] at h
      obtain ⟨c, u, hu, hmark, hagain⟩ := primaryHere_text hreg hf h
      rw [hu] at hs
      refine ⟨gap ++ c :: u, by simp [hs], ⟨c, by simp, hmark⟩, ?_⟩
      intro e more k he hmore hk
      simp only [List.length_append, List.length_cons] at he hmore
      obtain ⟨more, rfl⟩ : ∃ n, more = n + 1 := ⟨more - 1, by omega⟩
      have htext : gap ++ c :: u ++ k = gap ++ c :: (u ++ k) := by simp
      rw [htext, operand_gap hgap]
      exact hagain e more k (by omega) hk
    · next op rest hop =>
      split at h
      · cases h
      · next inner r' hinner =>
        cases h
        obtain ⟨u, rfl, hmark, hagain⟩ := ih hinner
        obtain ⟨p, hp, hne, hunary⟩ := operand_replace hreg hop
        refine ⟨p ++ u, by simp [hp], hmark.imp fun c hc => ⟨by simp [hc.1], hc.2⟩, ?_⟩
        intro e more k he hmore hk
        have hlength := List.length_pos_iff.mpr hne
        rw [List.length_append] at he hmore
        obtain ⟨more, rfl⟩ : ∃ n, more = n + 1 := ⟨more - 1, by omega⟩
        have hinner' := hagain e more k (by omega) (by omega) hk
        rw [List.append_assoc, hunary _ (behindOperator_append hmark _ _), hinner']

/-! ## Formulas -/

theorem operandAt_text (hreg : ops.Regular) (hf : FormulaTexts ops d)
    (h : operandAt ops d s = .ok (tree, r)) :
    ∃ u, s = u ++ r ∧ (∃ c ∈ u, isMark c = false) ∧
      ∀ e k, u.length ≤ e → Resembles r k → operandAt ops e (u ++ k) = .ok (tree, k) := by
  obtain ⟨u, hs, hmark, hagain⟩ := operand_text hreg hf h
  refine ⟨u, hs, hmark, ?_⟩
  intro e k he hk
  have hmore : u.length ≤ (u ++ k).length + 1 := by
    rw [List.length_append]
    omega
  exact hagain e _ k he hmore hk

/-- Links are read again, and what stands before them keeps its rest. -/
theorem links_text (hreg : ops.Regular) (hf : FormulaTexts ops d) {links : List Link}
    (h : Links ops (operandAt ops d) ops.levels s links r) :
    ∃ u, s = u ++ r ∧ ∀ k, Resembles r k → Resembles s (u ++ k) ∧
      ∀ e, u.length ≤ e → Links ops (operandAt ops e) ops.levels (u ++ k) links k := by
  induction h with
  | done s => exact ⟨[], rfl, fun k hk => ⟨hk, fun e _ => .done k⟩⟩
  | @link s rest after r op p tree links next prec level read _ ih =>
    obtain ⟨v, rfl, hmark, hread⟩ := operandAt_text hreg hf read
    obtain ⟨w, rfl, hw⟩ := ih
    obtain ⟨q, rfl, hspace, hnext⟩ := next?_replace hreg next
    refine ⟨q ++ (v ++ w), by simp, ?_⟩
    intro k hk
    obtain ⟨hafter, hlinks⟩ := hw k hk
    have htext : q ++ (v ++ w) ++ k = q ++ (v ++ (w ++ k)) := by simp
    rw [htext]
    refine ⟨resembles_append hspace _ _, ?_⟩
    intro e he
    simp only [List.length_append] at he
    exact .link (hnext _ (behindOperator_append hmark _ _)) prec level
      (hread e (w ++ k) (by omega) hafter) (hlinks e (by omega))

/-- **Formulas of every depth** are read again from their text. -/
theorem formula_text (hreg : ops.Regular) (d : Nat) : FormulaTexts ops d := by
  induction d with
  | zero =>
    intro s tree r h
    cases h
  | succ d ih =>
    intro s tree r h
    obtain ⟨first, rest, links, hfirst, hlinks, -, rfl⟩ := (formula_succ_eq_ok_iff hreg).mp h
    obtain ⟨u, rfl, hmark, hu⟩ := operandAt_text hreg ih hfirst
    obtain ⟨v, rfl, hv⟩ := links_text hreg ih hlinks
    refine ⟨u ++ v, by simp, hmark.imp fun c hc => ⟨by simp [hc.1], hc.2⟩, ?_⟩
    intro e k he hk hnext
    rw [List.length_append] at he
    obtain ⟨hafter, hagain⟩ := hv k hk
    rw [List.append_assoc]
    exact (formula_succ_eq_ok_iff hreg).mpr ⟨first, v ++ k, links, hu e _ (by omega) hafter,
      hagain e (by omega), hnext, rfl⟩

end QuerySteps.Formula
