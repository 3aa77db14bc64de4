import QuerySteps.Proofs.Formula.Respaced

/-!
# The amount of white space does not matter

Two texts that differ in their white space (`Respaced`) are run side by side.  Each layer of the
reader takes the same from both and leaves over places that differ in their white space again
(`Steady`): it skips white space, looks at a character or a token, which is the same in both, and
calls the layer below.  The loops may go round with more fuel on one side, since the texts differ in
length; there the fuel is only asked to exceed the length.

`formula_steady` closes the circle by induction on the levels of parentheses.  White space at the
start is the one place where a run may come without having been there; the first operand skips it.
-/

namespace QuerySteps.Formula

open Text (isSpace isBlank skipSpace)

variable {ops : Operators} {f : List Char → Read} {s t r : List Char} {d fuel more : Nat}
  {tree : Tree}

/-! ## Parentheses and calls -/

theorem arguments_steady (hf : Steady f) (hconsumes : Consumes f) {args : List Tree}
    (h : Respaced s t) (hs : arguments f fuel s = .ok (args, r)) (hmore : t.length < more) :
    ∃ r', arguments f more t = .ok (args, r') ∧ Respaced r r' := by
  induction fuel generalizing s t args more with
  | zero => cases hs
  | succ fuel ih =>
    obtain ⟨more, rfl⟩ : ∃ n, more = n + 1 := ⟨more - 1, by omega⟩
    rw [arguments] at hs
    split at hs
    · cases hs
    · next arg rest harg =>
      obtain ⟨rest', harg', hrest⟩ := hf _ _ _ _ h harg
      split at hs
      · next after hnext =>
        obtain ⟨after', hnext', hafter⟩ := hrest.next_plain rfl hnext
        have hshort : after'.length < more := by
          have hlength := (hconsumes _ _ _ harg').2
          have hlength' := (behind_of_skipSpace hnext').2
          omega
        split at hs
        · cases hs
        · next others last hothers =>
          cases hs
          obtain ⟨r', hothers', hr⟩ := ih hafter hothers hshort
          exact ⟨r', by simp only [arguments, harg', hnext', hothers'], hr⟩
      · next after hnext =>
        cases hs
        obtain ⟨after', hnext', hafter⟩ := hrest.next_plain rfl hnext
        exact ⟨after', by simp only [arguments, harg', hnext'], hafter⟩
      · cases hs

/-- A character that stands next in one text, and is no white space, does not in the other only if
it does not in the first. -/
theorem Respaced.next_ne (h : Respaced s t) {c : Char} (hc : isPlain c)
    (hs : ∀ r, skipSpace s ≠ c :: r) (r : List Char) : skipSpace t ≠ c :: r := by
  intro ht
  obtain ⟨r', hr', -⟩ := h.symm.next_plain hc ht
  exact hs r' hr'

theorem call_steady (hf : Steady f) (hconsumes : Consumes f) (name : String) :
    Steady (call f name) := by
  intro s t tree r h hs
  unfold call at hs
  split at hs
  · next rest hnext =>
    cases hs
    obtain ⟨rest', hnext', hrest⟩ := h.next_plain rfl hnext
    exact ⟨rest', by simp only [call, hnext'], hrest⟩
  · next hopen =>
    have hopen' := h.next_ne (c := ')') rfl hopen
    split at hs
    · cases hs
    · next args rest hargs =>
      cases hs
      obtain ⟨r', hargs', hr⟩ := arguments_steady hf hconsumes h.skip hargs (Nat.lt_succ_self _)
      refine ⟨r', ?_, hr⟩
      rw [call]
      split
      · next rest hnext => exact absurd hnext (hopen' rest)
      · simp only [hargs']

theorem named_steady (hf : Steady f) (hconsumes : Consumes f) : Steady (named ops f) := by
  intro s t tree r h hs
  rw [named] at hs
  split at hs
  · cases hs
  · next name rest hname =>
    obtain ⟨rest', hname', hrest⟩ := name?_steady _ _ _ _ h hname
    split at hs
    · cases hs
    · next hfree =>
      split at hs
      · next args hnext =>
        obtain ⟨args', hnext', hargs⟩ := hrest.next_plain rfl hnext
        obtain ⟨r', hcall, hr⟩ := call_steady hf hconsumes name _ _ _ _ hargs hs
        exact ⟨r', by simp only [named, hname', if_neg hfree, hnext', hcall], hr⟩
      · next hopening =>
        cases hs
        have hopening' := hrest.next_ne (c := '(') rfl hopening
        -- that no parenthesis comes next is what `simp` needs to leave out the first case
        exact ⟨rest', by simp only [named, hname', if_neg hfree], hrest⟩

theorem parenthesised_steady (hf : Steady f) : Steady (parenthesised f) := by
  intro s t tree r h hs
  unfold parenthesised at hs
  split at hs
  · cases hs
  · next inner rest hinner =>
    obtain ⟨rest', hinner', hrest⟩ := hf _ _ _ _ h hinner
    split at hs
    · next after hnext =>
      cases hs
      obtain ⟨after', hnext', hafter⟩ := hrest.next_plain rfl hnext
      exact ⟨after', by simp only [parenthesised, hinner', hnext'], hafter⟩
    · cases hs

/-! ## Operands -/

theorem primaryHere_steady (hf : Steady f) (hconsumes : Consumes f) :
    Steady (primaryHere ops f) := by
  intro s t tree r h hs
  by_cases hopening : ∃ rest, s = '(' :: rest
  · obtain ⟨rest, rfl⟩ := hopening
    obtain ⟨rest', rfl, hrest⟩ := h.cons_plain rfl
    exact parenthesised_steady hf _ _ _ _ hrest hs
  have hopening' : ∀ rest, t ≠ '(' :: rest := by
    rintro rest rfl
    obtain ⟨rest', hs', -⟩ := h.symm.cons_plain (c := '(') rfl
    exact hopening ⟨rest', hs'⟩
  rw [primaryHere_token ops f fun rest hs => hopening ⟨rest, hs⟩] at hs
  rw [primaryHere_token ops f hopening']
  split at hs
  · cases hs
  · next text rest htext =>
    cases hs
    obtain ⟨r', htext', hr⟩ := text?_respaced h htext
    exact ⟨r', by rw [htext'], hr⟩
  · next htext =>
    rw [text?_none_respaced h htext]
    split at hs
    · cases hs
    · next value rest hnumber =>
      cases hs
      obtain ⟨r', hnumber', hr⟩ := number?_respaced h hnumber
      exact ⟨r', by rw [hnumber'], hr⟩
    · next hnumber =>
      have hnumber' := take?_steady.none h (number?_eq_none_iff.mp hnumber)
      rw [number?_eq_none_iff.mpr hnumber']
      exact named_steady hf hconsumes _ _ _ _ h hs

theorem primary_steady (hf : Steady f) (hconsumes : Consumes f) : Steady (primary ops f) :=
  fun _ _ _ _ h hs => primaryHere_steady hf hconsumes _ _ _ _ h.skip hs

theorem operand_steady (hreg : ops.Regular) (hf : Steady f) (h : Respaced s t)
    (hs : operand ops f fuel s = .ok (tree, r)) (hmore : t.length < more) :
    ∃ r', operand ops f more t = .ok (tree, r') ∧ Respaced r r' := by
  induction fuel generalizing s t tree more with
  | zero => cases hs
  | succ fuel ih =>
    obtain ⟨more, rfl⟩ : ∃ n, more = n + 1 := ⟨more - 1, by omega⟩
    have hunary := longestMatch_steady hreg.unary
    rw [operand] at hs
    split at hs
    · next hnone =>
      obtain ⟨r', hprimary, hr⟩ := hf _ _ _ _ h.skip hs
      exact ⟨r', by simp only [operand, hunary.none h.skip hnone, hprimary], hr⟩
    · next op rest hop =>
      obtain ⟨rest', hop', hrest⟩ := hunary _ _ _ _ h.skip hop
      have hshort : rest'.length < more := by
        obtain ⟨c, w, hw, -⟩ := longestMatch_replace hreg.unary hop'
        have hskip := skipSpace_length_le t
        rw [hw, List.length_cons, List.length_append] at hskip
        omega
      split at hs
      · cases hs
      · next inner last hinner =>
        cases hs
        obtain ⟨r', hinner', hr⟩ := ih hrest hinner hshort
        exact ⟨r', by simp only [operand, hop', hinner'], hr⟩

theorem operandAt_steady (hreg : ops.Regular) (hf : Steady (formula ops d)) :
    Steady (operandAt ops d) := fun _ _ _ _ h hs =>
  operand_steady hreg (primary_steady hf (formula_consumes ops d)) h hs (Nat.lt_succ_self _)

/-! ## Formulas -/

/-- The operators and operands that go on a formula are the same. -/
theorem Links.respaced (hreg : ops.Regular) (hf : Steady f) {levels : List Nat}
    {links : List Link} {k : List Char} (h : Respaced s t) (hs : Links ops f levels s links k) :
    ∃ k', Links ops f levels t links k' ∧ Respaced k k' := by
  induction hs generalizing t with
  | done s => exact ⟨t, .done t, h⟩
  | link next prec level read _ ih =>
    obtain ⟨rest', hnext, hrest⟩ := longestMatch_steady hreg.binary _ _ _ _ h.skip next
    obtain ⟨after', hread, hafter⟩ := hf _ _ _ _ hrest read
    obtain ⟨k', hlinks, hk⟩ := ih hafter
    exact ⟨k', .link hnext prec level hread hlinks, hk⟩

/-- **A formula does not notice the amount of white space.** -/
theorem formula_steady (hreg : ops.Regular) (d : Nat) : Steady (formula ops d) := by
  induction d with
  | zero =>
    intro s t tree r _ hs
    cases hs
  | succ d ih =>
    intro s t tree r h hs
    have hoperand := operandAt_steady hreg ih
    obtain ⟨first, rest, links, hfirst, hlinks, hend, rfl⟩ := (formula_succ_eq_ok_iff hreg).mp hs
    obtain ⟨rest', hfirst', hrest⟩ := hoperand _ _ _ _ h hfirst
    obtain ⟨r', hlinks', hr⟩ := hlinks.respaced hreg hoperand hrest
    have hend' : ops.next? r' = none := (longestMatch_steady hreg.binary).none hr.skip hend
    exact ⟨r', (formula_succ_eq_ok_iff hreg).mpr
      ⟨first, rest', links, hfirst', hlinks', hend', rfl⟩, hr⟩

/-- As many levels of parentheses as the text has characters are enough. -/
theorem formula_of_length (hreg : ops.Regular) (h : formula ops d s = .ok (tree, r))
    (hnext : ops.next? r = none) : formula ops (s.length + 1) s = .ok (tree, r) := by
  obtain ⟨u, rfl, -, hu⟩ := formula_text hreg d s tree r h
  have hlength : u.length ≤ (u ++ r).length := by simp
  exact hu _ r hlength ⟨.inr rfl, fun _ hc _ => hc⟩ hnext

theorem read_respaced (hreg : ops.Regular) {lead : List Char} (hlead : lead.all isSpace)
    (h : Respaced s t) (hs : read ops s = .ok tree) : read ops (lead ++ t) = .ok tree := by
  obtain ⟨r, hformula, hblanks⟩ := read_eq_ok_iff.mp hs
  obtain ⟨r', hformula', hr⟩ := formula_steady hreg _ _ _ _ _ h hformula
  have hblanks' := hr.blanks hblanks
  have hread := formula_of_length hreg (formula_gap hreg hlead hformula')
    (next?_blanks hreg hblanks')
  exact read_eq_ok_iff.mpr ⟨r', hread, hblanks'⟩

/-- **White space does not matter.**  If a text is a formula, then so is every text that has other
runs of white space outside of quotes where the first one has runs, and any white space at its start
and its end; and its tree is the same. -/
theorem parse_respaced {text other : String} {lead body : List Char} {tree : Tree}
    (h : parse .default text = .ok tree) (hlead : lead.all isSpace)
    (hbody : Respaced text.toList body) (hother : other.toList = lead ++ body) :
    parse .default other = .ok tree := by
  have hreg := Operators.ExtendsDefault.usual.regular
  unfold parse at h ⊢
  split at h
  · cases h
  · next hread =>
    cases h
    rw [hother, read_respaced hreg hlead hbody hread]

/-- A call with a text of two pieces, in which one piece has white space of its own. -/
theorem parse_respaced_call :
    let tree := .operator "OR" [.function "f" [.name "a", .literal (.text "x  yz")], .name "b"]
    parse .default "f(a,'x  y' \"z\" )  or\tb " = .ok tree ∧ ['\n', ' '].all isSpace ∧
      Respaced "f(a,'x  y' \"z\" )  or\tb ".toList "f(a,'x  y'\n\t\"z\"\r)\tor  b".toList ∧
      parse .default "\n f(a,'x  y'\n\t\"z\"\r)\tor  b" = .ok tree := by
  intro tree
  have hread : parse .default "f(a,'x  y' \"z\" )  or\tb " = .ok tree := rfl
  have hend : Respaced [' '] [] := .ends rfl rfl
  have hoperator := @Respaced.gap ' ' '\t' [' '] [] _ _ rfl rfl <| .plain (c := 'o') rfl <|
    .plain (c := 'r') rfl <| @Respaced.gap '\t' ' ' [] [' '] _ _ rfl rfl <|
    .plain (c := 'b') rfl hend
  have htext := @Respaced.quoted '\'' ['x', ' ', ' ', 'y'] _ _ rfl (by decide) <|
    @Respaced.gap ' ' '\n' [] ['\t'] _ _ rfl rfl <|
    @Respaced.quoted '"' ['z'] _ _ rfl (by decide) <|
    @Respaced.gap ' ' '\r' [] [] _ _ rfl rfl <| .plain (c := ')') rfl hoperator
  have hbody : Respaced "f(a,'x  y' \"z\" )  or\tb ".toList
      "f(a,'x  y'\n\t\"z\"\r)\tor  b".toList :=
    .plain (c := 'f') rfl <| .plain (c := '(') rfl <| .plain (c := 'a') rfl <|
      .plain (c := ',') rfl htext
  have hother : "\n f(a,'x  y'\n\t\"z\"\r)\tor  b".toList =
      ['\n', ' '] ++ "f(a,'x  y'\n\t\"z\"\r)\tor  b".toList := rfl
  exact ⟨hread, rfl, hbody, parse_respaced hread rfl hbody hother⟩

end QuerySteps.Formula
