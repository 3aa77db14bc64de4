import QuerySteps.Proofs.Formula.Remainder

/-!
# Where failures are

A reader that fails says so at a place of its own text: what the failure leaves over is a rest of
that text (`FailsWithin`), whatever the operators are.  Each layer either fails where it stands or
hands on the failure of the layer below, and what the layer below was given is a rest of its own
text by `Remainder`.  `formula_failsWithin` is the induction on the depth.

So the position of an error is never outside of the text, and never inside of a character: a
beginning of the text is as long, in bytes, as the position says (`exists_before_error`).
-/

namespace QuerySteps.Formula

open Text (isBlank skipSpace trimStart byteLength byteLength_append)

/-- A reader that fails only at places of its text. -/
def FailsWithin {α : Type} (f : List Char → Except Failure α) : Prop :=
  ∀ s e, f s = .error e → e.rest <:+ s

variable {ops : Operators} {f : List Char → Read} {s : List Char} {fuel d : Nat}

/-- What fails behind the front of a text fails within the text. -/
theorem FailsWithin.behind {α : Type} {g : List Char → Except Failure α} (hg : FailsWithin g)
    {t : List Char} {e : Failure} (h : g t = .error e) (ht : t <:+ s) : e.rest <:+ s :=
  (hg t e h).trans ht

theorem text?_failsWithin : FailsWithin text? := by
  intro s e h
  rcases text?_eq_error h with hrest | ⟨-, q, u, -, hs, -, -⟩
  · exact hrest ▸ List.suffix_rfl
  · exact ⟨q :: u, by rw [hs, List.cons_append]⟩

theorem number?_failsWithin : FailsWithin number? :=
  fun _ _ h => number?_eq_error h ▸ List.suffix_rfl

/-! ## Operands -/

theorem arguments_failsWithin (hf : FailsWithin f) (hconsumes : Consumes f) (fuel : Nat) :
    FailsWithin (arguments f fuel) := by
  induction fuel with
  | zero =>
    intro s e h
    cases h
    exact List.suffix_rfl
  | succ fuel ih =>
    intro s e h
    rw [arguments] at h
    split at h
    · next herror =>
      cases h
      exact hf _ _ herror
    · next arg rest harg =>
      have hrest : rest <:+ s := (hconsumes _ _ _ harg).1
      split at h
      · next after hafter =>
        split at h
        · next herror =>
          cases h
          exact ih.behind herror ((behind_of_skipSpace hafter).1.trans hrest)
        · cases h
      · cases h
      · cases h
        exact (skipSpace_suffix rest).trans hrest

theorem call_failsWithin (hf : FailsWithin f) (hconsumes : Consumes f) (name : String) :
    FailsWithin (call f name) := by
  intro s e h
  rw [call] at h
  split at h
  · cases h
  · split at h
    · next herror =>
      cases h
      exact (arguments_failsWithin hf hconsumes _).behind herror (skipSpace_suffix s)
    · cases h

theorem named_failsWithin (hf : FailsWithin f) (hconsumes : Consumes f) :
    FailsWithin (named ops f) := by
  intro s e h
  rw [named] at h
  split at h
  · cases h
    exact List.suffix_rfl
  · next name rest hname =>
    split at h
    · cases h
      exact List.suffix_rfl
    · split at h
      · next args hargs =>
        exact (call_failsWithin hf hconsumes name).behind h
          ((behind_of_skipSpace hargs).1.trans (behind_of_name? hname).1)
      · cases h

theorem parenthesised_failsWithin (hf : FailsWithin f) (hconsumes : Consumes f) :
    FailsWithin (parenthesised f) := by
  intro s e h
  rw [parenthesised] at h
  split at h
  · next herror =>
    cases h
    exact hf _ _ herror
  · next inner rest hinner =>
    split at h
    · cases h
    · cases h
      exact (skipSpace_suffix rest).trans (hconsumes _ _ _ hinner).1

theorem primaryHere_failsWithin (hf : FailsWithin f) (hconsumes : Consumes f) :
    FailsWithin (primaryHere ops f) := by
  intro s e h
  by_cases hopening : ∃ rest, s = '(' :: rest
  · obtain ⟨rest, rfl⟩ := hopening
    exact (parenthesised_failsWithin hf hconsumes).behind h (behind_cons '(' rest).1
  · rw [primaryHere_token ops f fun rest hs => hopening ⟨rest, hs⟩] at h
    split at h
    · next herror =>
      cases h
      exact text?_failsWithin _ _ herror
    · cases h
    · split at h
      · next herror =>
        cases h
        exact number?_failsWithin _ _ herror
      · cases h
      · exact named_failsWithin hf hconsumes _ _ h

theorem primary_failsWithin (hf : FailsWithin f) (hconsumes : Consumes f) :
    FailsWithin (primary ops f) :=
  fun s _ h => (primaryHere_failsWithin hf hconsumes).behind h (skipSpace_suffix s)

theorem operand_failsWithin (hf : FailsWithin f) (fuel : Nat) :
    FailsWithin (operand ops f fuel) := by
  induction fuel with
  | zero =>
    intro s e h
    cases h
    exact List.suffix_rfl
  | succ fuel ih =>
    intro s e h
    rw [operand] at h
    split at h
    · exact hf.behind h (skipSpace_suffix s)
    · next op rest hop =>
      split at h
      · next herror =>
        cases h
        exact ih.behind herror ((suffix_of_longestMatch hop).trans (skipSpace_suffix s))
      · cases h

theorem operandAt_failsWithin (hf : FailsWithin (formula ops d)) : FailsWithin (operandAt ops d) :=
  fun s => operand_failsWithin (primary_failsWithin hf (formula_consumes ops d)) (s.length + 1) s

/-! ## Chains and formulas -/

theorem more_failsWithin {tighter : List Char → Read} (hf : FailsWithin tighter)
    (hconsumes : Consumes tighter) (precedence fuel : Nat) (left : Tree) :
    FailsWithin (more ops tighter precedence fuel left) := by
  induction fuel generalizing left with
  | zero =>
    intro s e h
    cases h
  | succ fuel ih =>
    intro s e h
    rw [more] at h
    split at h
    · cases h
    · next op rest hop =>
      have hrest : rest <:+ s := (suffix_of_longestMatch hop).trans (skipSpace_suffix s)
      split at h
      · split at h
        · next herror =>
          cases h
          exact hf.behind herror hrest
        · next right after hright =>
          exact (ih _).behind h ((hconsumes _ _ _ hright).1.trans hrest)
      · cases h

theorem chain_failsWithin {operand : List Char → Read} (hf : FailsWithin operand)
    (hconsumes : Consumes operand) (levels : List Nat) :
    FailsWithin (chain ops operand levels) := by
  induction levels with
  | nil => exact hf
  | cons precedence tighter ih =>
    have htighter : Consumes (chain ops operand tighter) := chain_consumes hconsumes tighter
    intro s e h
    rw [chain] at h
    split at h
    · next herror =>
      cases h
      exact ih _ _ herror
    · next left rest hleft =>
      exact (more_failsWithin ih htighter _ _ _).behind h (htighter _ _ _ hleft).1

/-- **Every failure is at a place of the text.** -/
theorem formula_failsWithin (ops : Operators) (d : Nat) : FailsWithin (formula ops d) := by
  induction d with
  | zero =>
    intro s e h
    cases h
    exact List.suffix_rfl
  | succ d ih =>
    exact chain_failsWithin (operandAt_failsWithin ih) (operandAt_consumes ops d) ops.levels

theorem read_failsWithin (ops : Operators) : FailsWithin (read ops) := by
  intro s e h
  rw [read] at h
  split at h
  · next herror =>
    cases h
    exact formula_failsWithin ops _ _ _ herror
  · next tree rest hformula =>
    split at h
    · cases h
    · cases h
      exact (List.dropWhile_suffix isBlank).trans (formula_consumes ops _ _ _ _ hformula).1

/-! ## Positions -/

/-- The position of a failure within a text counts the bytes before it. -/
theorem Failure.toError_append (before : List Char) (e : Failure) :
    e.toError (before ++ e.rest) = ⟨byteLength before, e.cause⟩ := by
  rw [Failure.toError, byteLength_append, Nat.add_sub_cancel]

/-- **The position of an error counts the bytes before the place of the failure.** -/
theorem exists_before_error {text : String} {e : ParseError} (h : parse ops text = .error e) :
    ∃ before failure, text.toList = before ++ failure.rest ∧
      read ops text.toList = .error failure ∧ e = ⟨byteLength before, failure.cause⟩ := by
  rw [parse] at h
  split at h
  · next failure hread =>
    cases h
    obtain ⟨before, htext⟩ := read_failsWithin ops _ _ hread
    exact ⟨before, failure, htext.symm, hread, by rw [← htext, Failure.toError_append]⟩
  · cases h

end QuerySteps.Formula
