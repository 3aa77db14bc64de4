import QuerySteps.Proofs.Formula.Matching

/-!
# Where tokens end

Quoted texts, numbers and names are read from a text whose end is not looked at: a reader answers
the same, with more left over, if something that cannot go on a token is put behind the text.  What
that is depends on the token.  A name and a number stop before a blank, a closing parenthesis or a
comma (`endsToken`); a quoted text would be joined with a further piece, and a name would become a
call, if a quote or an opening parenthesis came next (`Stops`).

For every reader there is one law of this kind (`name?_append`, `number?_append`, `text?_append`)
and a bound on what it leaves over.
-/

namespace QuerySteps

open Formula (endsToken endsToken_cases)

/-! ## Runs of characters -/

namespace Formula

theorem takeWhile_append_of_head {p : Char → Bool} {k : List Char}
    (hk : ∀ c ∈ k.head?, p c = false) (s : List Char) :
    (s ++ k).takeWhile p = s.takeWhile p := by
  induction s with
  | nil =>
    cases k with
    | nil => rfl
    | cons c k => simp [hk c rfl]
  | cons c s ih => simp only [List.cons_append, List.takeWhile_cons, ih]

theorem dropWhile_append_of_head {p : Char → Bool} {k : List Char}
    (hk : ∀ c ∈ k.head?, p c = false) (s : List Char) :
    (s ++ k).dropWhile p = s.dropWhile p ++ k := by
  induction s with
  | nil =>
    cases k with
    | nil => rfl
    | cons c k => simp [hk c rfl]
  | cons c s ih =>
    simp only [List.cons_append, List.dropWhile_cons, ih]
    split <;> rfl

/-- A class of characters that holds none of those that end a token ends before them. -/
theorem head_of_endsToken {p : Char → Bool} {k : List Char} (hk : endsToken k)
    (hblank : p ' ' = false) (hclosing : p ')' = false) (hcomma : p ',' = false) :
    ∀ c ∈ k.head?, p c = false := by
  refine endsToken_cases hk ?_ (fun k => ?_) (fun k => ?_) (fun k => ?_)
  · simp
  · simpa using hblank
  · simpa using hclosing
  · simpa using hcomma

end Formula

/-! ## Numerals -/

namespace Numeral

open Formula (takeWhile_append_of_head dropWhile_append_of_head head_of_endsToken)

variable {k : List Char}

theorem takeDigits_append (hk : endsToken k) (s : List Char) :
    takeDigits (s ++ k) = ((takeDigits s).1, (takeDigits s).2 ++ k) := by
  have hhead := head_of_endsToken hk (p := Char.isDigit) rfl rfl rfl
  simp only [takeDigits, takeWhile_append_of_head hhead, dropWhile_append_of_head hhead]

theorem takeSign_append (hk : endsToken k) (s : List Char) :
    takeSign (s ++ k) = ((takeSign s).1, (takeSign s).2 ++ k) := by
  cases s with
  | nil => exact endsToken_cases hk rfl (fun _ => rfl) (fun _ => rfl) (fun _ => rfl)
  | cons c s =>
    by_cases hminus : c = '-'
    · subst hminus
      rfl
    by_cases hplus : c = '+'
    · subst hplus
      rfl
    simp [takeSign, hminus, hplus]

theorem takeFraction_append (hk : endsToken k) (s : List Char) :
    takeFraction (s ++ k) = ((takeFraction s).1, (takeFraction s).2 ++ k) := by
  cases s with
  | nil => exact endsToken_cases hk rfl (fun _ => rfl) (fun _ => rfl) (fun _ => rfl)
  | cons c s =>
    by_cases hpoint : c = '.'
    · subst hpoint
      simp [takeFraction, takeDigits_append hk]
    · simp [takeFraction, hpoint]

theorem signedExponent_append (hk : endsToken k) (s : List Char) :
    signedExponent (s ++ k) = (signedExponent s).map fun e => (e.1, e.2 ++ k) := by
  simp only [signedExponent, exponentDigits, takeSign_append hk, takeDigits_append hk]
  split <;> rfl

theorem takeExponent_append (hk : endsToken k) (s : List Char) :
    takeExponent (s ++ k) = ((takeExponent s).1, (takeExponent s).2 ++ k) := by
  cases s with
  | nil => exact endsToken_cases hk rfl (fun _ => rfl) (fun _ => rfl) (fun _ => rfl)
  | cons c s =>
    simp only [List.cons_append, takeExponent, signedExponent_append hk]
    split
    · cases signedExponent s <;> rfl
    · rfl

/-- The numeral at the front of a text ends where a token does. -/
theorem take?_append (hk : endsToken k) (s : List Char) :
    take? (s ++ k) = (take? s).map fun n => (n.1, n.2 ++ k) := by
  simp only [take?, takeDigits_append hk, takeFraction_append hk, takeExponent_append hk]
  split <;> rfl

theorem takeDigits_length (s : List Char) :
    (takeDigits s).1.length + (takeDigits s).2.length = s.length := by
  simp only [takeDigits]
  rw [← List.length_append, List.takeWhile_append_dropWhile]

theorem takeFraction_length (s : List Char) :
    ((takeFraction s).1.getD []).length + (takeFraction s).2.length ≤ s.length := by
  unfold takeFraction
  split
  · next s =>
    have := takeDigits_length s
    simp only [Option.getD_some, List.length_cons]
    omega
  · simp

theorem takeSign_length (s : List Char) : (takeSign s).2.length ≤ s.length := by
  unfold takeSign
  split <;> simp

theorem takeExponent_length (s : List Char) : (takeExponent s).2.length ≤ s.length := by
  unfold takeExponent
  split
  · next c s =>
    split
    · split
      · next e rest he =>
        simp only [signedExponent, exponentDigits] at he
        split at he
        · cases he
        · obtain ⟨-, rfl⟩ : _ ∧ (takeDigits (takeSign s).2).2 = rest := by simpa using he
          have hsign := takeSign_length s
          have hdigits := takeDigits_length (takeSign s).2
          simp only [List.length_cons]
          omega
      · simp
    · simp
  · simp

/-- A numeral has at least one character. -/
theorem take?_length {s : List Char} {n : Numeral} {r : List Char}
    (h : take? s = some (n, r)) : r.length < s.length := by
  unfold take? at h
  simp only at h
  split at h
  · cases h
  · next hempty =>
    obtain ⟨-, rfl⟩ : _ ∧ (takeExponent (takeFraction (takeDigits s).2).2).2 = r := by
      simpa using h
    have hwhole := takeDigits_length s
    have hfraction := takeFraction_length (takeDigits s).2
    have hexponent := takeExponent_length (takeFraction (takeDigits s).2).2
    have hsome : 0 < (takeDigits s).1.length ∨
        0 < ((takeFraction (takeDigits s).2).1.getD []).length := by
      simp only [List.length_pos_iff, ← List.isEmpty_eq_false_iff]
      cases hw : (takeDigits s).1.isEmpty with
      | false => exact .inl rfl
      | true => exact .inr (by simpa [hw] using hempty)
    omega

end Numeral

namespace Formula

open Text (isLetter isLetterOrNumber isSpace skipSpace)

variable {k : List Char}

/-! ## Names and numbers -/

theorem name?_append (hk : endsToken k) (s : List Char) :
    name? (s ++ k) = (name? s).map fun n => (n.1, n.2 ++ k) := by
  cases s with
  | nil => exact endsToken_cases hk rfl (fun _ => rfl) (fun _ => rfl) (fun _ => rfl)
  | cons c s =>
    have hhead := head_of_endsToken hk (p := isNameChar) rfl rfl rfl
    simp only [List.cons_append, name?, takeWhile_append_of_head hhead,
      dropWhile_append_of_head hhead]
    split <;> rfl

theorem name?_length {s : List Char} {n : String} {r : List Char}
    (h : name? s = some (n, r)) : r.length < s.length := by
  cases s with
  | nil => cases h
  | cons c s =>
    simp only [name?] at h
    split at h
    · obtain ⟨-, rfl⟩ : _ ∧ s.dropWhile isNameChar = r := by simpa using h
      have := (List.dropWhile_suffix (l := s) isNameChar).length_le
      simp only [List.length_cons]
      omega
    · cases h

theorem runsIntoName_append (hk : endsToken k) (r : List Char) :
    runsIntoName (r ++ k) = runsIntoName r := by
  cases r with
  | nil => exact endsToken_cases hk rfl (fun _ => rfl) (fun _ => rfl) (fun _ => rfl)
  | cons c r => rfl

theorem number?_append {s : List Char} {found : Option (Scalar × List Char)} (hk : endsToken k)
    (h : number? s = .ok found) :
    number? (s ++ k) = .ok (found.map fun n => (n.1, n.2 ++ k)) := by
  simp only [number?, Numeral.take?_append hk] at h ⊢
  cases ht : Numeral.take? s with
  | none =>
    obtain rfl : none = found := by simpa [ht] using h
    rfl
  | some n =>
    obtain ⟨n, r⟩ := n
    simp only [ht, Option.map_some, runsIntoName_append hk] at h ⊢
    split at h
    · cases h
    · next hruns =>
      cases hv : n.value? false with
      | none => simp [hv] at h
      | some v =>
        obtain rfl : some (v, r) = found := by simpa [hv] using h
        rw [if_neg hruns]
        rfl

theorem number?_length {s : List Char} {v : Scalar} {r : List Char}
    (h : number? s = .ok (some (v, r))) : r.length < s.length := by
  unfold number? at h
  split at h
  · cases h
  · next n rest ht =>
    split at h
    · cases h
    · split at h
      · cases h
      · obtain ⟨-, rfl⟩ : _ ∧ rest = r := by simpa using h
        exact Numeral.take?_length ht

/-! ## Quoted texts -/

/-- What may stand behind an operand without becoming a part of it. -/
structure Stops (k : List Char) : Prop where
  ends : endsToken k
  quote : ∀ c s, skipSpace k = c :: s → isQuote c = false
  opening : ∀ s, skipSpace k ≠ '(' :: s

theorem Stops.nil : Stops [] :=
  ⟨rfl, fun _ _ h => (List.cons_ne_nil _ _ h.symm).elim,
    fun _ h => (List.cons_ne_nil _ _ h.symm).elim⟩

theorem Stops.closing (k : List Char) : Stops (')' :: k) :=
  ⟨rfl, fun _ _ h => by cases h; rfl, fun _ h => by cases h⟩

theorem Stops.comma (k : List Char) : Stops (',' :: k) :=
  ⟨rfl, fun _ _ h => by cases h; rfl, fun _ h => by cases h⟩

theorem piece?_eq_none_iff {s : List Char} :
    piece? s = .ok none ↔ ∀ c r, s = c :: r → isQuote c = false := by
  cases s with
  | nil => simp [piece?]
  | cons c s =>
    cases hc : isQuote c with
    | false => simp [piece?, hc]
    | true =>
      simp only [piece?, hc, if_true]
      constructor
      · intro h
        split at h <;> cases h
      · intro h
        exact absurd (h c s rfl) (by simp [hc])

/-- A piece stands between two quotes of one kind. -/
theorem piece?_eq_some_iff {s body r : List Char} :
    piece? s = .ok (some (body, r)) ↔
      ∃ q, isQuote q ∧ q ∉ body ∧ s = q :: body ++ q :: r := by
  cases s with
  | nil => simp [piece?]
  | cons q s =>
    simp only [piece?]
    constructor
    · intro h
      split at h
      · next hq =>
        split at h
        · cases h
        · next c rest hdrop =>
          obtain ⟨rfl, rfl⟩ : s.takeWhile (· != q) = body ∧ rest = r := by simpa using h
          have hc : c = q := by
            have := List.head?_dropWhile_not (· != q) s
            rw [hdrop] at this
            simpa using this
          subst hc
          refine ⟨c, hq, ?_, ?_⟩
          · intro hmem
            simpa using List.all_eq_true.mp List.all_takeWhile c hmem
          · rw [List.cons_append, ← hdrop, List.takeWhile_append_dropWhile]
      · cases h
    · rintro ⟨q', hq, hbody, hs⟩
      obtain ⟨rfl, rfl⟩ : q = q' ∧ s = body ++ q' :: r := by simpa using hs
      have hall : ∀ c ∈ body, (c != q) = true := by
        intro c hc
        simp only [bne_iff_ne]
        rintro rfl
        exact hbody hc
      rw [if_pos hq, List.dropWhile_append_of_pos hall, List.takeWhile_append_of_pos hall]
      simp

theorem piece?_length {s body r : List Char} (h : piece? s = .ok (some (body, r))) :
    r.length < s.length := by
  obtain ⟨q, _, _, rfl⟩ := piece?_eq_some_iff.mp h
  simp only [List.length_append, List.length_cons]
  omega

theorem piece?_append_of_some {s body r : List Char} (h : piece? s = .ok (some (body, r)))
    (k : List Char) : piece? (s ++ k) = .ok (some (body, r ++ k)) := by
  obtain ⟨q, hq, hbody, rfl⟩ := piece?_eq_some_iff.mp h
  exact piece?_eq_some_iff.mpr ⟨q, hq, hbody, by simp⟩

theorem piece?_append_of_none {s : List Char} (hk : endsToken k) (h : piece? s = .ok none) :
    piece? (s ++ k) = .ok none := by
  rw [piece?_eq_none_iff] at h ⊢
  intro c r hs
  cases s with
  | nil =>
    obtain rfl : k = c :: r := hs
    rcases endsToken_cons hk with rfl | rfl | rfl <;> rfl
  | cons d s =>
    obtain ⟨rfl, -⟩ : d = c ∧ s ++ k = r := by simpa using hs
    exact h d s rfl

/-- No further piece comes where a text stops. -/
private theorem piece?_stops (hk : Stops k) : piece? (skipSpace k) = .ok none :=
  piece?_eq_none_iff.mpr fun c s h => hk.quote c s h

theorem morePieces_stops (hk : Stops k) (fuel : Nat) (read : List Char) :
    morePieces fuel read k = .ok (read, k) := by
  cases fuel with
  | zero => rfl
  | succ fuel => simp only [morePieces, piece?_stops hk]

/-- The fuel of `morePieces` does not run out if there is as much as text. -/
theorem morePieces_append {fuel more : Nat} {s read all r : List Char} (hk : Stops k)
    (hfuel : s.length ≤ fuel) (hmore : (s ++ k).length ≤ more)
    (h : morePieces fuel read s = .ok (all, r)) :
    morePieces more read (s ++ k) = .ok (all, r ++ k) := by
  induction fuel generalizing more s read with
  | zero =>
    obtain rfl : s = [] := List.length_eq_zero_iff.mp (Nat.le_zero.mp hfuel)
    obtain ⟨rfl, rfl⟩ : read = all ∧ [] = r := by simpa [morePieces] using h
    exact morePieces_stops hk more read
  | succ fuel ih =>
    by_cases hs : skipSpace s = []
    · have hnone : piece? ([] : List Char) = .ok none := rfl
      obtain ⟨rfl, rfl⟩ : read = all ∧ s = r := by simpa [morePieces, hs, hnone] using h
      cases more with
      | zero => rfl
      | succ more =>
        simp only [morePieces, skipSpace_append_of_eq_nil hs, piece?_stops hk]
    · obtain ⟨more, rfl⟩ : ∃ n, more = n + 1 := by
        cases more with
        | succ n => exact ⟨n, rfl⟩
        | zero =>
          obtain ⟨rfl, -⟩ : s = [] ∧ k = [] := by simpa using hmore
          exact absurd rfl hs
      simp only [morePieces, skipSpace_append_of_ne_nil hs] at h ⊢
      split at h
      · cases h
      · next hpiece =>
        obtain ⟨rfl, rfl⟩ : read = all ∧ s = r := by simpa using h
        rw [piece?_append_of_none hk.ends hpiece]
      · next body rest hpiece =>
        have hlen := piece?_length hpiece
        have hskip := skipSpace_length_le s
        rw [piece?_append_of_some hpiece]
        refine ih ?_ ?_ h
        · omega
        · simp only [List.length_append] at hmore ⊢
          omega

theorem morePieces_length {fuel : Nat} {s read all r : List Char}
    (h : morePieces fuel read s = .ok (all, r)) : r.length ≤ s.length := by
  induction fuel generalizing s read with
  | zero =>
    obtain ⟨-, rfl⟩ : read = all ∧ s = r := by simpa [morePieces] using h
    exact Nat.le_refl _
  | succ fuel ih =>
    simp only [morePieces] at h
    split at h
    · cases h
    · obtain ⟨-, rfl⟩ : read = all ∧ s = r := by simpa using h
      exact Nat.le_refl _
    · next hpiece =>
      have hmore := ih h
      have hlen := piece?_length hpiece
      have hskip := skipSpace_length_le s
      omega

/-- Texts do not depend on what stands behind them, if it stops them. -/
theorem text?_append {s : List Char} {found : Option (String × List Char)} (hk : Stops k)
    (h : text? s = .ok found) : text? (s ++ k) = .ok (found.map fun t => (t.1, t.2 ++ k)) := by
  unfold text? at h
  split at h
  · cases h
  · next hpiece =>
    obtain rfl : none = found := by simpa using h
    simp only [text?, piece?_append_of_none hk.ends hpiece, Option.map_none]
  · next first rest hpiece =>
    split at h
    · cases h
    · next all r hmore =>
      obtain rfl : some (String.ofList all, r) = found := by simpa using h
      have := morePieces_append hk (Nat.le_refl _) (Nat.le_refl _) hmore
      simp only [text?, piece?_append_of_some hpiece, this, Option.map_some]

theorem text?_length {s : List Char} {t : String} {r : List Char}
    (h : text? s = .ok (some (t, r))) : r.length < s.length := by
  unfold text? at h
  split at h
  · cases h
  · cases h
  · next hpiece =>
    split at h
    · cases h
    · next all rest hmore =>
      obtain ⟨-, rfl⟩ : _ ∧ rest = r := by simpa using h
      have hlen := piece?_length hpiece
      have hrest := morePieces_length hmore
      omega

end Formula

end QuerySteps
