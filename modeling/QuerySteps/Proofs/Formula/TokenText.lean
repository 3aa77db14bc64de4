import QuerySteps.Proofs.Decimal.Numerals

/-!
# The text of a token

Every reader of tokens takes a text off the front and leaves the rest.  Here the text is brought out:
for every reader, a law says that what it read is the text that it took with the rest behind it, and
that the same text is read again before any other rest that does not go on the token.

What goes on a token is asked of the rest alone: a name goes on a name (`continuesName`), digits,
letters and, if there is none yet, a point go on a number, and a quote behind white space goes on a
quoted text.
-/

namespace QuerySteps

open Text (isLetterOrNumber isSpace skipSpace)

/-- What is asked of the first character of a text may be asked of another text that begins with the
same characters, if it holds where these end. -/
theorem Formula.head_of_append {p : Char → Prop} {x r k : List Char}
    (hr : ∀ c ∈ (x ++ r).head?, p c) (hk : ∀ c ∈ k.head?, p c) : ∀ c ∈ (x ++ k).head?, p c := by
  cases x with
  | nil => exact hk
  | cons d x => exact hr

/-! ## Numerals -/

namespace Numeral

variable {s r k : List Char}

/-- A run of digits is followed by something else. -/
theorem head_takeDigits (s : List Char) : ∀ c ∈ (takeDigits s).2.head?, c.isDigit = false := by
  intro c hc
  have hhead := List.head?_dropWhile_not Char.isDigit s
  have hdrop : (s.dropWhile Char.isDigit).head? = some c := hc
  rw [hdrop] at hhead
  simpa using hhead

theorem takeDigits_append_eq (s : List Char) : (takeDigits s).1 ++ (takeDigits s).2 = s :=
  List.takeWhile_append_dropWhile

theorem isDigit_of_mem_takeDigits {c : Char} (h : c ∈ (takeDigits s).1) : c.isDigit :=
  List.mem_takeWhile_imp h

theorem takeFraction_text {f : Option (List Char)} (h : takeFraction s = (f, r)) :
    ∃ u, s = u ++ r ∧ (f = none → u = [] ∧ r.head? ≠ some '.') ∧
      ∀ k, (∀ c ∈ k.head?, c.isDigit = false) → (f = none → k.head? ≠ some '.') →
        takeFraction (u ++ k) = (f, k) := by
  unfold takeFraction at h
  split at h
  · next s =>
    obtain ⟨rfl, rfl⟩ : some (takeDigits s).1 = f ∧ (takeDigits s).2 = r := by simpa using h
    refine ⟨'.' :: (takeDigits s).1, ?_, by simp, ?_⟩
    · rw [List.cons_append, takeDigits_append_eq]
    · intro k hk _
      have hdigits := takeDigits_digits (fun c hc => isDigit_of_mem_takeDigits (s := s) hc) hk
      simp only [List.cons_append, takeFraction, hdigits]
  · next hpoint =>
    obtain ⟨rfl, rfl⟩ : none = f ∧ s = r := by simpa using h
    refine ⟨[], rfl, fun _ => ⟨rfl, ?_⟩, ?_⟩
    · intro hhead
      obtain ⟨rest, hs⟩ := List.head?_eq_some_iff.mp hhead
      exact hpoint rest hs
    · intro k _ hk
      cases k with
      | nil => rfl
      | cons c k =>
        have hc : c ≠ '.' := by
          rintro rfl
          exact hk rfl rfl
        simp [takeFraction, hc]

theorem takeSign_text {minus : Bool} (h : takeSign s = (minus, r)) (hdigit : ∃ c ∈ r.head?, c.isDigit) :
    ∃ u, s = u ++ r ∧ ∀ k, (∃ c ∈ k.head?, c.isDigit) → takeSign (u ++ k) = (minus, k) := by
  unfold takeSign at h
  split at h
  · next s =>
    obtain ⟨rfl, rfl⟩ : true = minus ∧ s = r := by simpa using h
    exact ⟨['-'], rfl, fun _ _ => rfl⟩
  · next s =>
    obtain ⟨rfl, rfl⟩ : false = minus ∧ s = r := by simpa using h
    exact ⟨['+'], rfl, fun _ _ => rfl⟩
  · obtain ⟨rfl, rfl⟩ : false = minus ∧ s = r := by simpa using h
    refine ⟨[], rfl, ?_⟩
    rintro k ⟨c, hc, hdigit⟩
    obtain ⟨rest, rfl⟩ := List.head?_eq_some_iff.mp hc
    have hminus : c ≠ '-' := by
      rintro rfl
      cases hdigit
    have hplus : c ≠ '+' := by
      rintro rfl
      cases hdigit
    simp [takeSign, hminus, hplus]

theorem signedExponent_text {e : Bool × List Char} (h : signedExponent s = some (e, r)) :
    ∃ u, s = u ++ r ∧
      ∀ k, (∀ c ∈ k.head?, c.isDigit = false) → signedExponent (u ++ k) = some (e, k) := by
  rcases hsign : takeSign s with ⟨minus, rest⟩
  simp only [signedExponent, exponentDigits, hsign] at h
  split at h
  · cases h
  · next hempty =>
    obtain ⟨rfl, rfl⟩ : (minus, (takeDigits rest).1) = e ∧ (takeDigits rest).2 = r := by
      simpa using h
    have hdigits : ∀ c ∈ (takeDigits rest).1, c.isDigit :=
      fun c hc => isDigit_of_mem_takeDigits hc
    have hne : (takeDigits rest).1 ≠ [] := by
      intro hnil
      rw [hnil] at hempty
      exact hempty rfl
    obtain ⟨c, cs, hcs⟩ := List.exists_cons_of_ne_nil hne
    have hc : c.isDigit := hdigits c (by simp [hcs])
    have hrest := takeDigits_append_eq rest
    have hhead : rest.head? = some c := by
      rw [← hrest, hcs]
      rfl
    obtain ⟨u, rfl, hu⟩ := takeSign_text hsign ⟨c, hhead, hc⟩
    refine ⟨u ++ (takeDigits rest).1, ?_, ?_⟩
    · rw [List.append_assoc, hrest]
    · intro k hk
      have hagain : ∃ c ∈ ((takeDigits rest).1 ++ k).head?, c.isDigit := ⟨c, by simp [hcs], hc⟩
      simp only [List.append_assoc, signedExponent, exponentDigits, hu _ hagain,
        takeDigits_digits hdigits hk, if_neg hempty]

theorem takeExponent_text {e : Option (Bool × List Char)} (h : takeExponent s = (e, r)) :
    ∃ u, s = u ++ r ∧ (e = none → u = []) ∧
      (∀ c ∈ u.head?, c.isDigit = false ∧ c ≠ '.') ∧
      ∀ k, (∀ c ∈ k.head?, c.isDigit = false ∧ c ≠ 'e' ∧ c ≠ 'E') →
        takeExponent (u ++ k) = (e, k) := by
  have hnone : s = r → e = none → ∃ u, s = u ++ r ∧ (e = none → u = []) ∧
      (∀ c ∈ u.head?, c.isDigit = false ∧ c ≠ '.') ∧
      ∀ k, (∀ c ∈ k.head?, c.isDigit = false ∧ c ≠ 'e' ∧ c ≠ 'E') →
        takeExponent (u ++ k) = (e, k) := by
    intro hs he
    subst hs he
    refine ⟨[], rfl, fun _ => rfl, by simp, ?_⟩
    intro k hk
    cases k with
    | nil => rfl
    | cons c k =>
      obtain ⟨-, hlower, hupper⟩ := hk c rfl
      simp [takeExponent, hlower, hupper]
  cases s with
  | nil =>
    obtain ⟨rfl, rfl⟩ : none = e ∧ [] = r := by simpa [takeExponent] using h
    exact hnone rfl rfl
  | cons c s =>
    by_cases hc : c = 'e' ∨ c = 'E'
    · rcases hexponent : signedExponent s with _ | ⟨found, rest⟩
      · simp only [takeExponent, if_pos hc, hexponent, Prod.mk.injEq] at h
        exact hnone h.2 h.1.symm
      · obtain ⟨rfl, rfl⟩ : some found = e ∧ rest = r := by
          simpa [takeExponent, if_pos hc, hexponent] using h
        obtain ⟨u, rfl, hu⟩ := signedExponent_text hexponent
        refine ⟨c :: u, rfl, by simp, ?_, ?_⟩
        · intro d hd
          obtain rfl : c = d := by simpa using hd
          rcases hc with rfl | rfl <;> decide
        · intro k hk
          simp only [List.cons_append, takeExponent, if_pos hc, hu k fun c hc => (hk c hc).1]
    · simp only [takeExponent, if_neg hc, Prod.mk.injEq] at h
      exact hnone h.2 h.1.symm

/-- **The text of a numeral.**  It is read again before anything but a digit, the letter of an
exponent, and, if it has neither fraction nor exponent, a point. -/
theorem take?_text {n : Numeral} (h : take? s = some (n, r)) :
    ∃ u, s = u ++ r ∧ u ≠ [] ∧
      ∀ k, (∀ c ∈ k.head?, c.isDigit = false ∧ c ≠ 'e' ∧ c ≠ 'E') →
        (k.head? = some '.' → r.head? = some '.') → take? (u ++ k) = some (n, k) := by
  have hlength := take?_length h
  rcases hfraction : takeFraction (takeDigits s).2 with ⟨f, afterFraction⟩
  rcases hexponent : takeExponent afterFraction with ⟨e, rest⟩
  simp only [take?, hfraction, hexponent] at h
  split at h
  · cases h
  · next hempty =>
    obtain ⟨rfl, rfl⟩ : (⟨(takeDigits s).1, f, e⟩ : Numeral) = n ∧ rest = r := by simpa using h
    obtain ⟨v, hv, hnone, hagainFraction⟩ := takeFraction_text hfraction
    obtain ⟨w, rfl, hwNone, hwHead, hagainExponent⟩ := takeExponent_text hexponent
    have htext : s = (takeDigits s).1 ++ v ++ w ++ rest := by
      rw [List.append_assoc, List.append_assoc, ← hv, takeDigits_append_eq]
    refine ⟨(takeDigits s).1 ++ v ++ w, htext, ?_, ?_⟩
    · intro hnil
      rw [hnil] at htext
      rw [htext] at hlength
      exact absurd hlength (by simp)
    · intro k hk hpoint
      have hbehind : ∀ c ∈ (w ++ k).head?, c.isDigit = false := by
        refine Formula.head_of_append (r := []) ?_ fun c hc => (hk c hc).1
        rw [List.append_nil]
        exact fun c hc => (hwHead c hc).1
      have hdigit : ∀ c ∈ (v ++ (w ++ k)).head?, c.isDigit = false := by
        refine Formula.head_of_append (r := w ++ rest) ?_ hbehind
        rw [← hv]
        exact head_takeDigits s
      have hafterWhole := takeDigits_digits
        (fun c hc => isDigit_of_mem_takeDigits (s := s) hc) hdigit
      have hafterFraction : takeFraction (v ++ (w ++ k)) = (f, w ++ k) := by
        apply hagainFraction _ hbehind
        intro hf hhead
        obtain ⟨-, hr⟩ := hnone hf
        cases w with
        | nil => exact hr (hpoint hhead)
        | cons c w =>
          obtain rfl : c = '.' := by simpa using hhead
          exact (hwHead '.' rfl).2 rfl
      have hall : (takeDigits s).1 ++ v ++ w ++ k = (takeDigits s).1 ++ (v ++ (w ++ k)) := by simp
      simp only [hall, take?, hafterWhole, hafterFraction, hagainExponent k hk, if_neg hempty]

end Numeral

namespace Formula

variable {s r k : List Char}

/-! ## Names and numbers -/

/-- **The text of a name.** -/
theorem name?_text {name : String} (h : name? s = some (name, r)) :
    s = name.toList ++ r ∧ NameShaped name ∧ continuesName r = false := by
  cases s with
  | nil => cases h
  | cons c s =>
    rw [name?] at h
    split at h
    · next hc =>
      obtain ⟨rfl, rfl⟩ : String.ofList (c :: s.takeWhile isNameChar) = name ∧
          s.dropWhile isNameChar = r := by simpa using h
      refine ⟨?_, ⟨c, s.takeWhile isNameChar, String.toList_ofList, hc, ?_⟩, ?_⟩
      · rw [String.toList_ofList, List.cons_append, List.takeWhile_append_dropWhile]
      · intro d hd
        exact List.mem_takeWhile_imp hd
      · cases hdrop : s.dropWhile isNameChar with
        | nil => rfl
        | cons d rest =>
          have hhead := List.head?_dropWhile_not isNameChar s
          rw [hdrop] at hhead
          have hd : isNameChar d = false := by simpa using hhead
          exact hd
    · cases h

private theorem ends_of_runsIntoName (h : runsIntoName k = false) :
    ∀ c ∈ k.head?, c.isDigit = false ∧ c ≠ 'e' ∧ c ≠ 'E' := by
  cases k with
  | nil => simp
  | cons d k =>
    intro c hc
    obtain rfl : d = c := by simpa using hc
    obtain ⟨hnumber, -⟩ : isLetterOrNumber d = false ∧ d ≠ '_' := by simpa [runsIntoName] using h
    refine ⟨?_, ?_, ?_⟩
    · cases hdigit : d.isDigit with
      | false => rfl
      | true =>
        have hnat := isDigit_iff_toNat.mp hdigit
        have : Text.isNumber d := by rwa [Text.isNumber, if_pos (by omega)]
        simp [isLetterOrNumber, this] at hnumber
    · rintro rfl
      exact absurd hnumber (by decide)
    · rintro rfl
      exact absurd hnumber (by decide)

/-- **The text of a number.** -/
theorem number?_text {v : Scalar} (h : number? s = .ok (some (v, r))) :
    runsIntoName r = false ∧ ∃ u, s = u ++ r ∧ (∃ c u', u = c :: u' ∧ startsNumber c) ∧
      ∀ k, runsIntoName k = false → (k.head? = some '.' → r.head? = some '.') →
        number? (u ++ k) = .ok (some (v, k)) := by
  unfold number? at h
  split at h
  · cases h
  · next n rest hnumeral =>
    split at h
    · cases h
    · next hruns =>
      split at h
      · cases h
      · next found hvalue =>
        obtain ⟨rfl, rfl⟩ : found = v ∧ rest = r := by simpa using h
        obtain ⟨u, rfl, hne, hagain⟩ := Numeral.take?_text hnumeral
        refine ⟨by simpa using hruns, u, rfl, ?_, ?_⟩
        · obtain ⟨c, s', hs, hc⟩ := head_of_take? hnumeral
          obtain ⟨d, u', rfl⟩ := List.exists_cons_of_ne_nil hne
          obtain ⟨rfl, -⟩ : d = c ∧ u' ++ rest = s' := by simpa using hs
          exact ⟨d, u', rfl, hc⟩
        · intro k hk hpoint
          have hends : ∀ c ∈ k.head?, c.isDigit = false ∧ c ≠ 'e' ∧ c ≠ 'E' :=
            ends_of_runsIntoName hk
          simp only [number?, hagain k hends hpoint, hk, Bool.false_eq_true, if_false, hvalue]

theorem number?_eq_error {e : Failure} (h : number? s = .error e) : e.rest = s := by
  unfold number? at h
  split at h
  · cases h
  · split at h
    · cases h
      rfl
    · split at h
      · cases h
        rfl
      · cases h

/-! ## Quoted texts -/

/-- Whether no quote comes next. -/
def NoQuoteNext (k : List Char) : Prop := ∀ c ∈ (skipSpace k).head?, isQuote c = false

theorem piece?_of_noQuoteNext (hk : NoQuoteNext k) : piece? (skipSpace k) = .ok none := by
  apply piece?_eq_none_iff.mpr
  rintro c rest hs
  exact hk c (by rw [hs]; rfl)

theorem morePieces_of_noQuoteNext (hk : NoQuoteNext k) (fuel : Nat) (read : List Char) :
    morePieces fuel read k = .ok (read, k) := by
  cases fuel with
  | zero => rfl
  | succ fuel => simp only [morePieces, piece?_of_noQuoteNext hk]

/-- A further piece of a text, behind white space. -/
theorem morePieces_piece {fuel : Nat} {read body rest gap : List Char} {q : Char}
    (hgap : gap.all isSpace) (hq : isQuote q) (hbody : q ∉ body) :
    morePieces (fuel + 1) read (gap ++ (q :: body ++ q :: rest)) =
      morePieces fuel (read ++ body) rest := by
  have hskip : skipSpace (gap ++ (q :: body ++ q :: rest)) = q :: body ++ q :: rest := by
    rw [skipSpace_gap hgap]
    exact skipSpace_cons_of_not_isSpace (by rcases eq_of_isQuote hq with rfl | rfl <;> rfl) _
  have hpiece : piece? (q :: body ++ q :: rest) = .ok (some (body, rest)) :=
    piece?_eq_some_iff.mpr ⟨q, hq, hbody, rfl⟩
  simp only [morePieces, hskip, hpiece]

/-- The white space at the front of a text, and what follows it. -/
theorem exists_gap (s : List Char) : ∃ gap, gap.all isSpace ∧ s = gap ++ skipSpace s :=
  ⟨s.takeWhile isSpace, by simp, List.takeWhile_append_dropWhile.symm⟩

private theorem morePieces_text {fuel : Nat} {read all : List Char} (hfuel : s.length ≤ fuel)
    (h : morePieces fuel read s = .ok (all, r)) :
    NoQuoteNext r ∧ ∃ u, s = u ++ r ∧
      ∀ more k, u.length ≤ more → NoQuoteNext k → morePieces more read (u ++ k) = .ok (all, k) := by
  induction fuel generalizing s read with
  | zero =>
    obtain rfl : s = [] := List.length_eq_zero_iff.mp (Nat.le_zero.mp hfuel)
    obtain ⟨rfl, rfl⟩ : read = all ∧ [] = r := by simpa [morePieces] using h
    exact ⟨by simp [NoQuoteNext, skipSpace], [], rfl, fun more k _ hk =>
      morePieces_of_noQuoteNext hk more read⟩
  | succ fuel ih =>
    rw [morePieces] at h
    split at h
    · cases h
    · next hpiece =>
      obtain ⟨rfl, rfl⟩ : read = all ∧ s = r := by simpa using h
      refine ⟨?_, [], rfl, fun more k _ hk => morePieces_of_noQuoteNext hk more read⟩
      intro c hc
      obtain ⟨rest, hs⟩ := List.head?_eq_some_iff.mp hc
      exact piece?_eq_none_iff.mp hpiece c rest hs
    · next body rest hpiece =>
      obtain ⟨q, hq, hbody, hskip⟩ := piece?_eq_some_iff.mp hpiece
      obtain ⟨gap, hgap, hs⟩ := exists_gap s
      rw [hskip] at hs
      have hshort : rest.length ≤ fuel := by
        have hlength := congrArg List.length hs
        simp only [List.length_append, List.length_cons] at hlength
        omega
      obtain ⟨hr, u, rfl, hagain⟩ := ih hshort h
      refine ⟨hr, gap ++ (q :: body ++ q :: u), by simp [hs], ?_⟩
      intro more k hmore hk
      obtain ⟨more, rfl⟩ : ∃ n, more = n + 1 := ⟨more - 1, by
        simp only [List.length_append, List.length_cons] at hmore
        omega⟩
      have hmore' : u.length ≤ more := by
        simp only [List.length_append, List.length_cons] at hmore
        omega
      have hall : gap ++ (q :: body ++ q :: u) ++ k = gap ++ (q :: body ++ q :: (u ++ k)) := by simp
      rw [hall, morePieces_piece hgap hq hbody]
      exact hagain more k hmore' hk

/-- **The text of a quoted text.** -/
theorem text?_text {text : String} (h : text? s = .ok (some (text, r))) :
    NoQuoteNext r ∧ ∃ u, s = u ++ r ∧ (∃ q u', u = q :: u' ∧ isQuote q) ∧
      ∀ k, NoQuoteNext k → text? (u ++ k) = .ok (some (text, k)) := by
  unfold text? at h
  split at h
  · cases h
  · cases h
  · next first rest hpiece =>
    split at h
    · cases h
    · next all rest' hmore =>
      obtain ⟨rfl, rfl⟩ : String.ofList all = text ∧ rest' = r := by simpa using h
      obtain ⟨q, hq, hfirst, rfl⟩ := piece?_eq_some_iff.mp hpiece
      obtain ⟨hr, u, rfl, hagain⟩ := morePieces_text (Nat.le_refl _) hmore
      refine ⟨hr, q :: first ++ q :: u, by simp, ⟨q, _, rfl, hq⟩, ?_⟩
      intro k hk
      have hall : q :: first ++ q :: u ++ k = q :: first ++ q :: (u ++ k) := by simp
      have hagain' : piece? (q :: first ++ q :: (u ++ k)) = .ok (some (first, u ++ k)) :=
        piece?_eq_some_iff.mpr ⟨q, hq, hfirst, rfl⟩
      rw [hall]
      simp only [text?, hagain', hagain (u ++ k).length k (by simp) hk]

/-! ## Texts that are not closed -/

/-- A quoted text without content, behind a blank: what an unfinished formula can go on with. -/
def emptyText : List Char := [' ', '\'', '\'']

theorem piece?_eq_error {e : Failure} (h : piece? s = .error e) :
    e.rest = s ∧ ∃ q s', s = q :: s' ∧ isQuote q := by
  cases s with
  | nil => cases h
  | cons q s =>
    rw [piece?] at h
    split at h
    · next hq =>
      split at h
      · cases h
        exact ⟨rfl, q, s, rfl, hq⟩
      · cases h
    · cases h

private theorem morePieces_error {fuel : Nat} {read : List Char} {e : Failure}
    (h : morePieces fuel read s = .error e) :
    (∃ q s', e.rest = q :: s' ∧ isQuote q) ∧ ∃ u all, s = u ++ e.rest ∧
      ∀ more k, u.length < more → NoQuoteNext k →
        morePieces more read (u ++ (emptyText ++ k)) = .ok (all, k) := by
  induction fuel generalizing s read with
  | zero => cases h
  | succ fuel ih =>
    obtain ⟨gap, hgap, hs⟩ := exists_gap s
    rw [morePieces] at h
    split at h
    · next e' herror =>
      cases h
      obtain ⟨hrest, q, s', hskip, hq⟩ := piece?_eq_error herror
      refine ⟨⟨q, s', by rw [hrest, hskip], hq⟩, gap, read, by rw [hrest, ← hs], ?_⟩
      intro more k hmore hk
      obtain ⟨more, rfl⟩ : ∃ n, more = n + 1 := ⟨more - 1, by omega⟩
      have hblanks : (gap ++ [' ']).all isSpace := by
        rw [List.all_append, hgap]
        rfl
      have htext : gap ++ (emptyText ++ k) = gap ++ [' '] ++ ('\'' :: [] ++ '\'' :: k) := by
        simp [emptyText]
      rw [htext, morePieces_piece hblanks rfl List.not_mem_nil, List.append_nil]
      exact morePieces_of_noQuoteNext hk more read
    · cases h
    · next body rest hpiece =>
      obtain ⟨q, hq, hbody, hskip⟩ := piece?_eq_some_iff.mp hpiece
      obtain ⟨hquote, u, all, rfl, hagain⟩ := ih h
      rw [hskip] at hs
      refine ⟨hquote, gap ++ (q :: body ++ q :: u), all, by simp [hs], ?_⟩
      intro more k hmore hk
      obtain ⟨more, rfl⟩ : ∃ n, more = n + 1 := ⟨more - 1, by omega⟩
      simp only [List.length_append, List.length_cons] at hmore
      have htext : gap ++ (q :: body ++ q :: u) ++ (emptyText ++ k) =
          gap ++ (q :: body ++ q :: (u ++ (emptyText ++ k))) := by simp
      rw [htext, morePieces_piece hgap hq hbody]
      exact hagain more k (by omega) hk

/-- **A quoted text that is not closed** fails at the quote that opens its last piece, and up to
there it can go on with an empty piece. -/
theorem text?_eq_error {e : Failure} (h : text? s = .error e) :
    e.rest = s ∨ (∃ q s', e.rest = q :: s' ∧ isQuote q) ∧
      ∃ q u text, s = q :: (u ++ e.rest) ∧ isQuote q ∧
        ∀ k, NoQuoteNext k → text? (q :: (u ++ (emptyText ++ k))) = .ok (some (text, k)) := by
  unfold text? at h
  split at h
  · next e' hpiece =>
    cases h
    exact .inl (piece?_eq_error hpiece).1
  · cases h
  · next first rest hpiece =>
    split at h
    · next e' hmore =>
      cases h
      obtain ⟨q, hq, hfirst, rfl⟩ := piece?_eq_some_iff.mp hpiece
      obtain ⟨hquote, u, all, rfl, hagain⟩ := morePieces_error hmore
      refine .inr ⟨hquote, q, first ++ q :: u, String.ofList all, by simp, hq, ?_⟩
      intro k hk
      have htext : q :: (first ++ q :: u ++ (emptyText ++ k)) =
          q :: first ++ q :: (u ++ (emptyText ++ k)) := by simp
      have hpiece' : piece? (q :: first ++ q :: (u ++ (emptyText ++ k))) =
          .ok (some (first, u ++ (emptyText ++ k))) := piece?_eq_some_iff.mpr ⟨q, hq, hfirst, rfl⟩
      have hlength : u.length < (u ++ (emptyText ++ k)).length := by
        simp only [emptyText, List.length_append, List.length_cons]
        omega
      rw [htext]
      simp only [text?, hpiece', hagain _ k hlength hk]
    · cases h

end Formula

end QuerySteps
