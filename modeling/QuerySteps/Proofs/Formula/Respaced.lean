import QuerySteps.Proofs.Formula.ViablePrefix

/-!
# Texts that differ in their white space

`Respaced s t` says that `t` is `s` with other white space: where one has a run of white space
outside of quotes, so has the other, however long and of whatever characters.  Only at the end a run
may come or go.  Every text is among its own counterparts (`Respaced.refl`); behind a quote that is
never closed nothing is changed.

The tokens do not notice.  A token is made of characters that are neither white space nor quotes, or
stands between quotes, where nothing is changed; so a reader of tokens finds the same in both texts
and comes to places that differ in their white space again (`SteadyToken`, `Steady`).  What remains
is the character behind the token, of which the readers only ask whether it goes on a name.
-/

namespace QuerySteps.Formula

open Text (isSpace isBlank skipSpace)

/-- Neither white space nor a quote. -/
def isPlain (c : Char) : Bool := !isSpace c && !isQuote c

/-- The same text with other white space outside of quotes. -/
inductive Respaced : List Char → List Char → Prop
  /-- At the end white space may come and go. -/
  | ends {u v : List Char} (left : u.all isSpace) (right : v.all isSpace) : Respaced u v
  /-- A run of white space takes the place of another one. -/
  | gap {a b : Char} {u v s t : List Char} (left : (a :: u).all isSpace)
      (right : (b :: v).all isSpace) (rest : Respaced s t) :
      Respaced (a :: (u ++ s)) (b :: (v ++ t))
  /-- What stands between quotes stays. -/
  | quoted {q : Char} {body s t : List Char} (quote : isQuote q) (inside : q ∉ body)
      (rest : Respaced s t) : Respaced (q :: body ++ q :: s) (q :: body ++ q :: t)
  /-- So does everything behind a quote that is not closed. -/
  | unclosed {q : Char} {body : List Char} (quote : isQuote q) (endless : q ∉ body) :
      Respaced (q :: body) (q :: body)
  | plain {c : Char} {s t : List Char} (plain : isPlain c) (rest : Respaced s t) :
      Respaced (c :: s) (c :: t)

/-- A reader that may find no token, and finds the same in texts that differ in white space. -/
def SteadyToken {α : Type} (f : List Char → Option (α × List Char)) : Prop :=
  ∀ s t a r, Respaced s t → f s = some (a, r) → ∃ r', f t = some (a, r') ∧ Respaced r r'

/-- A reader that may fail, and reads the same from texts that differ in their white space. -/
def Steady {α : Type} (f : List Char → Except Failure (α × List Char)) : Prop :=
  ∀ s t a r, Respaced s t → f s = .ok (a, r) → ∃ r', f t = .ok (a, r') ∧ Respaced r r'

variable {s t r w : List Char} {c q : Char}

/-! ## Characters -/

theorem isPlain_iff : isPlain c ↔ isSpace c = false ∧ isQuote c = false := by
  simp [isPlain]

theorem isPlain_of_isNameChar (h : isNameChar c) : isPlain c :=
  isPlain_iff.mpr ⟨isSpace_of_isNameChar h, isQuote_of_isNameChar h⟩

theorem isPlain_of_operator (h : c.isAlpha ∨ isMark c) : isPlain c :=
  isPlain_iff.mpr ⟨(head_of_operator h).1, (head_of_operator h).2.1⟩

/-! ## The relation -/

namespace Respaced

/-- Every text has its own white space. -/
theorem refl (s : List Char) : Respaced s s := by
  cases s with
  | nil => exact .ends rfl rfl
  | cons c s =>
    by_cases hspace : isSpace c
    · have hgap : [c].all isSpace := by simpa using hspace
      exact @Respaced.gap c c [] [] s s hgap hgap (refl s)
    · by_cases hquote : isQuote c
      · by_cases hclosed : c ∈ s
        · obtain ⟨body, rest, rfl, hinside⟩ := List.eq_append_cons_of_mem hclosed
          exact .quoted hquote hinside (refl rest)
        · exact .unclosed hquote hclosed
      · exact .plain (isPlain_iff.mpr ⟨by simpa using hspace, by simpa using hquote⟩) (refl s)
termination_by s.length

theorem symm (h : Respaced s t) : Respaced t s := by
  induction h with
  | ends left right => exact .ends right left
  | gap left right _ ih => exact .gap right left ih
  | quoted quote inside _ ih => exact .quoted quote inside ih
  | unclosed quote endless => exact .unclosed quote endless
  | plain plain _ ih => exact .plain plain ih

/-- White space at the front of both texts may be skipped. -/
theorem skip (h : Respaced s t) : Respaced (skipSpace s) (skipSpace t) := by
  induction h with
  | @ends u v left right =>
    have hu : skipSpace (u ++ []) = [] := skipSpace_gap left []
    have hv : skipSpace (v ++ []) = [] := skipSpace_gap right []
    rw [List.append_nil] at hu hv
    rw [hu, hv]
    exact .ends rfl rfl
  | gap left right _ ih =>
    rw [← List.cons_append, ← List.cons_append, skipSpace_gap left, skipSpace_gap right]
    exact ih
  | quoted quote inside rest =>
    have hspace := isSpace_of_isQuote quote
    rw [List.cons_append, List.cons_append, skipSpace_cons_of_not_isSpace hspace,
      skipSpace_cons_of_not_isSpace hspace]
    exact .quoted quote inside rest
  | unclosed quote endless =>
    rw [skipSpace_cons_of_not_isSpace (isSpace_of_isQuote quote)]
    exact .unclosed quote endless
  | plain plain rest =>
    have hspace := (isPlain_iff.mp plain).1
    rw [skipSpace_cons_of_not_isSpace hspace, skipSpace_cons_of_not_isSpace hspace]
    exact .plain plain rest

/-- A character that is neither white space nor a quote stands at the front of both texts. -/
theorem cons_plain (h : Respaced (c :: s) t) (hc : isPlain c) :
    ∃ t', t = c :: t' ∧ Respaced s t' := by
  obtain ⟨hspace, hquote⟩ := isPlain_iff.mp hc
  cases h with
  | ends left _ => simp [hspace] at left
  | gap left _ _ => simp [hspace] at left
  | quoted quote _ _ => simp [hquote] at quote
  | unclosed quote _ => simp [hquote] at quote
  | plain _ rest => exact ⟨_, rfl, rest⟩

/-- Characters that are neither white space nor quotes stand at the front of both texts. -/
theorem append_plain (h : Respaced (w ++ s) t) (hw : ∀ c ∈ w, isPlain c) :
    ∃ t', t = w ++ t' ∧ Respaced s t' := by
  induction w generalizing t with
  | nil => exact ⟨t, rfl, h⟩
  | cons c w ih =>
    obtain ⟨t', rfl, hrest⟩ := h.cons_plain (hw c List.mem_cons_self)
    obtain ⟨t'', rfl, hlast⟩ := ih hrest fun c hc => hw c (List.mem_cons_of_mem _ hc)
    exact ⟨t'', rfl, hlast⟩

/-- What the next characters are is the same if it is not white space. -/
theorem next_plain (h : Respaced s t) (hc : isPlain c) (hs : skipSpace s = c :: r) :
    ∃ r', skipSpace t = c :: r' ∧ Respaced r r' :=
  cons_plain (hs ▸ h.skip) hc

/-- A question to the first character that white space answers with no. -/
theorem head_any (h : Respaced s t) {p : Char → Bool} (hp : ∀ c, isSpace c → p c = false) :
    s.head?.any p = t.head?.any p := by
  have hblank : ∀ {u : List Char}, u.all isSpace → u.head?.any p = false := by
    intro u hu
    cases u with
    | nil => rfl
    | cons c u => exact hp c (List.all_eq_true.mp hu c List.mem_cons_self)
  cases h with
  | ends left right => rw [hblank left, hblank right]
  | gap left right _ => exact (hblank left).trans (hblank right).symm
  | quoted _ _ _ => rfl
  | unclosed _ _ => rfl
  | plain _ _ => rfl

/-- A run of characters that are neither white space nor quotes is the same in both texts. -/
theorem run (h : Respaced s t) {p : Char → Bool} (hp : ∀ c, p c → isPlain c) :
    s.takeWhile p = t.takeWhile p ∧ Respaced (s.dropWhile p) (t.dropWhile p) := by
  have hstop : ∀ {u : List Char}, (∀ c ∈ u.head?, isPlain c = false) →
      u.takeWhile p = [] ∧ u.dropWhile p = u := by
    intro u hu
    cases u with
    | nil => exact ⟨rfl, rfl⟩
    | cons c u =>
      have hc : p c = false := by
        cases hpc : p c with
        | false => rfl
        | true => exact absurd (hp c hpc) (by simp [hu c rfl])
      simp [hc]
  have hspaces : ∀ {u : List Char}, u.all isSpace → ∀ c ∈ u.head?, isPlain c = false := by
    intro u hu c hc
    have hspace := List.all_eq_true.mp hu c (List.mem_of_mem_head? hc)
    simp [isPlain, hspace]
  have hquote : ∀ {q : Char}, isQuote q → ∀ k : List Char, ∀ c ∈ (q :: k).head?,
      isPlain c = false := by
    rintro q hq k c ⟨⟩
    simp [isPlain, hq]
  induction h with
  | ends left right =>
    obtain ⟨htake, hdrop⟩ := hstop (hspaces left)
    obtain ⟨htake', hdrop'⟩ := hstop (hspaces right)
    rw [htake, htake', hdrop, hdrop']
    exact ⟨rfl, .ends left right⟩
  | @gap a b u v s t left right rest _ =>
    obtain ⟨htake, hdrop⟩ := hstop (u := a :: (u ++ s)) (hspaces (u := a :: u) left)
    obtain ⟨htake', hdrop'⟩ := hstop (u := b :: (v ++ t)) (hspaces (u := b :: v) right)
    rw [htake, htake', hdrop, hdrop']
    exact ⟨rfl, .gap left right rest⟩
  | @quoted q body s t quote inside rest _ =>
    obtain ⟨htake, hdrop⟩ := hstop (hquote quote (body ++ q :: s))
    obtain ⟨htake', hdrop'⟩ := hstop (hquote quote (body ++ q :: t))
    rw [List.cons_append, List.cons_append, htake, htake', hdrop, hdrop']
    exact ⟨rfl, .quoted quote inside rest⟩
  | @unclosed q body quote endless =>
    rw [(hstop (hquote quote body)).2]
    exact ⟨rfl, .unclosed quote endless⟩
  | @plain c s t plain rest ih =>
    cases hc : p c with
    | false =>
      simp only [List.takeWhile_cons, List.dropWhile_cons, hc]
      exact ⟨rfl, .plain plain rest⟩
    | true =>
      simp only [List.takeWhile_cons, List.dropWhile_cons, hc, if_true]
      exact ⟨by rw [ih.1], ih.2⟩

theorem continuesName_eq (h : Respaced s t) : continuesName s = continuesName t := by
  have hany : ∀ u, continuesName u = u.head?.any isNameChar := by
    rintro (_ | ⟨c, u⟩) <;> rfl
  rw [hany, hany]
  refine h.head_any fun c hc => ?_
  rcases eq_of_isSpace hc with rfl | rfl | rfl | rfl <;> rfl

theorem runsIntoName_eq (h : Respaced s t) : runsIntoName s = runsIntoName t := by
  have hany : ∀ u, runsIntoName u =
      u.head?.any fun c => Text.isLetterOrNumber c || c == '_' := by
    rintro (_ | ⟨c, u⟩) <;> rfl
  rw [hany, hany]
  refine h.head_any fun c hc => ?_
  rcases eq_of_isSpace hc with rfl | rfl | rfl | rfl <;> rfl

/-- A text of blanks stays one. -/
theorem blanks (h : Respaced s t) (hs : ∀ c ∈ s, isBlank c) : ∀ c ∈ t, isBlank c := by
  have hspaces : ∀ {u : List Char}, u.all isSpace → ∀ c ∈ u, isBlank c := fun hu c hc =>
    isBlank_of_isSpace (List.all_eq_true.mp hu c hc)
  induction h with
  | ends _ right => exact hspaces right
  | @gap a b u v s t _ right _ ih =>
    rw [← List.cons_append]
    have hrest : ∀ c ∈ s, isBlank c := fun c hc => hs c (by simp [hc])
    exact List.forall_mem_append.mpr ⟨hspaces right, ih hrest⟩
  | @quoted q body s t quote _ _ _ =>
    have hblank := hs q (by simp)
    rcases eq_of_isQuote quote with rfl | rfl <;> exact absurd hblank (by decide)
  | unclosed _ _ => exact hs
  | plain _ _ ih =>
    obtain ⟨hc, hrest⟩ := List.forall_mem_cons.mp hs
    exact List.forall_mem_cons.mpr ⟨hc, ih hrest⟩

end Respaced

/-- What is not found in one text is not found in the other. -/
theorem SteadyToken.none {α : Type} {f : List Char → Option (α × List Char)} (hf : SteadyToken f)
    (h : Respaced s t) (hs : f s = none) : f t = none := by
  cases ht : f t with
  | none => rfl
  | some found =>
    obtain ⟨r, hr, -⟩ := hf t s found.1 found.2 h.symm ht
    rw [hs] at hr
    cases hr

/-! ## Numbers and names -/

section

open Numeral

theorem isPlain_of_isDigit (h : c.isDigit) : isPlain c :=
  isPlain_of_isNameChar (isNameChar_of_startsNumber (by simp [startsNumber, h]))

theorem takeDigits_respaced (h : Respaced s t) :
    (takeDigits s).1 = (takeDigits t).1 ∧ Respaced (takeDigits s).2 (takeDigits t).2 :=
  h.run fun _ => isPlain_of_isDigit

theorem takeSign_respaced (h : Respaced s t) :
    (takeSign s).1 = (takeSign t).1 ∧ Respaced (takeSign s).2 (takeSign t).2 := by
  unfold takeSign
  split
  · obtain ⟨t', rfl, hrest⟩ := h.cons_plain (c := '-') rfl
    exact ⟨rfl, hrest⟩
  · obtain ⟨t', rfl, hrest⟩ := h.cons_plain (c := '+') rfl
    exact ⟨rfl, hrest⟩
  · next hminus hplus =>
    split
    · obtain ⟨s', rfl, -⟩ := h.symm.cons_plain (c := '-') rfl
      exact (hminus s' rfl).elim
    · obtain ⟨s', rfl, -⟩ := h.symm.cons_plain (c := '+') rfl
      exact (hplus s' rfl).elim
    · exact ⟨rfl, h⟩

theorem takeFraction_respaced (h : Respaced s t) :
    (takeFraction s).1 = (takeFraction t).1 ∧ Respaced (takeFraction s).2 (takeFraction t).2 := by
  unfold takeFraction
  split
  · obtain ⟨t', rfl, hrest⟩ := h.cons_plain (c := '.') rfl
    obtain ⟨hdigits, hafter⟩ := takeDigits_respaced hrest
    exact ⟨congrArg some hdigits, hafter⟩
  · next hpoint =>
    split
    · obtain ⟨s', rfl, -⟩ := h.symm.cons_plain (c := '.') rfl
      exact (hpoint s' rfl).elim
    · exact ⟨rfl, h⟩

theorem signedExponent_steady : SteadyToken signedExponent := by
  intro s t e r h hs
  obtain ⟨hsign, hafter⟩ := takeSign_respaced h
  obtain ⟨hdigits, hrest⟩ := takeDigits_respaced hafter
  rw [signedExponent, exponentDigits] at hs ⊢
  rw [← hsign, ← hdigits]
  split at hs
  · cases hs
  · next hsome =>
    cases hs
    exact ⟨_, if_neg hsome, hrest⟩

theorem takeExponent_respaced (h : Respaced s t) :
    (takeExponent s).1 = (takeExponent t).1 ∧ Respaced (takeExponent s).2 (takeExponent t).2 := by
  have hletter : ∀ {c}, c = 'e' ∨ c = 'E' → isPlain c := by rintro c (rfl | rfl) <;> rfl
  have hother : ∀ {u : List Char}, (∀ c ∈ u.head?, ¬ (c = 'e' ∨ c = 'E')) →
      takeExponent u = (none, u) := by
    intro u hu
    cases u with
    | nil => rfl
    | cons c u => exact if_neg (hu c rfl)
  by_cases hs : ∃ c s', s = c :: s' ∧ (c = 'e' ∨ c = 'E')
  · obtain ⟨c, s, rfl, hc⟩ := hs
    obtain ⟨t, rfl, hrest⟩ := h.cons_plain (hletter hc)
    simp only [takeExponent, if_pos hc]
    cases hexponent : signedExponent s with
    | none =>
      rw [signedExponent_steady.none hrest hexponent]
      exact ⟨rfl, h⟩
    | some e =>
      obtain ⟨r, he, hafter⟩ := signedExponent_steady s t e.1 e.2 hrest hexponent
      rw [he]
      exact ⟨rfl, hafter⟩
  · have hnone : ∀ c ∈ s.head?, ¬ (c = 'e' ∨ c = 'E') := by
      intro c hc hletter
      obtain ⟨s', rfl⟩ := List.head?_eq_some_iff.mp hc
      exact hs ⟨c, s', rfl, hletter⟩
    have hnone' : ∀ c ∈ t.head?, ¬ (c = 'e' ∨ c = 'E') := by
      intro c hc hc'
      obtain ⟨t', rfl⟩ := List.head?_eq_some_iff.mp hc
      obtain ⟨s', rfl, -⟩ := h.symm.cons_plain (hletter hc')
      exact hs ⟨c, s', rfl, hc'⟩
    rw [hother hnone, hother hnone']
    exact ⟨rfl, h⟩

theorem take?_steady : SteadyToken take? := by
  intro s t n r h hs
  obtain ⟨hwhole, hafter⟩ := takeDigits_respaced h
  obtain ⟨hfraction, hafter⟩ := takeFraction_respaced hafter
  obtain ⟨hexponent, hafter⟩ := takeExponent_respaced hafter
  simp only [take?] at hs ⊢
  rw [← hwhole, ← hfraction, ← hexponent]
  split at hs
  · cases hs
  · next hdigits =>
    cases hs
    exact ⟨_, if_neg hdigits, hafter⟩

end

theorem number?_respaced {v : Scalar} (h : Respaced s t) (hs : number? s = .ok (some (v, r))) :
    ∃ r', number? t = .ok (some (v, r')) ∧ Respaced r r' := by
  unfold number? at hs
  split at hs
  · cases hs
  · next n rest htake =>
    obtain ⟨rest', htake', hrest⟩ := take?_steady _ _ _ _ h htake
    split at hs
    · cases hs
    · next hends =>
      split at hs
      · cases hs
      · next value hvalue =>
        cases hs
        rw [hrest.runsIntoName_eq] at hends
        exact ⟨rest', by simp only [number?, htake', if_neg hends, hvalue], hrest⟩

/-- What does not begin with a number is told from the numeral at the front alone. -/
theorem number?_eq_none_iff : number? s = .ok none ↔ Numeral.take? s = none := by
  unfold number?
  constructor
  · intro h
    split at h
    · assumption
    · split at h
      · cases h
      · split at h <;> cases h
  · intro h
    rw [h]

theorem name?_steady : SteadyToken name? := by
  intro s t name r h hs
  cases s with
  | nil => cases hs
  | cons c s =>
    rw [name?] at hs
    split at hs
    · next hstart =>
      cases hs
      obtain ⟨t, rfl, hrest⟩ :=
        h.cons_plain (isPlain_of_isNameChar (isNameChar_of_startsName hstart))
      obtain ⟨hname, hafter⟩ := hrest.run fun _ => isPlain_of_isNameChar
      exact ⟨_, by rw [name?, if_pos hstart, ← hname], hafter⟩
    · cases hs

/-! ## Quoted texts -/

theorem piece?_respaced {body : List Char} (h : Respaced s t)
    (hs : piece? s = .ok (some (body, r))) :
    ∃ r', piece? t = .ok (some (body, r')) ∧ Respaced r r' := by
  obtain ⟨q, hq, -, hshape⟩ := piece?_eq_some_iff.mp hs
  have hspace := isSpace_of_isQuote hq
  have hhead : s.head? = some q := by rw [hshape]; rfl
  cases h with
  | ends left _ =>
    have := List.all_eq_true.mp left q (List.mem_of_mem_head? hhead)
    simp [hspace] at this
  | gap left _ _ =>
    cases hhead
    simp [hspace] at left
  | @quoted q' body' s' t' quote inside rest =>
    have hpiece : piece? (q' :: body' ++ q' :: s') = .ok (some (body', s')) :=
      piece?_eq_some_iff.mpr ⟨q', quote, inside, rfl⟩
    rw [hpiece] at hs
    obtain ⟨rfl, rfl⟩ : body' = body ∧ s' = r := by simpa using hs
    exact ⟨t', piece?_eq_some_iff.mpr ⟨q', quote, inside, rfl⟩, rest⟩
  | @unclosed q' body' quote endless =>
    obtain ⟨rfl, rfl⟩ := List.cons.inj hshape
    simp at endless
  | plain plain _ =>
    cases hhead
    simp [isPlain, hq] at plain

theorem piece?_none_respaced (h : Respaced s t) (hs : piece? s = .ok none) :
    piece? t = .ok none := by
  have hany : ∀ u, piece? u = .ok none ↔ u.head?.any isQuote = false := by
    intro u
    rw [piece?_eq_none_iff]
    cases u <;> simp
  have hspace : ∀ c, isSpace c → isQuote c = false := by
    intro c hc
    rcases eq_of_isSpace hc with rfl | rfl | rfl | rfl <;> rfl
  rw [hany] at hs ⊢
  rwa [← h.head_any hspace]

/-- Any number of pieces may be left over to read, if no text is. -/
theorem morePieces_of_none {read : List Char} (h : piece? (skipSpace s) = .ok none) (fuel : Nat) :
    morePieces fuel read s = .ok (read, s) := by
  cases fuel with
  | zero => rfl
  | succ fuel => simp only [morePieces, h]

theorem morePieces_respaced {fuel more : Nat} {read all : List Char} (h : Respaced s t)
    (hfuel : s.length ≤ fuel) (hmore : t.length ≤ more)
    (hs : morePieces fuel read s = .ok (all, r)) :
    ∃ r', morePieces more read t = .ok (all, r') ∧ Respaced r r' := by
  induction fuel generalizing s t more read with
  | zero =>
    obtain rfl : s = [] := List.length_eq_zero_iff.mp (Nat.le_zero.mp hfuel)
    obtain ⟨rfl, rfl⟩ : read = all ∧ [] = r := by simpa [morePieces] using hs
    have hnone : piece? (skipSpace t) = .ok none := piece?_none_respaced h.skip rfl
    exact ⟨t, morePieces_of_none hnone more, h⟩
  | succ fuel ih =>
    rw [morePieces] at hs
    split at hs
    · cases hs
    · next hnone =>
      obtain ⟨rfl, rfl⟩ : read = all ∧ s = r := by simpa using hs
      exact ⟨t, morePieces_of_none (piece?_none_respaced h.skip hnone) more, h⟩
    · next body rest hpiece =>
      obtain ⟨rest', hpiece', hrest⟩ := piece?_respaced h.skip hpiece
      have hlength := piece?_length hpiece
      have hlength' := piece?_length hpiece'
      have hskip := skipSpace_length_le s
      have hskip' := skipSpace_length_le t
      obtain ⟨more, rfl⟩ : ∃ n, more = n + 1 := ⟨more - 1, by omega⟩
      have hshort : rest'.length ≤ more := by omega
      obtain ⟨r', hagain, hr⟩ := ih hrest (by omega) hshort hs
      exact ⟨r', by simp only [morePieces, hpiece', hagain], hr⟩

theorem text?_respaced {text : String} (h : Respaced s t)
    (hs : text? s = .ok (some (text, r))) :
    ∃ r', text? t = .ok (some (text, r')) ∧ Respaced r r' := by
  unfold text? at hs
  split at hs
  · cases hs
  · cases hs
  · next first rest hpiece =>
    obtain ⟨rest', hpiece', hrest⟩ := piece?_respaced h hpiece
    split at hs
    · cases hs
    · next all after hmore =>
      obtain ⟨rfl, rfl⟩ : String.ofList all = text ∧ after = r := by simpa using hs
      obtain ⟨r', hmore', hr⟩ :=
        morePieces_respaced hrest (Nat.le_refl _) (Nat.le_refl _) hmore
      exact ⟨r', by simp only [text?, hpiece', hmore'], hr⟩

theorem text?_none_respaced (h : Respaced s t) (hs : text? s = .ok none) : text? t = .ok none := by
  unfold text? at hs ⊢
  split at hs
  · cases hs
  · next hnone => rw [piece?_none_respaced h hnone]
  · split at hs <;> cases hs

/-! ## Operators -/

/-- A spelling of an operator is made of letters or of marks. -/
theorem isPlain_of_spells {op : String} (hop : Spelled op) (hw : Spells op w) :
    ∀ c ∈ w, isPlain c := by
  intro c hc
  apply isPlain_of_operator
  cases hop with
  | word nonempty letters => exact .inl (isAlpha_of_spells letters hw c hc)
  | marks nonempty marks =>
    rw [eq_of_spells_marks nonempty marks hw] at hc
    exact .inr (marks c hc)

theorem stripOperator_respaced {op : String} (hop : Spelled op) (h : Respaced s t)
    (hs : stripOperator op s = some r) : ∃ r', stripOperator op t = some r' ∧ Respaced r r' := by
  obtain ⟨w, rfl, hw, hends⟩ := stripOperator_eq_some_iff.mp hs
  obtain ⟨r', rfl, hr⟩ := h.append_plain (isPlain_of_spells hop hw)
  rw [hr.continuesName_eq] at hends
  exact ⟨r', stripOperator_eq_some_iff.mpr ⟨w, rfl, hw, hends⟩, hr⟩

theorem stripOperator_none_respaced {op : String} (hop : Spelled op) (h : Respaced s t)
    (hs : stripOperator op s = none) : stripOperator op t = none := by
  cases ht : stripOperator op t with
  | none => rfl
  | some r =>
    obtain ⟨r', hr, -⟩ := stripOperator_respaced hop h.symm ht
    rw [hs] at hr
    cases hr

/-- The longest operator at the front is the same, whatever the white space behind it. -/
theorem longestMatch_steady {keys : List String} (hkeys : ∀ op ∈ keys, Spelled op) :
    SteadyToken (longestMatch keys) := by
  induction keys with
  | nil =>
    intro s t op r _ hs
    cases hs
  | cons first keys ih =>
    obtain ⟨hfirst, hkeys⟩ := List.forall_mem_cons.mp hkeys
    intro s t op r h hs
    rw [longestMatch] at hs ⊢
    split at hs
    · next hnone =>
      rw [stripOperator_none_respaced hfirst h hnone]
      exact ih hkeys s t op r h hs
    · next rest hstrip hnone =>
      obtain ⟨rest', hstrip', hrest⟩ := stripOperator_respaced hfirst h hstrip
      rw [hstrip', (ih hkeys).none h hnone]
      cases hs
      exact ⟨rest', rfl, hrest⟩
    · next rest best hstrip hbest =>
      obtain ⟨rest', hstrip', hrest⟩ := stripOperator_respaced hfirst h hstrip
      obtain ⟨after', hbest', hafter⟩ := ih hkeys s t best.1 best.2 h hbest
      rw [hstrip', hbest']
      dsimp only
      split at hs
      · next hlonger =>
        cases hs
        exact ⟨rest', if_pos hlonger, hrest⟩
      · next hshorter =>
        cases hs
        exact ⟨after', if_neg hshorter, hafter⟩

end QuerySteps.Formula
