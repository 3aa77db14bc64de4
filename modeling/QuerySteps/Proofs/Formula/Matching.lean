import Mathlib
import QuerySteps.Formula.Token

/-!
# Operators at the front of a text

`longestMatch` looks for an operator at the front of a text whose end it does not know.  This file
says what it finds and that it does not look too far: if every operator is either a word of
upper-case letters or a run of marks (`Spelled`), nothing that begins with a blank, a closing
parenthesis or a comma can change the answer when it is put behind the text.

`stripOperator_eq_some_iff` says what it is for an operator to stand at the front,
`longestMatch_append` that the answer is local, and `longestMatch_written` that an operator written
before a blank is found whole, whatever shorter or longer operators there are.
-/

namespace QuerySteps.Formula

open Text (isLetter isLetterOrNumber isBlank isSpace skipSpace)

/-! ## Characters -/

theorem isUpper_iff_toNat {c : Char} : c.isUpper ↔ 65 ≤ c.toNat ∧ c.toNat ≤ 90 := by
  simp [Char.isUpper, UInt32.le_iff_toNat_le, ← Char.toNat_val]

theorem isLower_iff_toNat {c : Char} : c.isLower ↔ 97 ≤ c.toNat ∧ c.toNat ≤ 122 := by
  simp [Char.isLower, UInt32.le_iff_toNat_le, ← Char.toNat_val]

theorem isDigit_iff_toNat {c : Char} : c.isDigit ↔ 48 ≤ c.toNat ∧ c.toNat ≤ 57 := by
  simp [Char.isDigit, UInt32.le_iff_toNat_le, ← Char.toNat_val]

theorem toUpper_of_not_isLower {c : Char} (h : ¬ c.isLower) : c.toUpper = c := by
  simp only [Char.isLower, Bool.and_eq_true, decide_eq_true_eq] at h
  simp only [Char.toUpper, dif_neg h]

theorem toUpper_of_isUpper {c : Char} (h : c.isUpper) : c.toUpper = c := by
  apply toUpper_of_not_isLower
  rw [isLower_iff_toNat]
  rw [isUpper_iff_toNat] at h
  omega

private theorem toNat_toUpper_of_isLower {c : Char} (h : c.isLower) :
    c.toUpper.toNat = c.toNat - 32 := by
  have hc := isLower_iff_toNat.mp h
  simp only [Char.isLower, Bool.and_eq_true, decide_eq_true_eq] at h
  simp only [Char.toUpper, dif_pos h, ← Char.toNat_val] at hc ⊢
  simp only [UInt32.toNat_add]
  grind

/-- The characters whose upper case is an upper-case letter are the letters of ASCII. -/
theorem isUpper_toUpper_iff {c : Char} : c.toUpper.isUpper ↔ c.isAlpha := by
  unfold Char.isAlpha
  by_cases hl : c.isLower
  · have hu := toNat_toUpper_of_isLower hl
    have hc := isLower_iff_toNat.mp hl
    rw [isUpper_iff_toNat, hu]
    simp only [hl, Bool.or_true, iff_true]
    omega
  · rw [toUpper_of_not_isLower hl]
    simp [hl]

theorem toNat_lt_of_isAlpha {c : Char} (h : c.isAlpha) : c.toNat < 0x80 := by
  rw [Char.isAlpha, Bool.or_eq_true, isUpper_iff_toNat, isLower_iff_toNat] at h
  omega

theorem isLetter_of_isAlpha {c : Char} (h : c.isAlpha) : isLetter c := by
  unfold Text.isLetter
  rw [if_pos (toNat_lt_of_isAlpha h)]
  exact h

theorem isLetter_of_isUpper {c : Char} (h : c.isUpper) : isLetter c := by
  apply isLetter_of_isAlpha
  simp [Char.isAlpha, h]

theorem isNameChar_of_isLetter {c : Char} (h : isLetter c) : isNameChar c := by
  simp [isNameChar, Text.isLetterOrNumber, h]

theorem eq_of_isQuote {c : Char} (h : isQuote c) : c = '\'' ∨ c = '"' := by
  simpa [isQuote] using h

theorem eq_of_isSpace {c : Char} (h : isSpace c) : c = ' ' ∨ c = '\t' ∨ c = '\r' ∨ c = '\n' := by
  simpa [Text.isSpace, or_assoc] using h

/-- White space is not made of letters. -/
theorem isBlank_of_isLetter {c : Char} (h : isLetter c) : isBlank c = false := by
  have hblanks : Text.blankRanges.all (fun range =>
      (List.range' range.1 (range.2 + 1 - range.1)).all fun n => !isLetter (Char.ofNat n)) = true := by
    decide +kernel
  cases hblank : isBlank c with
  | false => rfl
  | true =>
    obtain ⟨range, hrange, hc⟩ := List.any_eq_true.mp hblank
    obtain ⟨hlow, hhigh⟩ : range.1 ≤ c.toNat ∧ c.toNat ≤ range.2 := by simpa using hc
    have hmem : c.toNat ∈ List.range' range.1 (range.2 + 1 - range.1) := by
      rw [List.mem_range'_1]
      omega
    have hnot := List.all_eq_true.mp (List.all_eq_true.mp hblanks range hrange) _ hmem
    simp [Char.ofNat_toNat, h] at hnot

/-! ## White space -/

theorem skipSpace_append_of_ne_nil {s : List Char} (h : skipSpace s ≠ []) (k : List Char) :
    skipSpace (s ++ k) = skipSpace s ++ k := by
  unfold Text.skipSpace at *
  rw [List.dropWhile_append, if_neg (by simpa using h)]

theorem skipSpace_append_of_eq_nil {s : List Char} (h : skipSpace s = []) (k : List Char) :
    skipSpace (s ++ k) = skipSpace k := by
  unfold Text.skipSpace at *
  rw [List.dropWhile_append, if_pos (by simpa using h)]

theorem skipSpace_length_le (s : List Char) : (skipSpace s).length ≤ s.length :=
  (List.dropWhile_suffix isSpace).length_le

/-- White space at the front of a text makes no difference. -/
theorem skipSpace_gap {gap : List Char} (h : gap.all isSpace) (s : List Char) :
    skipSpace (gap ++ s) = skipSpace s := by
  unfold Text.skipSpace
  exact List.dropWhile_append_of_pos (by simpa using h)

@[simp] theorem skipSpace_cons_blank (s : List Char) : skipSpace (' ' :: s) = skipSpace s := rfl

theorem skipSpace_cons_of_not_isSpace {c : Char} (h : isSpace c = false) (s : List Char) :
    skipSpace (c :: s) = c :: s := by
  simp [Text.skipSpace, h]

/-- Whether a text is empty or begins with a character that ends every operator and every token. -/
def endsToken : List Char → Bool
  | [] => true
  | c :: _ => c == ' ' || c == ')' || c == ','

theorem endsToken_cons {c : Char} {k : List Char} (h : endsToken (c :: k)) :
    c = ' ' ∨ c = ')' ∨ c = ',' := by
  simpa [endsToken, or_assoc] using h

/-- What holds of the empty text and behind each of these characters holds wherever a token ends. -/
@[elab_as_elim]
theorem endsToken_cases {motive : List Char → Prop} {k : List Char} (h : endsToken k)
    (nil : motive []) (blank : ∀ k, motive (' ' :: k)) (closing : ∀ k, motive (')' :: k))
    (comma : ∀ k, motive (',' :: k)) : motive k := by
  cases k with
  | nil => exact nil
  | cons c k =>
    rcases endsToken_cons h with rfl | rfl | rfl
    · exact blank k
    · exact closing k
    · exact comma k

theorem continuesName_of_endsToken {k : List Char} (h : endsToken k) :
    continuesName k = false :=
  endsToken_cases h rfl (fun _ => rfl) (fun _ => rfl) (fun _ => rfl)

theorem continuesName_append {k : List Char} (h : endsToken k) (r : List Char) :
    continuesName (r ++ k) = continuesName r := by
  cases r with
  | nil => exact continuesName_of_endsToken h
  | cons c r => rfl

/-! ## Operators that can be told apart -/

/-- The characters of operators that are not words: those that neither names nor texts nor calls
nor white space are made of. -/
def isMark (c : Char) : Bool :=
  !(isNameChar c || isBlank c || isQuote c || c == '(' || c == ')' || c == ',')

/-- The operators that can be told from what stands around them, in the form in which they are
kept. -/
inductive Spelled (op : String) : Prop
  | word (nonempty : op.toList ≠ []) (letters : ∀ c ∈ op.toList, c.isUpper)
  | marks (nonempty : op.toList ≠ []) (marks : ∀ c ∈ op.toList, isMark c)

theorem Spelled.nonempty {op : String} (h : Spelled op) : op.toList ≠ [] := by
  cases h with
  | word nonempty _ => exact nonempty
  | marks nonempty _ => exact nonempty

theorem isLetter_of_isMark {c : Char} (h : isMark c) : isLetter c = false := by
  cases hl : isLetter c with
  | false => rfl
  | true =>
    have := isNameChar_of_isLetter hl
    simp [isMark, this] at h

theorem isWord_of_letters {op : String} (h : ∀ c ∈ op.toList, c.isUpper) : isWord op = true := by
  unfold isWord
  rw [List.all_eq_true]
  intro c hc
  exact isLetter_of_isUpper (h c hc)

theorem isWord_of_marks {op : String} (hne : op.toList ≠ []) (h : ∀ c ∈ op.toList, isMark c) :
    isWord op = false := by
  unfold isWord
  obtain ⟨c, cs, hop⟩ := List.exists_cons_of_ne_nil hne
  have hc : isLetter c = false := isLetter_of_isMark (h c (by simp [hop]))
  simp [hop, hc]

/-! ## One operator -/

/-- Whether a text spells an operator: a word in any case, any other operator as it is kept. -/
def Spells (op : String) (written : List Char) : Prop :=
  if isWord op then written.map Char.toUpper = op.toList.map Char.toUpper
  else written = op.toList

instance (op : String) (written : List Char) : Decidable (Spells op written) :=
  inferInstanceAs (Decidable (if isWord op then _ else _))

theorem stripLetters_eq_some_iff {op s r : List Char} :
    stripLetters op s = some r ↔
      ∃ w, s = w ++ r ∧ w.map Char.toUpper = op.map Char.toUpper := by
  induction op generalizing s with
  | nil => simp [stripLetters, eq_comm]
  | cons o op ih =>
    cases s with
    | nil => simp [stripLetters]
    | cons c s =>
      simp only [stripLetters, beq_iff_eq]
      constructor
      · intro h
        split at h
        · next hc =>
          obtain ⟨w, rfl, hw⟩ := ih.mp h
          exact ⟨c :: w, rfl, by simp [hw, hc]⟩
        · cases h
      · rintro ⟨w, hs, hw⟩
        cases w with
        | nil => simp at hw
        | cons c' w =>
          obtain ⟨rfl, rfl⟩ : c = c' ∧ s = w ++ r := by simpa using hs
          obtain ⟨hc, hw⟩ : c.toUpper = o.toUpper ∧ w.map Char.toUpper = op.map Char.toUpper := by
            simpa using hw
          rw [if_pos hc.symm]
          exact ih.mpr ⟨w, rfl, hw⟩

theorem stripExact_eq_some_iff {op s r : List Char} :
    stripExact op s = some r ↔ s = op ++ r := by
  induction op generalizing s with
  | nil => simp [stripExact]
  | cons o op ih =>
    cases s with
    | nil => simp [stripExact]
    | cons c s =>
      simp only [stripExact, beq_iff_eq, List.cons_append, List.cons.injEq]
      by_cases hc : o = c
      · rw [if_pos hc, ih]
        exact ⟨fun h => ⟨hc.symm, h⟩, fun h => h.2⟩
      · rw [if_neg hc]
        simp [Ne.symm hc]

/-- An operator stands at the front of a text if the text begins with a spelling of it, behind
which, if it is a word, no name goes on. -/
theorem stripOperator_eq_some_iff {op : String} {s r : List Char} :
    stripOperator op s = some r ↔
      ∃ w, s = w ++ r ∧ Spells op w ∧ (isWord op = true → continuesName r = false) := by
  unfold stripOperator Spells
  cases hw : isWord op with
  | false => simp [stripExact_eq_some_iff]
  | true =>
    simp only [if_true, forall_const]
    constructor
    · intro h
      split at h
      · next rest hrest =>
        obtain ⟨w, rfl, hspell⟩ := stripLetters_eq_some_iff.mp hrest
        cases hr : continuesName rest with
        | true => simp [hr] at h
        | false =>
          obtain rfl : rest = r := by simpa [hr] using h
          exact ⟨w, rfl, hspell, hr⟩
      · cases h
    · rintro ⟨w, hs, hspell, hr⟩
      rw [stripLetters_eq_some_iff.mpr ⟨w, hs, hspell⟩]
      simp [hr]

theorem stripOperator_nil {op : String} (h : Spelled op) : stripOperator op [] = none := by
  obtain ⟨c, cs, hop⟩ := List.exists_cons_of_ne_nil h.nonempty
  simp only [stripOperator, hop, stripLetters, stripExact]
  split <;> rfl

private theorem stripLetters_append {op k : List Char} (h : ∀ c ∈ op, c.isUpper)
    (hk : endsToken k) (s : List Char) :
    stripLetters op (s ++ k) = (stripLetters op s).map (· ++ k) := by
  induction op generalizing s with
  | nil => rfl
  | cons o op ih =>
    have ho : o.isUpper := h o (by simp)
    cases s with
    | nil =>
      cases k with
      | nil => rfl
      | cons c k =>
        have hne : o.toUpper ≠ c.toUpper := by
          rw [toUpper_of_isUpper ho]
          rintro rfl
          rcases endsToken_cons hk with rfl | rfl | rfl <;> exact absurd ho (by decide)
        simp [stripLetters, hne]
    | cons c s =>
      simp only [List.cons_append, stripLetters]
      split
      · exact ih (fun c hc => h c (by simp [hc])) s
      · rfl

private theorem stripExact_append {op k : List Char} (h : ∀ c ∈ op, isMark c)
    (hk : endsToken k) (s : List Char) :
    stripExact op (s ++ k) = (stripExact op s).map (· ++ k) := by
  induction op generalizing s with
  | nil => rfl
  | cons o op ih =>
    have ho : isMark o := h o (by simp)
    cases s with
    | nil =>
      cases k with
      | nil => rfl
      | cons c k =>
        have hne : o ≠ c := by
          rintro rfl
          rcases endsToken_cons hk with rfl | rfl | rfl <;> exact absurd ho (by decide)
        simp [stripExact, hne]
    | cons c s =>
      simp only [List.cons_append, stripExact]
      split
      · exact ih (fun c hc => h c (by simp [hc])) s
      · rfl

theorem stripOperator_append {op : String} {k : List Char} (h : Spelled op) (hk : endsToken k)
    (s : List Char) :
    stripOperator op (s ++ k) = (stripOperator op s).map (· ++ k) := by
  cases h with
  | word _ letters =>
    simp only [stripOperator, isWord_of_letters letters, if_true, stripLetters_append letters hk]
    cases stripLetters op.toList s with
    | none => rfl
    | some r =>
      simp only [Option.map_some, continuesName_append hk]
      split <;> rfl
  | marks nonempty marks =>
    simp only [stripOperator, isWord_of_marks nonempty marks, Bool.false_eq_true, if_false]
    exact stripExact_append marks hk s

/-! ## The longest operator -/

theorem longestMatch_eq_none_iff {ops : List String} {s : List Char} :
    longestMatch ops s = none ↔ ∀ op ∈ ops, stripOperator op s = none := by
  induction ops with
  | nil => simp [longestMatch]
  | cons op ops ih =>
    rw [List.forall_mem_cons, ← ih, longestMatch]
    cases stripOperator op s with
    | none => simp
    | some rest =>
      cases longestMatch ops s with
      | none => simp
      | some best =>
        by_cases hlonger : best.1.utf8ByteSize < op.utf8ByteSize <;> simp [hlonger]

theorem mem_of_longestMatch {ops : List String} {s : List Char} {op : String} {r : List Char}
    (h : longestMatch ops s = some (op, r)) : op ∈ ops ∧ stripOperator op s = some r := by
  induction ops with
  | nil => cases h
  | cons first ops ih =>
    rw [longestMatch] at h
    have tail : longestMatch ops s = some (op, r) →
        op ∈ first :: ops ∧ stripOperator op s = some r :=
      fun h => ⟨List.mem_cons_of_mem _ (ih h).1, (ih h).2⟩
    have head : ∀ rest, stripOperator first s = some rest → some (first, rest) = some (op, r) →
        op ∈ first :: ops ∧ stripOperator op s = some r := by
      intro rest hs h
      cases h
      exact ⟨List.mem_cons_self, hs⟩
    split at h
    · exact tail h
    · next hs _ => exact head _ hs h
    · next hs hb =>
      split at h
      · exact head _ hs h
      · exact tail (hb.trans h)

/-- An operator at the front that is longer than every other one there is the longest match. -/
theorem longestMatch_of_longest {ops : List String} {s : List Char} {op : String} {r : List Char}
    (hmem : op ∈ ops) (hs : stripOperator op s = some r)
    (hmax : ∀ other ∈ ops, other ≠ op → (stripOperator other s).isSome →
      other.utf8ByteSize < op.utf8ByteSize) :
    longestMatch ops s = some (op, r) := by
  induction ops with
  | nil => cases hmem
  | cons first ops ih =>
    have ih := fun hmem => ih hmem fun other ho => hmax other (List.mem_cons_of_mem _ ho)
    rw [longestMatch]
    by_cases hop : first = op
    · subst hop
      rw [hs]
      cases hb : longestMatch ops s with
      | none => rfl
      | some best =>
        obtain ⟨other, rest⟩ := best
        obtain ⟨hother, hstrip⟩ := mem_of_longestMatch hb
        by_cases heq : other = first
        · subst heq
          obtain rfl : r = rest := by simpa [hs] using hstrip
          simp
        · have hlt := hmax other (List.mem_cons_of_mem _ hother) heq (by simp [hstrip])
          simp [hlt]
    · have hrest := ih ((List.mem_cons.mp hmem).resolve_left (Ne.symm hop))
      rw [hrest]
      cases hfirst : stripOperator first s with
      | none => rfl
      | some rest =>
        have hlt := hmax first List.mem_cons_self hop (by simp [hfirst])
        simp only
        rw [if_neg (by omega)]

/-- **The longest operator at the front of a text depends on nothing behind the end of a token.** -/
theorem longestMatch_append {ops : List String} {k : List Char} (h : ∀ op ∈ ops, Spelled op)
    (hk : endsToken k) (s : List Char) :
    longestMatch ops (s ++ k) = (longestMatch ops s).map fun found => (found.1, found.2 ++ k) := by
  induction ops with
  | nil => rfl
  | cons op ops ih =>
    have hrest := ih fun op hop => h op (List.mem_cons_of_mem _ hop)
    simp only [longestMatch, stripOperator_append (h op List.mem_cons_self) hk s, hrest]
    cases stripOperator op s with
    | none => simp
    | some rest =>
      cases longestMatch ops s with
      | none => simp
      | some best =>
        by_cases hlonger : best.1.utf8ByteSize < op.utf8ByteSize <;> simp [hlonger]

/-- The spelling of a word, put into upper case, is the word. -/
theorem map_toUpper_of_spells {op : String} (letters : ∀ c ∈ op.toList, c.isUpper)
    {written : List Char} (h : Spells op written) : written.map Char.toUpper = op.toList := by
  rw [Spells, if_pos (isWord_of_letters letters)] at h
  rw [h]
  calc op.toList.map Char.toUpper
      = op.toList.map id := List.map_congr_left fun c hc => toUpper_of_isUpper (letters c hc)
    _ = op.toList := List.map_id _

theorem isAlpha_of_spells {op : String} (letters : ∀ c ∈ op.toList, c.isUpper)
    {written : List Char} (h : Spells op written) : ∀ c ∈ written, c.isAlpha := by
  intro c hc
  apply isUpper_toUpper_iff.mp
  apply letters
  rw [← map_toUpper_of_spells letters h]
  exact List.mem_map_of_mem hc

theorem eq_of_spells_marks {op : String} (nonempty : op.toList ≠ [])
    (marks : ∀ c ∈ op.toList, isMark c) {written : List Char} (h : Spells op written) :
    written = op.toList := by
  simpa [Spells, isWord_of_marks nonempty marks] using h

/-- An operator begins with a letter or a mark. -/
theorem head_of_spells {op : String} (hop : Spelled op) {written : List Char}
    (h : Spells op written) : ∃ c w, written = c :: w ∧ (c.isAlpha ∨ isMark c) := by
  cases hop with
  | word nonempty letters =>
    cases written with
    | nil => exact absurd (map_toUpper_of_spells letters h).symm nonempty
    | cons c w => exact ⟨c, w, rfl, .inl (isAlpha_of_spells letters h c List.mem_cons_self)⟩
  | marks nonempty marks =>
    obtain ⟨c, w, hop⟩ := List.exists_cons_of_ne_nil nonempty
    rw [eq_of_spells_marks nonempty marks h]
    exact ⟨c, w, hop, .inr (marks c (by simp [hop]))⟩

theorem not_isMark_of_isAlpha {c : Char} (hc : c.isAlpha) : ¬ isMark c := by
  intro hm
  have := isLetter_of_isMark hm
  rw [isLetter_of_isAlpha hc] at this
  cases this

theorem utf8ByteSize_lt {op other : String} {r : List Char}
    (h : op.toList = other.toList ++ r) (hr : r ≠ []) :
    other.utf8ByteSize < op.utf8ByteSize := by
  have hop : op = other ++ String.ofList r := by
    apply String.toList_injective
    simpa using h
  have hpos : (String.ofList r).utf8ByteSize ≠ 0 := by
    rw [Ne, String.utf8ByteSize_eq_zero_iff]
    intro hr'
    exact hr (by simpa using congrArg String.toList hr')
  rw [hop, String.utf8ByteSize_append]
  omega

/-- Of two operators at the front of a text that the first of them spells, the second is shorter. -/
theorem shorter_of_spelled {op other : String} {written : List Char}
    (hop : Spelled op) (hother : Spelled other) (hw : Spells op written) (hne : other ≠ op)
    (hs : (stripOperator other written).isSome) : other.utf8ByteSize < op.utf8ByteSize := by
  obtain ⟨r, hr⟩ := Option.isSome_iff_exists.mp hs
  obtain ⟨w, rfl, hspell, hends⟩ := stripOperator_eq_some_iff.mp hr
  cases hop with
  | word _ letters =>
    have halpha := isAlpha_of_spells letters hw
    cases hother with
    | word _ letters' =>
      -- behind a shorter word the longer one would go on
      have hr : r = [] := by
        cases r with
        | nil => rfl
        | cons c r =>
          have hc := isNameChar_of_isLetter (isLetter_of_isAlpha (halpha c (by simp)))
          have := hends (isWord_of_letters letters')
          simp [continuesName, hc] at this
      subst hr
      have hmap := map_toUpper_of_spells letters hw
      rw [List.append_nil, map_toUpper_of_spells letters' hspell] at hmap
      exact absurd (String.toList_injective hmap) hne
    | marks nonempty marks =>
      obtain ⟨c, cs, hcs⟩ := List.exists_cons_of_ne_nil nonempty
      rw [eq_of_spells_marks nonempty marks hspell] at halpha
      exact absurd (marks c (by simp [hcs])) (not_isMark_of_isAlpha (halpha c (by simp [hcs])))
  | marks nonempty marks =>
    have hop := eq_of_spells_marks nonempty marks hw
    cases hother with
    | word nonempty' letters =>
      have halpha := isAlpha_of_spells letters hspell
      cases w with
      | nil => exact absurd (map_toUpper_of_spells letters hspell).symm nonempty'
      | cons c w =>
        exact absurd (marks c (by simp [← hop])) (not_isMark_of_isAlpha (halpha c (by simp)))
    | marks nonempty' marks' =>
      rw [eq_of_spells_marks nonempty' marks' hspell] at hop
      apply utf8ByteSize_lt hop.symm
      rintro rfl
      exact hne (String.toList_injective (by simpa using hop))

/-- **An operator that is written before a blank is found, and nothing longer or shorter.** -/
theorem longestMatch_written {ops : List String} (h : ∀ op ∈ ops, Spelled op) {op : String}
    (hop : op ∈ ops) {written : List Char} (hw : Spells op written) (rest : List Char) :
    longestMatch ops (written ++ ' ' :: rest) = some (op, ' ' :: rest) := by
  have hs : stripOperator op written = some [] :=
    stripOperator_eq_some_iff.mpr ⟨written, by simp, hw, fun _ => rfl⟩
  have hlongest : longestMatch ops written = some (op, []) :=
    longestMatch_of_longest hop hs fun other hother hne =>
      shorter_of_spelled (h op hop) (h other hother) hw hne
  rw [longestMatch_append h rfl, hlongest]
  rfl

end QuerySteps.Formula
