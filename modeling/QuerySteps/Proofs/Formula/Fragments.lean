import QuerySteps.Proofs.Formula.Extension

/-!
# Reading the fragments of a formula

What the readers answer where it is known what stands at the front: a name, a quote, a digit, an
opening parenthesis or a unary operator.  The laws are equations and hold for any reader of formulas
and whatever follows, so that a formula can be read from its parts, forwards as well as backwards.
-/

namespace QuerySteps.Formula

open Text (isLetter isSpace skipSpace upper)

/-! ## The first character -/

/-- Whether a name may begin with a character. -/
def startsName (c : Char) : Bool := isLetter c || c == '_'

/-- Whether a number may begin with a character. -/
def startsNumber (c : Char) : Bool := c.isDigit || c == '.'

variable {ops : Operators} {f : List Char → Read} {c : Char} {s k r : List Char} {fuel : Nat}

theorem isNameChar_of_startsName (h : startsName c) : isNameChar c := by
  rcases (Bool.or_eq_true _ _).mp h with h | h
  · exact isNameChar_of_isLetter h
  · simp [isNameChar, h]

private theorem toNat_of_startsNumber (h : startsNumber c) : c.toNat ≤ 57 := by
  rcases (Bool.or_eq_true _ _).mp h with h | h
  · exact (isDigit_iff_toNat.mp h).2
  · obtain rfl : c = '.' := by simpa using h
    decide

theorem isNameChar_of_startsNumber (h : startsNumber c) : isNameChar c := by
  have hnat := toNat_of_startsNumber h
  rcases (Bool.or_eq_true _ _).mp h with h | h
  · have hnumber : Text.isNumber c := by rwa [Text.isNumber, if_pos (by omega)]
    simp [isNameChar, Text.isLetterOrNumber, hnumber]
  · simp [isNameChar, h]

theorem not_isMark_of_isNameChar (h : isNameChar c) : isMark c = false := by
  simp [isMark, h]

theorem isSpace_of_isNameChar (h : isNameChar c) : isSpace c = false := by
  cases hs : isSpace c with
  | false => rfl
  | true => rcases eq_of_isSpace hs with rfl | rfl | rfl | rfl <;> exact absurd h (by decide)

theorem isQuote_of_isNameChar (h : isNameChar c) : isQuote c = false := by
  cases hs : isQuote c with
  | false => rfl
  | true => rcases eq_of_isQuote hs with rfl | rfl <;> exact absurd h (by decide)

theorem ne_opening_of_isNameChar (h : isNameChar c) : c ≠ '(' := by
  rintro rfl
  exact absurd h (by decide)

private theorem isAlpha_of_startsNumber (h : startsNumber c) : c.isAlpha = false := by
  have hnat := toNat_of_startsNumber h
  cases ha : c.isAlpha with
  | false => rfl
  | true =>
    rw [Char.isAlpha, Bool.or_eq_true, isUpper_iff_toNat, isLower_iff_toNat] at ha
    omega

theorem startsNumber_of_startsName (h : startsName c) : startsNumber c = false := by
  cases hn : startsNumber c with
  | false => rfl
  | true =>
    have hnat := toNat_of_startsNumber hn
    rcases (Bool.or_eq_true _ _).mp h with h | h
    · rw [Text.isLetter, if_pos (by omega), isAlpha_of_startsNumber hn] at h
      cases h
    · obtain rfl : c = '_' := by simpa using h
      exact absurd hn (by decide)

/-! ## Tokens by their first character -/

theorem text?_of_head (h : isQuote c = false) (s : List Char) : text? (c :: s) = .ok none := by
  simp [text?, piece?, h]

theorem take?_of_head (h : startsNumber c = false) (s : List Char) :
    Numeral.take? (c :: s) = none := by
  obtain ⟨hdigit, hpoint⟩ : c.isDigit = false ∧ c ≠ '.' := by simpa [startsNumber] using h
  simp [Numeral.take?, Numeral.takeDigits, hdigit, Numeral.takeFraction, hpoint]

theorem number?_of_head (h : startsNumber c = false) (s : List Char) :
    number? (c :: s) = .ok none := by
  simp only [number?, take?_of_head h]

theorem longestMatch_of_head {keys : List String} (hkeys : ∀ op ∈ keys, Spelled op)
    (halpha : c.isAlpha = false) (hmark : isMark c = false) (s : List Char) :
    longestMatch keys (c :: s) = none := by
  rw [longestMatch_eq_none_iff]
  intro op hop
  cases hstrip : stripOperator op (c :: s) with
  | none => rfl
  | some rest =>
    obtain ⟨w, hs, hspell, -⟩ := stripOperator_eq_some_iff.mp hstrip
    obtain ⟨c', w', rfl, hhead⟩ := head_of_spells (hkeys op hop) hspell
    obtain ⟨rfl, -⟩ : c = c' ∧ s = w' ++ rest := by simpa using hs
    simp [halpha, hmark] at hhead

/-- No white space, no quote and no opening parenthesis begins an operator. -/
theorem head_of_operator (h : c.isAlpha ∨ isMark c) :
    isSpace c = false ∧ isQuote c = false ∧ c ≠ '(' := by
  rcases h with h | h
  · have hname := isNameChar_of_isLetter (isLetter_of_isAlpha h)
    exact ⟨isSpace_of_isNameChar hname, isQuote_of_isNameChar hname,
      ne_opening_of_isNameChar hname⟩
  · refine ⟨?_, ?_, ?_⟩
    · cases hs : isSpace c with
      | false => rfl
      | true => rcases eq_of_isSpace hs with rfl | rfl | rfl | rfl <;> exact absurd h (by decide)
    · cases hs : isQuote c with
      | false => rfl
      | true => simp [isMark, hs] at h
    · rintro rfl
      exact absurd h (by decide)

/-! ## Binary operators -/

theorem next?_of_head (hreg : ops.Regular) (hspace : isSpace c = false)
    (halpha : c.isAlpha = false) (hmark : isMark c = false) (s : List Char) :
    ops.next? (c :: s) = none := by
  rw [Operators.next?, skipSpace_cons_of_not_isSpace hspace]
  exact longestMatch_of_head hreg.binary halpha hmark s

theorem next?_nil (hreg : ops.Regular) : ops.next? [] = none := by
  rw [Operators.next?, longestMatch_eq_none_iff]
  intro op hop
  exact stripOperator_nil (hreg.binary op hop)

/-- An operator between blanks comes next. -/
theorem next?_written (hreg : ops.Regular) {op : String} (hop : op ∈ ops.keys) {w : List Char}
    (hw : Spells op w) (rest : List Char) :
    ops.next? (' ' :: (w ++ ' ' :: rest)) = some (op, ' ' :: rest) := by
  have hfound := longestMatch_written hreg.binary hop hw rest
  obtain ⟨c, w', rfl, hhead⟩ := head_of_spells (hreg.binary op hop) hw
  rwa [Operators.next?, skipSpace_cons_blank, List.cons_append,
    skipSpace_cons_of_not_isSpace (head_of_operator hhead).1]

/-- An operator behind a blank stops the operand before it. -/
theorem stops_operator {op : String} (hop : Spelled op) {w : List Char} (hw : Spells op w)
    (k : List Char) : Stops (' ' :: (w ++ k)) := by
  obtain ⟨c, w', rfl, hhead⟩ := head_of_spells hop hw
  obtain ⟨hspace, hquote, hopening⟩ := head_of_operator hhead
  have hskip : skipSpace (' ' :: (c :: w' ++ k)) = c :: (w' ++ k) := by
    rw [skipSpace_cons_blank, List.cons_append, skipSpace_cons_of_not_isSpace hspace]
  refine ⟨rfl, ?_, ?_⟩
  · intro c' s hs
    rw [hskip] at hs
    cases hs
    exact hquote
  · intro s hs
    rw [hskip] at hs
    cases hs
    exact hopening rfl

/-! ## Operands by their first character -/

/-- An operand takes no more fuel than it has characters. -/
theorem operand_of_operandAt (hreg : ops.Regular) {d : Nat} {tree : Tree}
    (h : operandAt ops d s = .ok (tree, r)) (hfuel : s.length < fuel) :
    operand ops (primary ops (formula ops d)) fuel s = .ok (tree, r) := by
  have hlocal := operand_local hreg (primary_local (formula_local hreg (Nat.le_refl d))) hfuel
  simpa using (hlocal _ _ _ h).2 [] .nil

/-- White space before an operand makes no difference. -/
theorem operand_gap {p : List Char → Read} {gap : List Char} (h : gap.all isSpace)
    (s : List Char) : operand ops p (fuel + 1) (gap ++ s) = operand ops p (fuel + 1) s := by
  simp only [operand, skipSpace_gap h]

theorem operand_blank {p : List Char → Read} (s : List Char) :
    operand ops p (fuel + 1) (' ' :: s) = operand ops p (fuel + 1) s := by
  have hblank : [' '].all isSpace := rfl
  exact operand_gap hblank s

theorem operandAt_gap (hreg : ops.Regular) {d : Nat} {gap : List Char} (h : gap.all isSpace)
    {tree : Tree} (hs : operandAt ops d s = .ok (tree, r)) :
    operandAt ops d (gap ++ s) = .ok (tree, r) := by
  rw [operandAt, operand_gap h]
  apply operand_of_operandAt hreg hs
  simp only [List.length_append]
  omega

theorem operandAt_blank (hreg : ops.Regular) {d : Nat} {tree : Tree}
    (hs : operandAt ops d s = .ok (tree, r)) : operandAt ops d (' ' :: s) = .ok (tree, r) := by
  have hblank : [' '].all isSpace := rfl
  exact operandAt_gap hreg hblank hs

theorem operand_of_head (hspace : isSpace c = false)
    (hunary : longestMatch ops.unary (c :: s) = none) :
    operand ops (primary ops f) (fuel + 1) (c :: s) = primaryHere ops f (c :: s) := by
  have hskip := skipSpace_cons_of_not_isSpace hspace s
  simp only [operand, hskip, hunary, primary]

theorem operand_opening (hreg : ops.Regular) (s : List Char) :
    operand ops (primary ops f) (fuel + 1) ('(' :: s) = parenthesised f s := by
  have hunary := longestMatch_of_head hreg.unary (c := '(') rfl rfl s
  rw [operand_of_head rfl hunary]
  rfl

theorem operand_quote (hreg : ops.Regular) {q : Char} (hq : isQuote q) {text : String}
    (h : text? (q :: s) = .ok (some (text, r))) :
    operand ops (primary ops f) (fuel + 1) (q :: s) = .ok (.literal (.text text), r) := by
  obtain ⟨hspace, halpha, hmark, hopening⟩ :
      isSpace q = false ∧ q.isAlpha = false ∧ isMark q = false ∧ q ≠ '(' := by
    rcases eq_of_isQuote hq with rfl | rfl <;> decide
  have hunary := longestMatch_of_head hreg.unary halpha hmark s
  rw [operand_of_head hspace hunary, primaryHere_token ops f (by simp [hopening]), h]

theorem operand_number (hreg : ops.Regular) (hc : startsNumber c) :
    operand ops (primary ops f) (fuel + 1) (c :: s) =
      match number? (c :: s) with
      | .error e => .error e
      | .ok (some (value, rest)) => .ok (.literal value, rest)
      | .ok none => named ops f (c :: s) := by
  have hname := isNameChar_of_startsNumber hc
  have hunary := longestMatch_of_head hreg.unary (isAlpha_of_startsNumber hc)
    (not_isMark_of_isNameChar hname) s
  have hopening := ne_opening_of_isNameChar hname
  have hhere := primaryHere_token ops f (s := c :: s) (by simp [hopening])
  rw [text?_of_head (isQuote_of_isNameChar hname)] at hhere
  exact (operand_of_head (isSpace_of_isNameChar hname) hunary).trans hhere

/-! ## Names -/

/-- A name that no operator takes. -/
structure IsName (ops : Operators) (name : String) : Prop where
  spelled : ∃ c rest, name.toList = c :: rest ∧ startsName c ∧ ∀ c ∈ rest, isNameChar c
  free : ops.reserves name = false

/-- The shape of a name: what a name may begin with, then what it may go on with. -/
def NameShaped (name : String) : Prop :=
  ∃ c rest, name.toList = c :: rest ∧ startsName c ∧ ∀ c ∈ rest, isNameChar c

theorem NameShaped.all {name : String} (h : NameShaped name) : ∀ c ∈ name.toList, isNameChar c := by
  obtain ⟨c, rest, hname, hc, hrest⟩ := h
  rw [hname]
  exact List.forall_mem_cons.mpr ⟨isNameChar_of_startsName hc, hrest⟩

theorem IsName.all {name : String} (h : IsName ops name) : ∀ c ∈ name.toList, isNameChar c :=
  NameShaped.all h.spelled

theorem name?_of_shaped {name : String} (h : NameShaped name) (hk : continuesName k = false) :
    name? (name.toList ++ k) = some (name, k) := by
  obtain ⟨c, rest, hname, hc, hrest⟩ := h
  have htake : k.takeWhile isNameChar = [] := by
    cases k with
    | nil => rfl
    | cons c k =>
      have hc : isNameChar c = false := hk
      simp [hc]
  have hdrop : k.dropWhile isNameChar = k := by
    have := List.takeWhile_append_dropWhile (p := isNameChar) (l := k)
    rwa [htake, List.nil_append] at this
  have hofList : String.ofList (c :: rest) = name := by rw [← hname, String.ofList_toList]
  have hstart : (isLetter c || c == '_') = true := hc
  rw [hname, List.cons_append, name?, if_pos hstart, List.takeWhile_append_of_pos hrest,
    List.dropWhile_append_of_pos hrest, htake, hdrop, List.append_nil, hofList]

theorem name?_of_isName {name : String} (h : IsName ops name) (hk : continuesName k = false) :
    name? (name.toList ++ k) = some (name, k) :=
  name?_of_shaped h.spelled hk

/-- Only one run of name characters at the front of a text ends where no name goes on. -/
private theorem run_unique {v w : List Char} (hs : v ++ k = w ++ r)
    (hv : ∀ c ∈ v, isNameChar c) (hk : continuesName k = false)
    (hw : ∀ c ∈ w, isNameChar c) (hr : continuesName r = false) : v = w := by
  rcases List.append_eq_append_iff.mp hs with ⟨x, hx, hx'⟩ | ⟨x, hx, hx'⟩
  · cases x with
    | nil => simpa using hx.symm
    | cons c x =>
      have hc := hw c (by simp [hx])
      simp [hx', continuesName, hc] at hk
  · cases x with
    | nil => simpa using hx
    | cons c x =>
      have hc := hv c (by simp [hx])
      simp [hx', continuesName, hc] at hr

/-- What has the shape of a name is an operator or does not begin with one. -/
theorem longestMatch_of_name {keys : List String} (hkeys : ∀ op ∈ keys, Spelled op) {name : String}
    (hname : NameShaped name) (hfree : upper name ∉ keys) (hk : continuesName k = false) :
    longestMatch keys (name.toList ++ k) = none := by
  have hall := hname.all
  obtain ⟨c', rest', hname, -, -⟩ := hname
  rw [longestMatch_eq_none_iff]
  intro op hop
  cases hstrip : stripOperator op (name.toList ++ k) with
  | none => rfl
  | some rest =>
    exfalso
    obtain ⟨w, hs, hspell, hends⟩ := stripOperator_eq_some_iff.mp hstrip
    cases hkeys op hop with
    | marks nonempty marks =>
      obtain ⟨c, cs, hw⟩ := List.exists_cons_of_ne_nil nonempty
      rw [eq_of_spells_marks nonempty marks hspell, hw, hname] at hs
      obtain ⟨rfl, -⟩ : c' = c ∧ rest' ++ k = cs ++ rest := by simpa using hs
      have hmark := not_isMark_of_isNameChar (hall c' (by simp [hname]))
      rw [marks c' (by simp [hw])] at hmark
      cases hmark
    | word nonempty letters =>
      have halpha := isAlpha_of_spells letters hspell
      have hchars : ∀ c ∈ w, isNameChar c := fun c hc =>
        isNameChar_of_isLetter (isLetter_of_isAlpha (halpha c hc))
      -- the word ends where the name does, so the name is the operator
      obtain rfl := run_unique hs hall hk hchars (hends (isWord_of_letters letters))
      have hupper : upper name = op := by
        apply String.toList_injective
        rw [toList_upper_of_isAlpha halpha, map_toUpper_of_spells letters hspell]
      exact hfree (hupper ▸ hop)

/-- A name is not an operator, nor does it begin with one. -/
theorem unary_of_isName (hreg : ops.Regular) {name : String} (h : IsName ops name)
    (hk : continuesName k = false) : longestMatch ops.unary (name.toList ++ k) = none := by
  apply longestMatch_of_name hreg.unary h.spelled _ hk
  intro hmem
  have hfree := h.free
  simp [Operators.reserves, hmem] at hfree

/-- An operand that begins with a name, and with no unary operator, is that name, or a call if an
opening parenthesis comes next. -/
theorem operand_of_name {name : String} (h : IsName ops name)
    (hunary : longestMatch ops.unary (name.toList ++ k) = none) (hk : continuesName k = false) :
    operand ops (primary ops f) (fuel + 1) (name.toList ++ k) =
      match skipSpace k with
      | '(' :: args => call f name args
      | _ => .ok (.name name, k) := by
  have hname? := name?_of_isName h hk
  obtain ⟨c, rest, hname, hc, -⟩ := h.spelled
  have hnameChar := isNameChar_of_startsName hc
  have hopening := ne_opening_of_isNameChar hnameChar
  rw [hname, List.cons_append] at hunary hname? ⊢
  have hhere := primaryHere_token ops f (s := c :: (rest ++ k)) (by simp [hopening])
  rw [text?_of_head (isQuote_of_isNameChar hnameChar),
    number?_of_head (startsNumber_of_startsName hc)] at hhere
  simp only [named, hname?, h.free, Bool.false_eq_true, if_false] at hhere
  exact (operand_of_head (isSpace_of_isNameChar hnameChar) hunary).trans hhere

/-- An operand that begins with a name is that name, or a call if an opening parenthesis comes
next. -/
theorem operand_name (hreg : ops.Regular) {name : String} (h : IsName ops name)
    (hk : continuesName k = false) :
    operand ops (primary ops f) (fuel + 1) (name.toList ++ k) =
      match skipSpace k with
      | '(' :: args => call f name args
      | _ => .ok (.name name, k) :=
  operand_of_name h (unary_of_isName hreg h hk) hk

/-! ## Unary operators -/

/-- The usual unary operators are found where they are written. -/
theorem longestMatch_unary {op : String} (hop : op ∈ ["NOT", "-"]) {w : List Char}
    (hw : Spells op w) (hends : isWord op = true → continuesName r = false) :
    longestMatch ["NOT", "-"] (w ++ r) = some (op, r) := by
  have hstrip : stripOperator op (w ++ r) = some r :=
    stripOperator_eq_some_iff.mpr ⟨w, rfl, hw, hends⟩
  rcases List.mem_cons.mp hop with rfl | hop
  · have hmap : w.map Char.toUpper = ['N', 'O', 'T'] := hw
    have hminus : stripOperator "-" (w ++ r) = none := by
      cases w with
      | nil => cases hmap
      | cons c w =>
        have hc : '-' ≠ c := by
          rintro rfl
          cases hmap
        rw [stripOperator, if_neg (by decide)]
        simp [stripExact, hc]
    simp only [longestMatch, hstrip, hminus]
  · obtain rfl : op = "-" := by simpa using hop
    obtain rfl : w = ['-'] := hw
    have hnot : stripOperator "NOT" (['-'] ++ r) = none := rfl
    simp only [longestMatch, hstrip, hnot]

/-- A unary operator and its operand. -/
theorem operand_unary (hunary : ops.unary = ["NOT", "-"]) {p : List Char → Read} {op : String}
    (hop : op ∈ ["NOT", "-"]) {w : List Char} (hw : Spells op w)
    (hends : isWord op = true → continuesName r = false) :
    operand ops p (fuel + 1) (w ++ r) =
      match operand ops p fuel r with
      | .error e => .error e
      | .ok (tree, rest) => .ok (applyUnary op tree, rest) := by
  have hspelled : Spelled op := by
    rcases List.mem_cons.mp hop with rfl | hop
    · exact .word (by decide) (List.all_eq_true.mp rfl)
    · obtain rfl : op = "-" := by simpa using hop
      exact .marks (by decide) (List.all_eq_true.mp rfl)
  obtain ⟨c, w', rfl, hhead⟩ := head_of_spells hspelled hw
  have hskip := skipSpace_cons_of_not_isSpace (head_of_operator hhead).1 (w' ++ r)
  have hmatch := longestMatch_unary hop hw hends
  rw [List.cons_append] at hmatch ⊢
  cases hread : operand ops p fuel r with
  | error e => simp only [operand, hskip, hunary, hmatch, hread]
  | ok found =>
    obtain ⟨tree, rest⟩ := found
    simp only [operand, hskip, hunary, hmatch, hread]

end QuerySteps.Formula
