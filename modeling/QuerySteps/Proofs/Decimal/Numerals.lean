import QuerySteps.Proofs.Formula.Literals

/-!
# Written doubles as numerals

A double is written as a numeral, and the numeral is read back whatever follows it, as long as that
cannot go on a number (`Numeral.Ends`).  `Decimal.written` says which numeral it is, in each of the
five forms that `Decimal.write` may choose.  All of them are numerals of JSON, which allows no
needless zero before the point, and none of them is a whole number.
-/

namespace QuerySteps

open Formula (takeWhile_append_of_head dropWhile_append_of_head toDigits_eq_cons)

/-! ## Numerals and their text -/

namespace Numeral

/-- What follows a number: nothing, or a character that cannot go on it. -/
def Ends (k : List Char) : Prop :=
  ∀ c ∈ k.head?, c.isDigit = false ∧ c ≠ '.' ∧ c ≠ 'e' ∧ c ≠ 'E'

/-- The text of the fraction, with its point. -/
def fractionText : Option (List Char) → List Char
  | none => []
  | some ds => '.' :: ds

/-- The text of the exponent, with its letter; a positive one may have a plus sign. -/
def exponentText (plusSign : Bool) : Option (Bool × List Char) → List Char
  | none => []
  | some (minus, ds) => 'e' :: ((if minus then ['-'] else if plusSign then ['+'] else []) ++ ds)

/-- The text of a numeral. -/
def spelling (plusSign : Bool) (n : Numeral) : List Char :=
  n.whole ++ (fractionText n.fraction ++ exponentText plusSign n.exponent)

/-- Numerals whose parts are made of digits, with at least one before the point and one in the
exponent. -/
structure Spelled (n : Numeral) : Prop where
  whole : ∀ c ∈ n.whole, c.isDigit
  nonempty : n.whole ≠ []
  fraction : ∀ ds ∈ n.fraction, ∀ c ∈ ds, c.isDigit
  exponent : ∀ e ∈ n.exponent, e.2 ≠ [] ∧ ∀ c ∈ e.2, c.isDigit

variable {k : List Char} {n : Numeral}

theorem takeDigits_digits {ds : List Char} (hds : ∀ c ∈ ds, c.isDigit)
    (hk : ∀ c ∈ k.head?, c.isDigit = false) : takeDigits (ds ++ k) = (ds, k) := by
  have htake : ds.takeWhile Char.isDigit = ds := List.takeWhile_eq_self_iff.mpr hds
  have hdrop : ds.dropWhile Char.isDigit = [] := List.dropWhile_eq_nil_iff.mpr hds
  rw [takeDigits, takeWhile_append_of_head hk, dropWhile_append_of_head hk, htake, hdrop,
    List.nil_append]

/-- A number ends before the text of an exponent, whatever follows the exponent. -/
private theorem head_exponentText (hk : Ends k) (plusSign : Bool)
    (e : Option (Bool × List Char)) :
    ∀ c ∈ (exponentText plusSign e ++ k).head?, c.isDigit = false ∧ c ≠ '.' := by
  cases e with
  | none => exact fun c hc => ⟨(hk c hc).1, (hk c hc).2.1⟩
  | some e =>
    intro c hc
    obtain rfl : 'e' = c := by simpa [exponentText] using hc
    decide

private theorem takeFraction_spelling (hn : n.Spelled) (hk : Ends k) (plusSign : Bool) :
    takeFraction (fractionText n.fraction ++ (exponentText plusSign n.exponent ++ k)) =
      (n.fraction, exponentText plusSign n.exponent ++ k) := by
  have hhead := head_exponentText hk plusSign n.exponent
  have hdigits := hn.fraction
  cases hf : n.fraction with
  | none =>
    generalize exponentText plusSign n.exponent ++ k = r at hhead ⊢
    cases r with
    | nil => rfl
    | cons c r =>
      have hc := (hhead c rfl).2
      simp [fractionText, takeFraction, hc]
  | some ds =>
    have htake := takeDigits_digits (hdigits ds hf) fun c hc => (hhead c hc).1
    simp [fractionText, takeFraction, htake]

theorem takeSign_exponent (plusSign minus : Bool) {ds : List Char} (hne : ds ≠ [])
    (hds : ∀ c ∈ ds, c.isDigit) (k : List Char) :
    takeSign ((if minus then ['-'] else if plusSign then ['+'] else []) ++ ds ++ k) =
      (minus, ds ++ k) := by
  obtain ⟨c, cs, rfl⟩ := List.exists_cons_of_ne_nil hne
  have hc : c.isDigit := hds c List.mem_cons_self
  cases minus with
  | true => rfl
  | false =>
    cases plusSign with
    | true => rfl
    | false =>
      have hminus : c ≠ '-' := by
        rintro rfl
        cases hc
      have hplus : c ≠ '+' := by
        rintro rfl
        cases hc
      simp [takeSign, hminus, hplus]

private theorem takeExponent_spelling (hn : n.Spelled) (hk : Ends k) (plusSign : Bool) :
    takeExponent (exponentText plusSign n.exponent ++ k) = (n.exponent, k) := by
  have hdigits := hn.exponent
  cases he : n.exponent with
  | none =>
    cases k with
    | nil => rfl
    | cons c k =>
      obtain ⟨-, -, hlower, hupper⟩ := hk c rfl
      simp [exponentText, takeExponent, hlower, hupper]
  | some e =>
    obtain ⟨minus, ds⟩ := e
    obtain ⟨hne, hds⟩ := hdigits _ he
    have hsign := takeSign_exponent plusSign minus hne hds k
    have htake := takeDigits_digits hds fun c hc => (hk c hc).1
    have hempty : ds.isEmpty = false := by simpa using hne
    have hsigned : signedExponent ((if minus then ['-'] else if plusSign then ['+'] else []) ++
        ds ++ k) = some ((minus, ds), k) := by
      simp only [signedExponent, exponentDigits, hsign, htake, hempty, Bool.false_eq_true, if_false]
    simp only [exponentText, List.cons_append, takeExponent, true_or, if_true, hsigned]

/-- **The text of a numeral is read back, whatever ends it.** -/
theorem take?_spelling (hn : n.Spelled) (hk : Ends k) (plusSign : Bool) :
    take? (n.spelling plusSign ++ k) = some (n, k) := by
  have hhead : ∀ c ∈ (fractionText n.fraction ++ (exponentText plusSign n.exponent ++ k)).head?,
      c.isDigit = false := by
    cases hf : n.fraction with
    | none => exact fun c hc => (head_exponentText hk plusSign n.exponent c hc).1
    | some ds =>
      intro c hc
      obtain rfl : '.' = c := by simpa [fractionText] using hc
      decide
  have htext : n.spelling plusSign ++ k =
      n.whole ++ (fractionText n.fraction ++ (exponentText plusSign n.exponent ++ k)) := by
    simp [spelling]
  have hempty : n.whole.isEmpty = false := by simpa using hn.nonempty
  simp only [htext, take?, takeDigits_digits hn.whole hhead, takeFraction_spelling hn hk,
    takeExponent_spelling hn hk, hempty, Bool.false_eq_true, false_and, if_false]

end Numeral

/-! ## The numeral of a double -/

namespace Decimal

theorem isDigit_digitsOf (n : Nat) : ∀ c ∈ digitsOf n, c.isDigit :=
  fun _ hc => Nat.isDigit_of_mem_toDigits (by decide) (by decide) hc

theorem isDigit_zeros (n : Nat) : ∀ c ∈ zeros n, c.isDigit := by
  intro c hc
  rw [List.eq_of_mem_replicate hc]
  rfl

theorem digitsOf_ne_nil (n : Nat) : digitsOf n ≠ [] :=
  Nat.toDigits_ne_nil

theorem ofDigits_digitsOf (n : Nat) : ofDigits (digitsOf n) = n :=
  Formula.ofDigits_digitsOf n

/-- The first digit of a number is not a zero, unless the number is zero. -/
theorem head_digitsOf {n : Nat} (h : n ≠ 0) : (digitsOf n).head? ≠ some '0' := by
  induction n using Nat.strong_induction_on with
  | _ n ih =>
    by_cases hlt : n < 10
    · have hdigit : ∀ m < 10, m ≠ 0 → Nat.digitChar m ≠ '0' := by decide
      simpa [digitsOf, Nat.toDigits_of_lt_base hlt] using hdigit n hlt h
    · have hfront := ih (n / 10) (by omega) (by omega)
      obtain ⟨c, cs, hcs, -⟩ := toDigits_eq_cons (n / 10)
      simp only [digitsOf, Nat.toDigits_of_base_le (by decide) (Nat.le_of_not_lt hlt), hcs,
        List.cons_append, List.head?_cons] at hfront ⊢
      exact hfront

/-- The numeral that stands for a decimal number in positional notation. -/
def plainNumeral (digits : List Char) (exponent : Int) : Numeral :=
  let whole := (digits.length : Int) + exponent
  if 0 ≤ exponent then ⟨digits ++ zeros exponent.toNat, some ['0'], none⟩
  else if 0 < whole then ⟨digits.take whole.toNat, some (digits.drop whole.toNat), none⟩
  else ⟨['0'], some (zeros (-whole).toNat ++ digits), none⟩

/-- The numeral that stands for a decimal number in notation with an exponent. -/
def exponentNumeral (digits : List Char) (leading : Int) : Numeral :=
  ⟨digits.take 1, if (digits.drop 1).isEmpty then none else some (digits.drop 1),
    some (decide (leading < 0), digitsOf leading.natAbs)⟩

/-- The numeral that a decimal number is written as. -/
def written (layout : Layout) (d : Decimal) : Numeral :=
  let digits := digitsOf d.digits
  let leading := (digits.length : Int) + d.exponent - 1
  if d.digits = 0 then ⟨['0'], some ['0'], none⟩
  else if layout.leastPlain ≤ leading ∧ leading < firstLarge then plainNumeral digits d.exponent
  else exponentNumeral digits leading

private theorem plainText_eq (plusSign : Bool) (digits : List Char) (exponent : Int) :
    plainText digits exponent = (plainNumeral digits exponent).spelling plusSign := by
  unfold plainText plainNumeral
  simp only
  split
  · simp [Numeral.spelling, Numeral.fractionText, Numeral.exponentText]
  · split <;> simp [Numeral.spelling, Numeral.fractionText, Numeral.exponentText]

private theorem exponentText_eq (plusSign : Bool) (digits : List Char) (leading : Int) :
    exponentText plusSign digits leading =
      (exponentNumeral digits leading).spelling plusSign := by
  unfold exponentText exponentNumeral
  simp only [Numeral.spelling, Numeral.exponentText, decide_eq_true_eq]
  split <;> simp [Numeral.fractionText]

/-- **A written number is the text of its numeral.** -/
theorem write_eq_spelling (layout : Layout) (d : Decimal) :
    write layout d = (written layout d).spelling layout.plusSign := by
  unfold write written
  simp only
  split
  · rfl
  · split
    · exact plainText_eq ..
    · exact exponentText_eq ..

private theorem spelled_plainNumeral {digits : List Char} (hne : digits ≠ [])
    (hds : ∀ c ∈ digits, c.isDigit) (exponent : Int) : (plainNumeral digits exponent).Spelled := by
  have hlength := List.length_pos_iff.mpr hne
  have hzero : ∀ c ∈ ['0'], c.isDigit := by simp
  unfold plainNumeral
  simp only
  split
  · refine ⟨?_, by simp [hne], ?_, by simp⟩
    · intro c hc
      obtain hc | hc := List.mem_append.mp hc
      · exact hds c hc
      · exact isDigit_zeros _ c hc
    · rintro ds ⟨⟩
      exact hzero
  · split
    · refine ⟨fun c hc => hds c (List.mem_of_mem_take hc), ?_, ?_, by simp⟩
      · simp only [ne_eq, List.take_eq_nil_iff, hne, or_false]
        omega
      · rintro ds ⟨⟩ c hc
        exact hds c (List.mem_of_mem_drop hc)
    · refine ⟨hzero, by simp, ?_, by simp⟩
      rintro ds ⟨⟩ c hc
      obtain hc | hc := List.mem_append.mp hc
      · exact isDigit_zeros _ c hc
      · exact hds c hc

private theorem spelled_exponentNumeral {digits : List Char} (hne : digits ≠ [])
    (hds : ∀ c ∈ digits, c.isDigit) (leading : Int) :
    (exponentNumeral digits leading).Spelled := by
  refine ⟨fun c hc => hds c (List.mem_of_mem_take hc), ?_, ?_, ?_⟩
  · simp [exponentNumeral, hne]
  · intro ds hmem c hc
    simp only [exponentNumeral] at hmem
    split at hmem
    · cases hmem
    · cases hmem
      exact hds c (List.mem_of_mem_drop hc)
  · rintro e ⟨⟩
    exact ⟨digitsOf_ne_nil _, isDigit_digitsOf _⟩

theorem spelled_written (layout : Layout) (d : Decimal) : (written layout d).Spelled := by
  unfold written
  simp only
  split
  · constructor <;> simp
  · split
    · exact spelled_plainNumeral (digitsOf_ne_nil _) (isDigit_digitsOf _) _
    · exact spelled_exponentNumeral (digitsOf_ne_nil _) (isDigit_digitsOf _) _

/-- No double is written as a whole number. -/
theorem isWhole_written (layout : Layout) (d : Decimal) : (written layout d).isWhole = false := by
  unfold written plainNumeral exponentNumeral
  simp only
  split
  · rfl
  · split
    · split
      · rfl
      · split <;> rfl
    · simp [Numeral.isWhole]

end Decimal

end QuerySteps
