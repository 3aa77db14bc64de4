import QuerySteps.Proofs.Decimal.ReadBack

/-!
# Minus signs before an integer

A minus sign before a number belongs to the number, so a run of minus signs is folded into the digits
behind it, sign by sign, from the inside.  White space and parentheses may stand between the signs
(`Signed`); they are no part of the tree.

Up to `2 ^ 63 - 1` in size the fold only changes the sign.  The integers above `2 ^ 63` have no
negative integer, so the first sign makes a double of them, and no further sign undoes this
(`foldedSigns`).  At `2 ^ 63` itself one sign leads to the least integer, whose negative is out of the
range of signed integers; the fold is followed up to there and no further.
-/

namespace QuerySteps

open Text (isSpace skipSpace)

namespace Scalar

/-- The value of a natural number behind so many minus signs. -/
def foldedSigns (n signs : Nat) : Scalar :=
  if n ≤ 2 ^ 63 ∨ signs = 0 then
    .integer (if signs % 2 = 0 then n else -n)
  else
    .float (if signs % 2 = 0 then Float.ofInt n else -Float.ofInt n)

theorem foldedSigns_zero (n : Nat) : foldedSigns n 0 = .integer n :=
  if_pos (.inr rfl)

theorem foldedSigns_small {n : Nat} (h : n ≤ 2 ^ 63) (signs : Nat) :
    foldedSigns n signs = .integer (if signs % 2 = 0 then n else -n) :=
  if_pos (.inl h)

theorem foldedSigns_large {n : Nat} (h : 2 ^ 63 < n) (signs : Nat) :
    foldedSigns n (signs + 1) =
      .float (if (signs + 1) % 2 = 0 then Float.ofInt n else -Float.ofInt n) :=
  if_neg (by omega)

theorem neg_neg_ofInt {n : Nat} (hn : n < 2 ^ 64) : - -Float.ofInt n = Float.ofInt n :=
  Decimal.neg_neg_of_isFinite (Decimal.isFinite_ofInt hn)

/-- One more sign before a number with signs. -/
theorem negated_foldedSigns {n signs : Nat} (hn : n < 2 ^ 64) (hlimit : n = 2 ^ 63 → signs = 0) :
    negated (foldedSigns n signs) = foldedSigns n (signs + 1) := by
  have hparity := Nat.mod_two_eq_zero_or_one signs
  by_cases hsmall : n ≤ 2 ^ 63
  · rw [foldedSigns_small hsmall, foldedSigns_small hsmall]
    rcases hparity with heven | hodd
    · have hnext : (signs + 1) % 2 ≠ 0 := by omega
      rw [if_pos heven, if_neg hnext, negated_integer (by omega) (by omega)]
    · have hnow : signs % 2 ≠ 0 := by omega
      have hnext : (signs + 1) % 2 = 0 := by omega
      rw [if_neg hnow, if_pos hnext, negated_integer (by omega) (by omega), Int.neg_neg]
  · cases signs with
    | zero =>
      rw [foldedSigns_zero, foldedSigns_large (by omega)]
      exact negated_large (by omega)
    | succ signs =>
      rw [foldedSigns_large (by omega), foldedSigns_large (by omega), negated]
      rcases hparity with heven | hodd
      · have hnext : (signs + 1 + 1) % 2 ≠ 0 := by omega
        rw [if_pos heven, if_neg hnext]
      · have hnow : (signs + 1) % 2 ≠ 0 := by omega
        have hnext : (signs + 1 + 1) % 2 = 0 := by omega
        rw [if_neg hnow, if_pos hnext, neg_neg_ofInt hn]

theorem isNumeric_foldedSigns (n signs : Nat) : (foldedSigns n signs).isNumeric = true := by
  unfold foldedSigns
  split <;> rfl

end Scalar

namespace Formula

open Decimal (ofDigits)
open Scalar (foldedSigns)

/-! ## Texts with signs -/

/-- The digits behind so many minus signs, with white space and parentheses among them. -/
inductive Signed (digits : List Char) : Nat → List Char → Prop
  | digits (nonempty : digits ≠ []) (all : ∀ c ∈ digits, c.isDigit) : Signed digits 0 digits
  | minus {signs : Nat} {s : List Char} (rest : Signed digits signs s) :
      Signed digits (signs + 1) ('-' :: s)
  | space {signs : Nat} {s : List Char} {c : Char} (blank : isSpace c)
      (rest : Signed digits signs s) : Signed digits signs (c :: s)
  | parenthesised {signs : Nat} {s gap : List Char} (blank : gap.all isSpace)
      (inner : Signed digits signs s) : Signed digits signs ('(' :: (s ++ (gap ++ [')'])))

variable {ops : Operators} {digits s k : List Char} {signs d : Nat}

/-- Where no name goes on, neither does a number. -/
theorem ends_of_continuesName (h : continuesName k = false) :
    Numeral.Ends k ∧ runsIntoName k = false := by
  cases k with
  | nil => exact ⟨fun _ hc => (Option.not_mem_none _ hc).elim, rfl⟩
  | cons c k =>
    have hc : isNameChar c = false := h
    have hne : ∀ d, isNameChar d → c ≠ d := by
      rintro d hd rfl
      rw [hc] at hd
      cases hd
    constructor
    · intro d hd
      obtain rfl : c = d := by simpa using hd
      refine ⟨?_, hne '.' (by decide), hne 'e' (by decide), hne 'E' (by decide)⟩
      cases hdigit : c.isDigit with
      | false => rfl
      | true => exact absurd rfl (hne c (isNameChar_of_startsNumber (by simp [startsNumber, hdigit])))
    · simp only [isNameChar, Bool.or_eq_false_iff] at hc
      simp only [runsIntoName, hc.1, Bool.or_self]

/-- A run of digits is an integer, if it is in range and no name goes on behind it. -/
theorem number?_digits (hne : digits ≠ []) (hdigits : ∀ c ∈ digits, c.isDigit)
    (hrange : ofDigits digits < 2 ^ 64) (hk : continuesName k = false) :
    number? (digits ++ k) = .ok (some (.integer (ofDigits digits), k)) := by
  obtain ⟨hends, hruns⟩ := ends_of_continuesName hk
  have hspelled : Numeral.Spelled ⟨digits, none, none⟩ := ⟨hdigits, hne, by simp, by simp⟩
  have htake : Numeral.take? (digits ++ k) = some (⟨digits, none, none⟩, k) := by
    have hspelling := Numeral.take?_spelling hspelled hends false
    simpa [Numeral.spelling, Numeral.fractionText, Numeral.exponentText] using hspelling
  have hvalue : Numeral.value? false ⟨digits, none, none⟩ = some (.integer (ofDigits digits)) := by
    have hinRange : Scalar.inRange (ofDigits digits) := inRange_iff.mpr ⟨by omega, by omega⟩
    simp only [Numeral.value?, Numeral.valueBy?, Bool.false_eq_true, if_false]
    exact if_pos ⟨rfl, hinRange⟩
  simp only [number?, htake, hruns, hvalue, Bool.false_eq_true, if_false]

/-- **Signs are folded into the number behind them.** -/
theorem Signed.reads (hext : ops.ExtendsDefault) (h : Signed digits signs s)
    (hn : ofDigits digits < 2 ^ 64) (hlimit : ofDigits digits = 2 ^ 63 → signs ≤ 1)
    (hd : s.length ≤ d) (hk : continuesName k = false) :
    operandAt ops d (s ++ k) = .ok (.literal (foldedSigns (ofDigits digits) signs), k) := by
  have hreg := hext.regular
  induction h generalizing d k with
  | digits nonempty all =>
    have hnumber := number?_digits nonempty all hn hk
    obtain ⟨c, cs, rfl⟩ := List.exists_cons_of_ne_nil nonempty
    have hc : startsNumber c := by simp [startsNumber, all c List.mem_cons_self]
    rw [List.cons_append] at hnumber ⊢
    rw [operandAt, operand_number hreg hc, hnumber, Scalar.foldedSigns_zero]
  | @minus signs s rest ih =>
    simp only [List.length_cons] at hd
    have hread := ih (fun h => by have := hlimit h; omega) (d := d) (by omega) hk
    have hminus := operand_minus hext.unary_eq hread
    have hfold : applyUnary "-" (.literal (foldedSigns (ofDigits digits) signs)) =
        .literal (foldedSigns (ofDigits digits) (signs + 1)) := by
      rw [← Scalar.negated_foldedSigns hn fun h => by have := hlimit h; omega]
      simp [applyUnary, Scalar.isNumeric_foldedSigns]
    rw [hfold] at hminus
    exact hminus
  | @space signs s c blank rest ih =>
    simp only [List.length_cons] at hd
    have hread := ih hlimit (d := d) (by omega) hk
    have hgap : [c].all isSpace := by simpa using blank
    exact operandAt_gap hreg hgap hread
  | @parenthesised signs s gap blank inner ih =>
    obtain ⟨d, rfl⟩ : ∃ n, d = n + 1 := ⟨d - 1, by simp only [List.length_cons] at hd; omega⟩
    simp only [List.length_cons, List.length_append] at hd
    have hclosing : continuesName (gap ++ ')' :: k) = false := continuesName_gap blank rfl
    have hread := ih hlimit (d := d) (by omega) hclosing
    have hskip : skipSpace (gap ++ ')' :: k) = ')' :: k := skipSpace_gap blank _
    have hnext : ops.next? (gap ++ ')' :: k) = none := by
      rw [Operators.next?, hskip]
      exact longestMatch_of_head hreg.binary rfl rfl k
    have hformula := (formula_succ_eq_ok_iff hreg).mpr ⟨_, _, [], hread, .done _, hnext, rfl⟩
    have htext : '(' :: (s ++ (gap ++ [')'])) ++ k = '(' :: (s ++ (gap ++ ')' :: k)) := by simp
    rw [htext, operandAt, operand_opening hreg, Formula.parenthesised, hformula]
    simp only [hskip, splitTree_nil]

/-- A text with signs is a formula, and its tree is the folded number. -/
theorem Signed.parse_eq (hext : ops.ExtendsDefault) (h : Signed digits signs s)
    (hn : ofDigits digits < 2 ^ 64) (hlimit : ofDigits digits = 2 ^ 63 → signs ≤ 1) :
    parse ops (String.ofList s) = .ok (.literal (foldedSigns (ofDigits digits) signs)) := by
  have hread := h.reads hext hn hlimit (Nat.le_refl _) (k := []) rfl
  exact parse_of_operandAt hext.regular (by simpa using hread)

/-- **Minus signs before an integer.**  Digits of a number below `2 ^ 64` behind any number of minus
signs are one literal: the number with its sign up to `2 ^ 63`, and above that a double from the
first sign on.  At `2 ^ 63` this is said up to the first sign.

Negating an integer twice gives it back if it is below `2 ^ 63` in size, and both steps stay within
the signed integers of 64 bits; above `2 ^ 63` both give doubles. -/
theorem minus_signs_fold :
    (∀ (ops : Operators) (digits s : List Char) (signs : Nat), ops.ExtendsDefault →
      Signed digits signs s → ofDigits digits < 2 ^ 64 → (ofDigits digits = 2 ^ 63 → signs ≤ 1) →
        parse ops (String.ofList s) = .ok (.literal (foldedSigns (ofDigits digits) signs)) ∧
          (foldedSigns (ofDigits digits) signs).isNumeric) ∧
    ∀ n : Int, Scalar.inRange n →
      (-2 ^ 63 < n ∧ n < 2 ^ 63 → Scalar.negated (.integer n) = .integer (-n) ∧
        Scalar.negated (.integer (-n)) = .integer n) ∧
      (2 ^ 63 < n → Scalar.negated (.integer n) = .float (-Float.ofInt n) ∧
        Scalar.negated (.float (-Float.ofInt n)) = .float (Float.ofInt n)) := by
  refine ⟨?_, ?_⟩
  · intro ops digits s signs hext hsigned hn hlimit
    exact ⟨hsigned.parse_eq hext hn hlimit, Scalar.isNumeric_foldedSigns _ _⟩
  · intro n hrange
    obtain ⟨-, hhigh⟩ := inRange_iff.mp hrange
    refine ⟨?_, ?_⟩
    · rintro ⟨hlow, hlarge⟩
      refine ⟨Scalar.negated_integer (by omega) (by omega), ?_⟩
      rw [Scalar.negated_integer (by omega) (by omega), Int.neg_neg]
    · intro hlarge
      obtain ⟨m, rfl⟩ : ∃ m : Nat, n = m := ⟨n.toNat, by omega⟩
      refine ⟨Scalar.negated_large hlarge, ?_⟩
      rw [Scalar.negated, Scalar.neg_neg_ofInt (by omega)]

/-- Three signs with a parenthesis and white space among them, the least integer, two signs that make
a double, and an integer that is negated twice. -/
theorem minus_signs_fold_cases :
    parse .default "- (-\t-9223372036854775807 )" = .ok (.literal (.integer (-9223372036854775807))) ∧
      parse .default "-9223372036854775808" = .ok (.literal (.integer (-9223372036854775808))) ∧
      parse .default "--18446744073709551615" =
        .ok (.literal (.float (Float.ofInt 18446744073709551615))) ∧
      Scalar.negated (.integer (-9223372036854775807)) = .integer 9223372036854775807 := by
  have hdigits : ∀ c ∈ "9223372036854775807".toList, c.isDigit := List.all_eq_true.mp rfl
  have hdigits' : ∀ c ∈ "9223372036854775808".toList, c.isDigit := List.all_eq_true.mp rfl
  have hdigits'' : ∀ c ∈ "18446744073709551615".toList, c.isDigit := List.all_eq_true.mp rfl
  have hblank : isSpace ' ' := rfl
  have hgap : [' '].all isSpace := rfl
  have hthree : Signed "9223372036854775807".toList 3 "- (-\t-9223372036854775807 )".toList :=
    .minus (.space hblank (.parenthesised hgap
      (.minus (.space rfl (.minus (.digits (by decide) hdigits))))))
  have hone : Signed "9223372036854775808".toList 1 "-9223372036854775808".toList :=
    .minus (.digits (by decide) hdigits')
  have htwo : Signed "18446744073709551615".toList 2 "--18446744073709551615".toList :=
    .minus (.minus (.digits (by decide) hdigits''))
  have hvalue : ofDigits "9223372036854775807".toList = 9223372036854775807 := by decide +kernel
  have hvalue' : ofDigits "9223372036854775808".toList = 9223372036854775808 := by decide +kernel
  have hvalue'' : ofDigits "18446744073709551615".toList = 18446744073709551615 := by
    decide +kernel
  have hfirst := (minus_signs_fold.1 .default _ _ _ .usual hthree (by omega) (by omega)).1
  have hsecond := (minus_signs_fold.1 .default _ _ _ .usual hone (by omega) (by omega)).1
  have hthird := (minus_signs_fold.1 .default _ _ _ .usual htwo (by omega) (by omega)).1
  have htwice := ((minus_signs_fold.2 9223372036854775807 (by decide)).1 (by decide)).2
  rw [String.ofList_toList, hvalue] at hfirst
  rw [String.ofList_toList, hvalue'] at hsecond
  rw [String.ofList_toList, hvalue''] at hthird
  exact ⟨hfirst, hsecond, hthird, htwice⟩

/-- Above `2 ^ 63`, two signs are not none. -/
theorem two_signs_before_greatest :
    parse .default "18446744073709551615" = .ok (.literal (.integer 18446744073709551615)) ∧
      parse .default "--18446744073709551615" ≠
        .ok (.literal (.integer 18446744073709551615)) := by
  have hfloat : parse .default "--18446744073709551615" =
      .ok (.literal (.float (- -Float.ofInt 18446744073709551615))) := rfl
  refine ⟨rfl, ?_⟩
  rw [hfloat]
  intro h
  cases h

end Formula

end QuerySteps
