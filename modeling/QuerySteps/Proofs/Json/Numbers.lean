import QuerySteps.Proofs.Formula.Signs
import QuerySteps.Proofs.Json.Expressions

/-!
# Numbers of formulas and of JSON

A number of JSON means the same in a formula and in JSON.  The two notations come to its value by
different ways.  In JSON the sign is part of the number, and a whole number is an integer if it is in
range with its sign.  In a formula the number behind the sign is read first, by itself, and the minus
sign negates its value.

The grammar of JSON numbers is given apart from the readers (`Json.IsNumber`); a number without a
sign is one numeral to both of them (`Json.IsUnsigned.take?`).  The ways meet because the value of a
numeral with a minus sign is the negative of its value without (`Numeral.value?_minus`), also where
only one of the two values is an integer.  Minus zero is the one exception, since the integer zero
has no sign.
-/

namespace QuerySteps

open Decimal (ofDigits)

/-! ## Numbers of JSON -/

namespace Json

/-- The digits before the point: a zero alone, or digits that begin with another one. -/
inductive WholePart : List Char → Prop
  | zero : WholePart ['0']
  | digits {c : Char} {ds : List Char} (first : c.isDigit) (nonzero : c ≠ '0')
      (rest : ∀ d ∈ ds, d.isDigit) : WholePart (c :: ds)

/-- A point and digits, or nothing. -/
inductive FractionPart : List Char → Prop
  | none : FractionPart []
  | digits {ds : List Char} (nonempty : ds ≠ []) (all : ∀ d ∈ ds, d.isDigit) :
      FractionPart ('.' :: ds)

/-- A letter, perhaps a sign, and digits, or nothing. -/
inductive ExponentPart : List Char → Prop
  | none : ExponentPart []
  | digits {c : Char} {sign ds : List Char} (letter : c = 'e' ∨ c = 'E')
      (signed : sign ∈ [[], ['+'], ['-']]) (nonempty : ds ≠ []) (all : ∀ d ∈ ds, d.isDigit) :
      ExponentPart (c :: (sign ++ ds))

/-- A number without a sign. -/
inductive IsUnsigned : List Char → Prop
  | parts {w f e : List Char} (whole : WholePart w) (fraction : FractionPart f)
      (exponent : ExponentPart e) : IsUnsigned (w ++ (f ++ e))

/-- A number of JSON. -/
inductive IsNumber : List Char → Prop
  | unsigned {s : List Char} (h : IsUnsigned s) : IsNumber s
  | minus {s : List Char} (h : IsUnsigned s) : IsNumber ('-' :: s)

/-! ## Their numerals -/

variable {w f e s k : List Char}

theorem WholePart.isDigit (h : WholePart w) : ∀ c ∈ w, c.isDigit := by
  cases h with
  | zero => simp
  | digits first _ rest => exact List.forall_mem_cons.mpr ⟨first, rest⟩

private theorem foldl_pos {ds : List Char} {n : Nat} (hn : 0 < n) :
    0 < ds.foldl (fun n c => 10 * n + (c.toNat - '0'.toNat)) n := by
  induction ds generalizing n with
  | nil => exact hn
  | cons c ds ih =>
    have hnext : 0 < 10 * n + (c.toNat - '0'.toNat) := by omega
    exact ih hnext

/-- Only the zero alone has the value zero. -/
theorem WholePart.eq_zero (h : WholePart w) (hzero : ofDigits w = 0) : w = ['0'] := by
  cases h with
  | zero => rfl
  | @digits c ds first nonzero rest =>
    obtain ⟨hlow, -⟩ := Formula.isDigit_iff_toNat.mp first
    have hc : c.toNat ≠ 48 := fun h => nonzero (Char.toNat_inj.mp h)
    have hpos : 0 < ofDigits (c :: ds) := foldl_pos (n := 10 * 0 + (c.toNat - 48)) (by omega)
    omega

theorem ExponentPart.head (h : ExponentPart e) (hk : Numeral.Ends k) :
    ∀ c ∈ (e ++ k).head?, c.isDigit = false ∧ c ≠ '.' := by
  cases h with
  | none => exact fun c hc => ⟨(hk c hc).1, (hk c hc).2.1⟩
  | digits letter _ _ _ =>
    intro c hc
    obtain rfl := Option.some.inj hc
    rcases letter with rfl | rfl <;> decide

theorem ExponentPart.take (h : ExponentPart e) :
    ∃ x, (x = Option.none → e = []) ∧
      ∀ k, Numeral.Ends k → Numeral.takeExponent (e ++ k) = (x, k) := by
  cases h with
  | none =>
    refine ⟨Option.none, fun _ => rfl, fun k hk => ?_⟩
    cases k with
    | nil => rfl
    | cons c k =>
      obtain ⟨-, -, hlower, hupper⟩ := hk c rfl
      simp [Numeral.takeExponent, hlower, hupper]
  | @digits c sign ds letter signed nonempty all =>
    have hsign : ∃ minus, ∀ k, Numeral.takeSign (sign ++ ds ++ k) = (minus, ds ++ k) := by
      have hcases : sign = [] ∨ sign = ['+'] ∨ sign = ['-'] := by simpa using signed
      rcases hcases with rfl | rfl | rfl
      · exact ⟨false, Numeral.takeSign_exponent false false nonempty all⟩
      · exact ⟨false, Numeral.takeSign_exponent true false nonempty all⟩
      · exact ⟨true, Numeral.takeSign_exponent false true nonempty all⟩
    obtain ⟨minus, hsign⟩ := hsign
    refine ⟨some (minus, ds), by simp, fun k hk => ?_⟩
    have htake := Numeral.takeDigits_digits all fun c hc => (hk c hc).1
    have hempty : ds.isEmpty = false := by simpa using nonempty
    have hexponent : Numeral.signedExponent (sign ++ ds ++ k) = some ((minus, ds), k) := by
      simp only [Numeral.signedExponent, Numeral.exponentDigits, hsign, htake, hempty,
        Bool.false_eq_true, if_false]
    simp only [List.cons_append, Numeral.takeExponent, letter, if_true, hexponent]

theorem FractionPart.take (h : FractionPart f) :
    ∃ x, x ≠ some [] ∧ (x = Option.none → f = []) ∧
      ∀ k : List Char, (∀ c ∈ k.head?, c.isDigit = false ∧ c ≠ '.') →
        Numeral.takeFraction (f ++ k) = (x, k) := by
  cases h with
  | none =>
    refine ⟨Option.none, by simp, fun _ => rfl, fun k hk => ?_⟩
    cases k with
    | nil => rfl
    | cons c k => simp [Numeral.takeFraction, (hk c rfl).2]
  | @digits ds nonempty all =>
    refine ⟨some ds, by simpa using nonempty, by simp, fun k hk => ?_⟩
    have htake := Numeral.takeDigits_digits all fun c hc => (hk c hc).1
    simp [Numeral.takeFraction, htake]

/-- **A number without a sign is a numeral, whatever ends it.** -/
theorem IsUnsigned.take? (h : IsUnsigned s) :
    ∃ n : Numeral, wellFormed n ∧ (n.isWhole ∧ ofDigits n.whole = 0 → s = ['0']) ∧
      ∀ k, Numeral.Ends k → Numeral.take? (s ++ k) = some (n, k) := by
  obtain @⟨w, f, e, whole, fraction, exponent⟩ := h
  obtain ⟨x, hxne, hxnone, htakeFraction⟩ := fraction.take
  obtain ⟨y, hynone, htakeExponent⟩ := exponent.take
  refine ⟨⟨w, x, y⟩, ?_, ?_, fun k hk => ?_⟩
  · cases whole with
    | zero => simpa [wellFormed] using hxne
    | digits first nonzero rest => simp [wellFormed, hxne, nonzero]
  · rintro ⟨hwhole, hzero⟩
    obtain ⟨hx, hy⟩ : x = Option.none ∧ y = Option.none := by simpa [Numeral.isWhole] using hwhole
    rw [hxnone hx, hynone hy, whole.eq_zero hzero]
    rfl
  · have hexponent := exponent.head hk
    have hfraction : ∀ c ∈ (f ++ (e ++ k)).head?, c.isDigit = false := by
      cases fraction with
      | none => exact fun c hc => (hexponent c hc).1
      | digits _ _ =>
        intro c hc
        obtain rfl := Option.some.inj hc
        decide
    have hempty : w.isEmpty = false := by cases whole <;> rfl
    have htext : w ++ (f ++ e) ++ k = w ++ (f ++ (e ++ k)) := by simp
    simp only [htext, Numeral.take?, Numeral.takeDigits_digits whole.isDigit hfraction,
      htakeFraction _ hexponent, htakeExponent k hk, hempty, Bool.false_eq_true, false_and,
      if_false]

theorem IsUnsigned.head (h : IsUnsigned s) : ∃ c cs, s = c :: cs ∧ c.isDigit := by
  obtain @⟨w, f, e, whole, -, -⟩ := h
  have hdigits := whole.isDigit
  cases whole with
  | zero => exact ⟨'0', f ++ e, rfl, rfl⟩
  | @digits c ds first _ _ => exact ⟨c, ds ++ (f ++ e), rfl, first⟩

end Json

/-! ## Their values -/

namespace Decimal

theorem toFloat?_integer {n : Nat} (hlow : 2 ^ 53 ≤ n) (hhigh : n < 2 ^ 64) :
    toFloat? ⟨n, 0⟩ = some (Float.ofInt n) := by
  have hlength := length_digitsOf_le n
  have hlog : n.log2 < 64 := (Nat.log2_lt (by omega)).mpr hhigh
  have hsmall : ¬ (n = 0 ∨ size ⟨n, 0⟩ < -400) := by
    simp only [size]
    omega
  have hlarge : ¬ 310 < size ⟨n, 0⟩ := by
    simp only [size]
    omega
  have hfinite : (Float.ofInt n).isFinite := isFinite_ofInt hhigh
  rw [toFloat?, if_neg hsmall, if_neg hlarge]
  exact if_pos hfinite

end Decimal

namespace Numeral

variable {n : Numeral} {v : Scalar}

theorem value?_unsigned (n : Numeral) :
    n.value? false =
      if n.isWhole ∧ ofDigits n.whole < 2 ^ 64 then some (.integer (ofDigits n.whole))
      else n.decimal.toFloat?.map .float := by
  have hrange : Scalar.inRange (ofDigits n.whole) ↔ ofDigits n.whole < 2 ^ 64 := by
    rw [Formula.inRange_iff]
    omega
  simp only [value?, valueBy?, Rounding.nearest, Bool.false_eq_true, if_false, hrange]

theorem value?_signed (n : Numeral) :
    n.value? true =
      if n.isWhole ∧ ofDigits n.whole ≤ 2 ^ 63 then some (.integer (-ofDigits n.whole))
      else n.decimal.toFloat?.map fun x => .float (-x) := by
  have hrange : Scalar.inRange (-ofDigits n.whole) ↔ ofDigits n.whole ≤ 2 ^ 63 := by
    rw [Formula.inRange_iff]
    omega
  simp only [value?, valueBy?, Rounding.nearest, if_true, hrange]

theorem isNumeric_of_value? (h : n.value? false = some v) : v.isNumeric := by
  rw [value?_unsigned] at h
  split at h
  · cases h
    rfl
  · obtain ⟨x, -, rfl⟩ := Option.map_eq_some_iff.mp h
    rfl

theorem decimal_of_isWhole (h : n.isWhole) : n.decimal = ⟨ofDigits n.whole, 0⟩ := by
  obtain ⟨hfraction, hexponent⟩ : n.fraction = none ∧ n.exponent = none := by
    simpa [isWhole] using h
  simp [decimal, power, hfraction, hexponent]

/-- **The value of a number with a minus sign is the negative of its value without.**  Up to
`2 ^ 63` in size both are integers.  Up to `2 ^ 64` only the number without a sign is one, and its
negative is the double that is nearest to the number with the sign. -/
theorem value?_minus (hzero : ¬ (n.isWhole ∧ ofDigits n.whole = 0)) :
    n.value? true = (n.value? false).map Scalar.negated := by
  have hfloats : (n.decimal.toFloat?.map fun x => Scalar.float (-x)) =
      (n.decimal.toFloat?.map Scalar.float).map Scalar.negated := by
    rw [Option.map_map]
    rfl
  rw [value?_signed, value?_unsigned]
  by_cases hwhole : n.isWhole
  · have hpos : ofDigits n.whole ≠ 0 := fun h => hzero ⟨hwhole, h⟩
    by_cases hsmall : ofDigits n.whole ≤ 2 ^ 63
    · rw [if_pos ⟨hwhole, hsmall⟩, if_pos ⟨hwhole, by omega⟩, Option.map_some,
        Scalar.negated_integer (by omega) (by omega)]
    · rw [if_neg fun h => hsmall h.2]
      by_cases hlarge : ofDigits n.whole < 2 ^ 64
      · rw [if_pos ⟨hwhole, hlarge⟩, decimal_of_isWhole hwhole,
          Decimal.toFloat?_integer (by omega) hlarge, Option.map_some, Option.map_some,
          Scalar.negated_large (by omega)]
      · rw [if_neg fun h => hlarge h.2]
        exact hfloats
  · rw [if_neg fun h => hwhole h.1, if_neg fun h => hwhole h.1]
    exact hfloats

end Numeral

/-! ## A number as a formula -/

namespace Formula

variable {ops : Operators} {d : Nat} {s : List Char} {n : Numeral}

/-- A number is an operand that takes the whole text. -/
theorem operandAt_number (hreg : ops.Regular) (hhead : ∃ c cs, s = c :: cs ∧ c.isDigit)
    (htake : Numeral.take? s = some (n, [])) (d : Nat) :
    operandAt ops d s =
      match n.value? false with
      | none => .error ⟨s, .invalidNumber⟩
      | some v => .ok (.literal v, []) := by
  obtain ⟨c, cs, rfl, hc⟩ := hhead
  rw [operandAt, operand_number hreg (by simp [startsNumber, hc]), number?, htake]
  simp only [runsIntoName, Bool.false_eq_true, if_false]
  cases n.value? false <;> rfl

theorem operandAt_minus (hunary : ops.unary = ["NOT", "-"]) (d : Nat) (s : List Char) :
    operandAt ops d ('-' :: s) =
      match operandAt ops d s with
      | .error e => .error e
      | .ok (tree, rest) => .ok (applyUnary "-" tree, rest) :=
  operand_unary hunary (by decide) (w := ['-']) (by decide) fun h => by cases h

/-- A sign before a number belongs to the number. -/
theorem operandAt_signed (hext : ops.ExtendsDefault) {minus : Bool}
    (hhead : ∃ c cs, s = c :: cs ∧ c.isDigit) (htake : Numeral.take? s = some (n, []))
    (hzero : minus → ¬ (n.isWhole ∧ ofDigits n.whole = 0)) (d : Nat) :
    operandAt ops d ((if minus then ['-'] else []) ++ s) =
      match n.value? minus with
      | none => .error ⟨s, .invalidNumber⟩
      | some v => .ok (.literal v, []) := by
  have hbody := operandAt_number hext.regular hhead htake d
  cases minus with
  | false => exact hbody
  | true =>
    refine (operandAt_minus hext.unary_eq d s).trans ?_
    rw [hbody, Numeral.value?_minus (hzero rfl)]
    cases hvalue : n.value? false with
    | none => rfl
    | some v => simp [applyUnary, Numeral.isNumeric_of_value? hvalue]

/-- A text without an operand is no formula. -/
theorem parse_error_of_operandAt (hreg : ops.Regular) {s : String} {e : Failure}
    (h : operandAt ops s.toList.length s.toList = .error e) : ∃ e, parse ops s = .error e := by
  cases hread : read ops s.toList with
  | error e =>
    rw [parse, hread]
    exact ⟨_, rfl⟩
  | ok tree =>
    obtain ⟨r, hformula, -⟩ := read_eq_ok_iff.mp hread
    obtain ⟨first, rest, links, hfirst, -⟩ := (formula_succ_eq_ok_iff hreg).mp hformula
    rw [h] at hfirst
    cases hfirst

end Formula

/-! ## A number as a JSON literal -/

namespace Json

variable {s : List Char} {n : Numeral}

/-- The JSON text of a tree that is a literal number. -/
def literalText (number : String) : String :=
  "\x7b\"literal\": " ++ number ++ "\x7d"

theorem parse?_literalText {number : String} {v : Json}
    (h : ∀ fuel depth,
      readValue? .nearest (fuel + 1) depth (number.toList ++ ['\x7d']) = some (v, ['\x7d'])) :
    parse? (literalText number) = some (object [("literal", v)]) := by
  have htext : (literalText number).toList =
      '\x7b' :: ((quote "literal").toList ++ ':' :: ' ' :: (number.toList ++ ['\x7d'])) := by
    simp only [literalText, String.toList_append]
    rfl
  obtain ⟨fuel, hfuel⟩ : ∃ fuel, 2 * (literalText number).toList.length + 1 = fuel + 3 := by
    refine ⟨2 * (literalText number).toList.length - 2, ?_⟩
    simp only [htext, List.length_cons]
    omega
  have hvalue : readValue? .nearest (fuel + 1) 1 (' ' :: (number.toList ++ ['\x7d'])) =
      some (v, ['\x7d']) := h fuel 1
  have hmembers : readMembers? .nearest (fuel + 2) 1
      ((quote "literal").toList ++ ':' :: ' ' :: (number.toList ++ ['\x7d'])) =
        some ([(some "literal", v)], []) := readMembers?_last hvalue
  have hobject : readValue? .nearest (fuel + 3) 0 (literalText number).toList =
      some (object [("literal", v)], []) := by
    rw [toList_quote] at hmembers
    rw [htext, toList_quote, readValue?_object, hmembers]
    rfl
  rw [parse?, parseBy?, hfuel, hobject]
  rfl

/-- A number stands in its literal as its value. -/
theorem parse?_number {number : String} {minus : Bool}
    (htext : number.toList = (if minus then ['-'] else []) ++ s)
    (hhead : ∃ c cs, s = c :: cs ∧ c.isDigit) (hwell : wellFormed n)
    (htake : Numeral.take? (s ++ ['\x7d']) = some (n, ['\x7d'])) :
    parse? (literalText number) = some (object [("literal", numberValue .nearest minus n)]) := by
  have hbody : ∃ c cs, s ++ ['\x7d'] = c :: cs ∧ c.isDigit := by
    obtain ⟨c, cs, rfl, hc⟩ := hhead
    exact ⟨c, cs ++ ['\x7d'], rfl, hc⟩
  have hnumber : number? .nearest minus (s ++ ['\x7d']) =
      some (numberValue .nearest minus n, ['\x7d']) := by
    rw [number?, htake]
    simp [hwell, startsExponent]
  refine parse?_literalText fun fuel depth => ?_
  rw [htext, List.append_assoc]
  exact readValue?_signed hbody hnumber fuel depth

theorem numberValue_eq {minus : Bool} (hzero : minus → ¬ (n.isWhole ∧ ofDigits n.whole = 0)) :
    numberValue .nearest minus n =
      match n.value? minus with
      | some v => scalar v
      | none => unreadable := by
  refine if_neg ?_
  simp only [Bool.and_eq_true, beq_iff_eq, and_assoc, not_and] at hzero ⊢
  exact hzero

end Json

namespace Tree

open Json (literalText)

theorem parseJson_literalText {number : String} {v : Scalar}
    (h : Json.parse? (literalText number) = some (.object [("literal", .scalar v)])) :
    parseJson (literalText number) = .ok (.literal v) := by
  have hread : ofJson? (.object [("literal", .scalar v)]) = some (.literal v) :=
    ofJson?_toJson (.literal v)
  simp only [parseJson, h, hread]

theorem parseJson_literalText_unreadable {number : String}
    (h : Json.parse? (literalText number) = some (.object [("literal", .unreadable)])) :
    parseJson (literalText number) = .error .unrecognised := by
  simp only [parseJson, h]
  rfl

end Tree

/-! ## Both readers -/

open Json (literalText IsNumber)

private theorem signed_numbers_agree {number : String} {s : List Char} (minus : Bool)
    (hs : Json.IsUnsigned s) (htext : number.toList = (if minus then ['-'] else []) ++ s)
    (hzero : minus → s ≠ ['0']) :
    (∃ v, Formula.parse .default number = .ok (.literal v) ∧
      Tree.parseJson (literalText number) = .ok (.literal v)) ∨
    ((∃ e, Formula.parse .default number = .error e) ∧
      Tree.parseJson (literalText number) = .error .unrecognised) := by
  have hext := Formula.Operators.ExtendsDefault.usual
  have hends : Numeral.Ends ['\x7d'] := fun c hc => by
    obtain rfl := Option.some.inj hc
    decide
  obtain ⟨n, hwell, hwhole, htake⟩ := hs.take?
  have hnonzero : minus → ¬ (n.isWhole ∧ ofDigits n.whole = 0) := fun h h' => hzero h (hwhole h')
  have hall : Numeral.take? s = some (n, []) := by simpa using htake [] (by simp [Numeral.Ends])
  have hformula := Formula.operandAt_signed hext hs.head hall hnonzero number.toList.length
  have hjson := Json.parse?_number htext hs.head hwell (htake _ hends)
  rw [← htext] at hformula
  rw [Json.numberValue_eq hnonzero] at hjson
  cases hvalue : n.value? minus with
  | none =>
    rw [hvalue] at hformula hjson
    exact .inr ⟨Formula.parse_error_of_operandAt hext.regular hformula,
      Tree.parseJson_literalText_unreadable hjson⟩
  | some v =>
    rw [hvalue] at hformula hjson
    exact .inl ⟨v, Formula.parse_of_operandAt hext.regular hformula,
      Tree.parseJson_literalText hjson⟩

/-- **A number of JSON means the same in a formula and in a JSON literal**, unless it is minus zero:
both are read as the same literal, or both are refused. -/
theorem numbers_agree {number : String} (hn : IsNumber number.toList) (hzero : number ≠ "-0") :
    (∃ v, Formula.parse .default number = .ok (.literal v) ∧
      Tree.parseJson (literalText number) = .ok (.literal v)) ∨
    ((∃ e, Formula.parse .default number = .error e) ∧
      Tree.parseJson (literalText number) = .error .unrecognised) := by
  generalize htext : number.toList = text at hn
  cases hn with
  | unsigned hs => exact signed_numbers_agree false hs htext (by simp)
  | minus hs =>
    refine signed_numbers_agree true hs htext fun _ h => hzero ?_
    rw [← String.toList_inj, htext, h]
    rfl

/-- Minus zero is an integer to one reader and a double to the other. -/
example : Formula.parse .default "-0" = .ok (.literal (.integer 0)) ∧
    Json.numberValue .nearest true ⟨['0'], none, none⟩ = .scalar (.float (-0.0)) :=
  ⟨by cbv, rfl⟩

/-- The least integer, whose digits alone are above the signed integers. -/
theorem numbers_agree_least :
    IsNumber "-9223372036854775808".toList ∧ "-9223372036854775808" ≠ "-0" ∧
      Formula.parse .default "-9223372036854775808" =
        .ok (.literal (.integer (-9223372036854775808))) ∧
      Tree.parseJson (literalText "-9223372036854775808") =
        .ok (.literal (.integer (-9223372036854775808))) := by
  have hdigits : Json.WholePart ('9' :: "223372036854775808".toList) :=
    .digits rfl (by decide) (List.all_eq_true.mp (by cbv))
  have htext : "-9223372036854775808".toList =
      '-' :: ('9' :: "223372036854775808".toList ++ ([] ++ [])) := by decide +kernel
  have hn : IsNumber "-9223372036854775808".toList :=
    htext ▸ .minus (.parts hdigits .none .none)
  have hparse : Formula.parse .default "-9223372036854775808" =
      .ok (.literal (.integer (-9223372036854775808))) := by cbv
  refine ⟨hn, by decide, hparse, ?_⟩
  rcases numbers_agree hn (by decide) with ⟨v, hformula, hjson⟩ | ⟨⟨e, herror⟩, -⟩
  · obtain rfl := Tree.literal.inj (Except.ok.inj (hparse.symm.trans hformula))
    exact hjson
  · cases hparse.symm.trans herror

end QuerySteps
