import QuerySteps.Proofs.Formula.WellFormed

/-!
# Literals as SQL

The SQL of a literal is read back as the literal, whatever stops it.  A number has no sign of its
own in a formula: the minus sign of a negative one is read as an operator and folded into the number
again, which also serves the least integer, whose digits alone lie outside the signed ones.

That the digits of a double read back to the double is a matter of its printed form and is taken as
a premise here, `ReadsBack`, which every finite double meets.  What remains is that the printed form
has a point or an exponent, so that no whole number is read in its place.
-/

namespace QuerySteps.Formula

open Text (isSpace)

variable {ops : Operators} {f : List Char → Read} {fuel : Nat} {s k : List Char} {c : Char}

/-! ## Texts -/

theorem operand_textSql (hreg : ops.Regular) {text : String} (h : '\'' ∉ text.toList)
    (hk : Stops k) :
    operand ops (primary ops f) (fuel + 1) ((Scalar.text text).sql.toList ++ k) =
      .ok (.literal (.text text), k) := by
  have hsql : (Scalar.text text).sql.toList ++ k = '\'' :: (text.toList ++ '\'' :: k) := by
    simp [Scalar.sql]
  have hpiece : piece? ('\'' :: (text.toList ++ '\'' :: k)) = .ok (some (text.toList, k)) :=
    piece?_eq_some_iff.mpr ⟨'\'', rfl, h, rfl⟩
  have htext : text? ('\'' :: (text.toList ++ '\'' :: k)) = .ok (some (text, k)) := by
    simp only [text?, hpiece, morePieces_stops hk, String.ofList_toList]
  rw [hsql, operand_quote hreg rfl htext]

/-! ## Integers -/

theorem ofDigits_digitsOf (n : Nat) : Decimal.ofDigits (Nat.toDigits 10 n) = n := by
  have h := Nat.ofDigitChars_toDigits (b := 10) (n := n) (by decide) (by decide)
  rwa [Nat.ofDigitChars_eq_foldl] at h

theorem toDigits_eq_cons (n : Nat) : ∃ c cs, Nat.toDigits 10 n = c :: cs ∧ c.isDigit := by
  obtain ⟨c, cs, h⟩ := List.exists_cons_of_ne_nil (Nat.toDigits_ne_nil (n := n) (b := 10))
  have hc : c ∈ Nat.toDigits 10 n := by
    rw [h]
    exact List.mem_cons_self
  exact ⟨c, cs, h, Nat.isDigit_of_mem_toDigits (by decide) (by decide) hc⟩

private theorem take?_toDigits (n : Nat) :
    Numeral.take? (Nat.toDigits 10 n) = some (⟨Nat.toDigits 10 n, none, none⟩, []) := by
  have hall : ∀ c ∈ Nat.toDigits 10 n, c.isDigit :=
    fun c hc => Nat.isDigit_of_mem_toDigits (by decide) (by decide) hc
  have htake : (Nat.toDigits 10 n).takeWhile Char.isDigit = Nat.toDigits 10 n :=
    List.takeWhile_eq_self_iff.mpr hall
  have hdrop : (Nat.toDigits 10 n).dropWhile Char.isDigit = [] :=
    List.dropWhile_eq_nil_iff.mpr hall
  have hne : (Nat.toDigits 10 n).isEmpty = false := by
    obtain ⟨c, cs, h, -⟩ := toDigits_eq_cons n
    simp [h]
  simp only [Numeral.take?, Numeral.takeDigits, htake, hdrop, Numeral.takeFraction,
    Numeral.takeExponent, hne, Bool.false_eq_true, false_and, if_false]

/-- The digits of a number in range are read as the number. -/
theorem number?_toDigits {n : Nat} (h : Scalar.inRange n) (hk : endsToken k) :
    number? (Nat.toDigits 10 n ++ k) = .ok (some (.integer n, k)) := by
  have hvalue : Numeral.value? false ⟨Nat.toDigits 10 n, none, none⟩ = some (.integer n) := by
    simp only [Numeral.value?, Numeral.valueBy?, ofDigits_digitsOf, Bool.false_eq_true, if_false]
    exact if_pos ⟨rfl, h⟩
  have hnumber : number? (Nat.toDigits 10 n) = .ok (some (.integer n, [])) := by
    simp only [number?, take?_toDigits, hvalue]
    rfl
  exact number?_append hk hnumber

private theorem operand_toDigits (hreg : ops.Regular) {n : Nat} (h : Scalar.inRange n)
    (hk : endsToken k) :
    operand ops (primary ops f) (fuel + 1) (Nat.toDigits 10 n ++ k) =
      .ok (.literal (.integer n), k) := by
  have hnumber := number?_toDigits h hk
  obtain ⟨c, cs, hcs, hdigit⟩ := toDigits_eq_cons n
  rw [hcs, List.cons_append] at hnumber ⊢
  rw [operand_number hreg (by simp [startsNumber, hdigit]), hnumber]

/-- A minus sign before an operand. -/
theorem operand_minus (hunary : ops.unary = ["NOT", "-"]) {p : List Char → Read} {tree : Tree}
    {r : List Char} (h : operand ops p fuel s = .ok (tree, r)) :
    operand ops p (fuel + 1) ('-' :: s) = .ok (applyUnary "-" tree, r) := by
  have hop : "-" ∈ ["NOT", "-"] := by decide
  have hspells : Spells "-" ['-'] := by decide
  have hends : isWord "-" = true → continuesName s = false := fun h => by cases h
  rw [← List.singleton_append, operand_unary hunary hop hspells hends, h]

private theorem integerSql_eq (n : Int) :
    (Scalar.integer n).sql = if 0 ≤ n then n.toNat.repr else "-" ++ (-n).toNat.repr := by
  rw [← Int.repr_eq_if]
  rfl

theorem operand_integerSql (hext : ops.ExtendsDefault) {n : Int} (h : Scalar.inRange n)
    (hk : endsToken k) :
    operand ops (primary ops f) (fuel + 2) ((Scalar.integer n).sql.toList ++ k) =
      .ok (.literal (.integer n), k) := by
  obtain ⟨hlow, hhigh⟩ := inRange_iff.mp h
  rw [integerSql_eq]
  split
  · next hn =>
    obtain ⟨m, rfl⟩ : ∃ m : Nat, n = m := ⟨n.toNat, by omega⟩
    rw [Int.toNat_natCast, Nat.toList_repr]
    exact operand_toDigits hext.regular h hk
  · next hn =>
    obtain ⟨m, rfl⟩ : ∃ m : Nat, n = -(m : Int) := ⟨(-n).toNat, by omega⟩
    have htext : ("-" ++ (- -(m : Int)).toNat.repr).toList ++ k =
        '-' :: (Nat.toDigits 10 m ++ k) := by
      simp [Nat.toList_repr]
    have hm : Scalar.inRange (m : Int) := inRange_iff.mpr ⟨by omega, by omega⟩
    have hneg : applyUnary "-" (.literal (.integer m)) = .literal (.integer (-(m : Int))) := by
      have hnegated : Scalar.negated (.integer m) = .integer (-m) :=
        Scalar.negated_integer (by omega) (by omega)
      simp [applyUnary, Scalar.isNumeric, hnegated]
    rw [htext, operand_minus hext.unary_eq (operand_toDigits hext.regular hm hk), hneg]

/-! ## Doubles -/

/-- The printed form of a double reads back as the double. -/
def ReadsBack (x : Float) : Prop :=
  Numeral.float? (Decimal.writeFloat Decimal.sqlLayout x).toList = some x

private theorem takeFraction_of_none (h : (Numeral.takeFraction s).1 = none) :
    (Numeral.takeFraction s).2 = s := by
  unfold Numeral.takeFraction at h ⊢
  split at h
  · cases h
  · rfl

private theorem takeExponent_of_none (h : (Numeral.takeExponent s).1 = none) :
    (Numeral.takeExponent s).2 = s := by
  cases s with
  | nil => rfl
  | cons c s =>
    by_cases hc : c = 'e' ∨ c = 'E'
    · cases he : Numeral.signedExponent s with
      | none => simp only [Numeral.takeExponent, if_pos hc, he]
      | some e => simp [Numeral.takeExponent, if_pos hc, he] at h
    · simp only [Numeral.takeExponent, if_neg hc]

/-- A numeral without point and exponent is made of digits. -/
private theorem isDigit_of_isWhole {n : Numeral} (h : Numeral.take? s = some (n, []))
    (hwhole : n.isWhole) : ∀ c ∈ s, c.isDigit := by
  unfold Numeral.take? at h
  simp only at h
  split at h
  · cases h
  · obtain ⟨rfl, hrest⟩ : _ = n ∧
        (Numeral.takeExponent (Numeral.takeFraction (Numeral.takeDigits s).2).2).2 = [] := by
      simpa using h
    obtain ⟨hf, he⟩ : (Numeral.takeFraction (Numeral.takeDigits s).2).1 = none ∧
        (Numeral.takeExponent (Numeral.takeFraction (Numeral.takeDigits s).2).2).1 = none := by
      simpa [Numeral.isWhole] using hwhole
    rw [takeExponent_of_none he, takeFraction_of_none hf] at hrest
    exact List.dropWhile_eq_nil_iff.mp hrest

/-- No word for an infinity or for "not a number" begins with a digit. -/
theorem unsignedFloat?_of_head (hc : c.isDigit) (s : List Char) :
    Numeral.unsignedFloat? (c :: s) =
      match Numeral.take? (c :: s) with
      | some (n, []) => some (n.decimal.toFloat?.getD (1.0 / 0.0))
      | _ => none := by
  have hlower : c.toLower = c := by
    have hnat := isDigit_iff_toNat.mp hc
    unfold Char.toLower
    rw [dif_neg]
    simp only [UInt32.le_iff_toNat_le, ge_iff_le, Char.toNat_val, not_and]
    intro h
    have : 'A'.toNat = 65 := rfl
    omega
  have hword : ∀ w : String, w.toList.head? ≠ some c →
      String.ofList ((c :: s).map Char.toLower) ≠ w := by
    rintro w hw rfl
    exact hw (by simp [hlower])
  have hletter : ∀ c' : Char, c'.isDigit = false → c ≠ c' := by
    rintro c' hc' rfl
    rw [hc] at hc'
    cases hc'
  have hinf := hword "inf" (by simpa using (hletter 'i' rfl).symm)
  have hinfinity := hword "infinity" (by simpa using (hletter 'i' rfl).symm)
  have hnan := hword "nan" (by simpa using (hletter 'n' rfl).symm)
  unfold Numeral.unsignedFloat? Numeral.infinityWords
  simp only
  generalize String.ofList ((c :: s).map Char.toLower) = word at hinf hinfinity hnan
  exact (if_neg (by simp [hinf, hinfinity])).trans (if_neg hnan)

/-- A text that begins with a digit, has another character than digits and is read as a finite
double is a number of a formula. -/
private theorem number?_of_unsignedFloat? {x : Float} (hc : c.isDigit)
    (hmark : ∃ c' ∈ s, c'.isDigit = false) (hread : Numeral.unsignedFloat? (c :: s) = some x)
    (hx : x ≠ 1.0 / 0.0) : number? (c :: s) = .ok (some (.float x, [])) := by
  rw [unsignedFloat?_of_head hc] at hread
  split at hread
  · next n htake =>
    have hfloat : n.decimal.toFloat? = some x := by
      cases hn : n.decimal.toFloat? with
      | none =>
        rw [hn] at hread
        exact absurd (Option.some.inj hread).symm hx
      | some y =>
        rw [hn] at hread
        exact hread
    have hwhole : n.isWhole = false := by
      cases hw : n.isWhole with
      | false => rfl
      | true =>
        obtain ⟨c', hc', hdigit⟩ := hmark
        have := isDigit_of_isWhole htake hw c' (List.mem_cons_of_mem _ hc')
        rw [hdigit] at this
        cases this
    have hvalue : n.value? false = some (.float x) := by
      simp [Numeral.value?, Numeral.valueBy?, Numeral.Rounding.nearest, hwhole, hfloat]
    simp only [number?, htake, hvalue]
    rfl
  · cases hread

private theorem operand_unsignedFloat (hreg : ops.Regular) {x : Float} (hc : c.isDigit)
    (hmark : ∃ c' ∈ s, c'.isDigit = false) (hread : Numeral.unsignedFloat? (c :: s) = some x)
    (hx : x ≠ 1.0 / 0.0) (hk : endsToken k) :
    operand ops (primary ops f) (fuel + 1) (c :: s ++ k) = .ok (.literal (.float x), k) := by
  have hstart : startsNumber c := by simp [startsNumber, hc]
  have hnumber := number?_append hk (number?_of_unsignedFloat? hc hmark hread hx)
  rw [List.cons_append] at hnumber ⊢
  rw [operand_number hreg hstart, hnumber]
  rfl

theorem takeSign_of_isDigit (hc : c.isDigit) (s : List Char) :
    Numeral.takeSign (c :: s) = (false, c :: s) := by
  unfold Numeral.takeSign
  split
  · next heq =>
    cases heq
    cases hc
  · next heq =>
    cases heq
    cases hc
  · rfl

/-! ## Printed doubles -/

/-- Texts that begin with a digit and have another character than digits behind it. -/
private def IsMarked (s : List Char) : Prop :=
  ∃ c rest, s = c :: rest ∧ c.isDigit ∧ ∃ c' ∈ rest, c'.isDigit = false

private theorem isMarked_plainText {digits : List Char} (hc : c.isDigit) (exponent : Int) :
    IsMarked (Decimal.plainText (c :: digits) exponent) := by
  unfold Decimal.plainText
  simp only
  split
  · exact ⟨c, _, rfl, hc, '.', by simp, rfl⟩
  · split
    · next hwhole =>
      obtain ⟨n, hn⟩ : ∃ n, (((c :: digits).length : Int) + exponent).toNat = n + 1 :=
        ⟨(((c :: digits).length : Int) + exponent).toNat - 1, by omega⟩
      rw [hn, List.take_succ_cons]
      exact ⟨c, _, rfl, hc, '.', by simp, rfl⟩
    · exact ⟨'0', _, rfl, rfl, '.', by simp, rfl⟩

private theorem isMarked_exponentText {digits : List Char} (hc : c.isDigit) (plusSign : Bool)
    (leading : Int) : IsMarked (Decimal.exponentText plusSign (c :: digits) leading) := by
  unfold Decimal.exponentText
  simp only [List.take_succ_cons, List.take_zero]
  exact ⟨c, _, rfl, hc, 'e', by simp, rfl⟩

/-- A printed number begins with a digit, and a point or an exponent follows. -/
private theorem isMarked_write (layout : Decimal.Layout) (d : Decimal) :
    IsMarked (Decimal.write layout d) := by
  obtain ⟨c, cs, hdigits, hc⟩ := toDigits_eq_cons d.digits
  unfold Decimal.write
  simp only [Decimal.digitsOf, hdigits]
  split
  · exact ⟨'0', _, rfl, rfl, '.', by simp, rfl⟩
  · split
    · exact isMarked_plainText hc _
    · exact isMarked_exponentText hc _ _

theorem isFinite_cases {x : Float} (h : x.isFinite) : x.isNaN = false ∧ x.isInf = false := by
  change x.toModel.unpack.isFinite = true at h
  change x.toModel.unpack.isNaN = false ∧ x.toModel.unpack.isInf = false
  cases hu : x.toModel.unpack with
  | infinity s =>
    rw [hu] at h
    cases h
  | notANumber =>
    rw [hu] at h
    cases h
  | zero s => exact ⟨rfl, rfl⟩
  | finite s m e hm => exact ⟨rfl, rfl⟩

/-- The printed form of a finite double is a printed number, perhaps with a minus sign. -/
private theorem writeFloat_of_isFinite {x : Float} (hx : x.isFinite) :
    ∃ body, IsMarked body ∧ (Decimal.writeFloat Decimal.sqlLayout x).toList =
      (if Decimal.signBit x then ['-'] else []) ++ body := by
  obtain ⟨hnan, hinf⟩ := isFinite_cases hx
  refine ⟨Decimal.write Decimal.sqlLayout (if x == 0.0 then ⟨0, 0⟩ else Decimal.shortest x.abs),
    isMarked_write _ _, ?_⟩
  simp only [Decimal.writeFloat, hnan, hinf, Bool.false_eq_true, if_false, String.toList_ofList]

theorem operand_floatSql (hext : ops.ExtendsDefault) {x : Float} (hx : x.isFinite)
    (hread : ReadsBack x) (hk : endsToken k) :
    operand ops (primary ops f) (fuel + 2) ((Scalar.float x).sql.toList ++ k) =
      .ok (.literal (.float x), k) := by
  have hreg := hext.regular
  obtain ⟨body, ⟨c, rest, rfl, hc, hmark⟩, hbody⟩ := writeFloat_of_isFinite hx
  have hsql : (Scalar.float x).sql = Decimal.writeFloat Decimal.sqlLayout x := rfl
  rw [ReadsBack, hbody] at hread
  rw [hsql, hbody]
  cases hsign : Decimal.signBit x with
  | true =>
    simp only [hsign, if_true, List.singleton_append, Numeral.float?, Numeral.takeSign,
      Option.map_eq_some_iff] at hread
    obtain ⟨y, hy, rfl⟩ := hread
    have hfinite : y ≠ 1.0 / 0.0 := by
      rintro rfl
      exact absurd hx (by decide)
    simp only [if_true, List.singleton_append]
    exact operand_minus hext.unary_eq (operand_unsignedFloat hreg hc hmark hy hfinite hk)
  | false =>
    simp only [hsign, Bool.false_eq_true, if_false, List.nil_append, Numeral.float?,
      takeSign_of_isDigit hc, Option.map_eq_some_iff] at hread
    obtain ⟨y, hy, rfl⟩ := hread
    have hfinite : y ≠ 1.0 / 0.0 := by
      rintro rfl
      exact absurd hx (by decide)
    simp only [Bool.false_eq_true, if_false, List.nil_append]
    exact operand_unsignedFloat hreg hc hmark hy hfinite hk

/-! ## The first character of a literal -/

private theorem head_of_isDigit (hc : c.isDigit) : isSpace c = false ∧ c ≠ ')' := by
  have hchar := isNameChar_of_startsNumber (c := c) (by simp [startsNumber, hc])
  refine ⟨isSpace_of_isNameChar hchar, ?_⟩
  rintro rfl
  cases hc

/-- The SQL of a literal begins with neither white space nor a closing parenthesis. -/
theorem head_literalSql {value : Scalar} (h : IsLiteral value) :
    ∃ c rest, value.sql.toList = c :: rest ∧ isSpace c = false ∧ c ≠ ')' := by
  cases h with
  | text s => exact ⟨'\'', s.toList ++ ['\''], by simp [Scalar.sql], rfl, by decide⟩
  | @integer n _ =>
    rw [integerSql_eq]
    split
    · obtain ⟨c, cs, hcs, hc⟩ := toDigits_eq_cons n.toNat
      exact ⟨c, cs, by rw [Nat.toList_repr, hcs], head_of_isDigit hc⟩
    · exact ⟨'-', Nat.toDigits 10 (-n).toNat, by simp [Nat.toList_repr], rfl, by decide⟩
  | @float x finite =>
    obtain ⟨body, ⟨c, rest, rfl, hc, -⟩, hbody⟩ := writeFloat_of_isFinite finite
    have hsql : (Scalar.float x).sql = Decimal.writeFloat Decimal.sqlLayout x := rfl
    rw [hsql, hbody]
    split
    · exact ⟨'-', c :: rest, rfl, rfl, by decide⟩
    · exact ⟨c, rest, rfl, head_of_isDigit hc⟩

end QuerySteps.Formula
