import QuerySteps.Proofs.Decimal.Numerals
import QuerySteps.Proofs.Decimal.Shortest

/-!
# Doubles that are written and read

A layout moves the point of a decimal and adds zeros, but does not change the number.  So a finite
double is written as a number that rounds to it, and is read back (`toFloat?_written`); the sign,
which also a zero has, is put aside before and back after.
-/

namespace QuerySteps.Decimal

open Float.Model.UnpackedFloat

variable {m : Nat} {e : Int}

/-! ## Written decimals -/

theorem toRat_ne_zero {d : Decimal} : d.toRat ≠ 0 ↔ d.digits ≠ 0 := by
  have hten : (10 : ℚ) ^ d.exponent ≠ 0 := by positivity
  rw [toRat, mul_ne_zero_iff_right hten, Nat.cast_ne_zero]

theorem foldl_zeros (k n : Nat) :
    (zeros k).foldl (fun n c => 10 * n + (c.toNat - '0'.toNat)) n = n * 10 ^ k := by
  induction k generalizing n with
  | zero => exact (Nat.mul_one n).symm
  | succ k ih =>
    have hstep : 10 * n + ('0'.toNat - '0'.toNat) = 10 * n := by omega
    rw [zeros, List.replicate_succ, List.foldl_cons, hstep, ← zeros, ih, pow_succ]
    ring

theorem ofDigits_append_zeros (ds : List Char) (k : Nat) :
    ofDigits (ds ++ zeros k) = ofDigits ds * 10 ^ k := by
  rw [ofDigits, List.foldl_append, foldl_zeros, ofDigits]

theorem ofDigits_zeros_append (k : Nat) (ds : List Char) :
    ofDigits (zeros k ++ ds) = ofDigits ds := by
  rw [ofDigits, List.foldl_append, foldl_zeros, Nat.zero_mul, ofDigits]

theorem plainNumeral_value (n : Nat) (exponent : Int) :
    (plainNumeral (digitsOf n) exponent).decimal.toRat = n * 10 ^ exponent := by
  unfold plainNumeral
  simp only
  split
  · next hsign =>
    obtain ⟨k, rfl⟩ := Int.eq_ofNat_of_zero_le hsign
    have hzeros : digitsOf n ++ zeros k ++ ['0'] = digitsOf n ++ zeros (k + 1) := by
      rw [zeros, zeros, List.replicate_succ', List.append_assoc]
    simp only [Numeral.decimal, Numeral.power, Option.getD_some, Int.toNat_natCast, hzeros,
      ofDigits_append_zeros, ofDigits_digitsOf, toRat, List.length_singleton, zpow_natCast]
    push_cast
    rw [zpow_neg_one, pow_succ]
    field_simp
  · split
    · next hneg hwhole =>
      have hexponent : 0 - (((digitsOf n).drop ((digitsOf n).length + exponent).toNat).length : Int)
          = exponent := by
        rw [List.length_drop]
        omega
      simp only [Numeral.decimal, Numeral.power, Option.getD_some, List.take_append_drop,
        ofDigits_digitsOf, toRat, hexponent]
    · next hneg hwhole =>
      have hexponent : 0 - ((zeros (-((digitsOf n).length + exponent)).toNat ++ digitsOf n).length :
          Int) = exponent := by
        rw [List.length_append, zeros, List.length_replicate]
        omega
      have hzeros : ∀ k, ofDigits (['0'] ++ (zeros k ++ digitsOf n)) = n := by
        intro k
        rw [← List.append_assoc]
        exact (ofDigits_zeros_append (k + 1) _).trans (ofDigits_digitsOf n)
      simp only [Numeral.decimal, Numeral.power, Option.getD_some, hzeros, toRat, hexponent]

theorem exponentNumeral_value (n : Nat) (exponent : Int) :
    (exponentNumeral (digitsOf n) ((digitsOf n).length + exponent - 1)).decimal.toRat =
      n * 10 ^ exponent := by
  have hlength : 0 < (digitsOf n).length := List.length_pos_iff.mpr (digitsOf_ne_nil n)
  have hfraction (leading : Int) :
      (exponentNumeral (digitsOf n) leading).fraction.getD [] = (digitsOf n).drop 1 := by
    unfold exponentNumeral
    simp only
    split
    · next hempty => exact (List.isEmpty_iff.mp hempty).symm
    · rfl
  have hpower (leading : Int) : (exponentNumeral (digitsOf n) leading).power = leading := by
    simp only [exponentNumeral, Numeral.power, ofDigits_digitsOf, decide_eq_true_eq]
    split <;> omega
  have hexponent : ((digitsOf n).length + exponent - 1 : Int) - ((digitsOf n).drop 1).length =
      exponent := by
    rw [List.length_drop]
    omega
  have hwhole (leading : Int) : (exponentNumeral (digitsOf n) leading).whole =
      (digitsOf n).take 1 := rfl
  simp only [Numeral.decimal, hfraction, hpower, hwhole, List.take_append_drop,
    ofDigits_digitsOf, toRat, hexponent]

/-- **A written decimal stands for the same number.** -/
theorem toRat_written (layout : Layout) (d : Decimal) :
    (written layout d).decimal.toRat = d.toRat := by
  unfold written
  simp only
  split
  · next hzero =>
    simp only [Numeral.decimal, Option.getD_some, toRat, hzero]
    norm_num [ofDigits]
  · split
    · exact plainNumeral_value ..
    · exact exponentNumeral_value ..

/-! ## Doubles that are written and read -/

/-- The decimal number that a double is printed as, without its sign. -/
def printed (x : Float) : Decimal :=
  if x == 0.0 then ⟨0, 0⟩ else shortest x.abs

theorem abs_double (s : Sign) (h : Canonical m e) (hroom : e ≤ 971) :
    (signedDouble s h).abs = double h := by
  have hunpack := unpack_signedDouble s h hroom
  change Float.ofModel (.pack (signedDouble s h).toModel.unpack.abs) = _
  rw [hunpack]
  rfl

theorem signBit_finite (s : Sign) (h : Canonical m e) (hroom : e ≤ 971) :
    signBit (signedDouble s h) = (s == .negative) := by
  have hpack := toNat_pack s h hroom
  have hbits := h.bits
  have hnormal := h.normal
  change decide (_ ≤ (pack Float.Model.Format.binary64 (.finite s m e h.pos)).toNat) = _
  rw [hpack]
  cases s with
  | negative =>
    have hsign : (Sign.negative).toBitVec.toNat = 1 := rfl
    rw [hsign]
    exact decide_eq_true (by omega)
  | positive =>
    have hsign : (Sign.positive).toBitVec.toNat = 0 := rfl
    rw [hsign]
    exact decide_eq_false (by omega)

theorem beq_zero_finite (s : Sign) (h : Canonical m e) (hroom : e ≤ 971) :
    (signedDouble s h == 0.0) = false := by
  have hunpack := unpack_signedDouble s h hroom
  have hzero : (0.0 : Float).toModel.unpack = .zero .positive := by
    have hbits : (0.0 : Float) = .ofModel (.pack (.zero .positive)) := by decide +kernel
    rw [hbits]
    rfl
  change Float.Model.UnpackedFloat.beq (signedDouble s h).toModel.unpack
    (0.0 : Float).toModel.unpack = false
  rw [hunpack, hzero]
  cases s <;> rfl

/-- **The printed form of a finite double is read as the double**, in every layout. -/
theorem toFloat?_written (layout : Layout) {x : Float} (hx : x.isFinite) :
    ((written layout (printed x)).decimal.toFloat?.map fun y =>
      if signBit x then -y else y) = some x := by
  obtain ⟨s, rfl⟩ | ⟨s, m, e, h, hroom, rfl⟩ := finite_cases hx
  · have hprinted : printed (.ofModel (.pack (.zero s))) = ⟨0, 0⟩ := by
      cases s <;> decide +kernel
    have hsigned : (if signBit (.ofModel (.pack (.zero s))) then -0.0 else 0.0) =
        Float.ofModel (.pack (.zero s)) := by
      cases s <;> decide +kernel
    have hread : (written layout ⟨0, 0⟩).decimal.toFloat? = some 0.0 := rfl
    rw [hprinted, hread]
    exact congrArg some hsigned
  · obtain ⟨hne, hrounds⟩ := shortest_double h hroom
    have hread : (written layout (shortest (double h))).decimal.toFloat? = some (double h) := by
      have hvalue := toRat_written layout (shortest (double h))
      rw [← hvalue] at hrounds
      refine toFloat?_eq_some ?_ h hroom hrounds
      rwa [← toRat_ne_zero, hvalue, toRat_ne_zero]
    rw [printed, beq_zero_finite s h hroom, if_neg Bool.false_ne_true, abs_double s h hroom, hread,
      signBit_finite s h hroom]
    cases s with
    | negative => exact congrArg some (neg_signed .positive h hroom)
    | positive => rfl

/-- A finite double is written as its sign and a decimal number. -/
theorem toList_writeFloat (layout : Layout) {x : Float} (hx : x.isFinite) :
    (writeFloat layout x).toList =
      (if signBit x then ['-'] else []) ++ write layout (printed x) := by
  obtain ⟨hnan, hinf⟩ := Formula.isFinite_cases hx
  simp only [writeFloat, hnan, hinf, printed, Bool.false_eq_true, if_false, String.toList_ofList]

/-- **The SQL text of a finite double is read as the double.** -/
theorem readsBack_of_isFinite {x : Float} (hx : x.isFinite) : Formula.ReadsBack x := by
  obtain ⟨y, hy, hsign⟩ := Option.map_eq_some_iff.mp (toFloat?_written sqlLayout hx)
  have hspelled := spelled_written sqlLayout (printed x)
  have htake := Numeral.take?_spelling (k := []) hspelled nofun sqlLayout.plusSign
  obtain ⟨c, cs, hwrite, hc⟩ : ∃ c cs, write sqlLayout (printed x) = c :: cs ∧ c.isDigit := by
    obtain ⟨c, cs, hwhole⟩ := List.exists_cons_of_ne_nil hspelled.nonempty
    have hspelling := write_eq_spelling sqlLayout (printed x)
    rw [Numeral.spelling, hwhole, List.cons_append] at hspelling
    exact ⟨c, _, hspelling, hspelled.whole c (hwhole ▸ List.mem_cons_self)⟩
  rw [List.append_nil, ← write_eq_spelling, hwrite] at htake
  have hunsigned : Numeral.unsignedFloat? (c :: cs) = some y := by
    rw [Formula.unsignedFloat?_of_head hc, htake]
    simp only [hy, Option.getD_some]
  rw [Formula.ReadsBack, toList_writeFloat sqlLayout hx, hwrite, Numeral.float?]
  cases hbit : signBit x with
  | true =>
    simp only [hbit, if_true] at hsign
    simp only [if_true, List.singleton_append, Numeral.takeSign, hunsigned, Option.map_some, hsign]
  | false =>
    simp only [hbit, Bool.false_eq_true, if_false] at hsign
    simp only [Bool.false_eq_true, if_false, List.nil_append, Formula.takeSign_of_isDigit hc,
      hunsigned, Option.map_some, hsign]

end QuerySteps.Decimal
