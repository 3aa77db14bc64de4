import QuerySteps.Proofs.Decimal.Rounding

/-!
# Reading decimal numbers

A decimal number is read as the double that it rounds to (`toFloat?_eq_some`).  There are two ways
to it: few digits with a small exponent need one operation on two doubles, all others are multiplied
or divided out first.  Both end in a product or a quotient, and a number that rounds to a double is
never beyond the bounds that are looked at before.
-/

namespace QuerySteps.Decimal

open Float.Model (UnpackedFloat totalExponent)
open Float.Model.Format (binary64)
open Float.Model.UnpackedFloat

variable {m : Nat} {e : Int}

/-- The positive double with a mantissa and an exponent. -/
def double (h : Canonical m e) : Float :=
  .ofModel (.pack (.finite .positive m e h.pos))

theorem isFinite_double (h : Canonical m e) (hroom : e ≤ 971) : (double h).isFinite :=
  isFinite_signedDouble .positive h hroom

/-- A rational that is a double rounds to it. -/
theorem RoundsTo.of_eq {r : ℚ} (h : r / 2 ^ e = m) : RoundsTo r m e := by
  constructor
  · rw [h]
    exact ⟨by linarith, by linarith, fun _ => ⟨by linarith, by linarith⟩⟩
  · intro _ _
    rw [h]
    linarith

/-! ## Whole numbers and powers of ten -/

/-- A number of at most 53 bits fills them when it is moved to the left. -/
theorem exists_shift {n : Nat} (hpos : 0 < n) (hbits : n < 2 ^ 53) :
    ∃ k, n.log2 + k = 52 ∧ 2 ^ 52 ≤ n * 2 ^ k ∧ n * 2 ^ k < 2 ^ 53 := by
  obtain ⟨k, hk⟩ : ∃ k, n.log2 + k = 52 :=
    ⟨52 - n.log2, by have := (Nat.log2_lt hpos.ne').mpr hbits; omega⟩
  refine ⟨k, hk, ?_, ?_⟩
  · rw [← hk, pow_add]
    exact Nat.mul_le_mul_right _ (Nat.log2_self_le hpos.ne')
  · rw [(by omega : 53 = n.log2 + 1 + k), pow_add]
    exact Nat.mul_lt_mul_of_pos_right Nat.lt_log2_self (Nat.two_pow_pos k)

/-- **Whole numbers below `2 ^ 53` are doubles.** -/
theorem unpack_toFloat {n : Nat} (hpos : 0 < n) (hbits : n < 2 ^ 53) :
    ∃ m e, ∃ h : 0 < m, n.toUInt64.toFloat.toModel.unpack = .finite .positive m e h ∧
      2 ^ 52 ≤ m ∧ (m * 2 ^ e : ℚ) = n := by
  obtain ⟨k, hk, hfull, hlt⟩ := exists_shift hpos hbits
  rw [← Nat.shiftLeft_eq] at hfull hlt
  have hcanonical : Canonical (n <<< k) (0 - k) :=
    ⟨by omega, hlt, by omega, .inl hfull⟩
  have hvalue : (n : ℚ) / 2 ^ (0 - k : Int) = (n <<< k : Nat) := by
    rw [Nat.shiftLeft_eq, zero_sub, zpow_neg, zpow_natCast, div_inv_eq_mul]
    push_cast
    rfl
  have hround : ofUInt64 binary64 n.toUInt64 =
      .finite .positive (n <<< k) (0 - k) hcanonical.pos := by
    have hnat : n.toUInt64.toNat = n := by
      rw [Nat.toUInt64_eq, UInt64.toNat_ofNat']
      omega
    have hgt : compare (n : Int) 0 = .gt := Int.compare_eq_gt.mpr (by omega)
    have hshift : (0 - binary64.targetExponent (totalExponent n 0)).toNat = k := by
      rw [targetExponent_eq]
      omega
    have hlog := le_log2_of_pow_le hfull
    simp only [ofUInt64, UnpackedFloat.ofNat, UnpackedFloat.ofInt, hnat, UnpackedFloat.normalize,
      hgt, Int.toNat_natCast, UnpackedFloat.round, decreaseExponent, hshift]
    exact roundWithAccuracy_eq _ (hvalue ▸ holds_exact _) (by omega) hcanonical (.of_eq hvalue)
  refine ⟨n <<< k, 0 - k, hcanonical.pos, ?_, hfull, ?_⟩
  · have hpacked := unpack_pack .positive hcanonical (by omega)
    rw [← hround] at hpacked ⊢
    exact hpacked
  · rw [← hvalue, div_mul_cancel₀]
    positivity

/-- An unpacked number that is a positive power of ten. -/
def isPowerOfTen (k : Nat) : UnpackedFloat → Bool
  | .finite .positive m e _ => m * 2 ^ e.toNat == 10 ^ k * 2 ^ (-e).toNat
  | _ => false

theorem isPowerOfTen_table :
    ∀ k : Fin 23, isPowerOfTen k (Float.exactlyRepresentablePowersOfTen[k]).toModel.unpack := by
  decide +kernel

theorem of_isPowerOfTen {k : Nat} {u : UnpackedFloat} (h : isPowerOfTen k u) :
    ∃ m e, ∃ hpos : 0 < m, u = .finite .positive m e hpos ∧ (m * 2 ^ e : ℚ) = 10 ^ k := by
  unfold isPowerOfTen at h
  split at h
  · next m e hpos =>
    refine ⟨m, e, hpos, rfl, ?_⟩
    have heq : (m : ℚ) * 2 ^ e.toNat = 10 ^ k * 2 ^ (-e).toNat := by
      exact_mod_cast beq_iff_eq.mp h
    have hexp : e = e.toNat - (-e).toNat := by omega
    rw [hexp, zpow_sub₀ two_ne_zero, zpow_natCast, zpow_natCast, mul_div_assoc', heq,
      mul_div_cancel_right₀ _ (by positivity)]
  · cases h

/-! ## Scientific notation -/

/-- The number that a decimal stands for. -/
def toRat (d : Decimal) : ℚ :=
  d.digits * 10 ^ d.exponent

section Reading

variable {n : Nat} {r : ℚ}

/-- Small numbers with a small exponent: one operation on two doubles is exact enough. -/
theorem ofScientific_fast (hpos : n ≠ 0) (hbits : n < 2 ^ 53) {k : Nat} (hk : k ≤ 22)
    (minus : Bool) (h : Canonical m e)
    (hr : RoundsTo (if minus then n / 10 ^ k else n * 10 ^ k) m e) :
    Float.ofScientific n minus k = double h := by
  obtain ⟨m₁, e₁, h₁, hunpack₁, hfull, hvalue₁⟩ := unpack_toFloat (Nat.pos_of_ne_zero hpos) hbits
  obtain ⟨m₂, e₂, h₂, hunpack₂, hvalue₂⟩ := of_isPowerOfTen (isPowerOfTen_table ⟨k, by omega⟩)
  simp only at hvalue₂
  rw [← hvalue₁, ← hvalue₂] at hr
  unfold Float.ofScientific
  rw [dif_pos ⟨hbits, hk⟩]
  cases minus with
  | true =>
    have hquotient := div_eq .positive .positive h₁ h₂ h hr
    rw [← hunpack₁, ← hunpack₂] at hquotient
    exact congrArg (fun u => Float.ofModel (.pack u)) hquotient
  | false =>
    have hproduct := mul_eq .positive .positive h₁ h₂ hfull h hr
    rw [← hunpack₁, ← hunpack₂] at hproduct
    exact congrArg (fun u => Float.ofModel (.pack u)) hproduct

/-- All other numbers whose exponent is not out of bounds. -/
theorem ofScientific_slow (hpos : n ≠ 0) {x : Int} (hlarge : x ≤ 2048)
    (hsmall : -(2048 + (n.log2 : Int)) ≤ x) (h : Canonical m e)
    (hr : RoundsTo (n * 10 ^ x) m e) :
    UnpackedFloat.ofScientific binary64 n x = .finite .positive m e h.pos := by
  have hcount : (2 : Int) ^ binary64.exponentBits = 2048 := rfl
  unfold UnpackedFloat.ofScientific
  rw [dif_neg hpos, if_neg (by omega), if_neg (by omega)]
  split
  · next hsign =>
    have hfull : 2 ^ 52 ≤ n <<< binary64.mantissaBits := by
      have hbits : binary64.mantissaBits = 53 := rfl
      rw [hbits, Nat.shiftLeft_eq]
      omega
    refine mul_eq .positive .positive _ _ hfull h ?_
    convert hr using 1
    obtain ⟨k, rfl⟩ := Int.eq_ofNat_of_zero_le hsign
    simp only [Nat.shiftLeft_eq, zpow_neg, zpow_natCast, Int.toNat_natCast]
    push_cast
    field_simp
  · next hsign =>
    refine div_eq .positive .positive _ _ h ?_
    convert hr using 1
    obtain ⟨k, rfl⟩ : ∃ k : Nat, x = -k := ⟨(-x).toNat, by omega⟩
    simp only [zpow_neg, zpow_natCast, Int.toNat_natCast, neg_neg]
    push_cast
    field_simp

/-- A number between the powers of ten that its size names. -/
theorem toRat_size {d : Decimal} (hd : d.digits ≠ 0) :
    10 ^ (d.size - 1) ≤ d.toRat ∧ d.toRat < 10 ^ d.size := by
  obtain ⟨k, hk⟩ : ∃ k, (digitsOf d.digits).length = k + 1 :=
    ⟨_, (Nat.sub_add_cancel (List.length_pos_iff.mpr Nat.toDigits_ne_nil)).symm⟩
  have hhigh : d.digits < 10 ^ (k + 1) :=
    (Nat.length_toDigits_le_iff (by decide) (by omega)).mp hk.le
  have hlow : 10 ^ k ≤ d.digits := by
    obtain rfl | hpos := Nat.eq_zero_or_pos k
    · omega
    · by_contra hlt
      have := (Nat.length_toDigits_le_iff (b := 10) (by decide) hpos).mpr (Nat.lt_of_not_le hlt)
      unfold digitsOf at hk
      omega
  have hten : (0 : ℚ) < 10 ^ d.exponent := by positivity
  unfold toRat size
  rw [hk]
  constructor
  · rw [(by push_cast; ring : ((k + 1 : Nat) : Int) + d.exponent - 1 = k + d.exponent),
      zpow_add₀ (by norm_num), zpow_natCast]
    have : ((10 ^ k : Nat) : ℚ) ≤ d.digits := by exact_mod_cast hlow
    push_cast at this
    exact mul_le_mul_of_nonneg_right this hten.le
  · rw [zpow_add₀ (by norm_num), zpow_natCast]
    have : (d.digits : ℚ) < ((10 ^ (k + 1) : Nat) : ℚ) := by exact_mod_cast hhigh
    push_cast at this
    exact mul_lt_mul_of_pos_right this hten

/-- What rounds to a double lies between `2 ^ -1075` and `2 ^ 1024`. -/
theorem RoundsTo.bounds (hr : RoundsTo r m e) (h : Canonical m e) (hroom : e ≤ 971) :
    (2 : ℚ) ^ (-1075 : Int) ≤ r ∧ r < 2 ^ (1024 : Int) := by
  have htwo : (0 : ℚ) < 2 ^ e := by positivity
  have hlow := hr.nearest.low
  have hhigh := hr.nearest.high
  rw [le_div_iff₀ htwo] at hlow
  rw [div_le_iff₀ htwo] at hhigh
  have hpos : (1 : ℚ) ≤ m := by exact_mod_cast h.pos
  have hbits : (m : ℚ) + 1 ≤ 2 ^ 53 := by exact_mod_cast h.bits
  constructor
  · calc (2 : ℚ) ^ (-1075 : Int) ≤ 2 ^ (e - 1) :=
        zpow_le_zpow_right₀ one_le_two (by have := h.least; omega)
      _ = 1 / 2 * 2 ^ e := by rw [zpow_sub₀ two_ne_zero]; ring
      _ ≤ ((m : ℚ) - 1 / 2) * 2 ^ e := by gcongr; linarith
      _ ≤ r := hlow
  · calc r ≤ ((m : ℚ) + 1 / 2) * 2 ^ e := hhigh
      _ < 2 ^ 53 * 2 ^ e := by gcongr; linarith
      _ = 2 ^ (53 + e) := by rw [zpow_add₀ two_ne_zero]; rfl
      _ ≤ 2 ^ (1024 : Int) := zpow_le_zpow_right₀ one_le_two (by omega)

/-- Doubles lie between these powers of ten. -/
theorem ten_pow_bounds :
    (10 : ℚ) ^ (-324 : Int) < 2 ^ (-1075 : Int) ∧ (2 : ℚ) ^ (1024 : Int) < 10 ^ (309 : Int) := by
  have hlow : 2 ^ 1075 < 10 ^ 324 := by decide +kernel
  have hhigh : 2 ^ 1024 < 10 ^ 309 := by decide +kernel
  have hlow : (2 : ℚ) ^ 1075 < 10 ^ 324 := by exact_mod_cast hlow
  have hhigh : (2 : ℚ) ^ 1024 < 10 ^ 309 := by exact_mod_cast hhigh
  constructor
  · simp only [zpow_neg, zpow_ofNat]
    gcongr
  · simpa only [zpow_ofNat] using hhigh

/-- What rounds to a double is neither too large nor too small to be read. -/
theorem RoundsTo.size_bounds {d : Decimal} (hd : d.digits ≠ 0) (hr : RoundsTo d.toRat m e)
    (h : Canonical m e) (hroom : e ≤ 971) : -400 ≤ d.size ∧ d.size ≤ 310 := by
  obtain ⟨hlow, hhigh⟩ := hr.bounds h hroom
  obtain ⟨hten, hnext⟩ := toRat_size hd
  obtain ⟨hleast, hmost⟩ := ten_pow_bounds
  have hlower : (-324 : Int) < d.size :=
    (zpow_lt_zpow_iff_right₀ (by norm_num)).mp (hleast.trans (hlow.trans_lt hnext))
  have hupper : d.size - 1 < 309 :=
    (zpow_lt_zpow_iff_right₀ (by norm_num)).mp (hten.trans_lt (hhigh.trans hmost))
  omega

/-- The digits of a number are at most as many as its bits. -/
theorem length_digitsOf_le (n : Nat) : (digitsOf n).length ≤ n.log2 + 1 := by
  refine (Nat.length_toDigits_le_iff (by decide) (Nat.succ_pos _)).mpr ?_
  calc n < 2 ^ (n.log2 + 1) := Nat.lt_log2_self
    _ ≤ 10 ^ (n.log2 + 1) := Nat.pow_le_pow_left (by decide) _

/-- A number is read as the double that it rounds to. -/
theorem ofScientific_eq_double {d : Decimal} (hd : d.digits ≠ 0) (hlow : -400 ≤ d.size)
    (hhigh : d.size ≤ 310) (h : Canonical m e) (hr : RoundsTo d.toRat m e) :
    Float.ofScientific d.digits (decide (d.exponent < 0)) d.exponent.natAbs = double h := by
  by_cases hfast : d.digits < 2 ^ 53 ∧ d.exponent.natAbs ≤ 22
  · apply ofScientific_fast hd hfast.1 hfast.2
    have hvalue : d.toRat = if decide (d.exponent < 0) = true
        then (d.digits / 10 ^ d.exponent.natAbs : ℚ)
        else d.digits * 10 ^ d.exponent.natAbs := by
      unfold toRat
      split
      · next hsign =>
        rw [decide_eq_true_iff] at hsign
        rw [div_eq_mul_inv, ← zpow_natCast, ← zpow_neg]
        congr 2
        omega
      · next hsign =>
        rw [decide_eq_true_iff] at hsign
        rw [← zpow_natCast]
        congr 2
        omega
    exact hvalue ▸ hr
  -- The bounds on the size keep the exponent inside those that the slow way looks at.
  · have hsize := length_digitsOf_le d.digits
    have hdigits : 0 < (digitsOf d.digits).length := List.length_pos_iff.mpr Nat.toDigits_ne_nil
    unfold size at hlow hhigh
    have hslow := ofScientific_slow hd (by omega) (by omega) h hr
    have hexponent : (if decide (d.exponent < 0) = true then Int.negOfNat d.exponent.natAbs
        else Int.ofNat d.exponent.natAbs) = d.exponent := by
      simp only [decide_eq_true_iff, Int.negOfNat_eq, Int.ofNat_eq_natCast]
      split <;> omega
    unfold Float.ofScientific
    rw [dif_neg hfast, hexponent]
    exact congrArg (fun u => Float.ofModel (.pack u)) hslow

/-- **Decimal numbers are read correctly rounded.** -/
theorem toFloat?_eq_some {d : Decimal} (hd : d.digits ≠ 0) (h : Canonical m e)
    (hroom : e ≤ 971) (hr : RoundsTo d.toRat m e) : d.toFloat? = some (double h) := by
  obtain ⟨hlow, hhigh⟩ := hr.size_bounds hd h hroom
  have hread := ofScientific_eq_double hd hlow hhigh h hr
  unfold toFloat?
  rw [if_neg (by omega), if_neg (by omega)]
  simp only [hread, isFinite_double h hroom, if_true]

end Reading

end QuerySteps.Decimal
