import Mathlib
import QuerySteps.Scalar

/-!
# Doubles and their bits

A positive double is a mantissa and an exponent in the one form in which doubles keep them
(`Canonical`).  Such a pair survives being packed into bits, and every finite double is one of them
with a sign (`signedDouble`), or a signed zero (`finite_cases`).  So the negative of a finite double
is finite, and its own negative is the double again.
-/

namespace QuerySteps.Decimal

open Float.Model (UnpackedFloat)
open Float.Model.Format (binary64)
open Float.Model.UnpackedFloat

/-- Mantissa and exponent of a positive double: 53 bits, or fewer with the least exponent. -/
structure Canonical (m : Nat) (e : Int) : Prop where
  pos : 0 < m
  bits : m < 2 ^ 53
  least : -1074 ≤ e
  normal : 2 ^ 52 ≤ m ∨ e = -1074

theorem Canonical.log2_eq {m : Nat} {e : Int} (h : Canonical m e) :
    m.log2 + 1 = binary64.mantissaBits ↔ 2 ^ 52 ≤ m := by
  have hbits : binary64.mantissaBits = 53 := rfl
  rw [hbits, ← Nat.le_log2 h.pos.ne']
  have := (Nat.log2_lt h.pos.ne').mpr h.bits
  omega

/-! ## Fields of 64 bits -/

theorem toNat_unpackMantissa (b : BitVec binary64.numBits) :
    (unpackMantissa b).toNat = b.toNat % 2 ^ 52 := by
  simp [unpackMantissa, BitVec.extractLsb_toNat]

theorem toNat_unpackExponent (b : BitVec binary64.numBits) :
    (unpackExponent b).toNat = b.toNat / 2 ^ 52 % 2 ^ 11 := by
  simp [unpackExponent, BitVec.extractLsb_toNat, Nat.shiftRight_eq_div_pow]

theorem toNat_unpackSign (b : BitVec binary64.numBits) :
    (unpackSign b).toNat = b.toNat / 2 ^ 63 % 2 := by
  simp [unpackSign, BitVec.extractLsb_toNat, Nat.shiftRight_eq_div_pow]

theorem toNat_packComponents (s : Sign) (e : BitVec binary64.exponentBits)
    (m : BitVec binary64.mantissaBitsWithoutImplicit) :
    (packComponents binary64 s e m).toNat =
      s.toBitVec.toNat * 2 ^ 63 + e.toNat * 2 ^ 52 + m.toNat := by
  unfold packComponents
  rw [BitVec.toNat_append, BitVec.toNat_append, ← Nat.shiftLeft_add_eq_or_of_lt m.isLt,
    ← Nat.shiftLeft_add_eq_or_of_lt e.isLt]
  simp only [Nat.shiftLeft_eq]
  have h1 : (2:Nat) ^ binary64.mantissaBitsWithoutImplicit = 2 ^ 52 := rfl
  have h2 : (2:Nat) ^ binary64.exponentBits = 2 ^ 11 := rfl
  omega

theorem ofBitVec_toBitVec (s : Sign) : Sign.ofBitVec s.toBitVec = s := by
  cases s <;> rfl

variable {m : Nat} {e : Int}

/-- The fields of a double overlap: the highest bit of a full mantissa counts for the exponent. -/
theorem toNat_pack (s : Sign) (h : Canonical m e) (hroom : e ≤ 971) :
    (pack binary64 (.finite s m e h.pos)).toNat =
      s.toBitVec.toNat * 2 ^ 63 + (e + 1074).toNat * 2 ^ 52 + m := by
  have hleast := h.least
  have hbits := h.bits
  have hbias : (e + binary64.exponentBias + binary64.mantissaBitsWithoutImplicit).toNat =
      (e + 1075).toNat := by
    have : (binary64.exponentBias : Int) = 1023 := rfl
    have : (binary64.mantissaBitsWithoutImplicit : Int) = 52 := rfl
    omega
  have hcount : 2 ^ binary64.exponentBits = 2048 := rfl
  have hmant : 2 ^ binary64.mantissaBitsWithoutImplicit = 4503599627370496 := rfl
  have hfinite : ¬ 2 ^ binary64.exponentBits ≤ (e + 1075).toNat + 1 := by
    omega
  simp only [pack, hbias, h.log2_eq, if_neg hfinite]
  split
  · rw [toNat_packComponents, BitVec.toNat_ofNat, BitVec.toNat_ofNat, hcount, hmant]
    omega
  · next hsub =>
    obtain rfl := h.normal.resolve_left hsub
    rw [toNat_packComponents, BitVec.toNat_ofNat, BitVec.toNat_ofNat, hcount, hmant]
    omega

theorem unpackSign_pack (s : Sign) (h : Canonical m e) (hroom : e ≤ 971) :
    Sign.ofBitVec (unpackSign (pack binary64 (.finite s m e h.pos))) = s := by
  have heq : unpackSign (pack binary64 (.finite s m e h.pos)) = s.toBitVec := by
    apply BitVec.eq_of_toNat_eq
    rw [toNat_unpackSign, toNat_pack s h hroom]
    have hs := s.toBitVec.isLt
    have hbits := h.bits
    have hleast := h.least
    have hnormal := h.normal
    omega
  rw [heq, ofBitVec_toBitVec]

theorem unpackExponent_pack (s : Sign) (h : Canonical m e) (hroom : e ≤ 971) :
    (unpackExponent (pack binary64 (.finite s m e h.pos))).toNat =
      if 2 ^ 52 ≤ m then (e + 1075).toNat else 0 := by
  rw [toNat_unpackExponent, toNat_pack s h hroom]
  have hbits := h.bits
  have hleast := h.least
  have hnormal := h.normal
  split <;> omega

theorem unpackMantissa_pack (s : Sign) (h : Canonical m e) (hroom : e ≤ 971) :
    (unpackMantissa (pack binary64 (.finite s m e h.pos))).toNat =
      if 2 ^ 52 ≤ m then m - 2 ^ 52 else m := by
  rw [toNat_unpackMantissa, toNat_pack s h hroom]
  have hbits := h.bits
  split <;> omega

theorem toNat_implicit_append (b : BitVec binary64.mantissaBitsWithoutImplicit) :
    (1#1 ++ b).toNat = 2 ^ 52 + b.toNat := by
  rw [BitVec.toNat_append, ← Nat.shiftLeft_add_eq_or_of_lt b.isLt]
  rfl

/-- **A double that is packed is unpacked again.** -/
theorem unpack_pack (s : Sign) (h : Canonical m e) (hroom : e ≤ 971) :
    unpack binary64 (pack binary64 (.finite s m e h.pos)) = .finite s m e h.pos := by
  have hsign := unpackSign_pack s h hroom
  have hexponent := unpackExponent_pack s h hroom
  have hmantissa := unpackMantissa_pack s h hroom
  have hpos := h.pos
  have hleast := h.least
  have hbias : (binary64.exponentBias : Int) + binary64.mantissaBitsWithoutImplicit = 1075 := rfl
  have hfinite : unpackExponent (pack binary64 (.finite s m e h.pos)) ≠ -1#_ := by
    intro heq
    have htop : (-1#_ : BitVec binary64.exponentBits).toNat = 2047 := rfl
    rw [heq, htop] at hexponent
    split at hexponent <;> omega
  simp only [unpack, hfinite, if_false, hbias, hsign]
  by_cases hnormal : 2 ^ 52 ≤ m
  · rw [if_pos hnormal] at hexponent hmantissa
    have hne : unpackExponent (pack binary64 (.finite s m e h.pos)) ≠ 0#_ := by
      intro heq
      rw [heq, BitVec.toNat_zero] at hexponent
      omega
    have happend := toNat_implicit_append (unpackMantissa (pack binary64 (.finite s m e h.pos)))
    rw [hmantissa, Nat.add_sub_cancel' hnormal] at happend
    simp only [hne, if_false, happend, hexponent, UnpackedFloat.finite.injEq, true_and]
    omega
  · rw [if_neg hnormal] at hexponent hmantissa
    have heq : unpackExponent (pack binary64 (.finite s m e h.pos)) = 0#_ :=
      BitVec.eq_of_toNat_eq hexponent
    have hne : unpackMantissa (pack binary64 (.finite s m e h.pos)) ≠ 0#_ := by
      intro heq
      rw [heq, BitVec.toNat_zero] at hmantissa
      omega
    have he := h.normal.resolve_left hnormal
    simp only [heq, hne, if_true, dif_neg, not_false_eq_true, hmantissa, BitVec.toNat_zero,
      UnpackedFloat.finite.injEq, true_and]
    omega

/-! ## Doubles with a sign -/

/-- The double with a sign, a mantissa and an exponent. -/
def signedDouble (s : Sign) (h : Canonical m e) : Float :=
  .ofModel (.pack (.finite s m e h.pos))

theorem unpack_signedDouble (s : Sign) (h : Canonical m e) (hroom : e ≤ 971) :
    (signedDouble s h).toModel.unpack = .finite s m e h.pos :=
  unpack_pack s h hroom

theorem isFinite_signedDouble (s : Sign) (h : Canonical m e) (hroom : e ≤ 971) :
    (signedDouble s h).isFinite := by
  have hunpack := unpack_signedDouble s h hroom
  unfold Float.isFinite Float.Model.isFinite
  rw [hunpack]
  rfl

/-- The negative of a double has the other sign. -/
theorem neg_signed (s : Sign) (h : Canonical m e) (hroom : e ≤ 971) :
    -signedDouble s h = signedDouble (-s) h := by
  have hunpack := unpack_signedDouble s h hroom
  change Float.ofModel (.pack (signedDouble s h).toModel.unpack.neg) = _
  rw [hunpack]
  rfl

/-! ## Finite doubles -/

/-- All exponents but the highest stand for finite numbers. -/
theorem isFinite_unpack_iff (b : BitVec binary64.numBits) :
    (unpack binary64 b).isFinite = true ↔ unpackExponent b ≠ -1#_ := by
  unfold unpack
  simp only
  split
  · next h => split <;> simp only [UnpackedFloat.isFinite, h, ne_eq, not_true, Bool.false_eq_true]
  · next h =>
    split
    · split <;> simp only [UnpackedFloat.isFinite, ne_eq, h, not_false_eq_true]
    · simp only [UnpackedFloat.isFinite, ne_eq, h, not_false_eq_true]

theorem toNat_packedZero (s : Sign) :
    (packedZero binary64 s).toNat = s.toBitVec.toNat * 2 ^ 63 := by
  simp only [packedZero, toNat_packComponents, BitVec.toNat_zero, Nat.zero_mul, Nat.add_zero,
    BitVec.ofNat_eq_ofNat]

theorem toBitVec_ofBitVec (b : BitVec 1) : (Sign.ofBitVec b).toBitVec = b := by
  revert b
  decide

/-- A double is what its bits pack to. -/
theorem eq_ofModel_pack {x : Float} {u : UnpackedFloat}
    (h : x.toBits.toNat = (pack binary64 u).toNat) : x = .ofModel (.pack u) := by
  obtain ⟨⟨bits, valid⟩⟩ := x
  have heq : bits = UInt64.ofBitVec (pack binary64 u) := UInt64.toNat_inj.mp h
  subst heq
  rfl

/-- **A finite double is a signed zero or has a mantissa and an exponent.** -/
theorem finite_cases {x : Float} (hx : x.isFinite) :
    (∃ s, x = .ofModel (.pack (.zero s))) ∨
      ∃ s m e, ∃ h : Canonical m e, e ≤ 971 ∧ x = signedDouble s h := by
  have hfinite := (isFinite_unpack_iff x.toModel.toBits.toBitVec).mp hx
  have htop : x.toBits.toNat / 2 ^ 52 % 2 ^ 11 ≠ 2047 := by
    intro heq
    exact hfinite (BitVec.eq_of_toNat_eq ((toNat_unpackExponent _).trans heq))
  have hsign : (Sign.ofBitVec (@unpackSign binary64 x.toModel.toBits.toBitVec)).toBitVec.toNat =
      x.toBits.toNat / 2 ^ 63 := by
    rw [toBitVec_ofBitVec, toNat_unpackSign]
    have := x.toBits.toNat_lt
    change x.toBits.toNat / 2 ^ 63 % 2 = _
    omega
  generalize Sign.ofBitVec (@unpackSign binary64 x.toModel.toBits.toBitVec) = s at hsign
  by_cases hzero : x.toBits.toNat % 2 ^ 63 = 0
  · left
    refine ⟨s, eq_ofModel_pack ?_⟩
    rw [pack, toNat_packedZero]
    omega
  · right
    by_cases hnormal : x.toBits.toNat / 2 ^ 52 % 2 ^ 11 = 0
    · have hcanonical : Canonical (x.toBits.toNat % 2 ^ 52) (-1074) := by
        constructor <;> omega
      refine ⟨s, _, _, hcanonical, by decide, eq_ofModel_pack ?_⟩
      rw [toNat_pack s hcanonical (by decide)]
      omega
    · have hcanonical : Canonical (2 ^ 52 + x.toBits.toNat % 2 ^ 52)
          ((x.toBits.toNat / 2 ^ 52 % 2 ^ 11 : Nat) - 1075) := by
        constructor <;> omega
      refine ⟨s, _, _, hcanonical, by omega, eq_ofModel_pack ?_⟩
      rw [toNat_pack s hcanonical (by omega)]
      omega

/-- **The negative of a finite double is finite.** -/
theorem isFinite_neg {x : Float} (hx : x.isFinite) : (-x).isFinite := by
  obtain ⟨s, rfl⟩ | ⟨s, m, e, h, hroom, rfl⟩ := finite_cases hx
  · cases s <;> decide +kernel
  · rw [neg_signed s h hroom]
    exact isFinite_signedDouble (-s) h hroom

/-- **The negative of the negative of a finite double is the double.** -/
theorem neg_neg_of_isFinite {x : Float} (hx : x.isFinite) : - -x = x := by
  obtain ⟨s, rfl⟩ | ⟨s, m, e, h, hroom, rfl⟩ := finite_cases hx
  · cases s <;> decide +kernel
  · rw [neg_signed s h hroom, neg_signed (-s) h hroom]
    cases s <;> rfl

end QuerySteps.Decimal
