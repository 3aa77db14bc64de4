import QuerySteps.Proofs.Decimal.Packing

/-!
# Rounding to the nearest double

A rational rounds to a double if the double is the nearest one, ties going to the even mantissa
(`RoundsTo`).  Arithmetic on doubles shifts an exact result to the right until its mantissa has 53
bits; what is shifted out is summed up in two bits.  That they say enough is an invariant of the
shift (`Holds`), and from it products and quotients are the doubles that the exact results round to.
-/

namespace QuerySteps.Decimal

open Float.Model (UnpackedFloat totalExponent)
open Float.Model.Format (binary64)
open Float.Model.UnpackedFloat

/-! ## The nearest whole number -/

/-- The whole number nearest to a rational; of two that are equally near, the even one. -/
structure Nearest (n : Nat) (q : ℚ) : Prop where
  low : (n : ℚ) - 1 / 2 ≤ q
  high : q ≤ n + 1 / 2
  even : n % 2 = 1 → (n : ℚ) - 1 / 2 < q ∧ q < n + 1 / 2

theorem Nearest.le {n m : Nat} {q : ℚ} (hn : Nearest n q) (hm : Nearest m q) : n ≤ m := by
  by_contra hlt
  have hlt : m + 1 ≤ n := by omega
  have hq : ((m + 1 : Nat) : ℚ) ≤ n := by exact_mod_cast hlt
  push_cast at hq
  have hlow := hn.low
  have hhigh := hm.high
  have heq : m + 1 = n := by
    have hle : (n : ℚ) ≤ ((m + 1 : Nat) : ℚ) := by
      push_cast
      linarith
    have := Nat.cast_le.mp hle
    omega
  obtain hodd | hodd := Nat.mod_two_eq_zero_or_one n
  · have := (hm.even (by omega)).2
    linarith
  · have := (hn.even hodd).1
    linarith

theorem Nearest.unique {n m : Nat} {q : ℚ} (hn : Nearest n q) (hm : Nearest m q) : n = m :=
  Nat.le_antisymm (hn.le hm) (hm.le hn)

/-! ## Mantissas with the bits behind them -/

/-- What the two bits behind a mantissa say about the part of a rational that it leaves out. -/
def RestIs : Bool → Bool → ℚ → Prop
  | false, false, f => f = 0
  | false, true, f => 0 < f ∧ f < 1 / 2
  | true, false, f => f = 1 / 2
  | true, true, f => 1 / 2 < f ∧ f < 1

/-- An extended mantissa holds a rational: its mantissa is the whole part, its bits place the
rest. -/
def Holds (em : ExtendedMantissa) (q : ℚ) : Prop :=
  RestIs em.roundBit em.stickyBit (q - em.mantissa)

variable {em : ExtendedMantissa} {q : ℚ}

theorem Holds.floor (h : Holds em q) : (em.mantissa : ℚ) ≤ q ∧ q < em.mantissa + 1 := by
  obtain ⟨m, r, s⟩ := em
  cases r <;> cases s <;> simp only [Holds, RestIs] at h <;> constructor <;> linarith

/-- Halving moves the lowest bit of the mantissa behind it. -/
theorem RestIs.half {r s : Bool} {f : ℚ} (h : RestIs r s f) (b : Bool) :
    RestIs b (r || s) ((f + b.toNat) / 2) := by
  cases r <;> cases s <;> cases b <;>
    simp only [RestIs, Bool.or_false, Bool.or_true, Bool.toNat_false, Bool.toNat_true,
      Nat.cast_zero, Nat.cast_one] at h ⊢ <;>
    first
      | linarith
      | exact ⟨by linarith, by linarith⟩

theorem Holds.shiftRightOne (h : Holds em q) : Holds em.shiftRightOne (q / 2) := by
  have hhalf := h.half (em.mantissa % 2 != 0)
  have hbit : em.mantissa = 2 * (em.mantissa / 2) + (em.mantissa % 2 != 0).toNat := by
    obtain hm | hm := Nat.mod_two_eq_zero_or_one em.mantissa
    · simp only [hm, bne_self_eq_false, Bool.toNat_false]
      omega
    · simp only [hm, (by decide : (1 != 0) = true), Bool.toNat_true]
      omega
  have hrest : (q - em.mantissa + (em.mantissa % 2 != 0).toNat) / 2 =
      q / 2 - (em.mantissa / 2 : Nat) := by
    have hcast := congrArg (Nat.cast (R := ℚ)) hbit
    push_cast at hcast ⊢
    linarith
  rw [hrest] at hhalf
  exact hhalf

theorem Holds.shiftRight (h : Holds em q) (n : Nat) : Holds (em >>> n) (q / 2 ^ n) := by
  induction n with
  | zero =>
    rw [pow_zero, div_one]
    exact h
  | succ n ih =>
    rw [pow_succ, ← div_div]
    exact ih.shiftRightOne

/-- **Rounding an extended mantissa gives the whole number nearest to what it holds.** -/
theorem Holds.nearest (h : Holds em q) : Nearest em.roundedMantissa q := by
  obtain ⟨m, r, s⟩ := em
  cases r <;> cases s <;> simp only [Holds, RestIs] at h <;>
    simp only [ExtendedMantissa.roundedMantissa, ExtendedMantissa.accuracy,
      Accuracy.roundToNearestEven]
  · exact ⟨by linarith, by linarith, fun _ => ⟨by linarith, by linarith⟩⟩
  · exact ⟨by linarith, by linarith, fun _ => ⟨by linarith, by linarith⟩⟩
  · obtain hm | hm := Nat.mod_two_eq_zero_or_one m
    · rw [hm]
      exact ⟨by push_cast; linarith, by push_cast; linarith, by omega⟩
    · rw [hm]
      exact ⟨by push_cast; linarith, by push_cast; linarith, by omega⟩
  · exact ⟨by push_cast; linarith, by push_cast; linarith,
      fun _ => ⟨by push_cast; linarith, by push_cast; linarith⟩⟩

/-! ## The exponent of a double -/

/-- The exponent that a number has as a double. -/
theorem targetExponent_eq (m : Nat) (e : Int) :
    binary64.targetExponent (totalExponent m e) = max (m.log2 + e - 52) (-1074) := by
  have hbits : (binary64.mantissaBits : Int) = 53 := rfl
  have hmin : binary64.minExponent = -1074 := rfl
  simp only [Float.Model.Format.targetExponent, totalExponent, hbits, hmin]
  omega

/-- A rational rounds to a double.  It is the nearest one if its mantissa is the nearest, but below
the least mantissa of 53 bits the doubles are twice as close. -/
structure RoundsTo (r : ℚ) (m : Nat) (e : Int) : Prop where
  nearest : Nearest m (r / 2 ^ e)
  binade : m = 2 ^ 52 → -1074 < e → (m : ℚ) - 1 / 4 ≤ r / 2 ^ e

theorem shiftToTargetExponent_of_le {m : Nat} {e : Int}
    (h : max ((m.log2 : Int) + e - 52) (-1074) ≤ e) (a : Accuracy) :
    shiftToTargetExponent binary64 m e a = (.ofMantissaAndAccuracy m a, e) := by
  have hshift : (binary64.targetExponent (totalExponent m e) - e).toNat = 0 := by
    rw [targetExponent_eq]
    omega
  simp only [shiftToTargetExponent, shiftToExponent, hshift, Nat.cast_zero, Int.add_zero]
  rfl

theorem Canonical.shift {m : Nat} {e : Int} (h : Canonical m e) :
    shiftToTargetExponent binary64 m e .exact = (⟨m, false, false⟩, e) := by
  have hlog : m.log2 < 53 := (Nat.log2_lt h.pos.ne').mpr h.bits
  have hleast := h.least
  exact shiftToTargetExponent_of_le (by omega) .exact

/-- A mantissa that rounding has carried to 54 bits loses the last one. -/
theorem shift_carry {e : Int} (h : -1074 ≤ e) :
    shiftToTargetExponent binary64 (2 ^ 53) e .exact = (⟨2 ^ 52, false, false⟩, e + 1) := by
  have hlog : Nat.log2 (2 ^ 53) = 53 := by decide
  have hshift : (binary64.targetExponent (totalExponent (2 ^ 53) e) - e).toNat = 1 := by
    rw [targetExponent_eq, hlog]
    omega
  simp only [shiftToTargetExponent, shiftToExponent, hshift, Nat.cast_one]
  rfl

section Rounding

variable {m : Nat} {e : Int} {a : Accuracy} {r : ℚ}

theorem mantissa_ofMantissaAndAccuracy (m : Nat) (a : Accuracy) :
    (ExtendedMantissa.ofMantissaAndAccuracy m a).mantissa = m := by
  cases a with
  | exact => rfl
  | inexact o => cases o <;> rfl

theorem div_two_zpow_add (r : ℚ) (e : Int) (k : Nat) :
    r / 2 ^ (e + k) = r / 2 ^ e / 2 ^ k := by
  rw [zpow_add₀ two_ne_zero, zpow_natCast, div_div]

/-- The first shift keeps the number and leaves a mantissa of at most 53 bits, and of no fewer
unless the exponent is the least one. -/
theorem holds_shift (h : Holds (.ofMantissaAndAccuracy m a) (r / 2 ^ e))
    (he : e ≤ max ((m.log2 : Int) + e - 52) (-1074)) :
    ∃ em t, shiftToTargetExponent binary64 m e a = (em, t) ∧ -1074 ≤ t ∧
      Holds em (r / 2 ^ t) ∧ r / 2 ^ t < 2 ^ 53 ∧ (t = -1074 ∨ 2 ^ 52 ≤ r / 2 ^ t) := by
  obtain ⟨hfloor, hceil⟩ := h.floor
  rw [mantissa_ofMantissaAndAccuracy] at hfloor hceil
  obtain ⟨k, hk⟩ : ∃ k : Nat, max ((m.log2 : Int) + e - 52) (-1074) = e + k :=
    ⟨(max ((m.log2 : Int) + e - 52) (-1074) - e).toNat, by omega⟩
  have hshift : (binary64.targetExponent (totalExponent m e) - e).toNat = k := by
    rw [targetExponent_eq]
    omega
  have htwo : (0 : ℚ) < 2 ^ k := by positivity
  refine ⟨ExtendedMantissa.ofMantissaAndAccuracy m a >>> k, e + k, ?_, by omega, ?_, ?_, ?_⟩
  · simp only [shiftToTargetExponent, shiftToExponent, hshift]
  · rw [div_two_zpow_add]
    exact h.shiftRight k
  · have hbits : m + 1 ≤ 2 ^ (53 + k) :=
      calc m + 1 ≤ 2 ^ (m.log2 + 1) := Nat.lt_log2_self
        _ ≤ 2 ^ (53 + k) := Nat.pow_le_pow_right (by decide) (by omega)
    have hcast : (m : ℚ) + 1 ≤ 2 ^ 53 * 2 ^ k := by
      rw [← pow_add]
      exact_mod_cast hbits
    rw [div_two_zpow_add, div_lt_iff₀ htwo]
    linarith
  · by_cases hleast : e + (k : Int) = -1074
    · exact .inl hleast
    · have hlog : m.log2 = 52 + k := by omega
      have hm : m ≠ 0 := by
        rintro rfl
        simp only [Nat.log2_zero] at hlog
        omega
      have hbits : 2 ^ (52 + k) ≤ m := hlog ▸ Nat.log2_self_le hm
      have hcast : (2 : ℚ) ^ 52 * 2 ^ k ≤ m := by
        rw [← pow_add]
        exact_mod_cast hbits
      rw [div_two_zpow_add, le_div_iff₀ htwo]
      exact .inr (by linarith)

theorem two_le_two_pow {j : Nat} (h : 1 ≤ j) : (2 : ℚ) ≤ 2 ^ j :=
  le_self_pow₀ one_le_two (by omega)

/-- The exponent after the first shift is that of the double or, where rounding carries to the least
mantissa of 53 bits, the one below it. -/
theorem RoundsTo.exponent {t : Int} {m' : Nat} {e' : Int} (hr : RoundsTo r m' e')
    (hm' : Canonical m' e') (hleast : -1074 ≤ t) (hhigh : r / 2 ^ t < 2 ^ 53)
    (hlow : t = -1074 ∨ 2 ^ 52 ≤ r / 2 ^ t) :
    t = e' ∨ t + 1 = e' ∧ m' = 2 ^ 52 ∧ Nearest (2 ^ 53) (r / 2 ^ t) := by
  obtain hlt | heq | hgt := lt_trichotomy t e'
  -- Too small an exponent leaves no room for the mantissa, unless rounding carries to 54 bits.
  · right
    obtain ⟨j, rfl⟩ : ∃ j : Nat, e' = t + 1 + j := ⟨(e' - t - 1).toNat, by omega⟩
    have hnormal : (2 : ℚ) ^ 52 ≤ m' := by exact_mod_cast hm'.normal.resolve_right (by omega)
    have hscale : r / 2 ^ t = r / 2 ^ (t + 1 + j) * 2 ^ j * 2 := by
      rw [div_two_zpow_add, div_mul_cancel₀ _ (by positivity)]
      exact (div_two_zpow_add r t 1 ▸ by field_simp)
    have hq := hr.nearest.low
    have hbinade := hr.binade
    rw [hscale] at hhigh ⊢
    generalize r / 2 ^ (t + 1 + j) = q at *
    have hone : (1 : ℚ) ≤ 2 ^ j := one_le_pow₀ one_le_two
    have hm : m' = 2 ^ 52 := by
      have hle : (m' : ℚ) < (2 ^ 52 + 1 : Nat) := by
        push_cast
        nlinarith
      have hge : 2 ^ 52 ≤ m' := by exact_mod_cast hnormal
      have := Nat.cast_lt.mp hle
      omega
    have hquarter := hbinade hm (by omega)
    have hj : j = 0 := by
      by_contra hne
      have htwo := two_le_two_pow (Nat.one_le_iff_ne_zero.mpr hne)
      nlinarith
    subst hm hj
    push_cast at hquarter
    refine ⟨by omega, rfl, ?_, ?_, fun h => absurd h (by decide)⟩ <;> push_cast <;> linarith
  · exact .inl heq
  -- Too large an exponent leaves fewer than 53 bits, which only the least exponent may.
  · obtain ⟨j, rfl⟩ : ∃ j : Nat, t = e' + j := ⟨(t - e').toNat, by omega⟩
    have hnormal := hlow.resolve_left (by have := hm'.least; omega)
    have hbits : (m' : ℚ) + 1 ≤ 2 ^ 53 := by exact_mod_cast hm'.bits
    have htwo := two_le_two_pow (j := j) (by omega)
    have hq := hr.nearest.high
    rw [div_two_zpow_add, le_div_iff₀ (by positivity)] at hnormal
    generalize r / 2 ^ e' = q at *
    exfalso
    linarith

/-- **Rounding gives the double that a rational rounds to.** -/
theorem roundWithAccuracy_eq (s : Sign) (h : Holds (.ofMantissaAndAccuracy m a) (r / 2 ^ e))
    (he : e ≤ max ((m.log2 : Int) + e - 52) (-1074)) {m' : Nat} {e' : Int}
    (hm' : Canonical m' e') (hr : RoundsTo r m' e') :
    roundWithAccuracy binary64 s m e a = .finite s m' e' hm'.pos := by
  obtain ⟨em, t, hfirst, hleast, hholds, hhigh, hlow⟩ := holds_shift h he
  have hnearest := hholds.nearest
  have hpos := hm'.pos
  simp only [roundWithAccuracy, hfirst]
  obtain rfl | ⟨rfl, rfl, hcarry⟩ := hr.exponent hm' hleast hhigh hlow
  · simp only [hnearest.unique hr.nearest, hm'.shift, hpos.ne', dif_neg, not_false_eq_true]
  · simp only [hnearest.unique hcarry, shift_carry hleast, hpos.ne', dif_neg, not_false_eq_true]

end Rounding

/-! ## Products and quotients -/

theorem holds_exact (n : Nat) : Holds (.ofMantissaAndAccuracy n .exact) n := by
  simp only [Holds, ExtendedMantissa.ofMantissaAndAccuracy, RestIs, sub_self]

theorem le_log2_of_pow_le {n k : Nat} (h : 2 ^ k ≤ n) : k ≤ n.log2 :=
  (Nat.le_log2 (by have := Nat.two_pow_pos k; omega)).mpr h

/-- **The product of two doubles is the double that their exact product rounds to**, if one of them
has a full mantissa. -/
theorem mul_eq (s₁ s₂ : Sign) {m₁ m₂ : Nat} {e₁ e₂ : Int} (h₁ : 0 < m₁) (h₂ : 0 < m₂)
    (hfull : 2 ^ 52 ≤ m₁) {m : Nat} {e : Int} (hm : Canonical m e)
    (hr : RoundsTo (m₁ * 2 ^ e₁ * (m₂ * 2 ^ e₂)) m e) :
    mul binary64 (.finite s₁ m₁ e₁ h₁) (.finite s₂ m₂ e₂ h₂) =
      .finite (s₁ * s₂) m e hm.pos := by
  have hvalue : (m₁ * 2 ^ e₁ * (m₂ * 2 ^ e₂) : ℚ) / 2 ^ (e₁ + e₂) = (m₁ * m₂ : Nat) := by
    rw [zpow_add₀ two_ne_zero]
    push_cast
    field_simp
  have hlog : 52 ≤ (m₁ * m₂).log2 :=
    le_log2_of_pow_le (hfull.trans (Nat.le_mul_of_pos_right m₁ h₂))
  exact roundWithAccuracy_eq _ (hvalue ▸ holds_exact _) (by omega) hm hr

/-- A quotient of whole numbers is held by its whole part and what the remainder says. -/
theorem holds_quotient (n : Nat) {d : Nat} (hd : 0 < d) :
    Holds (.ofMantissaAndAccuracy (n / d) (accuracyOfFraction (n % d) d)) (n / d : ℚ) := by
  have hpos : (0 : ℚ) < d := by exact_mod_cast hd
  have hrest : (n / d : ℚ) - (n / d : Nat) = (n % d : Nat) / d := by
    have hdiv : (n : ℚ) = d * (n / d : Nat) + (n % d : Nat) := by
      exact_mod_cast (Nat.div_add_mod n d).symm
    rw [hdiv]
    field_simp
    ring
  have hlt : ((n % d : Nat) : ℚ) < d := by exact_mod_cast Nat.mod_lt n hd
  unfold Holds
  rw [mantissa_ofMantissaAndAccuracy, hrest]
  generalize n % d = k at hlt ⊢
  unfold accuracyOfFraction
  split
  · next hzero =>
    subst hzero
    simp only [ExtendedMantissa.ofMantissaAndAccuracy, RestIs, Nat.cast_zero, zero_div]
  · next hzero =>
    have hk : (0 : ℚ) < k := by exact_mod_cast Nat.pos_of_ne_zero hzero
    cases hcmp : compare (2 * k) d with
    | lt =>
      have : (2 * k : ℚ) < d := by exact_mod_cast Nat.compare_eq_lt.mp hcmp
      simp only [ExtendedMantissa.ofMantissaAndAccuracy, RestIs]
      exact ⟨by positivity, by rw [div_lt_iff₀ hpos]; linarith⟩
    | eq =>
      have : (2 * k : ℚ) = d := by exact_mod_cast Nat.compare_eq_eq.mp hcmp
      simp only [ExtendedMantissa.ofMantissaAndAccuracy, RestIs]
      rw [div_eq_iff hpos.ne']
      linarith
    | gt =>
      have : (d : ℚ) < 2 * k := by exact_mod_cast Nat.compare_eq_gt.mp hcmp
      simp only [ExtendedMantissa.ofMantissaAndAccuracy, RestIs]
      exact ⟨by rw [lt_div_iff₀ hpos]; linarith, by rw [div_lt_one hpos]; exact hlt⟩

/-- Quotients get a full mantissa, unless the least exponent comes first. -/
theorem le_log2_quotient {m₁ m₂ k : Nat} (h₁ : 0 < m₁) (h₂ : 0 < m₂)
    (h : m₂.log2 + 53 ≤ m₁.log2 + k) : 52 ≤ (m₁ <<< k / m₂).log2 := by
  have hhigh : m₂ ≤ 2 ^ (m₂.log2 + 1) := Nat.lt_log2_self.le
  have hlow : 2 ^ (m₁.log2 + k) ≤ m₁ <<< k := by
    rw [Nat.shiftLeft_eq, pow_add]
    exact Nat.mul_le_mul_right _ (Nat.log2_self_le h₁.ne')
  apply le_log2_of_pow_le
  rw [Nat.le_div_iff_mul_le h₂]
  calc 2 ^ 52 * m₂ ≤ 2 ^ 52 * 2 ^ (m₂.log2 + 1) := Nat.mul_le_mul_left _ hhigh
    _ = 2 ^ (m₂.log2 + 53) := by rw [← pow_add]; congr 1; omega
    _ ≤ 2 ^ (m₁.log2 + k) := Nat.pow_le_pow_right (by decide) h
    _ ≤ m₁ <<< k := hlow

/-- **The quotient of two doubles is the double that their exact quotient rounds to.** -/
theorem div_eq (s₁ s₂ : Sign) {m₁ m₂ : Nat} {e₁ e₂ : Int} (h₁ : 0 < m₁) (h₂ : 0 < m₂)
    {m : Nat} {e : Int} (hm : Canonical m e)
    (hr : RoundsTo (m₁ * 2 ^ e₁ / (m₂ * 2 ^ e₂)) m e) :
    div binary64 (.finite s₁ m₁ e₁ h₁) (.finite s₂ m₂ e₂ h₂) =
      .finite (s₁ / s₂) m e hm.pos := by
  have hbits : (binary64.mantissaBits : Int) = 53 := rfl
  have hmin : binary64.minExponent = -1074 := rfl
  have htarget : binary64.targetExponent (totalExponent m₁ e₁ - totalExponent m₂ e₂) =
      max (m₁.log2 + e₁ - (m₂.log2 + e₂) - 53) (-1074) := by
    simp only [Float.Model.Format.targetExponent, totalExponent, hbits, hmin]
    omega
  simp only [div, divCore, htarget]
  obtain ⟨t, ht⟩ : ∃ t, min (e₁ - e₂) (max (m₁.log2 + e₁ - (m₂.log2 + e₂) - 53) (-1074)) = t :=
    ⟨_, rfl⟩
  obtain ⟨k, hk⟩ : ∃ k : Nat, e₁ - e₂ = t + k := ⟨(e₁ - e₂ - t).toNat, by omega⟩
  have hshift : (e₁ - e₂ - t).toNat = k := by omega
  rw [ht, hshift]
  have hvalue : (m₁ * 2 ^ e₁ / (m₂ * 2 ^ e₂) : ℚ) / 2 ^ t = (m₁ <<< k : Nat) / m₂ := by
    obtain rfl : e₁ = t + k + e₂ := by omega
    rw [Nat.shiftLeft_eq, zpow_add₀ two_ne_zero, zpow_add₀ two_ne_zero, zpow_natCast]
    push_cast
    have hpos : (m₂ : ℚ) ≠ 0 := by exact_mod_cast h₂.ne'
    field_simp
  refine roundWithAccuracy_eq _ (hvalue ▸ holds_quotient _ h₂) ?_ hm hr
  by_cases hleast : t ≤ -1074
  · omega
  · have := le_log2_quotient (k := k) h₁ h₂ (by omega)
    omega

end QuerySteps.Decimal
