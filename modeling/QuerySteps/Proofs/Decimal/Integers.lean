import QuerySteps.Proofs.Decimal.Reading

/-!
# Integers as doubles

An integer becomes the double that it rounds to, with its sign (`ofInt_eq`).  That it rounds to some
double at all is `exists_roundsTo`: a rational has one binade, and in it there is a nearest
mantissa.  Where the integer fits into 53 bits the double is the integer itself (`value?_ofInt`).
-/

namespace QuerySteps.Decimal

open Float.Model (UnpackedFloat)
open Float.Model.Format (binary64)
open Float.Model.UnpackedFloat

variable {m n : Nat} {e : Int} {q r : ℚ}

/-- The rational that a finite double is. -/
def value? (x : Float) : Option ℚ :=
  match x.toModel.unpack with
  | .zero _ => some 0
  | .finite .positive m e _ => some (m * 2 ^ e)
  | .finite .negative m e _ => some (-(m * 2 ^ e))
  | _ => none

/-! ## The double nearest to a rational -/

theorem exists_nearest (hq : 0 ≤ q) : ∃ n, Nearest n q := by
  have hlow := Nat.floor_le hq
  have hhigh := Nat.lt_floor_add_one q
  generalize ⌊q⌋₊ = k at hlow hhigh
  obtain hlt | heq | hgt := lt_trichotomy (q - k) (1 / 2)
  · exact ⟨k, by linarith, by linarith, fun _ => ⟨by linarith, by linarith⟩⟩
  -- between two whole numbers the even one is taken
  · obtain heven | hodd := Nat.mod_two_eq_zero_or_one k
    · exact ⟨k, by linarith, by linarith, by omega⟩
    · exact ⟨k + 1, by push_cast; linarith, by push_cast; linarith, by omega⟩
  · exact ⟨k + 1, by push_cast; linarith, by push_cast; linarith,
      fun _ => ⟨by push_cast; linarith, by push_cast; linarith⟩⟩

theorem Nearest.le_of_le {k : Nat} (hk : Nearest k q) (h : (n : ℚ) ≤ q) : n ≤ k := by
  have hhigh := hk.high
  have hlt : (n : ℚ) < ((k + 1 : Nat) : ℚ) := by
    push_cast
    linarith
  exact Nat.le_of_lt_succ (Nat.cast_lt.mp hlt)

theorem Nearest.ge_of_ge {k : Nat} (hk : Nearest k q) (h : q ≤ n) : k ≤ n := by
  have hlow := hk.low
  have hlt : (k : ℚ) < ((n + 1 : Nat) : ℚ) := by
    push_cast
    linarith
  exact Nat.le_of_lt_succ (Nat.cast_lt.mp hlt)

/-- In units of the last bit, a rational of a binade has 53 bits before the point. -/
theorem binade_bounds (hpos : 0 < r) :
    2 ^ 52 ≤ r / 2 ^ (Int.log 2 r - 52) ∧ r / 2 ^ (Int.log 2 r - 52) < 2 ^ 53 := by
  have hlow := Int.zpow_log_le_self (b := 2) (by decide) hpos
  have hhigh := Int.lt_zpow_succ_log_self (b := 2) (by decide) r
  push_cast at hlow hhigh
  generalize Int.log 2 r = l at hlow hhigh ⊢
  have hunit : (0 : ℚ) < 2 ^ (l - 52) := by positivity
  constructor
  · rw [le_div_iff₀ hunit, ← zpow_natCast, ← zpow_add₀ two_ne_zero]
    convert hlow using 2
    push_cast
    omega
  · rw [div_lt_iff₀ hunit, ← zpow_natCast, ← zpow_add₀ two_ne_zero]
    convert hhigh using 2
    push_cast
    omega

/-- Where rounding carries, the least mantissa of the next binade is the nearest one. -/
theorem roundsTo_carry (h : Nearest (2 ^ 53) (r / 2 ^ e)) (hbelow : r / 2 ^ e < 2 ^ 53) :
    RoundsTo r (2 ^ 52) (e + 1) := by
  have hnear := h.low
  push_cast at hnear
  have hhalf : r / 2 ^ (e + 1) = r / 2 ^ e / 2 := by
    rw [zpow_add_one₀ two_ne_zero, div_div]
  constructor
  · rw [hhalf]
    exact ⟨by push_cast; linarith, by push_cast; linarith, fun h => absurd h (by decide)⟩
  · intro _ _
    rw [hhalf]
    push_cast
    linarith

/-- **Every rational of moderate size rounds to a double** of its own binade, or the least one of
the next. -/
theorem exists_roundsTo (hpos : 0 < r) (hleast : -1022 ≤ Int.log 2 r) :
    ∃ m e, Canonical m e ∧ RoundsTo r m e ∧ Int.log 2 r - 52 ≤ e ∧ e ≤ Int.log 2 r - 51 := by
  obtain ⟨hfull, hbelow⟩ := binade_bounds hpos
  obtain ⟨t, ht⟩ : ∃ t, t = Int.log 2 r - 52 := ⟨_, rfl⟩
  rw [← ht] at hfull hbelow
  obtain ⟨k, hk⟩ := exists_nearest (q := r / 2 ^ t) (by positivity)
  have hkfull : 2 ^ 52 ≤ k := hk.le_of_le (by exact_mod_cast hfull)
  have hkbelow : k ≤ 2 ^ 53 := hk.ge_of_ge (by exact_mod_cast hbelow.le)
  by_cases hcarry : k = 2 ^ 53
  · subst hcarry
    exact ⟨2 ^ 52, t + 1, ⟨by decide, by decide, by omega, .inl (Nat.le_refl _)⟩,
      roundsTo_carry hk hbelow, by omega, by omega⟩
  · refine ⟨k, t, ⟨by omega, by omega, by omega, .inl hkfull⟩, ⟨hk, ?_⟩, by omega, by omega⟩
    intro hleast _
    rw [hleast]
    push_cast
    linarith

/-- A number of at most 53 bits, moved to the left, is a double. -/
theorem exists_canonical (hpos : 0 < n) (hbits : n < 2 ^ 53) {j : Nat} (hj : j ≤ 900) :
    ∃ m e, Canonical m e ∧ e ≤ 971 ∧ (m * 2 ^ e : ℚ) = n * 2 ^ j := by
  obtain ⟨k, hk, hfull, hlt⟩ := exists_shift hpos hbits
  refine ⟨n * 2 ^ k, j - k, ⟨by omega, hlt, by omega, .inl hfull⟩, by omega, ?_⟩
  rw [zpow_sub₀ two_ne_zero, zpow_natCast, zpow_natCast]
  push_cast
  field_simp

theorem RoundsTo.of_value (h : (m * 2 ^ e : ℚ) = r) : RoundsTo r m e := by
  apply RoundsTo.of_eq
  rw [← h]
  field_simp

/-! ## Integers -/

theorem ofNat_eq_double (hpos : n ≠ 0) (h : Canonical m e) (hroom : e ≤ 971)
    (hr : RoundsTo n m e) : Float.ofNat n = double h := by
  have hvalue : toRat ⟨n, 0⟩ = n := by simp [toRat]
  rw [← hvalue] at hr
  obtain ⟨hlow, hhigh⟩ := hr.size_bounds (d := ⟨n, 0⟩) hpos h hroom
  exact ofScientific_eq_double (d := ⟨n, 0⟩) hpos hlow hhigh h hr

/-- The sign of an integer as a double. -/
def signOf (n : Int) : Sign := if n < 0 then .negative else .positive

/-- **An integer becomes the double that it rounds to.** -/
theorem ofInt_eq {n : Int} (hne : n ≠ 0) (h : Canonical m e) (hroom : e ≤ 971)
    (hr : RoundsTo n.natAbs m e) : Float.ofInt n = signedDouble (signOf n) h := by
  cases n with
  | ofNat n =>
    have hpos : n ≠ 0 := by
      rintro rfl
      exact hne rfl
    have hsign : signOf (.ofNat n) = .positive := if_neg (by simp)
    rw [hsign]
    exact ofNat_eq_double hpos h hroom hr
  | negSucc n =>
    have hsign : signOf (.negSucc n) = .negative := if_pos (Int.negSucc_lt_zero n)
    have hpositive := ofNat_eq_double (Nat.succ_ne_zero n) h hroom hr
    have hneg : Float.ofInt (.negSucc n) = -Float.ofNat (n + 1) := rfl
    rw [hsign, hneg, hpositive]
    exact neg_signed .positive h hroom

/-- **An integer of at most 53 bits is a double.** -/
theorem value?_ofInt {n : Int} (h : n.natAbs < 2 ^ 53) : value? (Float.ofInt n) = some (n : ℚ) := by
  by_cases hzero : n = 0
  · subst hzero
    decide +kernel
  · obtain ⟨m, e, hcanonical, hroom, hvalue⟩ :=
      exists_canonical (Int.natAbs_pos.mpr hzero) h (Nat.zero_le 900)
    rw [pow_zero, mul_one] at hvalue
    rw [ofInt_eq hzero hcanonical hroom (.of_value hvalue), value?,
      unpack_signedDouble _ hcanonical hroom, signOf]
    by_cases hsign : n < 0
    · have habs : (n.natAbs : ℚ) = -n := by
        rw [Nat.cast_natAbs, abs_of_neg hsign, Int.cast_neg]
      simp only [if_pos hsign, hvalue, habs, neg_neg]
    · have habs : (n.natAbs : ℚ) = n := by
        rw [Nat.cast_natAbs, abs_of_nonneg (Int.not_lt.mp hsign)]
      simp only [if_neg hsign, hvalue, habs]

/-- The binade of an integer of 64 bits. -/
theorem log_natAbs {n : Int} (hne : n ≠ 0) (h : n.natAbs < 2 ^ 64) :
    0 ≤ Int.log 2 (n.natAbs : ℚ) ∧ Int.log 2 (n.natAbs : ℚ) ≤ 63 := by
  have hlog := (Nat.log_lt_iff_lt_pow (by decide : 1 < 2) (Int.natAbs_ne_zero.mpr hne)).mpr h
  rw [Int.log_natCast]
  omega

/-- **Integers of 64 bits become finite doubles.** -/
theorem isFinite_ofInt {n : Int} (h : n.natAbs < 2 ^ 64) : (Float.ofInt n).isFinite := by
  by_cases hzero : n = 0
  · subst hzero
    decide +kernel
  · have hpos : (0 : ℚ) < n.natAbs := by exact_mod_cast Int.natAbs_pos.mpr hzero
    obtain ⟨hlow, hhigh⟩ := log_natAbs hzero h
    obtain ⟨m, e, hcanonical, hr, -, hle⟩ := exists_roundsTo hpos (by omega)
    rw [ofInt_eq hzero hcanonical (by omega) hr]
    exact isFinite_signedDouble _ hcanonical (by omega)

end QuerySteps.Decimal
