import QuerySteps.Proofs.Decimal.Reading

/-!
# The shortest decimal of a double

The search for the shortest decimal tests points of a grid against the interval of a double.  The
test is one between whole numbers; what it says about the rationals is `bounds_of_holds`, and a
point that passes rounds to the double.  The finest grid has a point in the interval of every
double, so the search always ends with one.
-/

namespace QuerySteps.Decimal

open Float.Model.UnpackedFloat

variable {m : Nat} {e : Int}

/-! ## The interval of a double -/

theorem toNat_double (h : Canonical m e) (hroom : e ≤ 971) :
    (double h).toBits.toNat = (e + 1074).toNat * 2 ^ 52 + m := by
  have hpack := toNat_pack .positive h hroom
  have hsign : (Sign.positive).toBitVec.toNat = 0 := rfl
  rw [hsign, Nat.zero_mul, Nat.zero_add] at hpack
  exact hpack

theorem ofFloat_double (h : Canonical m e) (hroom : e ≤ 971) :
    Interval.ofFloat (double h) =
      { low := if m = 2 ^ 52 ∧ -1074 < e then 4 * m - 1 else 4 * m - 2
        value := 4 * m
        high := 4 * m + 2
        exponent := e - 2
        closed := m % 2 = 0 } := by
  have hbits := h.bits
  have hleast := h.least
  have hpos := h.pos
  have hfraction : (double h).toBits.toNat % fractionCount =
      if 2 ^ 52 ≤ m then m - 2 ^ 52 else m := by
    rw [toNat_double h hroom, fractionCount]
    split <;> omega
  have hbiased : (double h).toBits.toNat / fractionCount % exponentCount =
      if 2 ^ 52 ≤ m then (e + 1075).toNat else 0 := by
    have hnormal := h.normal
    rw [toNat_double h hroom, fractionCount, exponentCount]
    split <;> omega
  unfold Interval.ofFloat
  simp only [hfraction, hbiased]
  by_cases hnormal : 2 ^ 52 ≤ m
  · have hsignificand : fractionCount + (m - 2 ^ 52) = m := by
      rw [fractionCount]
      omega
    have hne : (e + 1075).toNat ≠ 0 := by omega
    have hleast' : m - 2 ^ 52 = 0 ∧ 1 < (e + 1075).toNat ↔ m = 2 ^ 52 ∧ -1074 < e := by omega
    have hexponent : ((e + 1075).toNat : Int) - 1077 = e - 2 := by omega
    simp only [if_pos hnormal, if_neg hne, hleast', hexponent]
    rw [hsignificand]
  · obtain rfl := h.normal.resolve_left hnormal
    have hsub : ¬ (m = 0 ∧ 1 < 0) := by omega
    have hsub' : ¬ (m = 2 ^ 52 ∧ (-1074 : Int) < -1074) := by omega
    simp only [if_neg hnormal, if_neg hsub, if_neg hsub', if_true, Int.reduceNeg, Int.reduceSub]

section Grid

variable (i : Interval) (power : Int)

theorem grid_pos : (0 : ℚ) < i.grid power := by
  have : 0 < i.grid power := Nat.mul_pos (Nat.pow_pos (by decide)) (Nat.pow_pos (by decide))
  exact_mod_cast this

/-- Scale and grid are the unit of the interval and the power of ten, brought to whole numbers. -/
theorem scale_mul (power : Int) :
    (i.scale power : ℚ) * 10 ^ power = i.grid power * 2 ^ i.exponent := by
  have hten : (10 : ℚ) ^ power = 10 ^ power.toNat / 10 ^ (-power).toNat := by
    rw [← zpow_natCast, ← zpow_natCast, ← zpow_sub₀ (by norm_num)]
    congr 1
    omega
  have htwo : (2 : ℚ) ^ i.exponent = 2 ^ i.exponent.toNat / 2 ^ (-i.exponent).toNat := by
    rw [← zpow_natCast, ← zpow_natCast, ← zpow_sub₀ two_ne_zero]
    congr 1
    omega
  have hscale : i.scale power = 2 ^ i.exponent.toNat * 10 ^ (-power).toNat := rfl
  have hgrid : i.grid power = 2 ^ (-i.exponent).toNat * 10 ^ power.toNat := rfl
  rw [hten, htwo, hscale, hgrid]
  push_cast
  field_simp

theorem scale_mul_ten (k : Nat) :
    (k * i.scale power : Nat) * (10 : ℚ) ^ power = i.grid power * (k * 2 ^ i.exponent) := by
  have hmul := scale_mul i power
  push_cast
  rw [mul_assoc, hmul]
  ring

theorem scale_le_grid_iff (k n : Nat) :
    k * i.scale power ≤ n * i.grid power ↔ (k : ℚ) * 2 ^ i.exponent ≤ n * 10 ^ power := by
  have hten : (0 : ℚ) < 10 ^ power := by positivity
  have hgrid : (n * i.grid power : Nat) * (10 : ℚ) ^ power = i.grid power * (n * 10 ^ power) := by
    push_cast
    ring
  rw [← @Nat.cast_le ℚ, ← mul_le_mul_iff_of_pos_right hten, scale_mul_ten, hgrid,
    mul_le_mul_iff_of_pos_left (grid_pos i power)]

theorem grid_le_scale_iff (k n : Nat) :
    n * i.grid power ≤ k * i.scale power ↔ (n * 10 ^ power : ℚ) ≤ k * 2 ^ i.exponent := by
  have hten : (0 : ℚ) < 10 ^ power := by positivity
  have hgrid : (n * i.grid power : Nat) * (10 : ℚ) ^ power = i.grid power * (n * 10 ^ power) := by
    push_cast
    ring
  rw [← @Nat.cast_le ℚ, ← mul_le_mul_iff_of_pos_right hten, scale_mul_ten, hgrid,
    mul_le_mul_iff_of_pos_left (grid_pos i power)]

variable {i power}

/-- What the test of an interval says about the point. -/
theorem bounds_of_holds {n : Nat} (h : i.holds power n) :
    (i.low : ℚ) * 2 ^ i.exponent ≤ n * 10 ^ power ∧ (n * 10 ^ power : ℚ) ≤ i.high * 2 ^ i.exponent ∧
      (i.closed = false → (i.low : ℚ) * 2 ^ i.exponent < n * 10 ^ power ∧
        (n * 10 ^ power : ℚ) < i.high * 2 ^ i.exponent) := by
  unfold Interval.holds at h
  cases hclosed : i.closed with
  | true =>
    simp only [hclosed, if_true, Bool.and_eq_true, decide_eq_true_eq] at h
    exact ⟨(scale_le_grid_iff ..).mp h.1, (grid_le_scale_iff ..).mp h.2, nofun⟩
  | false =>
    simp only [hclosed, Bool.false_eq_true, if_false, Bool.and_eq_true, decide_eq_true_eq] at h
    have hlow := lt_of_not_ge (mt (grid_le_scale_iff ..).mpr (Nat.not_le.mpr h.1))
    have hhigh := lt_of_not_ge (mt (scale_le_grid_iff ..).mpr (Nat.not_le.mpr h.2))
    exact ⟨hlow.le, hhigh.le, fun _ => ⟨hlow, hhigh⟩⟩

theorem holds_of_lt {n : Nat} (hlow : i.low * i.scale power < n * i.grid power)
    (hhigh : n * i.grid power < i.high * i.scale power) : i.holds power n := by
  unfold Interval.holds
  split <;> simp only [Bool.and_eq_true, decide_eq_true_eq] <;> omega

end Grid

/-- What lies in the interval of a double rounds to the double. -/
theorem roundsTo_of_holds (h : Canonical m e) (hroom : e ≤ 971) {power : Int} {n : Nat}
    (hn : (Interval.ofFloat (double h)).holds power n) : RoundsTo (n * 10 ^ power) m e := by
  have hunit : (2 : ℚ) ^ (e - 2) = 2 ^ e / 4 := by
    rw [zpow_sub₀ two_ne_zero]
    norm_num
  have htwo : (0 : ℚ) < 2 ^ e := by positivity
  have hpos := h.pos
  obtain ⟨hlow, hhigh, hopen⟩ := bounds_of_holds hn
  obtain ⟨low, hends, hhalf, hquarter⟩ : ∃ low,
      Interval.ofFloat (double h) = ⟨low, 4 * m, 4 * m + 2, e - 2, decide (m % 2 = 0)⟩ ∧
        4 * m ≤ low + 2 ∧ (m = 2 ^ 52 → -1074 < e → 4 * m ≤ low + 1) := by
    refine ⟨_, ofFloat_double h hroom, ?_, ?_⟩ <;> split <;> omega
  simp only [hends, hunit, Nat.cast_add, Nat.cast_mul, Nat.cast_ofNat] at hlow hhigh hopen
  have hhalf : (4 : ℚ) * m ≤ low + 2 := by exact_mod_cast hhalf
  generalize (n * 10 ^ power : ℚ) = r at *
  constructor
  · constructor
    · rw [le_div_iff₀ htwo]
      nlinarith
    · rw [div_le_iff₀ htwo]
      linarith
    · intro hodd
      obtain ⟨hlow, hhigh⟩ := hopen (by rw [hodd]; rfl)
      constructor
      · rw [lt_div_iff₀ htwo]
        nlinarith
      · rw [div_lt_iff₀ htwo]
        linarith
  · intro hm he
    have hquarter : (4 : ℚ) * m ≤ low + 1 := by exact_mod_cast hquarter hm he
    rw [le_div_iff₀ htwo]
    nlinarith

/-! ## The shortest decimal -/

/-- The two points of a grid beside a double are tried, one after the other. -/
theorem hit?_eq (i : Interval) (power : Int) :
    ∃ first second : Nat,
      (first = i.value * i.scale power / i.grid power ∨
        second = i.value * i.scale power / i.grid power) ∧
      i.hit? power =
        if first ≠ 0 ∧ i.holds power first then some first
        else if second ≠ 0 ∧ i.holds power second then some second
        else none := by
  refine ⟨_, _, ?_, rfl⟩
  by_cases hfirst : (if 2 * (i.value * i.scale power % i.grid power) < i.grid power then
      i.value * i.scale power / i.grid power
    else if i.grid power < 2 * (i.value * i.scale power % i.grid power) then
      i.value * i.scale power / i.grid power + 1
    else if i.value * i.scale power / i.grid power % 2 = 0 then
      i.value * i.scale power / i.grid power
    else i.value * i.scale power / i.grid power + 1) = i.value * i.scale power / i.grid power
  · exact .inl hfirst
  · exact .inr (if_neg hfirst)

/-- A hit of the grid lies in the interval. -/
theorem of_hit?_eq_some {i : Interval} {power : Int} {n : Nat} (h : i.hit? power = some n) :
    n ≠ 0 ∧ i.holds power n := by
  obtain ⟨first, second, -, heq⟩ := hit?_eq i power
  rw [heq] at h
  split at h
  · next hfirst =>
    obtain rfl := Option.some.inj h
    exact hfirst
  · split at h
    · next hsecond =>
      obtain rfl := Option.some.inj h
      exact hsecond
    · cases h

/-- A grid that is finer than the lower part of an interval has a point in it. -/
theorem exists_hit? {i : Interval} {power : Int} {k : Nat} (hvalue : i.value = i.low + k)
    (hhigh : i.value < i.high) (hfine : i.grid power < k * i.scale power) :
    (i.hit? power).isSome := by
  have hgrid : 0 < i.grid power := Nat.mul_pos (Nat.pow_pos (by decide)) (Nat.pow_pos (by decide))
  have hscale : 0 < i.scale power := Nat.mul_pos (Nat.pow_pos (by decide)) (Nat.pow_pos (by decide))
  have hdiv := Nat.div_mul_le_self (i.value * i.scale power) (i.grid power)
  have hmod := Nat.lt_div_mul_add (a := i.value * i.scale power) hgrid
  have hlow : i.value * i.scale power = i.low * i.scale power + k * i.scale power := by
    rw [hvalue, Nat.add_mul]
  have hupper := Nat.mul_lt_mul_of_pos_right hhigh hscale
  -- The point just below the double is less than one step of the grid away from it.
  have hholds : i.holds power (i.value * i.scale power / i.grid power) :=
    holds_of_lt (by omega) (by omega)
  have hne : i.value * i.scale power / i.grid power ≠ 0 := by
    intro hzero
    rw [hzero] at hmod
    omega
  obtain ⟨first, second, rfl | rfl, heq⟩ := hit?_eq i power
  · rw [heq, if_pos ⟨hne, hholds⟩]
    rfl
  · rw [heq]
    split
    · rfl
    · rw [if_pos ⟨hne, hholds⟩]
      rfl

/-- The finest power of ten has a point in the interval of every double. -/
theorem exists_hit?_double (h : Canonical m e) (hroom : e ≤ 971) :
    ((Interval.ofFloat (double h)).hit? (-324)).isSome := by
  have hpos := h.pos
  have hleast := h.least
  obtain ⟨k, hvalue, hhigh, hexponent, hk⟩ : ∃ k,
      (Interval.ofFloat (double h)).value = (Interval.ofFloat (double h)).low + k ∧
      (Interval.ofFloat (double h)).value < (Interval.ofFloat (double h)).high ∧
      (Interval.ofFloat (double h)).exponent = e - 2 ∧ (k = 1 ∧ -1073 ≤ e ∨ k = 2) := by
    refine ⟨(Interval.ofFloat (double h)).value - (Interval.ofFloat (double h)).low, ?_⟩
    rw [ofFloat_double h hroom]
    simp only
    split
    · exact ⟨by omega, by omega, trivial, .inl (by omega)⟩
    · exact ⟨by omega, by omega, trivial, .inr (by omega)⟩
  have hwidth : (2 : ℚ) ^ (-1075 : Int) ≤ k * 2 ^ (e - 2) := by
    obtain ⟨rfl, he⟩ | rfl := hk
    · rw [Nat.cast_one, one_mul]
      exact zpow_le_zpow_right₀ one_le_two (by omega)
    · rw [Nat.cast_ofNat, ← zpow_one_add₀ two_ne_zero]
      exact zpow_le_zpow_right₀ one_le_two (by omega)
  have hfine : ¬ k * (Interval.ofFloat (double h)).scale (-324) ≤
      1 * (Interval.ofFloat (double h)).grid (-324) := by
    rw [scale_le_grid_iff, hexponent, Nat.cast_one, one_mul, not_le]
    exact ten_pow_bounds.1.trans_le hwidth
  exact exists_hit? hvalue hhigh (by omega)

theorem mem_powers : (-324 : Int) ∈ powers :=
  List.mem_map.mpr ⟨633, List.mem_range.mpr (by decide), rfl⟩

/-- A search that cannot fail ends with something that was found. -/
theorem exists_findSome? {f : Int → Option Decimal} {l : List Int} {p : Int} (hp : p ∈ l)
    (h : (f p).isSome) : ∃ q d, l.findSome? f = some d ∧ f q = some d := by
  cases hfound : l.findSome? f with
  | none =>
    rw [List.findSome?_eq_none_iff.mp hfound p hp] at h
    cases h
  | some d =>
    obtain ⟨q, -, hq⟩ := List.exists_of_findSome?_eq_some hfound
    exact ⟨q, d, rfl, hq⟩

/-- **The shortest decimal of a double rounds to the double.** -/
theorem shortest_double (h : Canonical m e) (hroom : e ≤ 971) :
    (shortest (double h)).digits ≠ 0 ∧ RoundsTo (shortest (double h)).toRat m e := by
  obtain ⟨n, hn⟩ := Option.isSome_iff_exists.mp (exists_hit?_double h hroom)
  obtain ⟨power, d, hfound, hd⟩ := exists_findSome?
    (f := fun power => ((Interval.ofFloat (double h)).hit? power).map (Decimal.mk · power))
    mem_powers (by rw [hn]; rfl)
  obtain ⟨n, hhit, rfl⟩ := Option.map_eq_some_iff.mp hd
  obtain ⟨hne, hholds⟩ := of_hit?_eq_some hhit
  simp only [shortest, hfound, Option.getD_some]
  exact ⟨hne, roundsTo_of_holds h hroom hholds⟩

end QuerySteps.Decimal
