import QuerySteps.Proofs.Decimal.Integers
import QuerySteps.Calendar.Instant

/-!
# Microseconds as seconds

Microseconds are turned into seconds by one division of doubles.  Whole seconds come out exactly, as
long as they are few enough for their microseconds to be a double (`secondsOfMicroseconds_whole`);
and whatever 64 bits can count comes out finite.
-/

namespace QuerySteps.Calendar

open Decimal
open Float.Model (UnpackedFloat)
open Float.Model.Format (binary64)

variable {m : Nat} {e : Int}

/-- **The division by a million** gives the double that the exact quotient rounds to. -/
theorem signedDouble_div_million (s : Float.Model.UnpackedFloat.Sign) {m₁ : Nat} {e₁ : Int}
    (h₁ : Canonical m₁ e₁) (hroom₁ : e₁ ≤ 971) (h : Canonical m e)
    (hr : RoundsTo (m₁ * 2 ^ e₁ / 10 ^ 6) m e) :
    signedDouble s h₁ / 1000000.0 = signedDouble s h := by
  have hmillion : isPowerOfTen 6 (1000000.0 : Float).toModel.unpack := by decide +kernel
  obtain ⟨m₂, e₂, h₂, hunpack, hvalue⟩ := of_isPowerOfTen hmillion
  rw [← hvalue] at hr
  have hquotient := div_eq s .positive h₁.pos h₂ h hr
  have hsign : s / .positive = s := by cases s <;> rfl
  rw [hsign, ← hunpack, ← unpack_signedDouble s h₁ hroom₁] at hquotient
  exact congrArg (fun u => Float.ofModel (.pack u)) hquotient

theorem signOf_mul_million (n : Int) : signOf (1000000 * n) = signOf n := by
  unfold signOf
  split <;> split <;> first | rfl | omega

/-- **Whole seconds come out exactly.**  A million is `2 ^ 6` times an odd number, so 53 bits are
enough for the microseconds of so many seconds. -/
theorem secondsOfMicroseconds_whole {n : Int} (h : 15625 * n.natAbs < 2 ^ 53) :
    secondsOfMicroseconds (1000000 * n) = Float.ofInt n := by
  by_cases hzero : n = 0
  · subst hzero
    decide +kernel
  · have hpos := Int.natAbs_pos.mpr hzero
    obtain ⟨m₁, e₁, h₁, hroom₁, hvalue₁⟩ :=
      exists_canonical (n := 15625 * n.natAbs) (by omega) h (by decide : 6 ≤ 900)
    obtain ⟨m, e, hcanonical, hroom, hvalue⟩ :=
      exists_canonical (n := n.natAbs) hpos (by omega) (Nat.zero_le 900)
    have hmicros : (m₁ * 2 ^ e₁ : ℚ) = (1000000 * n).natAbs := by
      rw [hvalue₁, Int.natAbs_mul]
      push_cast
      ring
    have hseconds : (m * 2 ^ e : ℚ) = n.natAbs := by
      rw [hvalue, pow_zero, mul_one]
    have hquotient : (m * 2 ^ e : ℚ) = m₁ * 2 ^ e₁ / 10 ^ 6 := by
      rw [hseconds, hmicros, Int.natAbs_mul]
      push_cast
      ring
    rw [secondsOfMicroseconds, ofInt_eq (by omega) h₁ hroom₁ (.of_value hmicros),
      signOf_mul_million, signedDouble_div_million _ h₁ hroom₁ hcanonical (.of_value hquotient),
      ofInt_eq hzero hcanonical hroom (.of_value hseconds)]

/-- The binade of a millionth of a double that is not too small or too large. -/
theorem log_div_million (h : Canonical m e) (hlow : -52 ≤ e) (hhigh : e ≤ 12) :
    (0 : ℚ) < m * 2 ^ e / 10 ^ 6 ∧ -72 ≤ Int.log 2 (m * 2 ^ e / 10 ^ 6 : ℚ) ∧
      Int.log 2 (m * 2 ^ e / 10 ^ 6 : ℚ) < 65 := by
  have hone : (1 : ℚ) ≤ m := by exact_mod_cast h.pos
  have hbits : (m : ℚ) < 2 ^ 53 := by exact_mod_cast h.bits
  have hleast : (2 : ℚ) ^ (-72 : Int) ≤ m * 2 ^ e / 10 ^ 6 := by
    rw [le_div_iff₀ (by positivity)]
    calc (2 : ℚ) ^ (-72 : Int) * 10 ^ 6 ≤ 2 ^ (-72 : Int) * 2 ^ (20 : Int) := by
          gcongr
          norm_num
      _ = 2 ^ (-52 : Int) := by rw [← zpow_add₀ two_ne_zero]; rfl
      _ ≤ 2 ^ e := zpow_le_zpow_right₀ one_le_two hlow
      _ ≤ m * 2 ^ e := le_mul_of_one_le_left (by positivity) hone
  have hmost : (m * 2 ^ e / 10 ^ 6 : ℚ) < 2 ^ (65 : Int) :=
    calc (m * 2 ^ e / 10 ^ 6 : ℚ) ≤ m * 2 ^ e := div_le_self (by positivity) (by norm_num)
      _ < 2 ^ (53 : Int) * 2 ^ e := by gcongr; exact_mod_cast hbits
      _ = 2 ^ (53 + e) := (zpow_add₀ two_ne_zero _ _).symm
      _ ≤ 2 ^ (65 : Int) := zpow_le_zpow_right₀ one_le_two (by omega)
  have hpos : (0 : ℚ) < m * 2 ^ e / 10 ^ 6 := lt_of_lt_of_le (by positivity) hleast
  refine ⟨hpos, (Int.zpow_le_iff_le_log (by decide) hpos).mp ?_,
    (Int.lt_zpow_iff_log_lt (by decide) hpos).mp ?_⟩
  · push_cast
    exact hleast
  · push_cast
    exact hmost

/-- **The seconds of an integer of 64 bits are finite.** -/
theorem isFinite_secondsOfMicroseconds {n : Int} (h : n.natAbs < 2 ^ 64) :
    (secondsOfMicroseconds n).isFinite := by
  by_cases hzero : n = 0
  · subst hzero
    decide +kernel
  · have hpos : (0 : ℚ) < n.natAbs := by exact_mod_cast Int.natAbs_pos.mpr hzero
    obtain ⟨hlow, hhigh⟩ := log_natAbs hzero h
    obtain ⟨m₁, e₁, h₁, hr₁, hge, hle⟩ := exists_roundsTo hpos (by omega)
    obtain ⟨hquotient, hlow', hhigh'⟩ := log_div_million h₁ (by omega) (by omega)
    obtain ⟨m, e, hcanonical, hr, -, hroom⟩ := exists_roundsTo hquotient (by omega)
    rw [secondsOfMicroseconds, ofInt_eq hzero h₁ (by omega) hr₁,
      signedDouble_div_million _ h₁ (by omega) hcanonical hr]
    exact isFinite_signedDouble _ hcanonical (by omega)

end QuerySteps.Calendar
