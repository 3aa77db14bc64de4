import QuerySteps.Proofs.Formula.Matching
import QuerySteps.Decimal.Basic

/-!
# Digits of a fixed width

Numbers written with a fixed number of digits, and the value of a run of digits.
-/

namespace QuerySteps.Decimal

/-- The last digits of a number, as many as the width asks for, with zeros before a short one. -/
def padded : Nat → Nat → List Char
  | 0, _ => []
  | width + 1, n => padded width (n / 10) ++ [Nat.digitChar (n % 10)]

variable {width n : Nat} {ds : List Char}

theorem length_padded (width n : Nat) : (padded width n).length = width := by
  induction width generalizing n with
  | zero => rfl
  | succ width ih => rw [padded, List.length_append, ih, List.length_singleton]

theorem digitChar_of_lt (h : n < 10) :
    (Nat.digitChar n).isDigit ∧ (Nat.digitChar n).toNat = 48 + n := by
  have hall : ∀ k < 10, (Nat.digitChar k).isDigit ∧ (Nat.digitChar k).toNat = 48 + k := by decide
  exact hall n h

theorem isDigit_padded (width n : Nat) : ∀ c ∈ padded width n, c.isDigit := by
  induction width generalizing n with
  | zero => exact fun _ hc => absurd hc List.not_mem_nil
  | succ width ih =>
    intro c hc
    rcases List.mem_append.mp hc with hc | hc
    · exact ih (n / 10) c hc
    · rw [List.mem_singleton.mp hc]
      exact (digitChar_of_lt (Nat.mod_lt n (by decide))).1

theorem ofDigits_concat (ds : List Char) (c : Char) :
    ofDigits (ds ++ [c]) = 10 * ofDigits ds + (c.toNat - 48) := by
  rw [ofDigits, List.foldl_append]
  rfl

/-- **A number is read again from its digits.** -/
theorem ofDigits_padded (h : n < 10 ^ width) : ofDigits (padded width n) = n := by
  induction width generalizing n with
  | zero =>
    obtain rfl : n = 0 := by simpa using h
    rfl
  | succ width ih =>
    have hdigit := (digitChar_of_lt (Nat.mod_lt n (by decide : 0 < 10))).2
    have hfront : n / 10 < 10 ^ width := Nat.div_lt_of_lt_mul (by rwa [pow_succ'] at h)
    rw [padded, ofDigits_concat, ih hfront, hdigit]
    omega

/-- A run of digits is below the power of ten that its length names. -/
theorem ofDigits_lt (h : ∀ c ∈ ds, c.isDigit) : ofDigits ds < 10 ^ ds.length := by
  induction ds using List.reverseRecOn with
  | nil => decide
  | append_singleton ds c ih =>
    have hfront := ih fun d hd => h d (List.mem_append_left _ hd)
    have hdigit := (Formula.isDigit_iff_toNat.mp (h c (by simp))).2
    rw [ofDigits_concat, List.length_append, List.length_singleton, pow_succ]
    omega

end QuerySteps.Decimal
