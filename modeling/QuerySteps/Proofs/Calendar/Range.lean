import QuerySteps.Proofs.Calendar.DayCount
import QuerySteps.Proofs.Calendar.Seconds
import QuerySteps.Proofs.Decimal.Digits

/-!
# The range of instants

A date that is valid lies within some quarter of a million years, a time within a day, an offset
below a day.  So the microseconds of every text that is read fit into 64 bits, and the double that
is made of them is finite (`isFinite_of_epochSeconds?`).
-/

namespace QuerySteps.Calendar

open Decimal

variable {d : Date} {t : Time} {s r : List Char} {n o : Int}

theorem Date.inCalendar_of_isValid (h : d.isValid) : d.InCalendar := by
  simp only [Date.isValid, Bool.and_eq_true, decide_eq_true_eq] at h
  exact ⟨h.1.2, h.2⟩

theorem Date.dayNumber_natAbs_lt (h : d.isValid) : d.dayNumber.natAbs < 100000000 := by
  have hcalendar := inCalendar_of_isValid h
  have hplace := dayNumber_eq hcalendar
  have hbounds := hcalendar.bounds
  have hyear := yearLength_le d.year
  simp only [Date.isValid, yearInRange, Bool.and_eq_true, decide_eq_true_eq] at h
  unfold daysBeforeYear leapYearsBefore at hplace
  omega

theorem nanoseconds_lt {digits : List Char} (h : ∀ c ∈ digits, c.isDigit) :
    nanoseconds digits < 10 ^ 9 := by
  have hlength : (digits.take 9).length ≤ 9 := List.length_take_le 9 digits
  have hkept : ofDigits (digits.take 9) < 10 ^ (digits.take 9).length :=
    ofDigits_lt fun c hc => h c (List.mem_of_mem_take hc)
  calc nanoseconds digits
      < 10 ^ (digits.take 9).length * 10 ^ (9 - (digits.take 9).length) :=
        Nat.mul_lt_mul_of_pos_right hkept (Nat.pow_pos (by decide))
    _ = 10 ^ 9 := by rw [← pow_add, Nat.add_sub_cancel' hlength]

theorem fraction_lt {k : Nat} (h : fraction s = some (k, r)) : k < 10 ^ 9 := by
  unfold fraction at h
  split at h
  · simp only at h
    split at h
    · cases h
    · cases h
      exact nanoseconds_lt fun c hc => List.mem_takeWhile_imp hc
  · cases h
    decide

/-- An offset of hours and minutes is less than a day. -/
theorem offset_natAbs_lt (h : offset s = some (o, r)) : o.natAbs < 86400 := by
  unfold offset at h
  split at h
  · cases h
    decide
  · cases h
    decide
  · simp only [Option.bind_eq_bind] at h
    split at h
    · cases h
    · simp only [pure, Option.bind_eq_some_iff] at h
      obtain ⟨⟨hours, s₁⟩, -, s₂, -, ⟨minutes, s₃⟩, -, h⟩ := h
      split at h
      · cases h
      · next hguard =>
        obtain ⟨hhours, hminutes⟩ : hours < 24 ∧ minutes < 60 := by simpa using hguard
        cases h
        split <;> omega
  · cases h

/-- **What a date, a time and an offset amount to fits into 64 bits.** -/
theorem microseconds_natAbs_lt (hd : d.isValid) (ht : t.isValid) (hfraction : t.nanosecond < 10 ^ 9)
    (ho : o.natAbs < 86400) : (microseconds d t o).natAbs < 2 ^ 64 := by
  have hday := Date.dayNumber_natAbs_lt hd
  simp only [Time.isValid, Bool.and_eq_true, decide_eq_true_eq] at ht
  simp only [microseconds]
  omega

/-! ## The readers -/

theorem strict?_natAbs_lt (h : strict? s = some n) : n.natAbs < 2 ^ 64 := by
  unfold strict? at h
  obtain ⟨year, -, h⟩ := Option.bind_eq_some_iff.mp h
  obtain ⟨s, -, h⟩ := Option.bind_eq_some_iff.mp h
  obtain ⟨month, -, h⟩ := Option.bind_eq_some_iff.mp h
  obtain ⟨s, -, h⟩ := Option.bind_eq_some_iff.mp h
  obtain ⟨day, -, h⟩ := Option.bind_eq_some_iff.mp h
  obtain ⟨s, -, h⟩ := Option.bind_eq_some_iff.mp h
  obtain ⟨hour, -, h⟩ := Option.bind_eq_some_iff.mp h
  obtain ⟨s, -, h⟩ := Option.bind_eq_some_iff.mp h
  obtain ⟨minute, -, h⟩ := Option.bind_eq_some_iff.mp h
  obtain ⟨s, -, h⟩ := Option.bind_eq_some_iff.mp h
  obtain ⟨second, -, h⟩ := Option.bind_eq_some_iff.mp h
  obtain ⟨nanosecond, hfraction, h⟩ := Option.bind_eq_some_iff.mp h
  obtain ⟨o, hoffset, h⟩ := Option.bind_eq_some_iff.mp h
  simp only at h
  split at h
  · next hvalid =>
    simp only [Bool.and_eq_true] at hvalid
    cases h
    exact microseconds_natAbs_lt hvalid.1.2 hvalid.2 (fraction_lt hfraction)
      (offset_natAbs_lt hoffset)
  · cases h

theorem local?_natAbs_lt {between : List Char → Option (List Char)}
    {time : List Char → Option (Time × List Char)}
    (htime : ∀ s t r, time s = some (t, r) → t.nanosecond < 10 ^ 9)
    (h : local? between time s = some n) : n.natAbs < 2 ^ 64 := by
  unfold local? at h
  obtain ⟨date, -, h⟩ := Option.bind_eq_some_iff.mp h
  obtain ⟨s, -, h⟩ := Option.bind_eq_some_iff.mp h
  obtain ⟨t, hread, h⟩ := Option.bind_eq_some_iff.mp h
  simp only at h
  split at h
  · next hvalid =>
    simp only [Bool.and_eq_true] at hvalid
    cases h
    exact microseconds_natAbs_lt hvalid.1.2 hvalid.2 (htime _ _ _ hread) (by decide)
  · cases h

theorem fullTime_lt (h : fullTime s = some (t, r)) : t.nanosecond < 10 ^ 9 := by
  simp only [fullTime, Option.bind_eq_bind, Option.bind_eq_some_iff] at h
  obtain ⟨⟨⟨hour, minute⟩, s₁⟩, -, s₂, -, ⟨second, s₃⟩, -, ⟨nanosecond, s₄⟩, hfraction, h⟩ := h
  cases h
  exact fraction_lt hfraction

theorem shortTime_lt (h : shortTime s = some (t, r)) : t.nanosecond < 10 ^ 9 := by
  simp only [shortTime, Option.bind_eq_bind, Option.bind_eq_some_iff] at h
  obtain ⟨⟨⟨hour, minute⟩, s₁⟩, -, h⟩ := h
  cases h
  exact (by decide : 0 < 10 ^ 9)

theorem dateOnly?_natAbs_lt (h : dateOnly? s = some n) : n.natAbs < 100000000 := by
  unfold dateOnly? at h
  obtain ⟨date, -, h⟩ := Option.bind_eq_some_iff.mp h
  simp only at h
  split at h
  · next hvalid =>
    simp only [Bool.and_eq_true] at hvalid
    cases h
    exact Date.dayNumber_natAbs_lt hvalid.2
  · cases h

/-- **The seconds of every text that is read are a finite double.** -/
theorem isFinite_of_epochSeconds? {text : String} {x : Float} (h : epochSeconds? text = some x) :
    x.isFinite := by
  simp only [epochSeconds?] at h
  split at h
  · next n hinstant =>
    cases h
    apply isFinite_secondsOfMicroseconds
    rcases (Option.orElse_eq_some _ _ _).mp hinstant with h | ⟨-, h⟩
    · exact strict?_natAbs_lt h
    rcases (Option.orElse_eq_some _ _ _).mp h with h | ⟨-, h⟩
    · exact local?_natAbs_lt (fun _ _ _ => fullTime_lt) h
    rcases (Option.orElse_eq_some _ _ _).mp h with h | ⟨-, h⟩
    · exact local?_natAbs_lt (fun _ _ _ => fullTime_lt) h
    · exact local?_natAbs_lt (fun _ _ _ => shortTime_lt) h
  · obtain ⟨n, hday, rfl⟩ := Option.map_eq_some_iff.mp h
    have hsmall := dateOnly?_natAbs_lt hday
    exact isFinite_ofInt (by omega)

end QuerySteps.Calendar
