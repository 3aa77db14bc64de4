import Mathlib
import QuerySteps.Calendar.Date

/-!
# Counting days

The number of a day is given by a formula with leap years and centuries.  Here it is tied to the
calendar itself: a date has a next one, given by the lengths of the months, and going from one date
to the other takes as many steps as their numbers differ (`DaysApart`).

One step adds one to the number (`dayNumber_next`).  That the steps lead to the date and not just to
its number is `dayNumber_injective`: the years, and in a year the months, follow each other without
a gap.
-/

namespace QuerySteps.Calendar

/-- A date of the calendar, in any year. -/
structure Date.InCalendar (d : Date) : Prop where
  first : 1 ≤ d.day
  last : d.day ≤ monthLength d.year d.month

/-- The date of the next day. -/
def Date.next (d : Date) : Date :=
  if d.day < monthLength d.year d.month then ⟨d.year, d.month, d.day + 1⟩
  else if d.month < 12 then ⟨d.year, d.month + 1, 1⟩
  else ⟨d.year + 1, 1, 1⟩

/-- From one date it takes so many days to come to the other, or back if the number is negative. -/
def Date.DaysApart (a b : Date) (n : Int) : Prop :=
  Date.next^[n.toNat] a = Date.next^[(-n).toNat] b

/-- The first of January 1970. -/
def epoch : Date := ⟨1970, 1, 1⟩

variable {a b d : Date} {n : Int}

/-! ## Years and months -/

/-- A month that exists. -/
theorem Date.InCalendar.month (h : d.InCalendar) : 1 ≤ d.month ∧ d.month ≤ 12 := by
  have hlength : 1 ≤ monthLength d.year d.month := h.first.trans h.last
  unfold monthLength at hlength
  split at hlength <;> omega

theorem monthLength_pos {month : Nat} (year : Int) (hfirst : 1 ≤ month) (hlast : month ≤ 12) :
    1 ≤ monthLength year month := by
  interval_cases month <;> simp only [monthLength] <;> first | omega | (split <;> omega)

theorem monthLength_le (year : Int) (month : Nat) : monthLength year month ≤ 31 := by
  unfold monthLength
  split <;> first | omega | (split <;> omega)

theorem daysBeforeMonth_succ (year : Int) {month : Nat} (h : 1 ≤ month) :
    daysBeforeMonth year (month + 1) = daysBeforeMonth year month + monthLength year month := by
  obtain ⟨month, rfl⟩ : ∃ n, month = n + 1 := ⟨month - 1, by omega⟩
  rfl

/-- The days of a year. -/
def yearLength (year : Int) : Nat := if isLeap year then 366 else 365

theorem yearLength_le (year : Int) : yearLength year ≤ 366 := by
  unfold yearLength
  split <;> omega

theorem daysBeforeMonth_thirteen (year : Int) : daysBeforeMonth year 13 = yearLength year := by
  simp only [daysBeforeMonth, monthLength, yearLength]
  split <;> rfl

theorem daysBeforeYear_succ (year : Int) :
    daysBeforeYear (year + 1) = daysBeforeYear year + yearLength year := by
  have hleap : isLeap year = true ↔ year % 4 = 0 ∧ (year % 100 ≠ 0 ∨ year % 400 = 0) := by
    simp [isLeap]
  unfold daysBeforeYear leapYearsBefore yearLength
  by_cases h : isLeap year = true
  · have hyear := hleap.mp h
    rw [if_pos h]
    omega
  · have hyear := mt hleap.mpr h
    rw [if_neg h]
    omega

theorem daysBeforeYear_mono {year later : Int} (h : year ≤ later) :
    daysBeforeYear year ≤ daysBeforeYear later := by
  have hstep : ∀ y, daysBeforeYear y ≤ daysBeforeYear (y + 1) := by
    intro y
    rw [daysBeforeYear_succ]
    omega
  exact monotone_int_of_le_succ hstep h

theorem daysBeforeMonth_mono (year : Int) {month later : Nat} (h : month ≤ later) :
    daysBeforeMonth year month ≤ daysBeforeMonth year later := by
  have hstep : ∀ m, daysBeforeMonth year m ≤ daysBeforeMonth year (m + 1) := by
    intro m
    by_cases hm : 1 ≤ m
    · rw [daysBeforeMonth_succ year hm]
      omega
    · obtain rfl : m = 0 := by omega
      exact Nat.le_refl _
  exact monotone_nat_of_le_succ hstep h

/-- The place of a date in its month, its year and the calendar. -/
theorem Date.InCalendar.bounds (h : d.InCalendar) :
    daysBeforeMonth d.year d.month + d.day ≤ daysBeforeMonth d.year (d.month + 1) ∧
      daysBeforeMonth d.year (d.month + 1) ≤ yearLength d.year := by
  obtain ⟨hfirst, hlast⟩ := h.month
  have hday := h.last
  have hyear : daysBeforeMonth d.year (d.month + 1) ≤ daysBeforeMonth d.year 13 :=
    daysBeforeMonth_mono d.year (by omega)
  rw [daysBeforeMonth_thirteen] at hyear
  rw [daysBeforeMonth_succ d.year hfirst] at hyear ⊢
  omega

theorem Date.dayNumber_eq (h : d.InCalendar) : d.dayNumber + daysBeforeYear 1970 + 1 =
    daysBeforeYear d.year + daysBeforeMonth d.year d.month + d.day := by
  have hday := h.first
  unfold Date.dayNumber
  omega

/-! ## One day -/

theorem Date.InCalendar.next (h : d.InCalendar) : d.next.InCalendar := by
  have hmonth := h.month
  unfold Date.next
  split
  · next hday => exact ⟨Nat.le_add_left 1 d.day, hday⟩
  · split
    · next hless => exact ⟨Nat.le_refl 1, monthLength_pos d.year (Nat.le_add_left 1 d.month) hless⟩
    · exact ⟨Nat.le_refl 1, monthLength_pos (d.year + 1) (Nat.le_refl 1) (by decide : 1 ≤ 12)⟩

/-- **The next day has the next number.** -/
theorem Date.dayNumber_next (h : d.InCalendar) : d.next.dayNumber = d.dayNumber + 1 := by
  have hthis := dayNumber_eq h
  have hnext := dayNumber_eq h.next
  have hmonth := h.month
  have hlast := h.last
  have hsucc := daysBeforeMonth_succ d.year hmonth.1
  unfold Date.next at hnext ⊢
  split at hnext
  · next hday =>
    simp only [if_pos hday] at hnext ⊢
    push_cast at hnext
    omega
  · next hday =>
    split at hnext
    · next hless =>
      simp only [if_neg hday, if_pos hless] at hnext ⊢
      rw [hsucc] at hnext
      push_cast at hnext
      omega
    · next hless =>
      have hdecember : d.month = 12 := by omega
      have hyear := daysBeforeYear_succ d.year
      have hwhole := daysBeforeMonth_thirteen d.year
      have hjanuary : daysBeforeMonth (d.year + 1) 1 = 0 := rfl
      rw [hdecember] at hsucc hthis hday hlast
      rw [hwhole] at hsucc
      simp only [if_neg hday, hdecember, lt_irrefl, if_false, hjanuary] at hnext ⊢
      push_cast at hnext
      omega

/-- An earlier year ends before a later one begins. -/
theorem Date.dayNumber_lt_of_year_lt (ha : a.InCalendar) (hb : b.InCalendar)
    (h : a.year < b.year) : a.dayNumber < b.dayNumber := by
  have hplace := dayNumber_eq ha
  have hplace' := dayNumber_eq hb
  have hnext : daysBeforeYear (a.year + 1) ≤ daysBeforeYear b.year := daysBeforeYear_mono h
  have hbounds := ha.bounds
  have hday := hb.first
  rw [daysBeforeYear_succ] at hnext
  omega

/-- So does an earlier month of the same year. -/
theorem Date.dayNumber_lt_of_month_lt (ha : a.InCalendar) (hb : b.InCalendar)
    (hyear : a.year = b.year) (h : a.month < b.month) : a.dayNumber < b.dayNumber := by
  have hplace := dayNumber_eq ha
  have hplace' := dayNumber_eq hb
  have hnext : daysBeforeMonth a.year (a.month + 1) ≤ daysBeforeMonth a.year b.month :=
    daysBeforeMonth_mono a.year h
  have hbounds := ha.bounds
  have hday := hb.first
  rw [← hyear] at hplace'
  omega

/-- **Dates of the calendar with the same number are the same.** -/
theorem Date.dayNumber_injective (ha : a.InCalendar) (hb : b.InCalendar)
    (h : a.dayNumber = b.dayNumber) : a = b := by
  obtain hlt | hyear | hgt := lt_trichotomy a.year b.year
  · exact absurd h (dayNumber_lt_of_year_lt ha hb hlt).ne
  · obtain hlt | hmonth | hgt := lt_trichotomy a.month b.month
    · exact absurd h (dayNumber_lt_of_month_lt ha hb hyear hlt).ne
    · have hplace := dayNumber_eq ha
      have hplace' := dayNumber_eq hb
      rw [hyear, hmonth] at hplace
      have hday : a.day = b.day := by omega
      cases a
      cases b
      exact (Date.mk.injEq ..).mpr ⟨hyear, hmonth, hday⟩
    · exact absurd h (dayNumber_lt_of_month_lt hb ha hyear.symm hgt).ne'
  · exact absurd h (dayNumber_lt_of_year_lt hb ha hgt).ne'

/-! ## Any number of days -/

theorem Date.InCalendar.iterate (h : d.InCalendar) (k : Nat) :
    (Date.next^[k] d).InCalendar ∧ (Date.next^[k] d).dayNumber = d.dayNumber + k := by
  induction k with
  | zero => exact ⟨h, by simp⟩
  | succ k ih =>
    rw [Function.iterate_succ_apply']
    refine ⟨ih.1.next, ?_⟩
    rw [Date.dayNumber_next ih.1, ih.2]
    omega

/-- **The number of days between two dates is the difference of their numbers.** -/
theorem Date.daysApart_iff (ha : a.InCalendar) (hb : b.InCalendar) :
    a.DaysApart b n ↔ n = b.dayNumber - a.dayNumber := by
  obtain ⟨ha', hnumber⟩ := ha.iterate n.toNat
  obtain ⟨hb', hnumber'⟩ := hb.iterate (-n).toNat
  constructor
  · intro h
    have heq := congrArg Date.dayNumber h
    rw [hnumber, hnumber'] at heq
    omega
  · rintro rfl
    apply Date.dayNumber_injective ha' hb'
    rw [hnumber, hnumber']
    omega

theorem epoch_inCalendar : epoch.InCalendar := ⟨by decide, by decide⟩

theorem dayNumber_epoch : epoch.dayNumber = 0 := by decide

/-- The number of a date counts the days from the first of January 1970. -/
theorem Date.daysApart_epoch_iff (h : d.InCalendar) :
    epoch.DaysApart d n ↔ n = d.dayNumber := by
  rw [Date.daysApart_iff epoch_inCalendar h, dayNumber_epoch, Int.sub_zero]

end QuerySteps.Calendar
