import QuerySteps.Proofs.Calendar.Range
import QuerySteps.Proofs.Formula.TokenEnds

/-!
# Written instants

A `Moment` is a date with a year of four digits and a time of day, down to nine digits of the
second.  It is written with every number in its full width; an offset from universal time may be
written behind it (`WritesOffset`).

Each reader takes what it reads off the front of such a text and leaves what stands behind it; the
laws are stated for anything behind it, where a number is not ended by its width.
-/

namespace QuerySteps.Calendar

open Decimal
open Text (isBlank trim trimStart)

/-- A date of the calendar with a year of four digits, and a time of day. -/
structure Moment where
  year : Nat
  month : Nat
  day : Nat
  hour : Nat
  minute : Nat
  second : Nat
  /-- The digits after the point; there is no point if there are none. -/
  fraction : List Char
  year_lt : year < 10000
  calendar : Date.InCalendar ⟨year, month, day⟩
  hour_lt : hour < 24
  minute_lt : minute < 60
  second_lt : second < 60
  digits : ∀ c ∈ fraction, c.isDigit
  short : fraction.length ≤ 9

namespace Moment

/-- The date of a moment. -/
def date (m : Moment) : Date := ⟨m.year, m.month, m.day⟩

/-- The time of day, with the fraction in nanoseconds. -/
def time (m : Moment) : Time := ⟨m.hour, m.minute, m.second, nanoseconds m.fraction⟩

/-- The date: year, month and day. -/
def dateText (m : Moment) : List Char :=
  padded 4 m.year ++ '-' :: (padded 2 m.month ++ '-' :: padded 2 m.day)

/-- Hours and minutes. -/
def clockText (m : Moment) : List Char := padded 2 m.hour ++ ':' :: padded 2 m.minute

/-- The point and the digits after it, if there are any. -/
def fractionText (m : Moment) : List Char :=
  if m.fraction = [] then [] else '.' :: m.fraction

/-- The time of day. -/
def timeText (m : Moment) : List Char :=
  m.clockText ++ ':' :: (padded 2 m.second ++ m.fractionText)

/-- The microseconds since the beginning of 1970, if the date comes so many days after it and the
clock is so many seconds ahead of universal time; the fraction is cut. -/
def microsecondsAfter (m : Moment) (days offset : Int) : Int :=
  1000000 * (86400 * days + (3600 * m.hour + 60 * m.minute + m.second : Nat) - offset) +
    (ofDigits m.fraction * 10 ^ 6 / 10 ^ m.fraction.length : Nat)

end Moment

/-- The texts of an offset of so many seconds from universal time. -/
inductive WritesOffset : List Char → Int → Prop
  | universal {c : Char} (letter : c = 'Z' ∨ c = 'z') : WritesOffset [c] 0
  | ahead {hours minutes : Nat} (hours_lt : hours < 24) (minutes_lt : minutes < 60) :
      WritesOffset ('+' :: (padded 2 hours ++ ':' :: padded 2 minutes))
        (3600 * hours + 60 * minutes : Nat)
  | behind {sign : Char} {hours minutes : Nat} (minus : sign = '-' ∨ sign = '\u2212')
      (hours_lt : hours < 24) (minutes_lt : minutes < 60) :
      WritesOffset (sign :: (padded 2 hours ++ ':' :: padded 2 minutes))
        (-(3600 * hours + 60 * minutes : Nat))

variable {m : Moment} {k off s : List Char} {c : Char} {n o width : Nat}

/-! ## Digits -/

theorem not_isBlank_of_isDigit (h : c.isDigit) : isBlank c = false := by
  obtain ⟨hlow, hhigh⟩ := Formula.isDigit_iff_toNat.mp h
  cases hb : isBlank c with
  | false => rfl
  | true =>
    simp [isBlank, Text.inRanges, Text.blankRanges] at hb
    omega

theorem trimStart_digit (h : c.isDigit) (s : List Char) : trimStart (c :: s) = c :: s := by
  rw [trimStart, List.dropWhile_cons, not_isBlank_of_isDigit h]
  rfl

/-- A number that is written in full begins with a digit. -/
theorem padded_eq_cons (width n : Nat) :
    ∃ c s, padded (width + 1) n = c :: s ∧ c.isDigit := by
  have hne : padded (width + 1) n ≠ [] := List.ne_nil_of_length_eq_add_one (length_padded _ n)
  obtain ⟨c, s, hs⟩ := List.exists_cons_of_ne_nil hne
  exact ⟨c, s, hs, isDigit_padded (width + 1) n c (by simp [hs])⟩

theorem trimStart_padded (width n : Nat) (k : List Char) :
    trimStart (padded (width + 1) n ++ k) = padded (width + 1) n ++ k := by
  obtain ⟨c, s, hs, hc⟩ := padded_eq_cons width n
  rw [hs, List.cons_append, trimStart_digit hc]

theorem exactDigits_padded (h : n < 10 ^ width) (k : List Char) :
    exactDigits width (padded width n ++ k) = some (n, k) := by
  have htake : (padded width n ++ k).take width = padded width n :=
    List.take_left' (length_padded width n)
  have hdrop : (padded width n ++ k).drop width = k := List.drop_left' (length_padded width n)
  have hdigits : (padded width n).all Char.isDigit := List.all_eq_true.mpr (isDigit_padded width n)
  simp only [exactDigits, htake, hdrop, length_padded, hdigits, and_self, if_true,
    ofDigits_padded h]

theorem someDigits_padded (h : n < 10 ^ (width + 1)) (k : List Char) :
    someDigits (width + 1) (padded (width + 1) n ++ k) = some (n, k) := by
  have htake : (padded (width + 1) n ++ k).take (width + 1) = padded (width + 1) n :=
    List.take_left' (length_padded _ n)
  have hall : (padded (width + 1) n).takeWhile Char.isDigit = padded (width + 1) n :=
    List.takeWhile_eq_self_iff.mpr (isDigit_padded _ n)
  have hne : (padded (width + 1) n).isEmpty = false := by
    obtain ⟨c, s, hs, -⟩ := padded_eq_cons width n
    rw [hs]
    rfl
  simp only [someDigits, htake, hall, hne, Bool.false_eq_true, if_false, ofDigits_padded h,
    List.drop_left]

theorem literal_cons (c : Char) (s : List Char) : literal c (c :: s) = some s := by
  simp [literal]

theorem pair_padded (h : n < 100) (k : List Char) : pair (padded 2 n ++ k) = some (n, k) := by
  rw [pair, trimStart_padded, someDigits_padded h]

theorem year_padded (h : n < 10000) (k : List Char) :
    year (padded 4 n ++ k) = some ((n : Int), k) := by
  have hread : someDigits 4 (padded 4 n ++ k) = some (n, k) := someDigits_padded h k
  obtain ⟨c, s, hs, hc⟩ := padded_eq_cons 3 n
  rw [hs, List.cons_append] at hread ⊢
  unfold year
  rw [trimStart_digit hc]
  split
  · next hplus =>
    obtain ⟨rfl, -⟩ := List.cons.inj hplus
    exact absurd hc (by decide)
  · next hminus =>
    obtain ⟨rfl, -⟩ := List.cons.inj hminus
    exact absurd hc (by decide)
  · rw [hread]
    rfl

/-! ## Dates and times -/

theorem Moment.date_lt (m : Moment) : m.month < 100 ∧ m.day < 100 := by
  have hmonth := m.calendar.month
  have hday := m.calendar.last
  have hlength := monthLength_le m.year m.month
  simp only at hmonth hday
  omega

theorem Moment.isValid_date (m : Moment) : m.date.isValid := by
  have hyear := m.year_lt
  have hrange : yearInRange m.year := by
    simp only [yearInRange, Bool.and_eq_true, decide_eq_true_eq]
    omega
  have hfirst : 1 ≤ m.day := m.calendar.first
  have hlast : m.day ≤ monthLength m.year m.month := m.calendar.last
  simp only [Date.isValid, Moment.date, hrange, hfirst, hlast, decide_true, Bool.and_self]

theorem isValid_clock {hour minute second k : Nat} (hhour : hour < 24) (hminute : minute < 60)
    (hsecond : second < 60) : (⟨hour, minute, second, k⟩ : Time).isValid := by
  simp only [Time.isValid, Bool.and_eq_true, decide_eq_true_eq]
  omega

theorem date_dateText (m : Moment) (k : List Char) :
    Calendar.date (m.dateText ++ k) = some (m.date, k) := by
  obtain ⟨hmonth, hday⟩ := m.date_lt
  simp only [Moment.dateText, List.append_assoc, List.cons_append, Calendar.date,
    Option.bind_eq_bind, Option.bind_some, year_padded m.year_lt, literal_cons, pair_padded hmonth,
    pair_padded hday]
  rfl

theorem clock_clockText (m : Moment) (k : List Char) :
    clock (m.clockText ++ k) = some ((m.hour, m.minute), k) := by
  have hhour := m.hour_lt
  have hminute := m.minute_lt
  simp only [Moment.clockText, List.append_assoc, List.cons_append, clock, Option.bind_eq_bind,
    Option.bind_some, pair_padded (by omega : m.hour < 100), literal_cons,
    pair_padded (by omega : m.minute < 100)]
  rfl

/-- What may stand behind a second: no point, and no digit to go on a fraction. -/
def EndsSecond (k : List Char) : Prop := ∀ c ∈ k.head?, c ≠ '.' ∧ c.isDigit = false

theorem fraction_fractionText (m : Moment) (hk : EndsSecond k) :
    fraction (m.fractionText ++ k) = some (nanoseconds m.fraction, k) := by
  unfold Moment.fractionText
  split
  · next hnone =>
    have hzero : nanoseconds [] = 0 := rfl
    rw [hnone, hzero, List.nil_append]
    unfold fraction
    split
    · exact absurd rfl (hk '.' rfl).1
    · rfl
  · next hsome =>
    have htake : (m.fraction ++ k).takeWhile Char.isDigit = m.fraction := by
      rw [Formula.takeWhile_append_of_head fun c hc => (hk c hc).2]
      exact List.takeWhile_eq_self_iff.mpr m.digits
    have hne : m.fraction.isEmpty = false := by simpa using hsome
    simp only [List.cons_append, fraction, htake, hne, Bool.false_eq_true, if_false,
      List.drop_left]

theorem fullTime_timeText (m : Moment) (hk : EndsSecond k) :
    fullTime (m.timeText ++ k) = some (m.time, k) := by
  have hsecond := m.second_lt
  simp only [Moment.timeText, List.append_assoc, List.cons_append, fullTime, clock_clockText,
    Option.bind_eq_bind, Option.bind_some, literal_cons, pair_padded (by omega : m.second < 100),
    fraction_fractionText m hk]
  rfl

theorem shortTime_clockText (m : Moment) (k : List Char) :
    shortTime (m.clockText ++ k) = some (⟨m.hour, m.minute, 0, 0⟩, k) := by
  simp only [shortTime, clock_clockText]
  rfl

/-! ## Offsets -/

theorem offset_signed {sign : Char} {hours minutes : Nat}
    (hsign : sign = '+' ∨ sign = '-' ∨ sign = '\u2212') (hhours : hours < 24)
    (hminutes : minutes < 60) :
    offset (sign :: (padded 2 hours ++ ':' :: padded 2 minutes)) =
      some (if sign = '+' then ((3600 * hours + 60 * minutes : Nat) : Int)
        else -(3600 * hours + 60 * minutes : Nat), []) := by
  have hfirst := exactDigits_padded (by omega : hours < 10 ^ 2) (':' :: padded 2 minutes)
  have hsecond := exactDigits_padded (by omega : minutes < 10 ^ 2) []
  rw [List.append_nil] at hsecond
  rcases hsign with rfl | rfl | rfl <;>
    simp [offset, hfirst, hsecond, literal_cons, Nat.not_le.mpr hhours, Nat.not_le.mpr hminutes]

theorem WritesOffset.reads {o : Int} (h : WritesOffset off o) : offset off = some (o, []) := by
  cases h with
  | universal letter => rcases letter with rfl | rfl <;> rfl
  | ahead hours_lt minutes_lt => rw [offset_signed (.inl rfl) hours_lt minutes_lt, if_pos rfl]
  | @behind sign hours minutes minus hours_lt minutes_lt =>
    have hne : sign ≠ '+' := by rcases minus with rfl | rfl <;> decide
    rw [offset_signed (.inr minus) hours_lt minutes_lt, if_neg hne]

/-- An offset ends the second before it. -/
theorem WritesOffset.endsSecond {o : Int} (h : WritesOffset off o) : EndsSecond off := by
  cases h with
  | universal letter =>
    rintro c ⟨⟩
    rcases letter with rfl | rfl <;> exact ⟨by decide, rfl⟩
  | ahead _ _ =>
    rintro c ⟨⟩
    exact ⟨by decide, rfl⟩
  | behind minus _ _ =>
    rintro c ⟨⟩
    rcases minus with rfl | rfl <;> exact ⟨by decide, rfl⟩

/-! ## Microseconds -/

/-- The fraction is cut to whole microseconds. -/
theorem Moment.nanoseconds_div (m : Moment) :
    nanoseconds m.fraction / 1000 =
      ofDigits m.fraction * 10 ^ 6 / 10 ^ m.fraction.length := by
  have hshort := m.short
  have hkept : m.fraction.take 9 = m.fraction := List.take_of_length_le hshort
  have hsplit : 10 ^ (9 - m.fraction.length) * 10 ^ m.fraction.length = 10 ^ 6 * 10 ^ 3 := by
    rw [← pow_add, Nat.sub_add_cancel hshort]
    rfl
  have hnanoseconds : nanoseconds m.fraction =
      ofDigits m.fraction * 10 ^ (9 - m.fraction.length) := by
    simp only [nanoseconds, hkept]
    rfl
  calc nanoseconds m.fraction / 1000
      = ofDigits m.fraction * 10 ^ (9 - m.fraction.length) * 10 ^ m.fraction.length /
          (10 ^ 3 * 10 ^ m.fraction.length) := by
        rw [Nat.mul_div_mul_right _ _ (Nat.pow_pos (by decide)), hnanoseconds]
        rfl
    _ = ofDigits m.fraction * 10 ^ 6 * 10 ^ 3 / (10 ^ m.fraction.length * 10 ^ 3) := by
        rw [mul_assoc, hsplit, mul_assoc, mul_comm (10 ^ 3)]
    _ = ofDigits m.fraction * 10 ^ 6 / 10 ^ m.fraction.length :=
        Nat.mul_div_mul_right _ _ (by decide)

theorem Moment.microseconds_eq (m : Moment) (o : Int) :
    microseconds m.date m.time o = m.microsecondsAfter m.date.dayNumber o := by
  have hfraction := m.nanoseconds_div
  simp only [microseconds, Moment.time, microsecondsAfter, hfraction]

end QuerySteps.Calendar
