import QuerySteps.Proofs.Calendar.Written

/-!
# The formats agree

Five formats are tried one after the other on the same text.  What decides between them stands right
behind the part that they have in common: an offset or the end of the text, a blank or a `T`, a
colon or the end (`strict?_timeText`, `strict?_clockText`, `local?_eq_none`).  So each text of a
`Moment` comes to its own format, and there to the microseconds that the calendar says.

The result is that of universal time wherever no offset is written; a time without seconds and a
date without a time are read as if zeros stood there.
-/

namespace QuerySteps.Calendar

open Decimal
open Text (isBlank trim trimStart)

variable {m : Moment} {k off s u v : List Char} {n o : Int}

/-! ## White space around a text -/

theorem trimStart_append (h : u.all isBlank) (s : List Char) :
    trimStart (u ++ s) = trimStart s :=
  List.dropWhile_append_of_pos (List.all_eq_true.mp h)

/-- White space around a text is trimmed away. -/
theorem trim_around (hu : u.all isBlank) (hv : v.all isBlank) (s : List Char) :
    trim (u ++ (s ++ v)) = trim s := by
  have hreverse : v.reverse.all isBlank := by rwa [List.all_reverse]
  have happend : trimStart (s ++ v) =
      if (trimStart s).isEmpty then trimStart v else trimStart s ++ v := List.dropWhile_append
  rw [trim, trim, trimStart_append hu, happend]
  split
  · next hempty =>
    have hblank : trimStart v = [] := List.dropWhile_eq_nil_iff.mpr (List.all_eq_true.mp hv)
    rw [hblank, List.isEmpty_iff.mp hempty]
  · rw [List.reverse_append, trimStart_append hreverse]

/-- A text between two parts without white space is left as it is. -/
theorem trim_between {a b : List Char} (ha : ∀ c ∈ a, isBlank c = false)
    (hb : ∀ c ∈ b, isBlank c = false) (hne : a ≠ []) (hne' : b ≠ []) (s : List Char) :
    trim (a ++ (s ++ b)) = a ++ (s ++ b) := by
  have hfront : ∀ {a : List Char}, (∀ c ∈ a, isBlank c = false) → a ≠ [] → ∀ s,
      trimStart (a ++ s) = a ++ s := by
    intro a ha hne s
    obtain ⟨c, a, rfl⟩ := List.exists_cons_of_ne_nil hne
    rw [List.cons_append, trimStart, List.dropWhile_cons, ha c List.mem_cons_self]
    rfl
  have hback : ∀ c ∈ b.reverse, isBlank c = false := fun c hc => hb c (List.mem_reverse.mp hc)
  have hreverse : (a ++ (s ++ b)).reverse = b.reverse ++ (a ++ s).reverse := by
    rw [← List.append_assoc, List.reverse_append]
  rw [trim, hfront ha hne, hreverse, hfront hback (by simpa using hne'), ← hreverse,
    List.reverse_reverse]

/-! ## RFC 3339 -/

theorem separator_cons {sep : Char} (h : sep = 'T' ∨ sep = 't' ∨ sep = ' ') (s : List Char) :
    separator (sep :: s) = some s := by
  rcases h with rfl | rfl | rfl <;> rfl

/-- A step that succeeds, and one that does not. -/
theorem bind_of_some {α β : Type} {x : Option α} {a : α} (h : x = some a) (f : α → Option β) :
    x >>= f = f a := by
  rw [h]
  rfl

theorem bind_of_none {α β : Type} {x : Option α} (h : x = none) (f : α → Option β) :
    x >>= f = none := by
  rw [h]
  rfl

/-- What RFC 3339 asks for behind hours and minutes. -/
def afterClock (d : Date) (hour minute : Nat) (s : List Char) : Option Int := do
  let s ← literal ':' s
  let (second, s) ← exactDigits 2 s
  let (nanosecond, s) ← fraction s
  let (offset, s) ← offset s
  let time : Time := ⟨hour, minute, second, nanosecond⟩
  if s.isEmpty && d.isValid && time.isValid then some (microseconds d time offset) else none

/-- The date and the clock are read in front of anything. -/
theorem strict?_clock (m : Moment) {sep : Char} (hsep : sep = 'T' ∨ sep = 't' ∨ sep = ' ')
    (k : List Char) :
    strict? (m.dateText ++ sep :: (m.clockText ++ k)) = afterClock m.date m.hour m.minute k := by
  obtain ⟨hmonth, hday⟩ := m.date_lt
  have hyear := m.year_lt
  have hhour := m.hour_lt
  have hminute := m.minute_lt
  simp only [Moment.dateText, Moment.clockText, List.append_assoc, List.cons_append]
  unfold strict?
  refine (bind_of_some (exactDigits_padded (by omega) _) _).trans ?_
  refine (bind_of_some (literal_cons '-' _) _).trans ?_
  refine (bind_of_some (exactDigits_padded (by omega) _) _).trans ?_
  refine (bind_of_some (literal_cons '-' _) _).trans ?_
  refine (bind_of_some (exactDigits_padded (by omega) _) _).trans ?_
  refine (bind_of_some (separator_cons hsep _) _).trans ?_
  refine (bind_of_some (exactDigits_padded (by omega) _) _).trans ?_
  refine (bind_of_some (literal_cons ':' _) _).trans ?_
  exact bind_of_some (exactDigits_padded (by omega) k) _

/-- **A text of RFC 3339 is read as the microseconds of its instant.** -/
theorem strict?_written (m : Moment) {sep : Char} (hsep : sep = 'T' ∨ sep = 't' ∨ sep = ' ')
    (hoff : WritesOffset off o) :
    strict? (m.dateText ++ sep :: (m.timeText ++ off)) = some (microseconds m.date m.time o) := by
  have hsecond := m.second_lt
  have htime : m.time.isValid := isValid_clock m.hour_lt m.minute_lt m.second_lt
  simp only [Moment.timeText, List.append_assoc, List.cons_append]
  rw [strict?_clock m hsep]
  refine (bind_of_some (literal_cons ':' _) _).trans ?_
  refine (bind_of_some (exactDigits_padded (by omega) _) _).trans ?_
  refine (bind_of_some (fraction_fractionText m hoff.endsSecond) _).trans ?_
  refine (bind_of_some hoff.reads _).trans ?_
  have hvalid : ([] : List Char).isEmpty && m.date.isValid && m.time.isValid := by
    rw [m.isValid_date, htime]
    rfl
  exact if_pos hvalid

/-- A time without an offset is not one of RFC 3339, nor is one that ends before. -/
theorem strict?_timeText (m : Moment) {sep : Char} (hsep : sep = 'T' ∨ sep = 't' ∨ sep = ' ') :
    strict? (m.dateText ++ sep :: m.timeText) = none := by
  have hsecond := m.second_lt
  have hfraction := fraction_fractionText m (k := []) fun c hc => absurd hc (Option.not_mem_none c)
  rw [List.append_nil] at hfraction
  rw [Moment.timeText, strict?_clock m hsep]
  refine (bind_of_some (literal_cons ':' _) _).trans ?_
  refine (bind_of_some (exactDigits_padded (by omega) _) _).trans ?_
  refine (bind_of_some hfraction _).trans ?_
  exact bind_of_none rfl _

theorem strict?_clockText (m : Moment) {sep : Char} (hsep : sep = 'T' ∨ sep = 't' ∨ sep = ' ') :
    strict? (m.dateText ++ sep :: m.clockText) = none := by
  have hclock := strict?_clock m hsep []
  rw [List.append_nil] at hclock
  rw [hclock]
  exact bind_of_none rfl _

theorem strict?_dateText (m : Moment) : strict? m.dateText = none := by
  obtain ⟨hmonth, hday⟩ := m.date_lt
  have hyear := m.year_lt
  have hread := exactDigits_padded (by omega : m.day < 10 ^ 2) []
  rw [List.append_nil] at hread
  unfold strict? Moment.dateText
  refine (bind_of_some (exactDigits_padded (by omega) _) _).trans ?_
  refine (bind_of_some (literal_cons '-' _) _).trans ?_
  refine (bind_of_some (exactDigits_padded (by omega) _) _).trans ?_
  refine (bind_of_some (literal_cons '-' _) _).trans ?_
  refine (bind_of_some hread _).trans ?_
  exact bind_of_none rfl _

/-! ## Texts without an offset -/

section Local

variable {between : List Char → Option (List Char)} {time : List Char → Option (Time × List Char)}

theorem local?_eq (m : Moment) {t : Time} (hbetween : between k = some s)
    (htime : time s = some (t, [])) (hvalid : t.isValid) :
    local? between time (m.dateText ++ k) = some (microseconds m.date t 0) := by
  unfold local?
  refine (bind_of_some (date_dateText m k) _).trans ?_
  refine (bind_of_some hbetween _).trans ?_
  refine (bind_of_some htime _).trans ?_
  have hall : ([] : List Char).isEmpty && m.date.isValid && t.isValid := by
    rw [m.isValid_date, hvalid]
    rfl
  exact if_pos hall

/-- A format is not that of a text if it does not go on as the text does. -/
theorem local?_eq_none (m : Moment) (h : between k >>= time = none) :
    local? between time (m.dateText ++ k) = none := by
  unfold local?
  refine (bind_of_some (date_dateText m k) _).trans ?_
  cases hbetween : between k with
  | none => exact bind_of_none hbetween _
  | some s =>
    have htime : time s = none := by rwa [bind_of_some hbetween] at h
    exact (bind_of_some hbetween _).trans (bind_of_none htime _)

end Local

/-! ## One format after the other -/

/-- White space between a date and a time. -/
def blanks (s : List Char) : Option (List Char) := some (trimStart s)

theorem epochSeconds?_of_trim (h : trim s = s) :
    epochSeconds? (String.ofList s) =
      match strict? s <|> local? blanks fullTime s <|> local? (literal 'T') fullTime s <|>
        local? blanks shortTime s with
      | some n => some (secondsOfMicroseconds n)
      | none => (dateOnly? s).map fun n => Float.ofInt (86400 * n) := by
  have htext : trim (String.ofList s).toList = s := by rw [String.toList_ofList, h]
  unfold epochSeconds?
  simp only [htext]
  rfl

theorem noBlank_padded (width n : Nat) : ∀ c ∈ padded width n, isBlank c = false :=
  fun c hc => not_isBlank_of_isDigit (isDigit_padded width n c hc)

theorem noBlank_pair (n n' : Nat) {c : Char} (hc : isBlank c = false) :
    ∀ d ∈ padded 2 n ++ c :: padded 2 n', isBlank d = false :=
  List.forall_mem_append.mpr
    ⟨noBlank_padded 2 n, List.forall_mem_cons.mpr ⟨hc, noBlank_padded 2 n'⟩⟩

theorem WritesOffset.noBlank (h : WritesOffset off o) : ∀ c ∈ off, isBlank c = false := by
  cases h with
  | universal letter =>
    intro c hc
    rw [List.mem_singleton.mp hc]
    rcases letter with rfl | rfl <;> rfl
  | ahead _ _ => exact List.forall_mem_cons.mpr ⟨rfl, noBlank_pair _ _ rfl⟩
  | behind minus _ _ =>
    refine List.forall_mem_cons.mpr ⟨?_, noBlank_pair _ _ rfl⟩
    rcases minus with rfl | rfl <;> rfl

namespace Moment

theorem noBlank_dateText (m : Moment) : ∀ c ∈ m.dateText, isBlank c = false :=
  List.forall_mem_append.mpr ⟨noBlank_padded 4 m.year,
    List.forall_mem_cons.mpr ⟨rfl, noBlank_pair m.month m.day rfl⟩⟩

theorem noBlank_timeText (m : Moment) : ∀ c ∈ m.timeText, isBlank c = false := by
  have hfraction : ∀ c ∈ m.fractionText, isBlank c = false := by
    unfold fractionText
    split
    · exact fun c hc => absurd hc List.not_mem_nil
    · exact List.forall_mem_cons.mpr
        ⟨rfl, fun c hc => not_isBlank_of_isDigit (m.digits c hc)⟩
  exact List.forall_mem_append.mpr ⟨noBlank_pair m.hour m.minute rfl, List.forall_mem_cons.mpr
    ⟨rfl, List.forall_mem_append.mpr ⟨noBlank_padded 2 m.second, hfraction⟩⟩⟩

theorem dateText_ne_nil (m : Moment) : m.dateText ≠ [] := by
  obtain ⟨c, s, hs, -⟩ := padded_eq_cons 3 m.year
  simp [dateText, hs]

theorem clockText_eq_cons (m : Moment) : ∃ c s, m.clockText = c :: s ∧ c.isDigit := by
  obtain ⟨c, s, hs, hc⟩ := padded_eq_cons 1 m.hour
  exact ⟨c, s ++ ':' :: padded 2 m.minute, by simp [clockText, hs], hc⟩

theorem clockText_ne_nil (m : Moment) : m.clockText ≠ [] := by
  obtain ⟨c, s, hs, -⟩ := m.clockText_eq_cons
  simp [hs]

/-- Behind a date and one more character, nothing is trimmed away. -/
theorem trim_behind (m : Moment) (sep : Char) (hs : ∀ c ∈ s, isBlank c = false) (hne : s ≠ []) :
    trim (m.dateText ++ sep :: s) = m.dateText ++ sep :: s :=
  trim_between m.noBlank_dateText hs m.dateText_ne_nil hne [sep]

/-- A time stands right behind the blank. -/
theorem blanks_clockText (m : Moment) (k : List Char) :
    blanks (' ' :: (m.clockText ++ k)) = some (m.clockText ++ k) := by
  obtain ⟨c, s, hs, hc⟩ := m.clockText_eq_cons
  have hskip : trimStart (' ' :: (c :: s ++ k)) = trimStart (c :: (s ++ k)) := rfl
  rw [blanks, hs, hskip, trimStart_digit hc]
  rfl

end Moment

variable (m)

/-- RFC 3339. -/
theorem epochSeconds?_rfc3339 {sep : Char} (hsep : sep = 'T' ∨ sep = 't' ∨ sep = ' ')
    (hoff : WritesOffset off o) :
    epochSeconds? (String.ofList (m.dateText ++ sep :: (m.timeText ++ off))) =
      some (secondsOfMicroseconds (microseconds m.date m.time o)) := by
  have hne : m.timeText ++ off ≠ [] := by simp [Moment.timeText]
  have hblank := List.forall_mem_append.mpr ⟨m.noBlank_timeText, hoff.noBlank⟩
  rw [epochSeconds?_of_trim (m.trim_behind sep hblank hne), strict?_written m hsep hoff]
  rfl

/-- A date and a time without an offset. -/
theorem epochSeconds?_local {sep : Char} (hsep : sep = 'T' ∨ sep = ' ') :
    epochSeconds? (String.ofList (m.dateText ++ sep :: m.timeText)) =
      some (secondsOfMicroseconds (microseconds m.date m.time 0)) := by
  have hne : m.timeText ≠ [] := by simp [Moment.timeText]
  have hvalid : m.time.isValid := isValid_clock m.hour_lt m.minute_lt m.second_lt
  have hstrict : strict? (m.dateText ++ sep :: m.timeText) = none :=
    strict?_timeText m (hsep.imp_right .inr)
  have htime := fullTime_timeText m (k := []) fun c hc => absurd hc (Option.not_mem_none c)
  rw [List.append_nil] at htime
  rw [epochSeconds?_of_trim (m.trim_behind sep m.noBlank_timeText hne), hstrict]
  rcases hsep with rfl | rfl
  · have hblanks : local? blanks fullTime (m.dateText ++ 'T' :: m.timeText) = none :=
      local?_eq_none m rfl
    rw [hblanks, local?_eq m (literal_cons 'T' _) htime hvalid]
    rfl
  · have hbetween : blanks (' ' :: m.timeText) = some m.timeText := m.blanks_clockText _
    rw [local?_eq m hbetween htime hvalid]
    rfl

/-- A date and a time without seconds. -/
theorem epochSeconds?_clock :
    epochSeconds? (String.ofList (m.dateText ++ ' ' :: m.clockText)) =
      some (secondsOfMicroseconds (microseconds m.date ⟨m.hour, m.minute, 0, 0⟩ 0)) := by
  have hnoBlank : ∀ c ∈ m.clockText, isBlank c = false := noBlank_pair m.hour m.minute rfl
  have hvalid : (⟨m.hour, m.minute, 0, 0⟩ : Time).isValid :=
    isValid_clock m.hour_lt m.minute_lt (by decide)
  have hbetween := m.blanks_clockText []
  have hclock := clock_clockText m []
  have hshort := shortTime_clockText m []
  rw [List.append_nil] at hbetween hclock hshort
  have hfull : local? blanks fullTime (m.dateText ++ ' ' :: m.clockText) = none := by
    apply local?_eq_none m
    rw [bind_of_some hbetween, fullTime, bind_of_some hclock]
    exact bind_of_none rfl _
  have hT : local? (literal 'T') fullTime (m.dateText ++ ' ' :: m.clockText) = none :=
    local?_eq_none m rfl
  rw [epochSeconds?_of_trim (m.trim_behind ' ' hnoBlank m.clockText_ne_nil),
    strict?_clockText m (.inr (.inr rfl)), hfull, hT, local?_eq m hbetween hshort hvalid]
  rfl

/-- A date alone. -/
theorem epochSeconds?_date :
    epochSeconds? (String.ofList m.dateText) = some (Float.ofInt (86400 * m.date.dayNumber)) := by
  have htext : m.dateText =
      padded 4 m.year ++ ('-' :: (padded 2 m.month ++ ['-']) ++ padded 2 m.day) := by
    simp [Moment.dateText]
  have hne : ∀ width n, padded (width + 1) n ≠ [] := fun width n =>
    List.ne_nil_of_length_eq_add_one (length_padded _ n)
  have htrim : trim m.dateText = m.dateText := by
    rw [htext]
    exact trim_between (noBlank_padded 4 m.year) (noBlank_padded 2 m.day) (hne 3 _) (hne 1 _) _
  have hend := date_dateText m []
  have hlocal : ∀ {between time}, between [] >>= time = (none : Option (Time × List Char)) →
      local? between time m.dateText = none := by
    intro between time h
    have hnone := local?_eq_none m h
    rwa [List.append_nil] at hnone
  rw [List.append_nil] at hend
  have hday : dateOnly? m.dateText = some m.date.dayNumber := by
    unfold dateOnly?
    refine (bind_of_some hend _).trans ?_
    have hvalid : ([] : List Char).isEmpty && m.date.isValid := m.isValid_date
    exact if_pos hvalid
  have hfull : local? blanks fullTime m.dateText = none := hlocal rfl
  have hT : local? (literal 'T') fullTime m.dateText = none := hlocal rfl
  have hshort : local? blanks shortTime m.dateText = none := hlocal rfl
  rw [epochSeconds?_of_trim htrim, strict?_dateText, hfull, hT, hshort, hday]
  rfl

/-! ## The seconds of a moment -/

/-- The years of four digits leave room for the microseconds of each of their seconds. -/
theorem Moment.seconds_lt {k : Nat} (hk : k < 86400) (ho : o.natAbs < 86400) :
    15625 * (86400 * m.date.dayNumber + k - o).natAbs < 2 ^ 53 := by
  have hcalendar : m.date.InCalendar := m.calendar
  have hplace := Date.dayNumber_eq hcalendar
  have hbounds := hcalendar.bounds
  have hyear := yearLength_le m.date.year
  have hlow : 0 ≤ m.date.year := Int.natCast_nonneg m.year
  have hhigh : m.date.year < 10000 := Int.ofNat_lt.mpr m.year_lt
  unfold daysBeforeYear leapYearsBefore at hplace
  omega

theorem WritesOffset.natAbs_lt (h : WritesOffset off o) : o.natAbs < 86400 :=
  offset_natAbs_lt h.reads

namespace Moment

/-- The beginning of the minute. -/
def atMinute (m : Moment) : Moment :=
  { m with
    second := 0
    fraction := []
    second_lt := by decide
    digits := fun _ hc => absurd hc List.not_mem_nil
    short := Nat.zero_le 9 }

/-- The beginning of the day. -/
def atMidnight (m : Moment) : Moment :=
  { m.atMinute with
    hour := 0
    minute := 0
    hour_lt := by decide
    minute_lt := by decide }

theorem timeText_atMinute (m : Moment) : m.atMinute.timeText = m.clockText ++ ":00".toList := by
  have hsecond : m.atMinute.second = 0 := rfl
  have hfraction : m.atMinute.fractionText = [] := if_pos rfl
  rw [timeText, hsecond, hfraction]
  rfl

theorem timeText_atMidnight (m : Moment) : m.atMidnight.timeText = "00:00:00".toList := by
  have hhour : m.atMidnight.hour = 0 := rfl
  have hminute : m.atMidnight.minute = 0 := rfl
  have hsecond : m.atMidnight.second = 0 := rfl
  have hfraction : m.atMidnight.fractionText = [] := if_pos rfl
  rw [timeText, clockText, hhour, hminute, hsecond, hfraction]
  rfl

theorem time_atMinute (m : Moment) : m.atMinute.time = ⟨m.hour, m.minute, 0, 0⟩ := by
  have hnone : m.atMinute.fraction = [] := rfl
  have hzero : nanoseconds [] = 0 := rfl
  rw [time, hnone, hzero]
  rfl

/-- Without a fraction, the microseconds are those of whole seconds. -/
theorem microsecondsAfter_whole (m : Moment) (h : m.fraction = []) (days offset : Int) :
    m.microsecondsAfter days offset =
      1000000 * (86400 * days + (3600 * m.hour + 60 * m.minute + m.second : Nat) - offset) := by
  have hzero : ofDigits [] = 0 := rfl
  rw [microsecondsAfter, h, hzero, Nat.zero_mul, Nat.zero_div, Nat.cast_zero, Int.add_zero]

/-- Whole seconds are the result itself. -/
theorem seconds_whole (m : Moment) (h : m.fraction = []) (ho : o.natAbs < 86400) :
    ∃ x, secondsOfMicroseconds (m.microsecondsAfter m.date.dayNumber o) = x ∧
      value? x = some ((86400 * m.date.dayNumber +
        (3600 * m.hour + 60 * m.minute + m.second : Nat) - o : Int) : ℚ) := by
  have hhour := m.hour_lt
  have hminute := m.minute_lt
  have hsecond := m.second_lt
  have hroom := seconds_lt m (k := 3600 * m.hour + 60 * m.minute + m.second) (by omega) ho
  refine ⟨_, rfl, ?_⟩
  rw [microsecondsAfter_whole m h, secondsOfMicroseconds_whole hroom]
  exact value?_ofInt (by omega)

end Moment

/-- A date alone is its midnight. -/
theorem epochSeconds?_midnight :
    epochSeconds? (String.ofList m.dateText) =
      epochSeconds? (String.ofList (m.dateText ++ " 00:00:00".toList)) := by
  have hroom := Moment.seconds_lt m (k := 0) (o := 0) (by decide) (by decide)
  have htext : m.dateText ++ " 00:00:00".toList =
      m.atMidnight.dateText ++ ' ' :: m.atMidnight.timeText := by
    rw [Moment.timeText_atMidnight]
    rfl
  have hseconds : 86400 * m.date.dayNumber + (3600 * 0 + 60 * 0 + 0 : Nat) - 0 =
      86400 * m.date.dayNumber := by omega
  have hmicros : m.atMidnight.microsecondsAfter m.date.dayNumber 0 =
      1000000 * (86400 * m.date.dayNumber + (3600 * 0 + 60 * 0 + 0 : Nat) - 0) :=
    m.atMidnight.microsecondsAfter_whole rfl m.date.dayNumber 0
  have hdate : m.atMidnight.date = m.date := rfl
  rw [epochSeconds?_date, htext, epochSeconds?_local m.atMidnight (.inr rfl),
    Moment.microseconds_eq, hdate, hmicros, hseconds, secondsOfMicroseconds_whole]
  omega

/-- A time without seconds is the beginning of its minute. -/
theorem epochSeconds?_minute :
    epochSeconds? (String.ofList (m.dateText ++ ' ' :: m.clockText)) =
      epochSeconds? (String.ofList (m.dateText ++ ' ' :: (m.clockText ++ ":00".toList))) := by
  have hminute := epochSeconds?_local m.atMinute (.inr rfl : ' ' = 'T' ∨ ' ' = ' ')
  rw [Moment.timeText_atMinute, Moment.time_atMinute] at hminute
  exact (epochSeconds?_clock m).trans hminute.symm

/-- White space around a text makes no difference. -/
theorem epochSeconds?_around (hu : u.all isBlank) (hv : v.all isBlank) (text : List Char) :
    epochSeconds? (String.ofList (u ++ (text ++ v))) = epochSeconds? (String.ofList text) := by
  unfold epochSeconds?
  simp only [String.toList_ofList, trim_around hu hv]

/-- **The seconds of a text are those of the calendar, in every format.**  Let a moment come so many
days after the first of January 1970.  With an offset it is read as its microseconds, converted to a
double and divided by a million; without an offset as if it were that of universal time; without
seconds, or without a time, as if there were zeros.  Without a fraction the result is exactly the
number of seconds.  White space around a text makes no difference. -/
theorem epochSeconds?_formats {days : Int} (hdays : epoch.DaysApart m.date days) :
    (∀ sep off offset, sep = 'T' ∨ sep = 't' ∨ sep = ' ' → WritesOffset off offset →
      epochSeconds? (String.ofList (m.dateText ++ sep :: (m.timeText ++ off))) =
          some (Float.ofInt (m.microsecondsAfter days offset) / 1000000.0) ∧
        (m.fraction = [] →
          ∃ x, epochSeconds? (String.ofList (m.dateText ++ sep :: (m.timeText ++ off))) = some x ∧
            value? x = some ((86400 * days +
              (3600 * m.hour + 60 * m.minute + m.second : Nat) - offset : Int) : ℚ))) ∧
      (∀ sep, sep = 'T' ∨ sep = ' ' →
        epochSeconds? (String.ofList (m.dateText ++ sep :: m.timeText)) =
          epochSeconds? (String.ofList (m.dateText ++ sep :: (m.timeText ++ ['Z'])))) ∧
      epochSeconds? (String.ofList (m.dateText ++ ' ' :: m.clockText)) =
        epochSeconds? (String.ofList (m.dateText ++ ' ' :: (m.clockText ++ ":00".toList))) ∧
      epochSeconds? (String.ofList m.dateText) =
        epochSeconds? (String.ofList (m.dateText ++ " 00:00:00".toList)) ∧
      ∀ text u v : List Char, u.all isBlank → v.all isBlank →
        epochSeconds? (String.ofList (u ++ (text ++ v))) = epochSeconds? (String.ofList text) := by
  obtain rfl := (Date.daysApart_epoch_iff m.calendar).mp hdays
  refine ⟨?_, ?_, epochSeconds?_minute m, epochSeconds?_midnight m,
    fun text u v hu hv => epochSeconds?_around hu hv text⟩
  · intro sep off offset hsep hoff
    have hread := epochSeconds?_rfc3339 m hsep hoff
    rw [Moment.microseconds_eq] at hread
    refine ⟨hread, fun hwhole => ?_⟩
    obtain ⟨x, hx, hvalue⟩ := m.seconds_whole hwhole hoff.natAbs_lt
    exact ⟨x, hx ▸ hread, hvalue⟩
  · intro sep hsep
    have hzone : WritesOffset ['Z'] 0 := .universal (.inl rfl)
    exact (epochSeconds?_local m hsep).trans
      (epochSeconds?_rfc3339 m (hsep.imp_right .inr) hzone).symm

/-- The last nanosecond of the leap day of year 0. -/
def Moment.leapDay : Moment where
  year := 0
  month := 2
  day := 29
  hour := 23
  minute := 59
  second := 59
  fraction := List.replicate 9 '9'
  year_lt := by decide
  calendar := ⟨by decide, by decide⟩
  hour_lt := by decide
  minute_lt := by decide
  second_lt := by decide
  digits := fun _ hc => List.eq_of_mem_replicate hc ▸ rfl
  short := by decide

/-- An offset that leads into the next day, and the date alone. -/
theorem epochSeconds?_formats_leapDay :
    epoch.DaysApart Moment.leapDay.date (-719469) ∧
      epochSeconds? "0000-02-29t23:59:59.999999999-23:59" =
        some (Float.ofInt (-62161948860000001) / 1000000.0) ∧
      epochSeconds? "0000-02-29" = epochSeconds? "0000-02-29 00:00:00" := by
  have hdays : epoch.DaysApart Moment.leapDay.date (-719469) :=
    (Date.daysApart_epoch_iff Moment.leapDay.calendar).mpr (by decide)
  have hoff : WritesOffset ('-' :: (padded 2 23 ++ ':' :: padded 2 59))
      (-(3600 * 23 + 60 * 59 : Nat)) := .behind (.inl rfl) (by decide) (by decide)
  have htext : String.ofList (Moment.leapDay.dateText ++ 't' :: (Moment.leapDay.timeText ++
      '-' :: (padded 2 23 ++ ':' :: padded 2 59))) = "0000-02-29t23:59:59.999999999-23:59" := by
    decide +kernel
  have hmicros : Moment.leapDay.microsecondsAfter (-719469) (-(3600 * 23 + 60 * 59 : Nat)) =
      -62161948860000001 := by
    decide +kernel
  have hmidnight : String.ofList (Moment.leapDay.dateText ++ " 00:00:00".toList) =
      "0000-02-29 00:00:00" := by
    decide +kernel
  have hdate : String.ofList Moment.leapDay.dateText = "0000-02-29" := by decide +kernel
  obtain ⟨hoffset, -, -, halone, -⟩ := epochSeconds?_formats Moment.leapDay hdays
  have hread := (hoffset 't' _ _ (.inr (.inl rfl)) hoff).1
  rw [htext, hmicros] at hread
  rw [hdate, hmidnight] at halone
  exact ⟨hdays, hread, halone⟩

end QuerySteps.Calendar
