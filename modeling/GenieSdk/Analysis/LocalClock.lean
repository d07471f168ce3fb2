import GenieSdk.Lib.Calendar
import GenieSdk.Model.GenieTime

/-!
# The local clock

`unix2UTC` yields the Gregorian date up to `calendarEnd`; from there on its four-year periods are
a day off. The ticking clock keeps second, minute, hour and weekday right for ever, and the date
until the end of the month it was set in: at a new month `days_update` starts with day 0. From
then on the local date stays behind the true one, so it never comes right again.
-/

set_option autoImplicit false

namespace GenieSdk.Analysis

open GenieSdk.Lib
open GenieSdk.Model

/-- The date of a calendar time. -/
def dateOf (u : UtcTime) : Date := { year := u.year, month := u.month, day := u.day }

/-- The time of day and the weekday of `u` are those of second `t`. -/
structure ClockAt (u : UtcTime) (t : ℕ) : Prop where
  seconds : u.seconds = t % 60
  minutes : u.minutes = t / 60 % 60
  hour : u.hour = t / 3600 % 24
  weekday : u.weekday = (t / 86400 + 4) % 7

/-- `u` is the calendar time of second `t`. -/
def CalendarAt (u : UtcTime) (t : ℕ) : Prop := ClockAt u t ∧ IsDate (t / 86400) (dateOf u)

/-- The first second that `unix2UTC` does not convert: 2 January 2102. -/
def calendarEnd : ℕ := 33 * (4 * 365 + 1) * 86400

/-- The code's leap years are those of the calendar. -/
theorem isLeapYear_eq (year : ℕ) : isLeapYear year = isLeap year := by
  unfold isLeapYear isLeap
  by_cases h4 : year % 4 = 0 ∧ year % 100 ≠ 0
  · simp [h4.1, h4.2]
  · by_cases h400 : year % 400 = 0
    · simp [show year % 4 = 0 by omega, h400]
    · simp only [h4, if_false, h400]
      simp only [or_false]
      exact (decide_eq_false h4).symm

/-- The source's table is the calendar's. -/
theorem daysBeforeMonth_eq (leap : Bool) {m : ℕ} (h : m ≤ 12) :
    daysBeforeMonth leap m = monthStart leap m := by
  interval_cases m <;> cases leap <;> rfl

/-- So are the lengths of its months. -/
theorem monthDaysList_eq (year : ℕ) {m : ℕ} (h : m < 12) :
    (if isLeapYear year then monthDaysList.set 1 29 else monthDaysList).getD m 0 =
      monthDays (isLeap year) m := by
  rw [isLeapYear_eq]
  cases isLeap year <;> interval_cases m <;> rfl

/-- The years taken off. -/
theorem unix2UtcYear_spec (fuel year jdn : ℕ) (h : jdn ≤ fuel) :
    yearStart (unix2UtcYear fuel year jdn).1 + (unix2UtcYear fuel year jdn).2 =
        yearStart year + jdn ∧
      (unix2UtcYear fuel year jdn).2 < yearDays (1970 + (unix2UtcYear fuel year jdn).1) := by
  induction fuel generalizing year jdn with
  | zero =>
    have hpos := yearDays_ge (1970 + year)
    exact ⟨rfl, by simp only [unix2UtcYear]; omega⟩
  | succ fuel ih =>
    unfold unix2UtcYear
    have hdays : (if isLeapYear (year + 1970) then 366 else 365) = yearDays (1970 + year) := by
      rw [isLeapYear_eq, Nat.add_comm year, yearDays]
    have hpos := yearDays_ge (1970 + year)
    simp only [hdays]
    split
    · next hle =>
      obtain ⟨hsum, hlt⟩ := ih (year + 1) (jdn - yearDays (1970 + year)) (by omega)
      refine ⟨?_, hlt⟩
      rw [hsum, yearStart]
      omega
    · next hgt => exact ⟨rfl, Nat.lt_of_not_le hgt⟩

/-- The search narrows the months between `min` and `max` down to the one of the day. -/
theorem unix2UtcMonth_spec (leap : Bool) (jdn : ℕ) (fuel lo hi : ℕ) (hfuel : hi < lo + fuel)
    (hle : lo ≤ hi) (hhi : hi ≤ 11) (hlow : monthStart leap lo ≤ jdn)
    (hupp : jdn < monthStart leap (hi + 1)) :
    unix2UtcMonth leap jdn fuel lo hi ≤ 11 ∧
      monthStart leap (unix2UtcMonth leap jdn fuel lo hi) ≤ jdn ∧
      jdn < monthStart leap (unix2UtcMonth leap jdn fuel lo hi + 1) := by
  have hmono : ∀ {a b : ℕ}, monthStart leap a ≤ jdn → jdn < monthStart leap b → a < b := by
    intro a b ha hb
    by_contra hge
    rcases Nat.lt_or_eq_of_le (Nat.le_of_not_lt hge) with hlt | heq
    · have := monthStart_mono leap hlt
      omega
    · rw [heq] at hb
      omega
  induction fuel generalizing lo hi with
  | zero => omega
  | succ fuel ih =>
    unfold unix2UtcMonth
    have hmid : lo ≤ (lo + hi) / 2 ∧ (lo + hi) / 2 ≤ hi := by omega
    simp only [daysBeforeMonth_eq leap (show (lo + hi) / 2 + 1 ≤ 12 by omega),
      daysBeforeMonth_eq leap (show (lo + hi) / 2 ≤ 12 by omega)]
    split
    · next hbelow =>
      split
      · next hless =>
        have hlt := hmono hlow hless
        split
        · refine ih lo ((lo + hi) / 2 - 1) (by omega) (by omega) (by omega) hlow ?_
          rwa [show (lo + hi) / 2 - 1 + 1 = (lo + hi) / 2 by omega]
        · refine ⟨by omega, hlow, ?_⟩
          rwa [show lo + 1 = (lo + hi) / 2 by omega]
      · next hnot => exact ⟨by omega, by omega, hbelow⟩
    · next habove =>
      have hlt := hmono (Nat.le_of_not_lt habove) hupp
      split
      · exact ih ((lo + hi) / 2 + 1) hi (by omega) (by omega) hhi (by omega) hupp
      · refine ⟨by omega, by omega, ?_⟩
        rwa [show (lo + hi) / 2 + 1 = hi by omega]

/-- Up to 2098 every fourth year is a leap year. -/
theorem yearStart_period {p : ℕ} (h : p ≤ 32) : yearStart (4 * p) = 1461 * p := by
  have hall : ∀ p ≤ 32, yearStart (4 * p) = 1461 * p := by decide
  exact hall p h

/-- **`unix2UTC` is the calendar.** -/
theorem unix2Utc_calendarAt {t : ℕ} (h : t < calendarEnd) : CalendarAt (unix2Utc t) t := by
  unfold calendarEnd at h
  refine ⟨⟨?_, ?_, ?_, rfl⟩, ?_⟩
  · simp only [unix2Utc, daySecs]
    omega
  · simp only [unix2Utc, daySecs, hourSecs]
    omega
  · simp only [unix2Utc, daySecs, hourSecs]
    omega
  · -- the year and the month found, with what is left of the day number
    let rest := t / 86400 - t / 86400 / 1461 * 1461
    have hperiod : yearStart (4 * (t / 86400 / 1461)) = 1461 * (t / 86400 / 1461) :=
      yearStart_period (by omega)
    obtain ⟨hsum, hlt⟩ := unix2UtcYear_spec rest (4 * (t / 86400 / 1461)) rest le_rfl
    set yr := unix2UtcYear rest (4 * (t / 86400 / 1461)) rest with hyr
    have hlast : yr.2 < monthStart (isLeap (yr.1 + 1970)) (11 + 1) := by
      rw [monthStart_twelve, Nat.add_comm]
      exact hlt
    obtain ⟨hm, hlow, hupp⟩ := unix2UtcMonth_spec (isLeap (yr.1 + 1970)) yr.2 12 0 11
      (by omega) (by omega) le_rfl (Nat.zero_le _) hlast
    have hdate : dateOf (unix2Utc t) =
        { year := yr.1 + 1970, month := unix2UtcMonth (isLeap (yr.1 + 1970)) yr.2 12 0 11
          day := yr.2 - monthStart (isLeap (yr.1 + 1970))
            (unix2UtcMonth (isLeap (yr.1 + 1970)) yr.2 12 0 11) + 1 } := by
      simp only [dateOf, unix2Utc, daySecs]
      rw [← isLeapYear_eq, ← daysBeforeMonth_eq _ (by rw [isLeapYear_eq]; omega)]
    rw [hdate]
    generalize unix2UtcMonth (isLeap (yr.1 + 1970)) yr.2 12 0 11 = m at hm hlow hupp
    rw [monthStart] at hupp
    refine ⟨⟨by dsimp only; omega, by dsimp only; omega, by dsimp only; omega,
      by dsimp only; omega⟩, ?_⟩
    simp only [Date.number, show yr.1 + 1970 - 1970 = yr.1 by omega]
    have hrest : rest = t / 86400 - t / 86400 / 1461 * 1461 := rfl
    omega

/-- What `days_update` makes of a date. -/
def dayTick (d : Date) : Date :=
  if monthDays (isLeap d.year) d.month < d.day + 1 then
    if 12 ≤ d.month + 1 then { year := d.year + 1, month := 0, day := 0 }
    else { d with month := d.month + 1, day := 0 }
  else { d with day := d.day + 1 }

/-- One more day of the clock is one more day of the date. -/
theorem dateOf_daysUpdate {u : UtcTime} (h : u.month < 12) :
    dateOf (daysUpdate u) = dayTick (dateOf u) := by
  unfold daysUpdate dayTick monthUpdate
  simp only [monthDaysList_eq u.year h, dateOf]
  by_cases hlast : monthDays (isLeap u.year) u.month < u.day + 1
  · by_cases hyear : 12 ≤ u.month + 1
    · simp only [hlast, hyear, if_true]
    · simp only [hlast, hyear, if_true, if_false]
  · simp only [hlast, if_false]

/-- It leaves the time of day and moves the weekday on. -/
theorem daysUpdate_clock (u : UtcTime) :
    (daysUpdate u).seconds = u.seconds ∧ (daysUpdate u).minutes = u.minutes ∧
      (daysUpdate u).hour = u.hour ∧ (daysUpdate u).weekday = (u.weekday + 1) % 7 := by
  unfold daysUpdate monthUpdate
  dsimp only
  split_ifs <;> exact ⟨rfl, rfl, rfl, rfl⟩

/-- One second. The carries go exactly as far as the new second says. -/
theorem secondsUpdate_spec {u : UtcTime} {t : ℕ} (h : ClockAt u t) (hm : u.month < 12) :
    ClockAt (secondsUpdate u) (t + 1) ∧
      dateOf (secondsUpdate u) = if (t + 1) % 86400 = 0 then dayTick (dateOf u) else dateOf u := by
  obtain ⟨hs, hmin, hh, hw⟩ := h
  unfold secondsUpdate
  by_cases h60 : u.seconds + 1 = 60
  · rw [if_pos h60]
    unfold minutesUpdate
    by_cases hm60 : u.minutes + 1 = 60
    · rw [if_pos hm60]
      unfold hoursUpdate
      by_cases hh24 : u.hour + 1 = 24
      · -- midnight
        rw [if_pos hh24]
        have hmid : (t + 1) % 86400 = 0 := by omega
        obtain ⟨hs', hm', hh', hw'⟩ := daysUpdate_clock
          { u with seconds := 0, minutes := 0, hour := 0 }
        refine ⟨⟨?_, ?_, ?_, ?_⟩, ?_⟩
        · exact hs'.trans (by dsimp only; omega)
        · exact hm'.trans (by dsimp only; omega)
        · exact hh'.trans (by dsimp only; omega)
        · exact hw'.trans (by dsimp only; omega)
        · rw [if_pos hmid]
          exact dateOf_daysUpdate (u := { u with seconds := 0, minutes := 0, hour := 0 }) hm
      · rw [if_neg hh24, if_neg (by omega)]
        exact ⟨⟨by dsimp only; omega, by dsimp only; omega, by dsimp only; omega,
          by dsimp only; omega⟩, rfl⟩
    · rw [if_neg hm60, if_neg (by omega)]
      exact ⟨⟨by dsimp only; omega, by dsimp only; omega, by dsimp only; omega,
        by dsimp only; omega⟩, rfl⟩
  · rw [if_neg h60, if_neg (by omega)]
    exact ⟨⟨by dsimp only; omega, by dsimp only; omega, by dsimp only; omega,
      by dsimp only; omega⟩, rfl⟩

/-- How the local date stands to the true one, for a clock set in month `start`. -/
def Tracks (start : ℕ) (a b : Date) : Prop :=
  (a = b ∧ b.monthIndex = start) ∨ (a.Before b ∧ start < b.monthIndex)

/-- The month stays a month. -/
theorem dayTick_month {a : Date} (h : a.month < 12) : (dayTick a).month < 12 := by
  unfold dayTick
  split
  · split <;> dsimp only <;> omega
  · exact h

/-- A date that is behind stays behind. -/
theorem dayTick_before {a b : Date} (hb : b.Valid) (ha : a.month < 12) (h : a.Before b) :
    (dayTick a).Before b.next := by
  have hday := hb.day_le
  have hpos := hb.day_pos
  have hmb := hb.month
  have hyear : a.monthIndex = b.monthIndex → a.year = b.year ∧ a.month = b.month := by
    unfold Date.monthIndex
    omega
  unfold Date.Before at h ⊢
  unfold dayTick Date.next
  rcases h with hmonth | ⟨hmonth, hlt⟩
  · -- a new month of the late clock starts with day 0
    unfold Date.monthIndex at hmonth ⊢
    split_ifs <;> dsimp only <;> omega
  · obtain ⟨hy, hm⟩ := hyear hmonth
    rw [hy, hm]
    unfold Date.monthIndex
    split_ifs <;> dsimp only <;> omega

/-- One day. -/
theorem Tracks.next {start : ℕ} {a b : Date} (h : Tracks start a b) (hb : b.Valid)
    (ha : a.month < 12) : Tracks start (dayTick a) b.next := by
  rcases h with ⟨rfl, hmonth⟩ | ⟨hbefore, hmonth⟩
  · have hday := hb.day_le
    unfold Tracks dayTick Date.next Date.Before
    unfold Date.monthIndex at hmonth ⊢
    by_cases hlast : a.day < monthDays (isLeap a.year) a.month
    · rw [if_neg (by omega), if_pos hlast]
      exact .inl ⟨rfl, hmonth⟩
    · rw [if_pos (by omega), if_neg hlast]
      right
      split_ifs <;> dsimp only <;> omega
  · have hmono := Date.monthIndex_next hb.month
    exact .inr ⟨dayTick_before hb ha hbefore, by omega⟩

/-- The date follows the calendar as long as the month is the first one. -/
theorem Tracks.eq_iff {start : ℕ} {a b : Date} (h : Tracks start a b) :
    a = b ↔ b.monthIndex = start := by
  rcases h with ⟨heq, hmonth⟩ | ⟨hbefore, hmonth⟩
  · simp [heq, hmonth]
  · refine ⟨fun heq => ?_, fun heq => by omega⟩
    rw [heq] at hbefore
    rcases hbefore with hlt | ⟨-, hlt⟩ <;> omega

/-- The clock after `n` seconds. -/
theorem secondsUpdate_iterate {u : UtcTime} {t : ℕ} (dates : ℕ → Date)
    (hclock : ClockAt u t) (hdates : ∀ k, IsDate ((t + k) / 86400) (dates k))
    (hu : dateOf u = dates 0) (n : ℕ) :
    ClockAt (secondsUpdate^[n] u) (t + n) ∧ (secondsUpdate^[n] u).month < 12 ∧
      Tracks (dates 0).monthIndex (dateOf (secondsUpdate^[n] u)) (dates n) := by
  induction n with
  | zero =>
    refine ⟨hclock, ?_, .inl ⟨hu, rfl⟩⟩
    have hmonth : (dateOf u).month < 12 := by
      rw [hu]
      exact (hdates 0).1.month
    exact hmonth
  | succ n ih =>
    obtain ⟨hc, hm, htr⟩ := ih
    rw [Function.iterate_succ_apply']
    obtain ⟨hc', hdate⟩ := secondsUpdate_spec hc hm
    have hmonth : (dateOf (secondsUpdate (secondsUpdate^[n] u))).month < 12 := by
      rw [hdate]
      split
      · exact dayTick_month hm
      · exact hm
    refine ⟨hc', hmonth, ?_⟩
    rw [hdate]
    by_cases hmid : (t + n + 1) % 86400 = 0
    · rw [if_pos hmid]
      have hnext : dates (n + 1) = (dates n).next := by
        refine IsDate.unique (j := (t + n) / 86400 + 1) ?_ (hdates n).next
        rw [show (t + n) / 86400 + 1 = (t + (n + 1)) / 86400 by omega]
        exact hdates (n + 1)
      rw [hnext]
      exact htr.next (hdates n).1 hm
    · rw [if_neg hmid]
      have hsame : dates (n + 1) = dates n := by
        refine IsDate.unique (j := (t + n) / 86400) ?_ (hdates n)
        rw [show (t + n) / 86400 = (t + (n + 1)) / 86400 by omega]
        exact hdates (n + 1)
      rw [hsame]
      exact htr

/-- A number that fits is itself. -/
theorem toU32_eq {x : ℤ} {k : ℕ} (h : x = k) (hk : k < 2 ^ 32) : toU32 x = k := by
  subst h
  unfold toU32
  omega

/-- A tick of a clock that runs. -/
theorem timerUpdate_eq {s : GenieTime} (h : s.update = true) :
    timerUpdate s =
      { s with unixTime := (s.unixTime + 1) % 2 ^ 32, localTime := secondsUpdate s.localTime } :=
  if_pos h

/-- The ticks of a clock that runs. -/
theorem timerUpdate_iterate {s : GenieTime} (h : s.update = true) (n : ℕ) :
    (timerUpdate^[n] s).update = true ∧
      (timerUpdate^[n] s).localTime = secondsUpdate^[n] s.localTime := by
  induction n with
  | zero => exact ⟨h, rfl⟩
  | succ n ih =>
    rw [Function.iterate_succ_apply', Function.iterate_succ_apply', timerUpdate_eq ih.1]
    exact ⟨ih.1, by rw [ih.2]⟩

/-- An update starts the clock at the local time. -/
theorem localTimeUpdate_spec {s : GenieTime} (h : s.init = true) (unixTime : ℕ) :
    (genieTimeLocalTimeUpdate s unixTime).2.update = true ∧
      (genieTimeLocalTimeUpdate s unixTime).2.localTime =
        unix2Utc (toU32 (unixTime + s.timezone * hourSecs)) := by
  unfold genieTimeLocalTimeUpdate
  rw [if_neg (by simp [h])]
  exact ⟨rfl, rfl⟩

/-- Two calendar times with the same clock are equal when their dates are. -/
theorem ClockAt.eq_iff {u v : UtcTime} {t : ℕ} (hu : ClockAt u t) (hv : ClockAt v t) :
    u = v ↔ dateOf u = dateOf v := by
  refine ⟨fun h => by rw [h], fun h => ?_⟩
  obtain ⟨hs, hm, hh, hw⟩ := hu
  obtain ⟨hs', hm', hh', hw'⟩ := hv
  cases u
  cases v
  simp only [dateOf, Date.mk.injEq] at h
  simp_all

/-- Two calendar times of one month of one year. -/
def SameMonth (u v : UtcTime) : Prop := u.year = v.year ∧ u.month = v.month

instance (u v : UtcTime) : Decidable (SameMonth u v) := inferInstanceAs (Decidable (_ ∧ _))

/-- Two times are of one month if their dates are. -/
theorem sameMonth_iff {u v : UtcTime} (hu : u.month < 12) (hv : v.month < 12) :
    SameMonth u v ↔ (dateOf v).monthIndex = (dateOf u).monthIndex := by
  unfold SameMonth Date.monthIndex dateOf
  dsimp only
  omega

/-- **The local clock is right exactly until the month ends.** For every time and timezone in the
calendar's range, after the clock is set and any number of ticks, the local time is the calendar
time if and only if both lie in the same local month. -/
theorem local_clock_tracks (s : GenieTime) (unixTime n : ℕ) (hinit : s.init = true)
    (hlo : 0 ≤ (unixTime : ℤ) + s.timezone * hourSecs)
    (hhi : (unixTime : ℤ) + n + s.timezone * hourSecs < calendarEnd) :
    (timerUpdate^[n] (genieTimeLocalTimeUpdate s unixTime).2).localTime =
        unix2Utc (toU32 (unixTime + n + s.timezone * hourSecs)) ↔
      SameMonth (unix2Utc (toU32 (unixTime + s.timezone * hourSecs)))
        (unix2Utc (toU32 (unixTime + n + s.timezone * hourSecs))) := by
  obtain ⟨t, ht⟩ := Int.eq_ofNat_of_zero_le hlo
  have hrange : t + n < calendarEnd := by omega
  have hend : calendarEnd < 2 ^ 32 := by decide
  have hstart : toU32 (unixTime + s.timezone * hourSecs) = t := toU32_eq ht (by omega)
  have hstop : toU32 (unixTime + n + s.timezone * hourSecs) = t + n :=
    toU32_eq (by push_cast; omega) (by omega)
  obtain ⟨hupd, hlocal⟩ := localTimeUpdate_spec hinit unixTime
  rw [(timerUpdate_iterate hupd n).2, hlocal, hstart, hstop]
  obtain ⟨hclock, hdate⟩ := unix2Utc_calendarAt (show t < calendarEnd by omega)
  obtain ⟨hclock', hdate'⟩ := unix2Utc_calendarAt hrange
  choose dates hdates using exists_isDate
  have hzero : dateOf (unix2Utc t) = dates (t / 86400) := hdate.unique (hdates _)
  obtain ⟨hc, -, htr⟩ := secondsUpdate_iterate (fun k => dates ((t + k) / 86400)) hclock
    (fun k => hdates _) hzero n
  rw [hc.eq_iff hclock', hdate'.unique (hdates _), htr.eq_iff,
    sameMonth_iff hdate.1.month hdate'.1.month, hdate'.unique (hdates _), hzero]
  rfl

/-- A minute in the middle of January 2021, at Greenwich. -/
theorem local_clock_tracks_january :
    (timerUpdate^[60]
        (genieTimeLocalTimeUpdate { genieTimeInit with timezone := 0 } 1610668800).2).localTime =
      unix2Utc (toU32 (1610668800 + 60 + 0 * hourSecs)) := by
  refine (local_clock_tracks { genieTimeInit with timezone := 0 } 1610668800 60 rfl ?_ ?_).2 ?_
  · decide
  · decide
  · decide

/-- The first second of February 2021: the local clock says day 0. -/
theorem local_clock_month_end :
    ¬ ∀ (s : GenieTime) (unixTime n : ℕ), s.init = true →
      0 ≤ (unixTime : ℤ) + s.timezone * hourSecs →
      (unixTime : ℤ) + n + s.timezone * hourSecs < calendarEnd →
      (timerUpdate^[n] (genieTimeLocalTimeUpdate s unixTime).2).localTime =
        unix2Utc (toU32 (unixTime + n + s.timezone * hourSecs)) := by
  intro hall
  have h := hall { genieTimeInit with timezone := 0 } 1612137599 1 rfl (by decide) (by decide)
  revert h
  decide

end GenieSdk.Analysis
