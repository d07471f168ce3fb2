import GenieSdk.Analysis.LocalClock

/-!
# From seconds to dates and back

`unix2UTC` and `UTC2unix` count leap years in different ways: the one looks at each year, the other
takes every fourth one. They agree until 2100 is over, which is no leap year but is counted as one
from 2101 on. `UTC2unix` does not mind a day past the end of its month.
-/

set_option autoImplicit false

namespace GenieSdk.Analysis

open GenieSdk.Lib
open GenieSdk.Model

/-- The leap years `UTC2unix` counts; 2100 is one too many. -/
theorem yearStart_eq {k : ℕ} (h : k < 230) :
    365 * k + (k + 1) / 4 = yearStart k + if 130 < k then 1 else 0 := by
  induction k with
  | zero => rfl
  | succ k ih =>
    have hk := ih (by omega)
    have hleap : isLeap (1970 + k) = true ↔ (k + 2) % 4 = 0 ∧ k ≠ 130 := by
      simp only [isLeap, decide_eq_true_eq]
      omega
    simp only [yearStart, yearDays, hleap, Nat.add_assoc, Nat.reduceAdd]
    split_ifs at hk ⊢ <;> omega

/-- A year starts after as many years of 365 days at least. -/
theorem yearStart_ge (k : ℕ) : 365 * k ≤ yearStart k := by
  induction k with
  | zero => exact Nat.zero_le _
  | succ k ih =>
    have hyear := yearDays_ge (1970 + k)
    unfold yearStart
    omega

/-- The time of day in seconds. -/
def timeOfDay (u : UtcTime) : ℕ := (u.hour * 60 + u.minutes) * 60 + u.seconds

/-- The time of day on the clock. -/
theorem ClockAt.timeOfDay {u : UtcTime} {t : ℕ} (h : ClockAt u t) :
    timeOfDay u = t % daySecs := by
  unfold Analysis.timeOfDay daySecs
  rw [h.seconds, h.minutes, h.hour]
  omega

/-- A time of a day of the month `u` lies in, which may be past the month's end. -/
theorem utc2Unix_date {u : UtcTime} {t day : ℕ} (h : CalendarAt u t) (ht : t < 2 ^ 32 + 2 ^ 16)
    (hday : u.day ≤ day) (hour minutes seconds : ℕ) :
    utc2Unix { u with hour := hour, minutes := minutes, seconds := seconds, day := day } =
      toU32 (((t / 86400 + (day - u.day) + if 2100 < u.year then 1 else 0) * daySecs +
        ((hour * 60 + minutes) * 60 + seconds) : ℕ)) := by
  obtain ⟨-, hvalid, hnum⟩ := h
  have hyear : 1970 ≤ u.year := hvalid.year
  have hpos : 1 ≤ u.day := hvalid.day_pos
  have hmonth : u.month < 12 := hvalid.month
  simp only [Date.number, dateOf] at hnum
  have hge := yearStart_ge (u.year - 1970)
  have hstart := yearStart_eq (show u.year - 1970 < 230 by omega)
  have hmon := daysBeforeMonth_eq (isLeapYear u.year) hmonth.le
  rw [isLeapYear_eq] at hmon
  unfold utc2Unix
  simp only [isLeapYear_eq, hmon]
  congr 1
  unfold daySecs
  split_ifs at hstart ⊢ <;> push_cast <;> omega

/-- 1 January 2101 -/
def year2101 : ℕ := 4133980800

/-- The year 2101 starts there. -/
theorem yearStart_2101 : yearStart 131 * 86400 = year2101 := by decide +kernel

/-- Until 2101 the year is at most 2100. -/
theorem CalendarAt.year_le {u : UtcTime} {t : ℕ} (h : CalendarAt u t) (ht : t < year2101) :
    u.year ≤ 2100 := by
  obtain ⟨-, -, hnum⟩ := h
  by_contra hlate
  have hle : yearStart 131 ≤ yearStart (u.year - 1970) := by
    rcases Nat.lt_or_ge 131 (u.year - 1970) with hlt | hge
    · exact (Nat.le_add_right _ _).trans (yearStart_mono hlt)
    · rw [show u.year - 1970 = 131 by omega]
  have hstart := yearStart_2101
  simp only [Date.number, dateOf] at hnum
  unfold year2101 at ht hstart
  omega

/-- A later day of the month, past its end or not. -/
theorem CalendarAt.utc2Unix_add {u : UtcTime} {t d : ℕ} (h : CalendarAt u t) (ht : t < year2101)
    (hd : d ≤ 6) : utc2Unix { u with day := u.day + d } = t + d * daySecs := by
  have hyear := h.year_le ht
  have htime : (u.hour * 60 + u.minutes) * 60 + u.seconds = t % daySecs := h.1.timeOfDay
  have hsplit := Nat.div_add_mod' t daySecs
  unfold year2101 at ht
  have hdate := utc2Unix_date h (by omega) (Nat.le_add_right u.day d) u.hour u.minutes u.seconds
  refine hdate.trans ?_
  rw [if_neg (by omega), Nat.add_zero, Nat.add_sub_cancel_left, htime]
  unfold daySecs at *
  exact toU32_eq (by omega) (by omega)

/-- The calendar time of a second is converted back to it. -/
theorem CalendarAt.utc2Unix_eq {u : UtcTime} {t : ℕ} (h : CalendarAt u t) (ht : t < year2101) :
    utc2Unix u = t := by
  have hback := h.utc2Unix_add ht (Nat.zero_le 6)
  rwa [Nat.zero_mul, Nat.add_zero, Nat.add_zero] at hback

/-- **Calendar conversion.** Until 2101 the date, the time and the weekday of a second are the right
ones, converting them back gives the second, and so it does with up to six more days. -/
theorem calendar_round_trip (t : ℕ) (ht : t < year2101) :
    CalendarAt (unix2Utc t) t ∧ utc2Unix (unix2Utc t) = t ∧
      ∀ d ≤ 6, utc2Unix { unix2Utc t with day := (unix2Utc t).day + d } =
        utc2Unix (unix2Utc t) + d * daySecs := by
  have hcal := unix2Utc_calendarAt (ht.trans (show year2101 < calendarEnd by decide))
  refine ⟨hcal, hcal.utc2Unix_eq ht, fun d hd => ?_⟩
  rw [hcal.utc2Unix_eq ht]
  exact hcal.utc2Unix_add ht hd

/-- Friday, 31 December 2100, 23:59:59. -/
theorem calendar_round_trip_2100 :
    unix2Utc 4133980799 = ⟨2100, 11, 31, 59, 59, 23, 5⟩ ∧ utc2Unix (unix2Utc 4133980799) = 4133980799 ∧
      utc2Unix ⟨2100, 11, 37, 59, 59, 23, 5⟩ = 4133980799 + 6 * daySecs := by
  have hdate : unix2Utc 4133980799 = ⟨2100, 11, 31, 59, 59, 23, 5⟩ := by decide +kernel
  obtain ⟨-, hback, hadd⟩ := calendar_round_trip 4133980799 (by decide)
  have hsix := hadd 6 le_rfl
  rw [hback, hdate] at hsix
  exact ⟨hdate, hback, hsix⟩

end GenieSdk.Analysis
