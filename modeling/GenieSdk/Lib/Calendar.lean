import Mathlib.Tactic

/-!
# The Gregorian calendar

Dates since 1 January 1970 and the number of days they are away from it. Months count from 0 and
days from 1. `IsDate j d` says that `d` is the date of day number `j`; a day number has at most
one date, and the date of the next day is `Date.next`.
-/

set_option autoImplicit false

namespace GenieSdk.Lib

def isLeap (year : ℕ) : Bool := year % 4 = 0 ∧ (year % 100 ≠ 0 ∨ year % 400 = 0)

def yearDays (year : ℕ) : ℕ := if isLeap year then 366 else 365

/-- The length of a month. -/
def monthDays (leap : Bool) : ℕ → ℕ
  | 1 => if leap then 29 else 28
  | 3 => 30
  | 5 => 30
  | 8 => 30
  | 10 => 30
  | _ => 31

/-- The days of a year before a month. -/
def monthStart (leap : Bool) : ℕ → ℕ
  | 0 => 0
  | m + 1 => monthStart leap m + monthDays leap m

/-- The days before the `k`-th year after 1970. -/
def yearStart : ℕ → ℕ
  | 0 => 0
  | k + 1 => yearStart k + yearDays (1970 + k)

structure Date where
  year : ℕ
  month : ℕ
  day : ℕ
  deriving DecidableEq, Repr

/-- The day number of a date. -/
def Date.number (d : Date) : ℕ :=
  yearStart (d.year - 1970) + monthStart (isLeap d.year) d.month + (d.day - 1)

/-- A date of the calendar. -/
structure Date.Valid (d : Date) : Prop where
  year : 1970 ≤ d.year
  month : d.month < 12
  day_pos : 1 ≤ d.day
  day_le : d.day ≤ monthDays (isLeap d.year) d.month

/-- The date of day number `j`. -/
def IsDate (j : ℕ) (d : Date) : Prop := d.Valid ∧ d.number = j

/-- Months in order, over all years. -/
def Date.monthIndex (d : Date) : ℕ := 12 * d.year + d.month

/-- Dates in order; the day need not be one of the month. -/
def Date.Before (a b : Date) : Prop :=
  a.monthIndex < b.monthIndex ∨ (a.monthIndex = b.monthIndex ∧ a.day < b.day)

/-- The date after `d`. -/
def Date.next (d : Date) : Date :=
  if d.day < monthDays (isLeap d.year) d.month then { d with day := d.day + 1 }
  else if d.month + 1 < 12 then { d with month := d.month + 1, day := 1 }
  else { year := d.year + 1, month := 0, day := 1 }

/-- A year has at least 365 days. -/
theorem yearDays_ge (year : ℕ) : 365 ≤ yearDays year := by
  unfold yearDays
  split <;> omega

/-- A month has days. -/
theorem monthDays_pos (leap : Bool) (m : ℕ) : 0 < monthDays leap m := by
  unfold monthDays
  split
  · split <;> omega
  all_goals omega

/-- And at most 31. -/
theorem monthDays_le (leap : Bool) (m : ℕ) : monthDays leap m ≤ 31 := by
  unfold monthDays
  split
  · split <;> omega
  all_goals omega

/-- The months of a year make up the year. -/
theorem monthStart_twelve (year : ℕ) : monthStart (isLeap year) 12 = yearDays year := by
  unfold yearDays
  cases isLeap year <;> rfl

/-- A month is over before a later one starts. -/
theorem monthStart_mono (leap : Bool) {m m' : ℕ} (h : m < m') :
    monthStart leap m + monthDays leap m ≤ monthStart leap m' := by
  induction m' with
  | zero => omega
  | succ k ih =>
    rcases Nat.lt_succ_iff_lt_or_eq.1 h with hlt | rfl
    · exact (ih hlt).trans (Nat.le_add_right _ _)
    · exact le_rfl

/-- So is a year. -/
theorem yearStart_mono {k k' : ℕ} (h : k < k') :
    yearStart k + yearDays (1970 + k) ≤ yearStart k' := by
  induction k' with
  | zero => omega
  | succ j ih =>
    rcases Nat.lt_succ_iff_lt_or_eq.1 h with hlt | rfl
    · exact (ih hlt).trans (Nat.le_add_right _ _)
    · exact le_rfl

/-- A date lies within its month and its year. -/
theorem Date.Valid.number_lt {d : Date} (h : d.Valid) :
    monthStart (isLeap d.year) d.month + (d.day - 1) < monthStart (isLeap d.year) (d.month + 1) ∧
      monthStart (isLeap d.year) (d.month + 1) ≤ yearDays d.year := by
  have hpos := h.day_pos
  have hle := h.day_le
  refine ⟨?_, ?_⟩
  · rw [monthStart]
    omega
  · rw [← monthStart_twelve]
    have hm := h.month
    rcases Nat.lt_or_ge (d.month + 1) 12 with hlt | hge
    · exact (Nat.le_add_right _ _).trans (monthStart_mono _ hlt)
    · rw [show d.month + 1 = 12 by omega]

/-- Later dates have greater day numbers. -/
theorem Date.Valid.number_lt_of_before {a b : Date} (ha : a.Valid) (hb : b.Valid)
    (h : a.Before b) : a.number < b.number := by
  have hma := ha.month
  have hmb := hb.month
  have hya := ha.year
  have hyb := hb.year
  have hda := ha.day_pos
  obtain ⟨hlt, hle⟩ := ha.number_lt
  unfold Date.Before Date.monthIndex at h
  unfold Date.number
  rcases Nat.lt_trichotomy a.year b.year with hyear | hyear | hyear
  · have hmono : yearStart (a.year - 1970) + yearDays (1970 + (a.year - 1970)) ≤
        yearStart (b.year - 1970) := yearStart_mono (by omega)
    rw [show 1970 + (a.year - 1970) = a.year by omega] at hmono
    omega
  · rw [← hyear]
    rcases Nat.lt_trichotomy a.month b.month with hmonth | hmonth | hmonth
    · have hmono := monthStart_mono (isLeap a.year) hmonth
      rw [monthStart] at hlt
      omega
    · rw [← hmonth]
      omega
    · omega
  · omega

/-- Two dates that are not in order are one. -/
theorem Date.before_or_eq {a b : Date} (ha : a.month < 12) (hb : b.month < 12) :
    a.Before b ∨ b.Before a ∨ a = b := by
  unfold Date.Before Date.monthIndex
  by_cases hyear : a.year = b.year
  · by_cases hmonth : a.month = b.month
    · by_cases hday : a.day = b.day
      · right
        right
        cases a
        cases b
        simp_all
      · omega
    · omega
  · omega

/-- **A day has one date.** -/
theorem IsDate.unique {j : ℕ} {a b : Date} (ha : IsDate j a) (hb : IsDate j b) : a = b := by
  rcases Date.before_or_eq ha.1.month hb.1.month with h | h | h
  · have := ha.1.number_lt_of_before hb.1 h
    rw [ha.2, hb.2] at this
    omega
  · have := hb.1.number_lt_of_before ha.1 h
    rw [ha.2, hb.2] at this
    omega
  · exact h

/-- The days before the year after `year`. -/
theorem yearStart_next {year : ℕ} (h : 1970 ≤ year) :
    yearStart (year + 1 - 1970) = yearStart (year - 1970) + yearDays year := by
  rw [show year + 1 - 1970 = year - 1970 + 1 by omega, yearStart,
    show 1970 + (year - 1970) = year by omega]

/-- **The date of the next day.** -/
theorem IsDate.next {j : ℕ} {d : Date} (h : IsDate j d) : IsDate (j + 1) d.next := by
  obtain ⟨hv, hnum⟩ := h
  have hpos := hv.day_pos
  have hle := hv.day_le
  have hm := hv.month
  have hy := hv.year
  unfold Date.number at hnum
  unfold Date.next
  split
  · next hlt =>
    refine ⟨⟨hy, hm, by dsimp only; omega, by dsimp only; omega⟩, ?_⟩
    simp only [Date.number]
    omega
  · next hge =>
    have hstart : monthStart (isLeap d.year) (d.month + 1) =
        monthStart (isLeap d.year) d.month + monthDays (isLeap d.year) d.month := rfl
    split
    · next hnext =>
      refine ⟨⟨hy, hnext, le_rfl, monthDays_pos _ _⟩, ?_⟩
      simp only [Date.number]
      omega
    · next hlast =>
      refine ⟨⟨by dsimp only; omega, Nat.zero_lt_succ 11, le_rfl, monthDays_pos _ _⟩, ?_⟩
      simp only [Date.number, monthStart]
      rw [yearStart_next hy, ← monthStart_twelve, show 12 = d.month + 1 by omega]
      omega

/-- Every day has a date. -/
theorem exists_isDate (j : ℕ) : ∃ d, IsDate j d := by
  induction j with
  | zero =>
    refine ⟨{ year := 1970, month := 0, day := 1 }, ⟨?_, ?_, ?_, ?_⟩, rfl⟩ <;> decide
  | succ j ih =>
    obtain ⟨d, hd⟩ := ih
    exact ⟨d.next, hd.next⟩

/-- Time does not go back to an earlier month. -/
theorem Date.monthIndex_next {d : Date} (h : d.month < 12) :
    d.monthIndex ≤ d.next.monthIndex := by
  unfold Date.next Date.monthIndex
  split
  · exact le_rfl
  · split <;> dsimp only <;> omega

end GenieSdk.Lib
