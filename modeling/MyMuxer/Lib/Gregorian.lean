import Mathlib.Algebra.BigOperators.Group.Finset.Basic
import Mathlib.Tactic.IntervalCases
import Mathlib.Tactic.Linarith

/-!
# The Gregorian calendar

* `IsLeap`, `monthLength`, `Date`: the dates from the year 1 on; `Date.next`: the day after.
* `Date.dayNumber`: the days up to a date, counted year by year and month by month; `dayNumber_next`,
  `dayNumber_iterate`: it counts days.
* **`dayNumber_march`**: the count in closed form, over years that begin in March.
-/

namespace Gregorian

/-- Every fourth year is a leap year, of the full centuries only every fourth. -/
def IsLeap (y : ℕ) : Prop := 4 ∣ y ∧ (100 ∣ y → 400 ∣ y)

instance : DecidablePred IsLeap := fun y => inferInstanceAs (Decidable (4 ∣ y ∧ (100 ∣ y → 400 ∣ y)))

def monthLength (y m : ℕ) : ℕ :=
  if m = 2 then if IsLeap y then 29 else 28
  else if m = 4 ∨ m = 6 ∨ m = 9 ∨ m = 11 then 30
  else 31

/-- The days of a year before one of its months. -/
def daysBeforeMonth (y m : ℕ) : ℕ := ∑ i ∈ Finset.range (m - 1), monthLength y (i + 1)

def yearLength (y : ℕ) : ℕ := daysBeforeMonth y 13

/-- The days from the year 1 on before a year. -/
def daysBeforeYear (y : ℕ) : ℕ := ∑ i ∈ Finset.range (y - 1), yearLength (i + 1)

theorem monthLength_pos (y m : ℕ) : 1 ≤ monthLength y m := by
  unfold monthLength
  split_ifs <;> omega

/-- The leap day of a year, where it has one. -/
def leapDay (y : ℕ) : ℕ := if IsLeap y then 1 else 0

/-- Leap years are counted by division. -/
theorem leapDay_succ (n : ℕ) : leapDay (n + 1) + (n + 1) / 100 + n / 4 + n / 400 =
    (n + 1) / 4 + (n + 1) / 400 + n / 100 := by
  unfold leapDay
  by_cases h : IsLeap (n + 1)
  · rw [if_pos h]
    unfold IsLeap at h
    omega
  · rw [if_neg h]
    unfold IsLeap at h
    omega

/-- The months from March on are 153 days for every five of them. -/
theorem daysBeforeMonth_eq (y : ℕ) {m : ℕ} (hpos : 1 ≤ m) (hle : m ≤ 13) :
    daysBeforeMonth y m = if m ≤ 2 then 31 * (m - 1) else (153 * (m - 3) + 2) / 5 + 59 + leapDay y := by
  rw [daysBeforeMonth, leapDay]
  by_cases h : IsLeap y
  · interval_cases m <;> simp [Finset.sum_range_succ, monthLength, h]
  · interval_cases m <;> simp [Finset.sum_range_succ, monthLength, h]

theorem yearLength_eq (y : ℕ) : yearLength y = 365 + leapDay y := by
  rw [yearLength, daysBeforeMonth_eq y (by norm_num) (by norm_num)]
  rfl

theorem daysBeforeYear_eq (n : ℕ) : daysBeforeYear (n + 1) + n / 100 = 365 * n + n / 4 + n / 400 := by
  rw [daysBeforeYear, Nat.add_sub_cancel]
  induction n with
  | zero => rfl
  | succ n ih =>
    have hleap := leapDay_succ n
    rw [Finset.sum_range_succ, yearLength_eq]
    linarith only [ih, hleap]

/-! ## Dates -/

structure Date where
  year : ℕ
  month : ℕ
  day : ℕ
  year_pos : 1 ≤ year
  month_pos : 1 ≤ month
  month_le : month ≤ 12
  day_pos : 1 ≤ day
  day_le : day ≤ monthLength year month

namespace Date

/-- The number of a day: that of the first day of the year 1 is 1. -/
def dayNumber (d : Date) : ℕ := daysBeforeYear d.year + daysBeforeMonth d.year d.month + d.day

/-- The day after. -/
def next (d : Date) : Date :=
  if hday : d.day < monthLength d.year d.month then
    { d with day := d.day + 1, day_pos := Nat.le_add_left .., day_le := hday }
  else if hmonth : d.month < 12 then
    { year := d.year, month := d.month + 1, day := 1, year_pos := d.year_pos, month_pos := Nat.le_add_left ..,
      month_le := hmonth, day_pos := le_rfl, day_le := monthLength_pos _ _ }
  else
    { year := d.year + 1, month := 1, day := 1, year_pos := Nat.le_add_left .., month_pos := le_rfl,
      month_le := by norm_num, day_pos := le_rfl, day_le := monthLength_pos _ _ }

/-- **A day has the number after that of the day before.** -/
theorem dayNumber_next (d : Date) : d.next.dayNumber = d.dayNumber + 1 := by
  have hyear := d.year_pos
  have hpos := d.month_pos
  have hle := d.month_le
  have hday := d.day_le
  rw [next]
  split_ifs with h1 h2
  · rfl
  · have hmonth : daysBeforeMonth d.year (d.month + 1) =
        daysBeforeMonth d.year d.month + monthLength d.year d.month := by
      rw [daysBeforeMonth, daysBeforeMonth, Nat.add_sub_cancel]
      conv_lhs => rw [show d.month = d.month - 1 + 1 by omega, Finset.sum_range_succ]
      rw [show d.month - 1 + 1 = d.month by omega]
    simp only [dayNumber, hmonth]
    omega
  · have hlast : daysBeforeMonth d.year 13 = daysBeforeMonth d.year 12 + monthLength d.year 12 :=
      Finset.sum_range_succ _ _
    have hnext : daysBeforeYear (d.year + 1) = daysBeforeYear d.year + yearLength d.year := by
      rw [daysBeforeYear, daysBeforeYear, Nat.add_sub_cancel]
      conv_lhs => rw [show d.year = d.year - 1 + 1 by omega, Finset.sum_range_succ]
      rw [show d.year - 1 + 1 = d.year by omega]
    have hfirst : daysBeforeMonth (d.year + 1) 1 = 0 := rfl
    have h12 : d.month = 12 := by omega
    rw [h12] at h1 hday
    simp only [dayNumber, hnext, hfirst, h12, yearLength, hlast]
    omega

/-- The day after `n` days. -/
theorem dayNumber_iterate (d : Date) (n : ℕ) : (next^[n] d).dayNumber = d.dayNumber + n := by
  induction n with
  | zero => rfl
  | succ n ih => rw [Function.iterate_succ_apply', dayNumber_next, ih, Nat.add_assoc]

/-! ## Years that begin in March -/

def marchYear (d : Date) : ℕ := if d.month ≤ 2 then d.year - 1 else d.year

/-- The month, from March, which is 0. -/
def marchMonth (d : Date) : ℕ := if d.month ≤ 2 then d.month + 9 else d.month - 3

/-- **The number of a day in closed form.** The leap day is the last day of a year that begins in March. -/
theorem dayNumber_march (d : Date) : d.dayNumber + d.marchYear / 100 + 306 =
    365 * d.marchYear + d.marchYear / 4 + d.marchYear / 400 + (153 * d.marchMonth + 2) / 5 + d.day := by
  obtain ⟨n, hn⟩ : ∃ n, d.year = n + 1 := ⟨d.year - 1, by have := d.year_pos; omega⟩
  have hyears := daysBeforeYear_eq n
  have hmonths := daysBeforeMonth_eq (n + 1) d.month_pos (d.month_le.trans (by norm_num))
  have hpos := d.month_pos
  rw [dayNumber, marchYear, marchMonth, hn]
  split_ifs at hmonths ⊢ with hm
  · have hshift : (153 * (d.month + 9) + 2) / 5 = 31 * (d.month - 1) + 306 := by omega
    rw [hmonths, hshift, Nat.add_sub_cancel]
    linarith only [hyears]
  · have hleap := leapDay_succ n
    rw [hmonths]
    linarith only [hyears, hleap]

end Date

end Gregorian
