import Mathlib.Algebra.Order.BigOperators.Group.Finset
import Mathlib.Algebra.Order.Group.Int
import Mathlib.Data.Int.ConditionallyCompleteOrder
import Mathlib.Order.SuccPred.IntervalSucc
import Mathlib.Tactic.Ring

/-!
# The Gregorian calendar

The proleptic calendar, over all integers as years. A date is counted in days from 1970-01-01, a date with a time in
milliseconds from the beginning of that day.
-/

namespace Calendar

def IsLeap (y : ℤ) : Prop := y % 4 = 0 ∧ (y % 100 ≠ 0 ∨ y % 400 = 0)

instance (y : ℤ) : Decidable (IsLeap y) := inferInstanceAs (Decidable (_ ∧ _))

def yearDays (y : ℤ) : ℤ := if IsLeap y then 366 else 365

def monthDays (y : ℤ) (m : ℕ) : ℤ :=
  if m = 2 then if IsLeap y then 29 else 28
  else if m = 4 ∨ m = 6 ∨ m = 9 ∨ m = 11 then 30
  else 31

/-- The first day of a year. There are 719162 days in the first 1969 years. -/
def yearStart (y : ℤ) : ℤ := 365 * (y - 1) + (y - 1) / 4 - (y - 1) / 100 + (y - 1) / 400 - 719162

/-- The days of the months before. -/
def monthStart (y : ℤ) (m : ℕ) : ℤ := ∑ k ∈ Finset.range (m - 1), monthDays y (k + 1)

variable {y y' : ℤ} {m m' : ℕ}

theorem yearStart_succ (y : ℤ) : yearStart (y + 1) = yearStart y + yearDays y := by
  have hfour : y / 4 = (y - 1) / 4 + if y % 4 = 0 then 1 else 0 := by split <;> omega
  have hcentury : y / 100 = (y - 1) / 100 + if y % 100 = 0 then 1 else 0 := by split <;> omega
  have hcycle : y / 400 = (y - 1) / 400 + if y % 400 = 0 then 1 else 0 := by split <;> omega
  have hsub : y % 400 = 0 → y % 100 = 0 := by omega
  have hsub' : y % 100 = 0 → y % 4 = 0 := by omega
  rw [yearStart, yearStart, add_sub_cancel_right, hfour, hcentury, hcycle, yearDays]
  generalize (y - 1) / 4 = a, (y - 1) / 100 = b, (y - 1) / 400 = c
  by_cases h4 : y % 4 = 0
  · by_cases h100 : y % 100 = 0
    · by_cases h400 : y % 400 = 0
      · rw [if_pos h4, if_pos h100, if_pos h400, if_pos ⟨h4, Or.inr h400⟩]
        ring
      · rw [if_pos h4, if_pos h100, if_neg h400, if_neg fun hleap => hleap.2.elim (absurd h100) h400]
        ring
    · rw [if_pos h4, if_neg h100, if_neg (mt hsub h100), if_pos ⟨h4, Or.inl h100⟩]
      ring
  · rw [if_neg h4, if_neg (mt hsub' h4), if_neg fun h400 => h4 (hsub' (hsub h400)), if_neg fun hleap => h4 hleap.1]
    ring

theorem yearDays_pos (y : ℤ) : 0 < yearDays y := by
  rw [yearDays]
  split <;> decide

theorem monthDays_pos (y : ℤ) (m : ℕ) : 0 < monthDays y m := by
  rw [monthDays]
  split_ifs <;> decide

theorem yearStart_mono : Monotone yearStart := monotone_int_of_le_succ fun y => by
  have hpos := yearDays_pos y
  rw [yearStart_succ]
  omega

theorem monthStart_succ (hm : 1 ≤ m) (y : ℤ) : monthStart y (m + 1) = monthStart y m + monthDays y m := by
  obtain ⟨m, rfl⟩ := Nat.exists_eq_add_of_le' hm
  exact Finset.sum_range_succ _ m

theorem monthStart_mono (y : ℤ) : Monotone (monthStart y) := fun _ _ hle =>
  Finset.sum_le_sum_of_subset_of_nonneg (Finset.range_mono (Nat.sub_le_sub_right hle 1)) fun k _ _ => (monthDays_pos y (k + 1)).le

theorem monthStart_end (y : ℤ) : monthStart y 13 = yearDays y := by
  by_cases hleap : IsLeap y <;> simp [monthStart, Finset.sum_range_succ, monthDays, yearDays, hleap]

/-! ### Dates -/

structure Date where
  year : ℤ
  month : ℕ
  day : ℕ
  one_le_month : 1 ≤ month
  month_le : month ≤ 12
  one_le_day : 1 ≤ day
  day_le : day ≤ monthDays year month

/-- The day, from the first day of the year on. -/
def Date.dayOfYear (d : Date) : ℤ := monthStart d.year d.month + (d.day - 1)

/-- The distance from 1970-01-01. -/
def Date.days (d : Date) : ℤ := yearStart d.year + d.dayOfYear

structure DateTime extends Date where
  hour : ℕ
  minute : ℕ
  second : ℕ
  milli : ℕ
  hour_lt : hour < 24
  minute_lt : minute < 60
  second_lt : second < 60
  milli_lt : milli < 1000

/-- The distance from 1970-01-01 00:00:00.000. -/
def DateTime.millis (c : DateTime) : ℤ := (((c.days * 24 + c.hour) * 60 + c.minute) * 60 + c.second) * 1000 + c.milli

/-- A number is in one part only, when the parts follow each other. -/
theorem part_unique {ι : Type*} [LinearOrder ι] {start len : ι → ℤ} (hmono : ∀ i j, i < j → start i + len i ≤ start j)
    {i j : ι} {a b : ℤ}
    (ha : 0 ≤ a ∧ a < len i) (hb : 0 ≤ b ∧ b < len j) (heq : start i + a = start j + b) : i = j ∧ a = b := by
  rcases lt_trichotomy i j with hlt | rfl | hlt
  · have hle := hmono i j hlt
    omega
  · exact ⟨rfl, by omega⟩
  · have hle := hmono j i hlt
    omega

theorem yearStart_parts (y y' : ℤ) (h : y < y') : yearStart y + yearDays y ≤ yearStart y' := by
  rw [← yearStart_succ]
  exact yearStart_mono h

theorem monthStart_parts (hm : 1 ≤ m) (h : m < m') (y : ℤ) : monthStart y m + monthDays y m ≤ monthStart y m' := by
  rw [← monthStart_succ hm]
  exact monthStart_mono y h

theorem Date.dayOfYear_range (d : Date) : 0 ≤ d.dayOfYear ∧ d.dayOfYear < yearDays d.year := by
  have hfirst : 0 ≤ monthStart d.year d.month := Finset.sum_nonneg fun k _ => (monthDays_pos d.year (k + 1)).le
  have hlast := monthStart_parts d.one_le_month (Nat.lt_succ_of_le d.month_le) d.year
  rw [monthStart_end] at hlast
  have hday := d.day_le
  have hday' := d.one_le_day
  rw [dayOfYear]
  omega

theorem Date.days_injective : Function.Injective Date.days := by
  intro d d' heq
  obtain ⟨hyear, hday⟩ := part_unique yearStart_parts d.dayOfYear_range d'.dayOfYear_range heq
  obtain ⟨y, m, n, hm, hm', hn, hn'⟩ := d
  obtain ⟨y', m', n', hk, hk', hl, hl'⟩ := d'
  obtain rfl : y = y' := hyear
  obtain ⟨m, rfl⟩ := Nat.exists_eq_add_of_le' hm
  obtain ⟨m', rfl⟩ := Nat.exists_eq_add_of_le' hk
  have hparts : ∀ i j, i < j → monthStart y (i + 1) + monthDays y (i + 1) ≤ monthStart y (j + 1) := fun i j hlt =>
    monthStart_parts (Nat.succ_pos i) (Nat.succ_lt_succ hlt) y
  obtain ⟨rfl, hsame⟩ : m = m' ∧ (n : ℤ) - 1 = n' - 1 := part_unique hparts (by omega) (by omega) hday
  obtain rfl : n = n' := by omega
  rfl

theorem DateTime.millis_injective : Function.Injective DateTime.millis := by
  intro c c' heq
  obtain ⟨d, hour, minute, second, milli, hh, hm, hs, hl⟩ := c
  obtain ⟨d', hour', minute', second', milli', hh', hm', hs', hl'⟩ := c'
  rw [millis, millis] at heq
  dsimp only at heq
  obtain rfl : d = d' := Date.days_injective (by omega)
  obtain ⟨rfl, rfl, rfl, rfl⟩ : hour = hour' ∧ minute = minute' ∧ second = second' ∧ milli = milli' := by omega
  rfl

/-- When a year begins. -/
def yearMillis (y : ℤ) : ℤ := yearStart y * 86400000

end Calendar
