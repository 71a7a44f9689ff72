import Mathlib.Tactic.IntervalCases
import Funra.Lib.Calendar
import Funra.Rstring.Cat

/-!
# From milliseconds to a date

`rtime_from_time_millis_security` takes years and months off a number of days, as long as they fit. The days are an `int`,
and the year a leap year is looked up for has 16 bits.
-/

namespace Funra

open Mem CInt Except

/-- The parameter is an `unsigned short`. -/
def rlibIsLeapYear (year : Nat) : Nat :=
  let year := year % 65536
  if year % 400 = 0 then 1
  else if year % 100 = 0 then 0
  else if year % 4 = 0 then 1
  else 0

def gDayPerMon : List Nat := [31, 28, 31, 30, 31, 30, 31, 31, 30, 31, 30, 31]

def rlibLastDayOfMon (month year : Nat) : Nat :=
  if month = 0 ∨ 12 < month then gDayPerMon.getD 1 0 + rlibIsLeapYear year
  else if month ≠ 2 then gDayPerMon.getD (month - 1) 0
  else gDayPerMon.getD 1 0 + rlibIsLeapYear year

def yearRound (s : Nat × Int) : Except Fault ((Nat × Int) ⊕ (Nat × Int)) :=
  if 0 < s.2 then
    let dayTemp := 365 + rlibIsLeapYear s.1
    if dayTemp ≤ s.2 then .ok (.inl (s.1 + 1, s.2 - dayTemp)) else .ok (.inr s)
  else .ok (.inr s)

def monthRound (year : Nat) (s : Nat × Int) : Except Fault ((Nat × Int) ⊕ (Nat × Int)) :=
  if s.1 < 12 then
    let dayTemp := rlibLastDayOfMon s.1 year
    if dayTemp ≤ s.2 then .ok (.inl (s.1 + 1, s.2 - dayTemp)) else .ok (.inr s)
  else .ok (.inr s)

/-- The year and the month that so many days after 1970-01-01 fall in, and the days of the month before. -/
def rtimeDate (fuel : Nat) (days : Int) : Except Fault (Nat × Nat × Int) := do
  let (year, days) ← loop .outOfFuel yearRound fuel (1970, days)
  let (month, days) ← loop .outOfFuel (monthRound year) fuel (1, days)
  return (year, month, days)

/-- `timeZone` is `rtime_zone_int`. -/
def rtimeFromTimeMillisSecurity (timeZone : Int) (fuel : Nat) (timeMillis : Int) : Except Fault TimeDatas := do
  let mills := timeMillis.tmod 1000
  let timeMillis := timeMillis.tdiv 1000
  let (year, month, days) ← rtimeDate fuel (int32 (timeMillis.tdiv 86400))
  let secs := timeMillis.tmod 86400
  let hour := (secs.tdiv 3600 + timeZone).tmod 24
  let secs := secs.tmod 3600
  return ⟨year, month, days + 1, hour, secs.tdiv 60, secs.tmod 60, mills⟩

variable {year month : Nat} {days : Int}

/-! ### The loops -/

/-- The days of the years before, as the code counts them. -/
def yearsBefore (year : Nat) : Int := ∑ k ∈ Finset.range (year - 1970), ((365 + rlibIsLeapYear (1970 + k) : Nat) : Int)

def monthsBefore (year month : Nat) : Int := ∑ k ∈ Finset.range (month - 1), (rlibLastDayOfMon (k + 1) year : Int)

theorem yearsBefore_first : yearsBefore 1970 = 0 := rfl

theorem monthsBefore_first (year : Nat) : monthsBefore year 1 = 0 := rfl

theorem yearsBefore_succ (h : 1970 ≤ year) : yearsBefore (year + 1) = yearsBefore year + (365 + rlibIsLeapYear year : Nat) := by
  obtain ⟨k, rfl⟩ := Nat.exists_eq_add_of_le h
  rw [yearsBefore, show 1970 + k + 1 - 1970 = k + 1 by omega, Finset.sum_range_succ, yearsBefore, Nat.add_sub_cancel_left]

theorem monthsBefore_succ (h : 1 ≤ month) (year : Nat) :
    monthsBefore year (month + 1) = monthsBefore year month + rlibLastDayOfMon month year := by
  obtain ⟨k, rfl⟩ := Nat.exists_eq_add_of_le' h
  exact Finset.sum_range_succ _ k

/-- The years and the months, with the days that are left, are all the days; what is left is less than another year, and
before December less than another month. -/
structure FallsIn (days : Int) (year month : Nat) (left : Int) : Prop where
  first_year : 1970 ≤ year
  first_month : 1 ≤ month
  last_month : month ≤ 12
  sum : yearsBefore year + (monthsBefore year month + left) = days
  nonneg : 0 ≤ days → 0 ≤ left
  lt_year : monthsBefore year month + left < (365 + rlibIsLeapYear year : Nat)
  lt_month : month < 12 → left < rlibLastDayOfMon month year

theorem yearLoop_halts (days : Int) : Halts (fun fuel => loop .outOfFuel yearRound fuel (1970, days)) fun s =>
    1970 ≤ s.1 ∧ yearsBefore s.1 + s.2 = days ∧ (0 ≤ days → 0 ≤ s.2) ∧ s.2 < (365 + rlibIsLeapYear s.1 : Nat) := by
  refine Halts.loop (I := fun s => 1970 ≤ s.1 ∧ yearsBefore s.1 + s.2 = days ∧ (0 ≤ days → 0 ≤ s.2)) (μ := fun s => s.2.toNat) ?_
    ⟨le_rfl, by rw [yearsBefore_first, zero_add], id⟩
  rintro ⟨year, left⟩ ⟨hyear, hsum, hpos⟩
  rw [yearRound]
  dsimp only at hyear hsum hpos ⊢
  split
  next hleft =>
    split
    next hfits =>
      refine Succeeds.ok ⟨⟨by omega, ?_, fun _ => by omega⟩, by dsimp only; omega⟩
      rw [yearsBefore_succ hyear]
      omega
    next hless => exact Succeeds.ok ⟨hyear, hsum, hpos, not_le.mp hless⟩
  next hnone => exact Succeeds.ok ⟨hyear, hsum, hpos, by omega⟩

theorem monthLoop_halts (year : Nat) (days : Int) : Halts (fun fuel => loop .outOfFuel (monthRound year) fuel (1, days)) fun s =>
    1 ≤ s.1 ∧ s.1 ≤ 12 ∧ monthsBefore year s.1 + s.2 = days ∧ (0 ≤ days → 0 ≤ s.2) ∧ (s.1 < 12 → s.2 < rlibLastDayOfMon s.1 year) := by
  refine Halts.loop (I := fun s => 1 ≤ s.1 ∧ s.1 ≤ 12 ∧ monthsBefore year s.1 + s.2 = days ∧ (0 ≤ days → 0 ≤ s.2))
    (μ := fun s => 12 - s.1) ?_ ⟨le_rfl, Nat.le_add_left 1 11, by rw [monthsBefore_first, zero_add], id⟩
  rintro ⟨month, left⟩ ⟨hone, hmonth, hsum, hpos⟩
  rw [monthRound]
  dsimp only at hone hmonth hsum hpos ⊢
  split
  next hlt =>
    split
    next hfits =>
      refine Succeeds.ok ⟨⟨by omega, by dsimp only; omega, ?_, fun _ => by omega⟩, by dsimp only; omega⟩
      rw [monthsBefore_succ hone]
      omega
    next hless => exact Succeeds.ok ⟨hone, hmonth, hsum, hpos, fun _ => not_le.mp hless⟩
  next hend => exact Succeeds.ok ⟨hone, hmonth, hsum, hpos, fun hlt => absurd hlt hend⟩

theorem rtimeDate_halts (days : Int) :
    ∃ year month left, Halts (fun fuel => rtimeDate fuel days) (· = (year, month, left)) ∧ FallsIn days year month left := by
  suffices h : Halts (fun fuel => rtimeDate fuel days) fun (year, month, left) => FallsIn days year month left by
    obtain ⟨⟨year, month, left⟩, hrun, hfalls⟩ := h
    exact ⟨year, month, left, ⟨_, hrun, rfl⟩, hfalls⟩
  refine Halts.bind (yearLoop_halts days) ?_
  rintro ⟨year, left⟩ ⟨hyear, hsum, hpos, hlt⟩
  refine Halts.bind (monthLoop_halts year left) ?_
  rintro ⟨month, left'⟩ ⟨hone, hmonth, hsum', hpos', hlt'⟩
  dsimp only at *
  rw [← hsum'] at hsum hlt
  exact Halts.ok ⟨hyear, hone, hmonth, hsum, fun h => hpos' (hpos h), hlt, hlt'⟩

/-! ### The calendar -/

theorem isLeapYear_eq (h : year ≤ 65535) : (rlibIsLeapYear year : Int) = if Calendar.IsLeap year then 1 else 0 := by
  have hmod : year % 65536 = year := Nat.mod_eq_of_lt (by omega)
  rw [rlibIsLeapYear, hmod]
  by_cases hleap : Calendar.IsLeap year
  · rw [if_pos hleap]
    rw [Calendar.IsLeap] at hleap
    split_ifs <;> omega
  · rw [if_neg hleap]
    rw [Calendar.IsLeap] at hleap
    split_ifs <;> omega

theorem yearDays_eq (h : year ≤ 65535) : ((365 + rlibIsLeapYear year : Nat) : Int) = Calendar.yearDays year := by
  rw [Nat.cast_add, isLeapYear_eq h, Calendar.yearDays]
  split <;> rfl

theorem lastDay_eq (hone : 1 ≤ month) (hmonth : month ≤ 12) (hyear : year ≤ 65535) :
    (rlibLastDayOfMon month year : Int) = Calendar.monthDays year month := by
  have hleap := isLeapYear_eq hyear
  rw [rlibLastDayOfMon, if_neg (by omega), Calendar.monthDays]
  by_cases htwo : month = 2
  · rw [if_neg (not_not.mpr htwo), if_pos htwo, Nat.cast_add, hleap]
    split <;> rfl
  · rw [if_pos htwo, if_neg htwo]
    interval_cases month <;> first | rfl | exact absurd rfl htwo

theorem yearsBefore_eq (hfirst : 1970 ≤ year) (hyear : year ≤ 65536) : yearsBefore year = Calendar.yearStart year := by
  induction year, hfirst using Nat.le_induction with
  | base => rfl
  | succ year hfirst ih =>
    rw [yearsBefore_succ hfirst, ih (by omega), yearDays_eq (by omega), Nat.cast_succ, Calendar.yearStart_succ]

theorem monthsBefore_eq (hone : 1 ≤ month) (hmonth : month ≤ 13) (hyear : year ≤ 65535) :
    monthsBefore year month = Calendar.monthStart year month := by
  induction month, hone using Nat.le_induction with
  | base => rfl
  | succ month hone ih =>
    rw [monthsBefore_succ hone, ih (by omega), lastDay_eq hone (by omega) hyear, Calendar.monthStart_succ hone]

/-- The first 16-bit years. -/
theorem FallsIn.year_le {left : Int} (h : FallsIn days year month left) (hpos : 0 ≤ days)
    (hdays : days < Calendar.yearStart 65536) :
    year ≤ 65535 := by
  by_contra hlarge
  have hsum := h.sum
  have hleft := h.nonneg hpos
  have hmono : yearsBefore 65536 ≤ yearsBefore year :=
    Finset.sum_le_sum_of_subset_of_nonneg (Finset.range_mono (by omega)) fun k _ _ => Int.natCast_nonneg _
  have hmonths : 0 ≤ monthsBefore year month := Finset.sum_nonneg fun k _ => Int.natCast_nonneg _
  rw [yearsBefore_eq (by omega) (Nat.le_refl _), Nat.cast_ofNat] at hmono
  exact absurd hdays (by omega)

/-- The date, in the calendar. -/
theorem FallsIn.date {left : Int} (h : FallsIn days year month left) (hpos : 0 ≤ days) (hdays : days < Calendar.yearStart 65536) :
    ∃ d : Calendar.Date, d.year = year ∧ d.month = month ∧ (d.day : Int) = left + 1 ∧ d.days = days := by
  have hyear := h.year_le hpos hdays
  have hleft := h.nonneg hpos
  have hsum := h.sum
  have hlt := h.lt_year
  rw [yearsBefore_eq h.first_year (by omega), monthsBefore_eq h.first_month (by have := h.last_month; omega) hyear] at hsum
  rw [monthsBefore_eq h.first_month (by have := h.last_month; omega) hyear, yearDays_eq hyear] at hlt
  have hday : left < Calendar.monthDays year month := by
    rcases Nat.lt_or_ge month 12 with hlt' | hge
    · rw [← lastDay_eq h.first_month h.last_month hyear]
      exact h.lt_month hlt'
    · obtain rfl : month = 12 := Nat.le_antisymm h.last_month hge
      have hend : Calendar.monthStart year 13 = Calendar.monthStart year 12 + Calendar.monthDays year 12 :=
        Calendar.monthStart_succ (by decide) year
      rw [← Calendar.monthStart_end] at hlt
      omega
  refine ⟨⟨year, month, left.toNat + 1, h.first_month, h.last_month, Nat.succ_pos _, by omega⟩, rfl, rfl, by dsimp only; omega, ?_⟩
  refine Eq.trans ?_ hsum
  rw [Calendar.Date.days, Calendar.Date.dayOfYear]
  dsimp only
  omega

/-- The seven fields. -/
def datas (c : Calendar.DateTime) : TimeDatas := ⟨c.year, c.month, c.day, c.hour, c.minute, c.second, c.milli⟩

/-- From a number of milliseconds that is not negative. -/
theorem rtime_of_date {timeMillis left : Int} (hpos : 0 ≤ timeMillis)
    (hdate : Halts (fun fuel => rtimeDate fuel (int32 (timeMillis / 86400000))) (· = (year, month, left))) (timeZone : Int) :
    Halts (fun fuel => rtimeFromTimeMillisSecurity timeZone fuel timeMillis) (· =
      ⟨year, month, left + 1, (timeMillis / 3600000 % 24 + timeZone).tmod 24, timeMillis / 60000 % 60, timeMillis / 1000 % 60,
        timeMillis % 1000⟩) := by
  have hdiv : ∀ a b : Int, 0 ≤ a → a.tdiv b = a / b := fun a b ha => Int.tdiv_eq_ediv_of_nonneg ha
  have hmod : ∀ a b : Int, 0 ≤ a → a.tmod b = a % b := fun a b ha => Int.tmod_eq_emod_of_nonneg ha
  have hsecs := hdiv timeMillis 1000 hpos
  have hdays : (timeMillis / 1000).tdiv 86400 = timeMillis / 86400000 := by
    rw [hdiv _ _ (by omega)]
    omega
  have hday := hmod (timeMillis / 1000) 86400 (by omega)
  have hhour : (timeMillis / 1000 % 86400).tdiv 3600 = timeMillis / 3600000 % 24 := by
    rw [hdiv _ _ (by omega)]
    omega
  have hminute : ((timeMillis / 1000 % 86400).tmod 3600).tdiv 60 = timeMillis / 60000 % 60 := by
    rw [hmod _ _ (by omega), hdiv _ _ (by omega)]
    omega
  have hsecond : ((timeMillis / 1000 % 86400).tmod 3600).tmod 60 = timeMillis / 1000 % 60 := by
    rw [hmod _ 3600 (by omega), hmod _ _ (by omega)]
    omega
  simp only [rtimeFromTimeMillisSecurity, bind, hsecs, hdays, hday, hhour, hminute, hsecond, hmod timeMillis 1000 hpos]
  refine Halts.bind hdate ?_
  rintro _ rfl
  exact Halts.ok rfl

theorem toNat_emod_lt (t : Int) {n : Nat} (hn : 0 < n) : (t % n).toNat < n := by
  have hpos : (0 : Int) < n := Int.natCast_pos.mpr hn
  have hlt := Int.emod_lt_of_pos t hpos
  have hnonneg := Int.emod_nonneg t hpos.ne'
  omega

/-- The fields put together again. -/
theorem fields_millis (t : Int) :
    (((t / 86400000 * 24 + t / 3600000 % 24) * 60 + t / 60000 % 60) * 60 + t / 1000 % 60) * 1000 + t % 1000 = t := by
  have hday : t / 86400000 = t / 3600000 / 24 := by omega
  have hhour : t / 3600000 = t / 60000 / 60 := by omega
  have hminute : t / 60000 = t / 1000 / 60 := by omega
  rw [hday, Int.ediv_mul_add_emod, hhour, Int.ediv_mul_add_emod, hminute, Int.ediv_mul_add_emod, Int.ediv_mul_add_emod]

/-- Without a time zone the fields are those of the only date and time that is so many milliseconds away from 1970-01-01
00:00:00.000. -/
theorem rtime_civil (timeMillis : Int) (hpos : 0 ≤ timeMillis) (hyear : timeMillis < Calendar.yearMillis 65536) :
    ∃ c : Calendar.DateTime, Halts (fun fuel => rtimeFromTimeMillisSecurity 0 fuel timeMillis) (· = datas c) ∧
      c.millis = timeMillis ∧ ∀ c' : Calendar.DateTime, c'.millis = timeMillis → c' = c := by
  have hlarge : Calendar.yearStart 65536 < 2147483648 := by decide
  rw [Calendar.yearMillis] at hyear
  obtain ⟨year, month, left, hdate, hfalls⟩ := rtimeDate_halts (int32 (timeMillis / 86400000))
  have hrun := rtime_of_date hpos hdate 0
  have hdays : int32 (timeMillis / 86400000) = timeMillis / 86400000 := int32_of_range (by omega) (by omega)
  rw [hdays] at hfalls
  obtain ⟨d, hy, hm, hd, hsum⟩ := hfalls.date (by omega) (by omega)
  let c : Calendar.DateTime := { d with
    hour := (timeMillis / 3600000 % 24).toNat
    minute := (timeMillis / 60000 % 60).toNat
    second := (timeMillis / 1000 % 60).toNat
    milli := (timeMillis % 1000).toNat
    hour_lt := toNat_emod_lt (n := 24) _ (by decide)
    minute_lt := toNat_emod_lt (n := 60) _ (by decide)
    second_lt := toNat_emod_lt (n := 60) _ (by decide)
    milli_lt := toNat_emod_lt (n := 1000) _ (by decide) }
  have hhour : (c.hour : Int) = timeMillis / 3600000 % 24 := Int.toNat_of_nonneg (Int.emod_nonneg _ (by decide))
  have hminute : (c.minute : Int) = timeMillis / 60000 % 60 := Int.toNat_of_nonneg (Int.emod_nonneg _ (by decide))
  have hsecond : (c.second : Int) = timeMillis / 1000 % 60 := Int.toNat_of_nonneg (Int.emod_nonneg _ (by decide))
  have hmilli : (c.milli : Int) = timeMillis % 1000 := Int.toNat_of_nonneg (Int.emod_nonneg _ (by decide))
  have hmillis : c.millis = timeMillis := by
    rw [Calendar.DateTime.millis, show c.days = timeMillis / 86400000 from hsum, hhour, hminute, hsecond, hmilli]
    exact fields_millis timeMillis
  refine ⟨c, hrun.mono ?_, hmillis, fun c' hc' => Calendar.DateTime.millis_injective (hc'.trans hmillis.symm)⟩
  rintro _ rfl
  have hzone : (timeMillis / 3600000 % 24 + 0).tmod 24 = timeMillis / 3600000 % 24 := by
    rw [add_zero]
    exact Int.tmod_eq_of_lt (Int.emod_nonneg _ (by decide)) (Int.emod_lt_of_pos _ (by decide))
  rw [datas, show c.year = year from hy, show c.month = month from hm, show (c.day : Int) = left + 1 from hd, hhour, hminute,
    hsecond, hmilli, hzone]

/-- 2000-02-29 12:00:00.000. -/
theorem rtime_civil_leap_day :
    ∃ c : Calendar.DateTime, Halts (fun fuel => rtimeFromTimeMillisSecurity 0 fuel 951825600000) (· = datas c) ∧
      c.millis = 951825600000 ∧ ∀ c' : Calendar.DateTime, c'.millis = 951825600000 → c' = c :=
  rtime_civil 951825600000 (by decide) (by decide)

example : rtimeFromTimeMillisSecurity 0 32 951825600000 = .ok ⟨2000, 2, 29, 12, 0, 0, 0⟩ := by rfl

end Funra
