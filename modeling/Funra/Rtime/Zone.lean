import Funra.Rtime.Date

/-!
# Time zones

The time zone is added to the hour alone, and the sum is taken modulo 24: neither the date nor a negative hour is put right.
-/

namespace Funra

open Mem CInt Except

variable {timeZone timeMillis : Int}

/-- The fields are those of the shifted time without a time zone, and the hour is one. -/
def ZoneLaw (timeZone timeMillis : Int) : Prop :=
  ∃ f : TimeDatas, Halts (fun fuel => rtimeFromTimeMillisSecurity timeZone fuel timeMillis) (· = f) ∧
    Halts (fun fuel => rtimeFromTimeMillisSecurity 0 fuel (timeMillis + timeZone * 3600000)) (· = f) ∧ 0 ≤ f.hour ∧ f.hour < 24

/-- The year, the month and the day tell which day it is. -/
theorem FallsIn.unique {days days' : Int} {year month : Nat} {left : Int} (h : FallsIn days year month left)
    (h' : FallsIn days' year month left) : days = days' := h.sum.symm.trans h'.sum

theorem zoneLaw_of_same_day (hpos : 0 ≤ timeMillis) (hshift : 0 ≤ timeMillis + timeZone * 3600000)
    (hlow : 0 ≤ timeMillis / 3600000 % 24 + timeZone) (hhigh : timeMillis / 3600000 % 24 + timeZone < 24) :
    ZoneLaw timeZone timeMillis := by
  obtain ⟨year, month, left, hdate, -⟩ := rtimeDate_halts (int32 (timeMillis / 86400000))
  have hrun := rtime_of_date hpos hdate timeZone
  have hday : timeMillis / 86400000 = (timeMillis + timeZone * 3600000) / 86400000 := by omega
  rw [hday] at hdate
  have hrun' := rtime_of_date hshift hdate 0
  have hhour : (timeMillis / 3600000 % 24 + timeZone).tmod 24 = ((timeMillis + timeZone * 3600000) / 3600000 % 24 + 0).tmod 24 := by
    rw [Int.tmod_eq_of_lt hlow hhigh, Int.tmod_eq_of_lt (by omega) (by omega)]
    omega
  have hminute : (timeMillis + timeZone * 3600000) / 60000 % 60 = timeMillis / 60000 % 60 := by omega
  have hsecond : (timeMillis + timeZone * 3600000) / 1000 % 60 = timeMillis / 1000 % 60 := by omega
  have hmilli : (timeMillis + timeZone * 3600000) % 1000 = timeMillis % 1000 := by omega
  rw [← hhour, hminute, hsecond, hmilli] at hrun'
  refine ⟨_, hrun, hrun', ?_⟩
  dsimp only
  rw [Int.tmod_eq_of_lt hlow hhigh]
  exact ⟨hlow, hhigh⟩

/-- A negative hour stays negative. -/
theorem tmod_of_neg {a : Int} (hlow : -24 < a) (hneg : a < 0) : a.tmod 24 = a := by
  rw [← neg_neg a, Int.neg_tmod, Int.tmod_eq_of_lt (by omega) (by omega)]

theorem same_day_of_zoneLaw (hzone : -12 ≤ timeZone ∧ timeZone ≤ 14) (hpos : 0 ≤ timeMillis)
    (hshift : 0 ≤ timeMillis + timeZone * 3600000) (hlaw : ZoneLaw timeZone timeMillis) :
    0 ≤ timeMillis / 3600000 % 24 + timeZone ∧ timeMillis / 3600000 % 24 + timeZone < 24 := by
  obtain ⟨f, hf, hf', hhour, -⟩ := hlaw
  obtain ⟨year, month, left, hdate, hfalls⟩ := rtimeDate_halts (int32 (timeMillis / 86400000))
  obtain ⟨year', month', left', hdate', hfalls'⟩ := rtimeDate_halts (int32 ((timeMillis + timeZone * 3600000) / 86400000))
  have heq := Halts.eq hf (rtime_of_date hpos hdate timeZone)
  have heq' := Halts.eq hf' (rtime_of_date hshift hdate' 0)
  constructor
  · by_contra hneg
    rw [heq] at hhour
    dsimp only at hhour
    rw [tmod_of_neg (by omega) (by omega)] at hhour
    exact hneg hhour
  · by_contra hnext
    rw [heq, TimeDatas.mk.injEq] at heq'
    obtain ⟨hyear, hmonth, hleft, -⟩ := heq'
    obtain rfl : year = year' := by omega
    obtain rfl : month = month' := by omega
    obtain rfl : left = left' := by omega
    have hdays := hfalls.unique hfalls'
    unfold int32 at hdays
    omega

/-- The fields are those of the shifted time just when the shift stays within the day. -/
theorem zoneLaw_iff (timeZone timeMillis : Int) (hzone : -12 ≤ timeZone ∧ timeZone ≤ 14) (hpos : 0 ≤ timeMillis)
    (hshift : 0 ≤ timeMillis + timeZone * 3600000) :
    ZoneLaw timeZone timeMillis ↔ 0 ≤ timeMillis / 3600000 % 24 + timeZone ∧ timeMillis / 3600000 % 24 + timeZone < 24 :=
  ⟨same_day_of_zoneLaw hzone hpos hshift, fun h => zoneLaw_of_same_day hpos hshift h.1 h.2⟩

/-- Eight hours east, at 1970-01-01 01:00. -/
theorem zoneLaw_iff_morning :
    ZoneLaw 8 3600000 ↔ 0 ≤ 3600000 / 3600000 % 24 + (8 : Int) ∧ 3600000 / 3600000 % 24 + (8 : Int) < 24 :=
  zoneLaw_iff 8 3600000 (by decide) (by decide) (by decide)

/-- Eight hours east, at 1970-01-01 16:00. -/
theorem zone_keeps_date : ¬ ∀ timeZone timeMillis : Int, -12 ≤ timeZone ∧ timeZone ≤ 14 → 0 ≤ timeMillis →
    0 ≤ timeMillis + timeZone * 3600000 → ZoneLaw timeZone timeMillis := fun h =>
  absurd (same_day_of_zoneLaw (by decide) (by decide) (by decide) (h 8 57600000 (by decide) (by decide) (by decide))).2 (by decide)

/-- It is the 2nd already, not the 1st. -/
example : rtimeFromTimeMillisSecurity 8 20 57600000 = .ok ⟨1970, 1, 1, 0, 0, 0, 0⟩ ∧
    rtimeFromTimeMillisSecurity 0 20 (57600000 + 8 * 3600000) = .ok ⟨1970, 1, 2, 0, 0, 0, 0⟩ := ⟨rfl, rfl⟩

end Funra
