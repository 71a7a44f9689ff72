import Mathlib.Algebra.Group.Nat.Defs
import Mathlib.Data.Int.Order.Basic
import Mathlib.Tactic.SplitIfs

/-!
# Timeouts of select

All times are in microseconds. A timeout is limited for one blocking call (`block`), for the whole operation since `start`
(`total`), or not at all where the limit is negative. `rtimeout_2timeval` takes the microseconds off, but does not divide
what is left by 1000000, so that a second becomes 1000000 of them.
-/

namespace Funra

/-- `rtimeout_t` -/
structure RTimeout where
  block : Int64
  total : Int64
  start : Int64

/-- `struct timeval` -/
structure Timeval where
  tvSec : Int64
  tvUsec : Int64
  deriving DecidableEq

def rmacroMin (a b : Int64) : Int64 := if a < b then a else b

def rmacroMax (a b : Int64) : Int64 := if b < a then a else b

/-- `now` is the clock that `rtime_microsec` reads. -/
def rtimeoutGetBlock (tm : RTimeout) (now : Int64) : Int64 :=
  if tm.block < 0 ∧ tm.total < 0 then -1
  else if tm.block < 0 then
    let t := tm.total + tm.start - now
    rmacroMax t 0
  else if tm.total < 0 then tm.block
  else
    let t := tm.total + tm.start - now
    rmacroMin tm.block (rmacroMax t 0)

def rtimeout2Timeval (timeLeft : Int64) : Timeval :=
  let tvUsec := timeLeft % 1000000
  ⟨timeLeft - tvUsec, tvUsec⟩

/-- The clock that a round reads, and what its `select` returns and leaves in `errno`. -/
structure SelectRound where
  now : Int64
  ret : Int
  eintr : Bool

/-- The timeout that a round gives to `select`, `none` where the pointer is NULL. -/
structure SelectCall where
  now : Int64
  timeout : Option Timeval

def selectCall (tm : RTimeout) (now : Int64) : SelectCall :=
  let timeLeft := rtimeoutGetBlock tm now
  let tv := rtimeout2Timeval timeLeft
  ⟨now, if 0 ≤ timeLeft then some tv else none⟩

/-- The calls, and the return code when no more round is needed. -/
def rsocketSelect (tm : RTimeout) : List SelectRound → List SelectCall × Option Int
  | [] => ([], none)
  | round :: rounds =>
    let call := selectCall tm round.now
    if round.ret < 0 ∧ round.eintr then
      let (calls, ret) := rsocketSelect tm rounds
      (call :: calls, ret)
    else ([call], some round.ret)

/-- The rounds that there are: the ones that are interrupted, and one more. -/
def roundsMade : List SelectRound → List SelectRound
  | [] => []
  | round :: rounds => if round.ret < 0 ∧ round.eintr then round :: roundsMade rounds else [round]

def Timeval.micros (tv : Timeval) : Int := tv.tvSec.toInt * 1000000 + tv.tvUsec.toInt

variable {tm : RTimeout} {now : Int64}

/-- What is left of the whole operation, negative when it is late already. -/
def RTimeout.left (tm : RTimeout) (now : Int64) : Int := tm.total.toInt + tm.start.toInt - now.toInt

/-- The timeout is the time that is left, within both limits, and `select` is back before the operation is late. -/
structure WaitLaw (tm : RTimeout) (now : Int64) (tv : Timeval) : Prop where
  usec_nonneg : 0 ≤ tv.tvUsec.toInt
  usec_lt : tv.tvUsec.toInt < 1000000
  micros_eq : tv.micros = (rtimeoutGetBlock tm now).toInt
  le_total : 0 ≤ tm.total.toInt → (rtimeoutGetBlock tm now).toInt ≤ max (tm.left now) 0
  le_block : 0 ≤ tm.block.toInt → (rtimeoutGetBlock tm now).toInt ≤ tm.block.toInt
  in_time : 0 ≤ tm.total.toInt → now.toInt + tv.micros ≤ max now.toInt (tm.start.toInt + tm.total.toInt)

def TimeoutLaw (tm : RTimeout) (now : Int64) : Prop := ∀ tv ∈ (selectCall tm now).timeout, WaitLaw tm now tv

/-- Some limit is below a second, or there is none at all; and what is left has 64 bits. -/
structure BelowSecond (tm : RTimeout) (now : Int64) : Prop where
  fits : 0 ≤ tm.total.toInt → tm.block.toInt ≠ 0 → -9223372036854775808 ≤ tm.left now
  short : tm.block.toInt < 0 ∧ tm.total.toInt < 0 ∨ 0 ≤ tm.block.toInt ∧ tm.block.toInt < 1000000 ∨
    0 ≤ tm.total.toInt ∧ tm.left now < 1000000

/-! ### The time left -/

theorem toInt_rmacroMin (a b : Int64) : (rmacroMin a b).toInt = min a.toInt b.toInt := by
  unfold rmacroMin
  split_ifs with h <;> rw [Int64.lt_iff_toInt_lt] at h <;> omega

theorem toInt_rmacroMax (a b : Int64) : (rmacroMax a b).toInt = max a.toInt b.toInt := by
  unfold rmacroMax
  split_ifs with h <;> rw [Int64.lt_iff_toInt_lt] at h <;> omega

theorem lt_zero_iff (a : Int64) : a < 0 ↔ a.toInt < 0 := by rw [Int64.lt_iff_toInt_lt, Int64.toInt_zero]

theorem toInt_getBlock (tm : RTimeout) (now : Int64) :
    (rtimeoutGetBlock tm now).toInt = if tm.block.toInt < 0 ∧ tm.total.toInt < 0 then -1
      else if tm.block.toInt < 0 then max ((tm.left now).bmod (2 ^ 64)) 0
      else if tm.total.toInt < 0 then tm.block.toInt
      else min tm.block.toInt (max ((tm.left now).bmod (2 ^ 64)) 0) := by
  have hleft : (tm.total + tm.start - now).toInt = (tm.left now).bmod (2 ^ 64) := by
    rw [Int64.toInt_sub, Int64.toInt_add, Int.bmod_sub_bmod, RTimeout.left]
  unfold rtimeoutGetBlock
  simp only [lt_zero_iff]
  split_ifs
  · rfl
  · rw [toInt_rmacroMax, hleft, Int64.toInt_zero]
  · rfl
  · rw [toInt_rmacroMin, toInt_rmacroMax, hleft, Int64.toInt_zero]

/-- Where the time that is left is too far below zero, it comes out positive. -/
theorem left_wraps (hclock : tm.start.toInt ≤ now.toInt) (htotal : 0 ≤ tm.total.toInt) :
    (tm.left now).bmod (2 ^ 64) =
      if -9223372036854775808 ≤ tm.left now then tm.left now else tm.left now + 18446744073709551616 := by
  have hlow := tm.start.le_toInt
  have hhigh := now.toInt_lt
  have htop := tm.total.toInt_lt
  unfold RTimeout.left
  split_ifs with h
  · exact Int.bmod_eq_of_le (by omega) (by omega)
  · rw [← Int.add_bmod_right]
    exact Int.bmod_eq_of_le (by omega) (by omega)

/-! ### The timeval -/

theorem toInt_tvUsec (t : Int64) : (rtimeout2Timeval t).tvUsec.toInt = t.toInt.tmod 1000000 := Int64.toInt_mod t 1000000

theorem toInt_tvSec {t : Int64} (ht : 0 ≤ t.toInt) : (rtimeout2Timeval t).tvSec.toInt = t.toInt - t.toInt % 1000000 := by
  have htop := t.toInt_lt
  have hmod : (t % 1000000).toInt = t.toInt % 1000000 := (toInt_tvUsec t).trans (Int.tmod_eq_emod_of_nonneg ht)
  have hsub : (rtimeout2Timeval t).tvSec.toInt = (t.toInt - (t % 1000000).toInt).bmod (2 ^ 64) := Int64.toInt_sub t (t % 1000000)
  rw [hsub, hmod]
  exact Int.bmod_eq_of_le (by omega) (by omega)

/-- The two fields are the time just when it is below a second. -/
theorem micros_eq_iff {t : Int64} (ht : 0 ≤ t.toInt) : (rtimeout2Timeval t).micros = t.toInt ↔ t.toInt < 1000000 := by
  rw [Timeval.micros, toInt_tvSec ht, toInt_tvUsec, Int.tmod_eq_emod_of_nonneg ht]
  omega

theorem timeout_of_nonneg (ht : 0 ≤ (rtimeoutGetBlock tm now).toInt) :
    (selectCall tm now).timeout = some (rtimeout2Timeval (rtimeoutGetBlock tm now)) :=
  if_pos (Int64.le_iff_toInt_le.mpr (Int64.toInt_zero.symm ▸ ht))

theorem timeout_of_neg (ht : (rtimeoutGetBlock tm now).toInt < 0) : (selectCall tm now).timeout = none :=
  if_neg (Int64.not_le.mpr ((lt_zero_iff _).mpr ht))

theorem waitLaw_iff (ht : 0 ≤ (rtimeoutGetBlock tm now).toInt) : TimeoutLaw tm now ↔ (rtimeoutGetBlock tm now).toInt < 1000000 ∧
    (0 ≤ tm.total.toInt → (rtimeoutGetBlock tm now).toInt ≤ max (tm.left now) 0) ∧
    (0 ≤ tm.block.toInt → (rtimeoutGetBlock tm now).toInt ≤ tm.block.toInt) := by
  rw [TimeoutLaw, timeout_of_nonneg ht]
  constructor
  · intro h
    obtain ⟨-, -, hexact, htotal, hblock, -⟩ := h _ rfl
    exact ⟨(micros_eq_iff ht).mp hexact, htotal, hblock⟩
  · rintro ⟨hsecond, htotal, hblock⟩ tv htv
    obtain rfl := Option.some.inj htv
    have hexact := (micros_eq_iff ht).mpr hsecond
    have husec := toInt_tvUsec (rtimeoutGetBlock tm now)
    rw [Int.tmod_eq_emod_of_nonneg ht] at husec
    refine ⟨by omega, by omega, hexact, htotal, hblock, fun h => ?_⟩
    have hle := htotal h
    rw [hexact]
    unfold RTimeout.left at hle
    omega

/-- One call: what it is given is right just when some limit is below a second. -/
theorem timeoutLaw_iff (hclock : tm.start.toInt ≤ now.toInt) : TimeoutLaw tm now ↔ BelowSecond tm now := by
  have hblock := toInt_getBlock tm now
  by_cases hnone : tm.block.toInt < 0 ∧ tm.total.toInt < 0
  · rw [if_pos hnone] at hblock
    rw [TimeoutLaw, timeout_of_neg (by omega)]
    exact ⟨fun _ => ⟨fun h => absurd hnone.2 (by omega), .inl hnone⟩, nofun⟩
  rw [if_neg hnone] at hblock
  by_cases htotal : tm.total.toInt < 0
  · rw [if_neg (by omega), if_pos htotal] at hblock
    rw [waitLaw_iff (by omega)]
    constructor
    · intro h
      exact ⟨fun hpos => absurd htotal (by omega), by omega⟩
    · intro h
      have := h.short
      omega
  have hwraps := left_wraps hclock (by omega : 0 ≤ tm.total.toInt)
  have hrange : -18446744073709551616 < tm.left now := by
    have hlow := tm.start.le_toInt
    have hhigh := now.toInt_lt
    unfold RTimeout.left
    omega
  rw [hwraps] at hblock
  split_ifs at hblock
  all_goals
    rw [waitLaw_iff (by omega)]
    constructor
    · intro h
      exact ⟨by omega, by omega⟩
    · rintro ⟨hfits, hshort⟩
      omega

/-! ### Every call of a run -/

theorem calls_eq (tm : RTimeout) (rounds : List SelectRound) :
    (rsocketSelect tm rounds).1 = (roundsMade rounds).map fun round => selectCall tm round.now := by
  induction rounds with
  | nil => rfl
  | cons round rounds ih =>
    rw [rsocketSelect, roundsMade]
    split_ifs
    · rw [List.map_cons, ← ih]
    · rfl

/-- Every `select` of a run is given a right timeout. -/
def SelectLaw (tm : RTimeout) (rounds : List SelectRound) : Prop :=
  ∀ call ∈ (rsocketSelect tm rounds).1, ∀ tv ∈ call.timeout, WaitLaw tm call.now tv

theorem mem_roundsMade {rounds : List SelectRound} {round : SelectRound} (h : round ∈ roundsMade rounds) : round ∈ rounds := by
  induction rounds with
  | nil => exact h
  | cons first rounds ih =>
    rw [roundsMade] at h
    split_ifs at h
    · rcases List.mem_cons.mp h with rfl | h
      · exact List.mem_cons_self
      · exact List.mem_cons_of_mem _ (ih h)
    · rw [List.mem_singleton.mp h]
      exact List.mem_cons_self

/-- Every timeout of a run is right just when at each of its clocks some limit is below a second. -/
theorem selectLaw_iff (tm : RTimeout) (rounds : List SelectRound) (hclock : ∀ round ∈ rounds, tm.start.toInt ≤ round.now.toInt) :
    SelectLaw tm rounds ↔ ∀ round ∈ roundsMade rounds, BelowSecond tm round.now := by
  rw [SelectLaw, calls_eq, List.forall_mem_map]
  exact forall₂_congr fun round hround => timeoutLaw_iff (hclock round (mem_roundsMade hround))

/-- Interrupted once, with 300 ms for a call and 500 ms in all. -/
theorem selectLaw_iff_again :
    SelectLaw ⟨300000, 500000, 0⟩ [⟨100000, -1, true⟩, ⟨250000, 1, false⟩] ↔
      ∀ round ∈ roundsMade [⟨100000, -1, true⟩, ⟨250000, 1, false⟩], BelowSecond ⟨300000, 500000, 0⟩ round.now :=
  selectLaw_iff ⟨300000, 500000, 0⟩ [⟨100000, -1, true⟩, ⟨250000, 1, false⟩] (by decide)

/-- A second and a half for a call. -/
theorem select_million_seconds : ¬ ∀ (tm : RTimeout) (rounds : List SelectRound),
    (∀ round ∈ rounds, tm.start.toInt ≤ round.now.toInt) → SelectLaw tm rounds := by
  intro h
  have hcall := h ⟨1500000, -1, 0⟩ [⟨0, 0, false⟩] (by decide) (selectCall ⟨1500000, -1, 0⟩ 0) List.mem_cons_self
    ⟨1000000, 500000⟩ rfl
  exact absurd hcall.micros_eq (by decide)

end Funra
