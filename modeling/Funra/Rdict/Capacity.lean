import Funra.Rdict.Returns

/-!
# The capacity of an expanded table

`_expand_buckets` divides the capacity by `scale_factor`, rounds it up to whole buckets and multiplies again, all
modulo 2^32; its check of the range can never fail. A quotient from 2^32 on wraps around to a small table, down to
one without buckets, and a product wraps around to a table smaller than a bucket.

`SlotsFor` says of a capacity and the size of the buckets whether the table has buckets, fewer than 2^32 slots and
as many as wanted. It does where nothing wraps around (`slotsFor_of_unwrapped`), and else only where a single
bucket is as large as the table that is asked for (`slotsFor_iff`, `slotsFor_expand_iff`). `expandSafe_iff` says
when a call is safe.
-/

namespace Funra

open Mem Table

variable {K V E : Type}

/-- A call asked for `requested` slots returns an error and leaves the dictionary as it was, or leaves a table of
buckets with that many slots, their product not wrapping around. -/
def ExpandSafe (d : Rdict K V E) (requested : Nat) (call : Nat → Except Fault (Int × Rdict K V E)) : Prop :=
  ∃ fuel code d', call fuel = .ok (code, d') ∧
    (code ≠ rdictCodeOk ∧ (∃ n, d' = d.asked n) ∨
      code = rdictCodeOk ∧ Sized d'.bucketCapacity d'.buckets ∧ requested ≤ d'.buckets * d'.bucketCapacity)

/-- The tables of a call of `_expand_buckets` with `capacity`: behind those that it gives up there is no memory, or
a table that can be had, is large enough and takes the entries. -/
def ExpandTries (t : RdictFuncs K V E) (ok : Nat → Bool) (scale : Nat → Nat) (d : Rdict K V E)
    (capacity requested : Nat) : Prop :=
  ∃ m, GivesUp t ok scale d capacity m ∧
    (ok (d.heap.calls + m) = false ∨
      ok (d.heap.calls + m) = true ∧ Sized d.bucketCapacity (triedBuckets scale d.bucketCapacity capacity m) ∧
        requested ≤ triedBuckets scale d.bucketCapacity capacity m * d.bucketCapacity ∧
        ∀ b, load t (triedBuckets scale d.bucketCapacity capacity m) d.entries b ≤ d.bucketCapacity)

section expand

variable {t : RdictFuncs K V E} {ok : Nat → Bool} {scale : Nat → Nat} {d d' : Rdict K V E}
  {capacity requested : Nat}

theorem expandSafe_of_tidy (h : d.Tidy) :
    ExpandSafe d requested (fun fuel => expandBuckets t ok scale fuel d capacity) ↔
      ExpandTries t ok scale d capacity requested := by
  constructor
  · rintro ⟨fuel, code, d', hrun, hsafe⟩
    obtain ⟨m, hgives, hends⟩ := expandBuckets_ends h hrun
    refine ⟨m, hgives, ?_⟩
    cases hends with
    | refused hno => exact .inl hno
    | settled hyes hmoved =>
      obtain ⟨hcode, -⟩ | ⟨-, hsized, hle⟩ := hsafe
      · exact absurd rfl hcode
      · rw [hmoved.buckets, hmoved.bucketCapacity] at hsized hle
        exact .inr ⟨hyes, hsized, hle, hmoved.filled.load_le⟩
  · rintro ⟨m, hgives, hno | ⟨hyes, hsized, hle, hload⟩⟩
    · exact ⟨m + 1, _, _, expandBuckets_refuses h hgives hno, .inl ⟨by decide, m + 1, rfl⟩⟩
    · obtain ⟨d', hrun⟩ := expandBuckets_settles h hgives hyes hsized hload
      obtain ⟨m', hgives', hends⟩ := expandBuckets_ends h hrun
      refine ⟨m + 1, _, d', hrun, .inr ⟨rfl, ?_⟩⟩
      cases hends with
      | settled _ hmoved =>
        have hsame : triedBuckets scale d.bucketCapacity capacity m' =
            triedBuckets scale d.bucketCapacity capacity m :=
          SettlesAt.unique ⟨m', rfl, hmoved.filled.load_le, fun j hj => (hgives' j hj).2.2⟩
            ⟨m, rfl, hload, fun j hj => (hgives j hj).2.2⟩
        rw [hmoved.buckets, hmoved.bucketCapacity, hsame]
        exact ⟨hsized, hle⟩

/-- Before its first table a dictionary has no entries, so the first table that is tried is kept. -/
theorem expandSafe_of_none (hnone : d.entry = none) :
    ExpandSafe d requested (fun fuel => expandBuckets t ok scale fuel d capacity) ↔
      ExpandTries t ok scale d capacity requested := by
  have hentries : d.entries = [] := by rw [Rdict.entries, Rdict.slots, hnone, List.filter_nil]
  have hload (n b : Nat) : load t n d.entries b = 0 := by rw [hentries, load, List.countP_nil]
  have hfirst : ExpandTries t ok scale d capacity requested ↔ ok d.heap.calls = false ∨
      ok d.heap.calls = true ∧ Sized d.bucketCapacity (bucketCountOf (u32 (scale capacity)) d.bucketCapacity) ∧
        requested ≤ bucketCountOf (u32 (scale capacity)) d.bucketCapacity * d.bucketCapacity := by
    constructor
    · rintro ⟨_ | m, hgives, hends⟩
      · exact hends.imp id fun hend => ⟨hend.1, hend.2.1, hend.2.2.1⟩
      · obtain ⟨-, -, b, hb⟩ := hgives 0 (Nat.succ_pos m)
        rw [hload] at hb
        exact absurd hb (Nat.not_lt_zero _)
    · intro hends
      refine ⟨0, fun j hj => absurd hj (Nat.not_lt_zero j), hends.imp id fun hend => ?_⟩
      refine ⟨hend.1, hend.2.1, hend.2.2, fun b => ?_⟩
      rw [hload]
      exact Nat.zero_le _
  rw [hfirst]
  by_cases hok : ok d.heap.calls = true
  · have hrun (fuel : Nat) := expandBuckets.eq_2 t ok scale d capacity fuel
    simp only [RdictHeap.alloc, hok, if_true, hnone] at hrun
    simp only [hok, Bool.true_eq_false, false_or, true_and]
    constructor
    · rintro ⟨_ | fuel, code, d', h, hsafe⟩
      · cases h
      · have heq := (hrun fuel).symm.trans h
        cases heq
        obtain ⟨hcode, -⟩ | ⟨-, hsized, hle⟩ := hsafe
        · exact absurd rfl hcode
        · exact ⟨hsized, hle⟩
    · intro hfits
      exact ⟨1, _, _, hrun 0, .inr ⟨rfl, hfits⟩⟩
  · have hrun := expandBuckets.eq_2 t ok scale d capacity 0
    simp only [RdictHeap.alloc, hok, Bool.false_eq_true, if_false] at hrun
    refine iff_of_true ⟨1, _, _, hrun, .inl ⟨by decide, 1, rfl⟩⟩ (.inl (Bool.eq_false_iff.mpr hok))

end expand

/-! ## The arithmetic -/

/-- Nothing wraps around in the table for a capacity: four thirds of it are no more than the slots of whole buckets
that 32 bits count. -/
def Unwrapped (w capacity : Nat) : Prop := 0 < capacity ∧ 4 * capacity < 3 * (4294967295 / w * w + 1)

/-- The table for a capacity has buckets, fewer than 2^32 slots and as many as `requested`. Four thirds of the
capacity wrap around at 3 * 2^30. -/
def SlotsFor (w capacity requested : Nat) : Prop :=
  3 * ((requested - 1) / w * w + 1) ≤ 4 * (capacity % 3221225472) ∧
    4 * (capacity % 3221225472) < 3 * (4294967295 / w * w + 1)

instance (w capacity : Nat) : Decidable (Unwrapped w capacity) := inferInstanceAs (Decidable (_ ∧ _))

instance (w capacity requested : Nat) : Decidable (SlotsFor w capacity requested) :=
  inferInstanceAs (Decidable (_ ∧ _))

/-- The buckets of the table for a capacity. -/
def bucketsFor (w capacity : Nat) : Nat := (4 * (capacity % 3221225472) / 3 + (w - 1)) / w

/-- The capacity that is tried when the table for `capacity` is given up. -/
def retryCapacity (capacity : Nat) : Nat := expandCapacity (u32 (4 * (capacity % 3221225472) / 3 * 2))

/-- The capacity of the table after `m` that are given up. -/
def retried (capacity m : Nat) : Nat := retryCapacity^[m] capacity

section arithmetic

variable {w q capacity requested m : Nat}

theorem expandCapacity_lt (capacity : Nat) : expandCapacity capacity < 4294967296 := by
  unfold expandCapacity
  split <;> exact Nat.mod_lt _ (by decide)

theorem u32_exactScale (h : capacity < 4294967296) :
    u32 (exactScale capacity) = 4 * (capacity % 3221225472) / 3 := by
  unfold exactScale
  rcases Nat.lt_or_ge capacity 3221225472 with hlow | hhigh
  · rw [Nat.mod_eq_of_lt hlow, Nat.mul_comm, u32_of_lt (by omega)]
  · have hmod : capacity % 3221225472 = capacity - 3221225472 := by omega
    have hover : capacity * 4 / 3 = 4 * (capacity - 3221225472) / 3 + 4294967296 := by omega
    rw [hmod, hover, u32, Nat.add_mod_right, Nat.mod_eq_of_lt (by omega)]

theorem bucketCountOf_eq (hw : 0 < w) : bucketCountOf q w = (q + (w - 1)) / w := by
  have hdiv := Nat.div_add_mod q w
  have hmod := Nat.mod_lt q hw
  unfold bucketCountOf
  symm
  split
  · rw [Nat.div_eq_iff hw, Nat.mul_comm]
    omega
  · rw [Nat.div_eq_iff hw, Nat.succ_mul, Nat.mul_comm]
    omega

theorem bucketCountOf_exactScale (hw : 0 < w) (h : capacity < 4294967296) :
    bucketCountOf (u32 (exactScale capacity)) w = bucketsFor w capacity := by
  rw [u32_exactScale h, bucketCountOf_eq hw, bucketsFor]

theorem triedBuckets_exactScale (hw : 0 < w) (h : capacity < 4294967296) (m : Nat) :
    triedBuckets exactScale w capacity m = bucketsFor w (retried capacity m) := by
  induction m generalizing capacity with
  | zero => exact bucketCountOf_exactScale hw h
  | succ m ih =>
    rw [triedBuckets, u32_exactScale h, ih (expandCapacity_lt _)]
    rfl

/-- The slots of whole buckets reach `requested` when what is rounded up is more than the whole buckets below it. -/
theorem le_roundUp_iff (hw : 0 < w) (hr : 0 < requested) :
    requested ≤ (q + (w - 1)) / w * w ↔ (requested - 1) / w * w < q := by
  have hlt : requested ≤ (q + (w - 1)) / w * w ↔ (requested - 1) / w < (q + (w - 1)) / w := by
    rw [Nat.div_lt_iff_lt_mul hw]
    omega
  rw [hlt, ← Nat.succ_le_iff, Nat.le_div_iff_mul_le hw, Nat.succ_mul]
  omega

theorem roundUp_lt_iff (hw : 0 < w) {n : Nat} : (q + (w - 1)) / w * w < n + 1 ↔ q ≤ n / w * w := by
  rw [Nat.lt_succ_iff, ← Nat.le_div_iff_mul_le hw, ← Nat.lt_succ_iff, Nat.div_lt_iff_lt_mul hw, Nat.succ_mul]
  omega

theorem roundUp_pos (hw : 0 < w) : 0 < (q + (w - 1)) / w ↔ 0 < q := by
  rw [Nat.div_pos_iff]
  omega

/-- The condition on the capacity is one on the table. -/
theorem slotsFor_iff_sized (hw : 0 < w) :
    SlotsFor w capacity requested ↔
      Sized w (bucketsFor w capacity) ∧ requested ≤ bucketsFor w capacity * w := by
  unfold SlotsFor Sized bucketsFor
  rw [roundUp_pos hw, roundUp_lt_iff hw (n := 4294967295)]
  rcases Nat.eq_zero_or_pos requested with rfl | hr
  · rw [Nat.zero_sub, Nat.zero_div, Nat.zero_mul]
    omega
  · rw [le_roundUp_iff hw hr]
    omega

theorem slotsFor_of_unwrapped (hle : requested ≤ capacity) (h : Unwrapped w capacity) :
    SlotsFor w capacity requested := by
  have htop := Nat.div_mul_le_self 4294967295 w
  have hfloor := Nat.div_mul_le_self (requested - 1) w
  obtain ⟨hpos, hlt⟩ := h
  unfold SlotsFor
  rw [Nat.mod_eq_of_lt (by omega)]
  omega

theorem le_top (hw : 0 < w) (hlt : w < 4294967296) : w ≤ 4294967295 / w * w :=
  Nat.le_mul_of_pos_left w (Nat.div_pos (by omega) hw)

/-- Whole buckets below more than a bucket are more than half of it. -/
theorem half_le_floor (hw : 0 < w) (hlt : w < requested) : requested ≤ 2 * ((requested - 1) / w * w) := by
  have hone : w ≤ (requested - 1) / w * w := Nat.le_mul_of_pos_left w (Nat.div_pos (by omega) hw)
  have hlast := Nat.lt_mul_div_succ (requested - 1) hw
  rw [Nat.mul_succ, Nat.mul_comm] at hlast
  omega

theorem slotsFor_single (hw : 0 < w) (hle : requested ≤ w) :
    SlotsFor w capacity requested ↔
      0 < capacity % 3221225472 ∧ 4 * (capacity % 3221225472) < 3 * (4294967295 / w * w + 1) := by
  have hzero : (requested - 1) / w = 0 := Nat.div_eq_of_lt (by omega)
  unfold SlotsFor
  rw [hzero]
  omega

/-- `_expand_buckets` is asked for `capacity` slots: either nothing wraps around, or a bucket has as many. -/
theorem slotsFor_iff (hw : 0 < w) (hlt : w < 4294967296) (hcap : capacity < 4294967296) :
    SlotsFor w capacity capacity ↔ Unwrapped w capacity ∨ 3221225472 < capacity ∧ capacity ≤ w := by
  have htop := Nat.div_mul_le_self 4294967295 w
  constructor
  · intro h
    by_cases hwraps : capacity < 3221225472
    · rw [SlotsFor, Nat.mod_eq_of_lt hwraps] at h
      exact .inl ⟨by omega, h.2⟩
    · have hmod : capacity % 3221225472 = capacity - 3221225472 := by omega
      rw [SlotsFor, hmod] at h
      refine .inr ⟨by omega, Nat.not_lt.mp fun hbig => ?_⟩
      have hhalf := half_le_floor hw hbig
      omega
  · rintro (h | ⟨hwraps, hle⟩)
    · exact slotsFor_of_unwrapped (Nat.le_refl _) h
    · have hone := le_top hw hlt
      rw [slotsFor_single hw hle]
      omega

/-- `rdict_expand` is asked for `capacity` slots. -/
theorem slotsFor_expand_iff (hw : 0 < w) (hlt : w < 4294967296) (hcap : capacity < 4294967296) :
    SlotsFor w (expandCapacity capacity) capacity ↔
      capacity + 64000 < 4294967296 ∧ Unwrapped w (expandCapacity capacity) ∨
        3221161472 < capacity ∧ capacity ≤ w ∧ capacity ≠ 4294903296 := by
  have htop := Nat.div_mul_le_self 4294967295 w
  have hone := le_top hw hlt
  have hless := Nat.lt_mul_div_succ 4294967295 hw
  rw [Nat.mul_succ, Nat.mul_comm] at hless
  rcases Nat.lt_or_ge capacity 4294903296 with hlow | hhigh
  · have hgrown : capacity ≤ expandCapacity capacity ∧
        (capacity < 640000 → expandCapacity capacity = capacity * 2) ∧
        (640000 ≤ capacity → expandCapacity capacity = capacity + 64000) := by
      unfold expandCapacity u32
      split <;> omega
    generalize expandCapacity capacity = grown at hgrown ⊢
    constructor
    · intro h
      rcases Nat.lt_or_ge grown 3221225472 with hsmall | hwraps
      · rw [SlotsFor, Nat.mod_eq_of_lt hsmall] at h
        exact .inl ⟨by omega, by omega, h.2⟩
      · have hmod : grown % 3221225472 = grown - 3221225472 := by omega
        rw [SlotsFor, hmod] at h
        refine .inr ⟨by omega, Nat.not_lt.mp fun hbig => ?_, by omega⟩
        have hhalf := half_le_floor hw hbig
        omega
    · rintro (⟨-, h⟩ | ⟨hwraps, hle, -⟩)
      · exact slotsFor_of_unwrapped hgrown.1 h
      · rw [slotsFor_single hw hle]
        omega
  · have hgrown : expandCapacity capacity = capacity - 4294903296 := by
      unfold expandCapacity u32
      rw [if_neg (by omega)]
      omega
    rw [hgrown]
    constructor
    · intro h
      rw [SlotsFor, Nat.mod_eq_of_lt (by omega)] at h
      refine .inr ⟨by omega, Nat.not_lt.mp fun hbig => ?_, by omega⟩
      have hhalf := half_le_floor hw hbig
      omega
    · rintro (⟨hnot, -⟩ | ⟨-, hle, hne⟩)
      · omega
      · rw [slotsFor_single hw hle]
        omega

/-- Where nothing wraps around in the tables that are given up either, their capacities only grow. -/
theorem le_retried (h : ∀ j < m, Unwrapped w (retried capacity j) ∧
    4 * retried capacity j / 3 * 2 + 64000 < 4294967296) : capacity ≤ retried capacity m := by
  induction m with
  | zero => exact Nat.le_refl _
  | succ m ih =>
    have htop := Nat.div_mul_le_self 4294967295 w
    have hle := ih fun j hj => h j (Nat.lt_succ_of_lt hj)
    obtain ⟨⟨-, hlt⟩, hdouble⟩ := h m (Nat.lt_succ_self m)
    have hnext : retried capacity (m + 1) = retryCapacity (retried capacity m) :=
      Function.iterate_succ_apply' retryCapacity m capacity
    have hgrows : retried capacity m ≤ 4 * retried capacity m / 3 * 2 := by omega
    rw [hnext, retryCapacity, Nat.mod_eq_of_lt (by omega), u32_of_lt (by omega), expandCapacity]
    split
    · rw [u32_of_lt (by omega)]
      omega
    · rw [u32_of_lt (by omega)]
      omega

end arithmetic

/-! ## Exactly when a call is safe -/

/-- The condition on a call of `_expand_buckets` with `capacity`, which is to have `requested` slots. The capacities
before the last have their memory, and a table that a bucket overflows; then there is no memory, or one with slots
for the request in which no bucket overflows. -/
def ExpandFits (t : RdictFuncs K V E) (ok : Nat → Bool) (d : Rdict K V E) (capacity requested : Nat) : Prop :=
  let w := d.bucketCapacity
  ∃ m, (∀ j < m, ok (d.heap.calls + j) = true ∧ SlotsFor w (retried capacity j) 0 ∧
      ∃ b, w < load t (bucketsFor w (retried capacity j)) d.entries b) ∧
    (ok (d.heap.calls + m) = false ∨
      ok (d.heap.calls + m) = true ∧ SlotsFor w (retried capacity m) requested ∧
        ∀ b, load t (bucketsFor w (retried capacity m)) d.entries b ≤ w)

section safe

variable {t : RdictFuncs K V E} {ok : Nat → Bool} {d : Rdict K V E} {capacity requested : Nat}

theorem expandTries_iff (hw : 0 < d.bucketCapacity) (hcap : capacity < 4294967296) :
    ExpandTries t ok exactScale d capacity requested ↔ ExpandFits t ok d capacity requested := by
  unfold ExpandTries ExpandFits GivesUp
  simp only [triedBuckets_exactScale hw hcap, slotsFor_iff_sized hw, Nat.zero_le, and_true, and_assoc]

theorem expandSafe_of_fits (h : d.Tidy ∨ d.entry = none) (hw : 0 < d.bucketCapacity) (hcap : capacity < 4294967296) :
    ExpandSafe d requested (fun fuel => expandBuckets t ok exactScale fuel d capacity) ↔
      ExpandFits t ok d capacity requested := by
  rw [← expandTries_iff hw hcap]
  exact h.elim expandSafe_of_tidy expandSafe_of_none

/-- Exactly when `_expand_buckets` and `rdict_expand` are safe, for every dictionary and every capacity. The first
table of either has the slots where nothing wraps around, or a bucket has as many; and so has the last one where
nothing wraps around up to it. -/
theorem expandSafe_iff (t : RdictFuncs K V E) (ok : Nat → Bool) {d : Rdict K V E} (h : d.Tidy ∨ d.entry = none)
    (hw : 0 < d.bucketCapacity) (hlt : d.bucketCapacity < 4294967296) (capacity : Nat)
    (hcap : capacity < 4294967296) :
    (ExpandSafe d capacity (fun fuel => expandBuckets t ok exactScale fuel d capacity) ↔
      ExpandFits t ok d capacity capacity) ∧
    (ExpandSafe d capacity (fun fuel => rdictExpand t ok exactScale fuel d capacity) ↔
      ExpandFits t ok d (expandCapacity capacity) capacity) ∧
    (SlotsFor d.bucketCapacity capacity capacity ↔
      Unwrapped d.bucketCapacity capacity ∨ 3221225472 < capacity ∧ capacity ≤ d.bucketCapacity) ∧
    (SlotsFor d.bucketCapacity (expandCapacity capacity) capacity ↔
      capacity + 64000 < 4294967296 ∧ Unwrapped d.bucketCapacity (expandCapacity capacity) ∨
        3221161472 < capacity ∧ capacity ≤ d.bucketCapacity ∧ capacity ≠ 4294903296) ∧
    ∀ first m, capacity ≤ first →
      (∀ j < m, Unwrapped d.bucketCapacity (retried first j) ∧ 4 * retried first j / 3 * 2 + 64000 < 4294967296) →
        Unwrapped d.bucketCapacity (retried first m) → SlotsFor d.bucketCapacity (retried first m) capacity := by
  refine ⟨expandSafe_of_fits h hw hcap, expandSafe_of_fits h hw (expandCapacity_lt _), slotsFor_iff hw hlt hcap,
    slotsFor_expand_iff hw hlt hcap, fun first m hle hbefore hlast => ?_⟩
  exact slotsFor_of_unwrapped (hle.trans (le_retried hbefore)) hlast

end safe

theorem emptyDict_tidy : (uint64Dict 0 [.empty, .empty] 0 1 1).Tidy := by
  refine ⟨by decide, rfl, rfl, rfl, by decide, ?_⟩
  rintro i j - - ⟨x, hx, ho⟩
  have hmem := List.mem_of_getElem? hx
  have hempty : x = RdictEntry.empty := by simpa [Rdict.slots, uint64Dict] using hmem
  rw [hempty] at ho
  cases ho

/-- A request for three slots, and one from which on four thirds wrap around. -/
theorem expandSafe_iff_three :
    (ExpandSafe (uint64Dict 0 [.empty, .empty] 0 1 1) 3 fun fuel =>
      rdictExpand uint64Funcs (fun _ => true) exactScale fuel (uint64Dict 0 [.empty, .empty] 0 1 1) 3) ∧
    ¬ ExpandSafe (uint64Dict 0 [.empty, .empty] 0 1 1) 3221225479 fun fuel =>
      expandBuckets uint64Funcs (fun _ => true) exactScale fuel (uint64Dict 0 [.empty, .empty] 0 1 1) 3221225479 := by
  have hentries : (uint64Dict 0 [.empty, .empty] 0 1 1).entries = [] := rfl
  obtain ⟨-, hexpand, -⟩ := expandSafe_iff uint64Funcs (fun _ => true) (.inl emptyDict_tidy) (by decide) (by decide)
    3 (by decide)
  obtain ⟨hbuckets, -, hslots, -⟩ := expandSafe_iff uint64Funcs (fun _ => true) (.inl emptyDict_tidy) (by decide)
    (by decide) 3221225479 (by decide)
  refine ⟨hexpand.mpr ⟨0, nofun, .inr ⟨rfl, by decide, fun b => ?_⟩⟩, fun hsafe => ?_⟩
  · rw [hentries]
    exact Nat.zero_le _
  · obtain ⟨_ | m, hgives, hends⟩ := hbuckets.mp hsafe
    · obtain ⟨hno, -⟩ | ⟨-, hfits, -⟩ := hends
      exact absurd (hslots.mp hfits) (by decide)
    · obtain ⟨-, -, b, hb⟩ := hgives 0 (Nat.succ_pos m)
      rw [hentries] at hb
      exact absurd hb (Nat.not_lt_zero _)

/-- Three quarters of 2^32 slots are wanted: the quotient wraps around to 0, and the table has no buckets. -/
theorem expand_to_nothing : ¬ ∀ (d : Rdict Nat Nat Unit) (capacity : Nat), d.Tidy → 2 ≤ d.bucketCapacity →
    capacity < 4294967296 → ExpandSafe d capacity
      (fun fuel => expandBuckets uint64Funcs (fun _ => true) exactScale fuel d capacity) := by
  intro hall
  obtain ⟨fuel, code, d', hrun, hsafe⟩ := hall _ 3221225472 emptyDict_tidy (by decide) (by decide)
  cases fuel with
  | zero => cases hrun
  | succ fuel =>
    have hzero : (expandBuckets uint64Funcs (fun _ => true) exactScale (fuel + 1)
        (uint64Dict 0 [.empty, .empty] 0 1 1) 3221225472).map (fun r => (r.1, r.2.buckets)) = .ok (0, 0) := rfl
    dsimp only at hrun
    rw [hrun] at hzero
    obtain ⟨hcode, hbuckets⟩ := Prod.mk.inj (Except.ok.inj hzero)
    obtain ⟨herror, -⟩ | ⟨-, hsized, -⟩ := hsafe
    · exact herror hcode
    · exact absurd hbuckets (Nat.ne_of_gt hsized.1)

end Funra
