import Funra.Rdict.Ops

/-!
# Iterating

A call of `rdict_next` with the cursor at slot `i` goes to the first occupied slot from `i` on, or there
is none (`nextFrom_spec`). It skips the rest of a bucket behind a free slot, so the slots from the cursor
on have to be compact, the ones before it need not be: `rdict_clear` frees the entries as it passes them
(`rdictClear_total`). `rdictRemove_entry` is the removal of an entry the iteration has returned.
-/

namespace Funra

open Mem Table

variable {K V E : Type} {t : RdictFuncs K V E} {d d' : Rdict K V E} {k : K} {e : RdictEntry K V}

/-- From slot `i` on, the occupied slots of a bucket come first. -/
def CompactFrom (w : Nat) (slots : List (RdictEntry K V)) (i : Nat) : Prop :=
  ∀ j l, i ≤ j → j ≤ l → j / w = l / w → Occupied RdictEntry.occupied slots l →
    Occupied RdictEntry.occupied slots j

/-- What `rdict_next` looks at: whole buckets of more than one slot, in order from the cursor on. -/
structure Iterable (d : Rdict K V E) (i : Nat) : Prop where
  width : 2 ≤ d.bucketCapacity
  length : d.slots.length = d.capacity
  capacity : ∃ n, d.capacity = n * d.bucketCapacity
  compact : CompactFrom d.bucketCapacity d.slots i

/-- The result of a call with the cursor at slot `i`. -/
def NextFrom (d : Rdict K V E) (i : Nat) (r : Option RdictRef × Option Nat) : Prop :=
  (∃ j, i ≤ j ∧ r = (some (.slot j), some (j + 1)) ∧ Occupied RdictEntry.occupied d.slots j ∧
    ∀ l, i ≤ l → l < j → ¬ Occupied RdictEntry.occupied d.slots l) ∨
  (∃ i', i ≤ i' ∧ r = (none, some i') ∧ ∀ l, i ≤ l → ¬ Occupied RdictEntry.occupied d.slots l)

theorem Rdict.Tidy.iterable (h : d.Tidy) (hw : 2 ≤ d.bucketCapacity) (i : Nat) : Iterable d i :=
  ⟨hw, h.length, ⟨d.buckets, h.capacity_eq⟩, fun j l _ hjl hrow hl => h.compact j l hjl hrow hl⟩

/-! ### One call -/

theorem NextFrom.skip {i i' : Nat} {r : Option RdictRef × Option Nat} (hle : i ≤ i')
    (hfree : ∀ l, i ≤ l → l < i' → ¬ Occupied RdictEntry.occupied d.slots l)
    (h : NextFrom d i' r) : NextFrom d i r := by
  rcases h with ⟨j, hj, hr, hocc, hskip⟩ | ⟨i'', hi'', hr, hnone⟩
  · refine .inl ⟨j, by omega, hr, hocc, fun l hl hlj => ?_⟩
    rcases Nat.lt_or_ge l i' with hlt | hge
    · exact hfree l hl hlt
    · exact hskip l hge hlj
  · refine .inr ⟨i'', by omega, hr, fun l hl => ?_⟩
    rcases Nat.lt_or_ge l i' with hlt | hge
    · exact hfree l hl hlt
    · exact hnone l hge

/-- The first slot of the next bucket, and the free ones before it. -/
theorem Iterable.row_free {i : Nat} (h : Iterable d i)
    (hi : ¬ Occupied RdictEntry.occupied d.slots i) :
    i < (i / d.bucketCapacity + 1) * d.bucketCapacity ∧
      ∀ l, i ≤ l → l < (i / d.bucketCapacity + 1) * d.bucketCapacity →
        ¬ Occupied RdictEntry.occupied d.slots l := by
  have hw := h.width
  refine ⟨Nat.lt_mul_of_div_lt (Nat.lt_succ_self _) (by omega), fun l hl hlt hocc => hi ?_⟩
  refine h.compact i l (le_refl i) hl ?_ hocc
  have hle := Nat.div_le_div_right (c := d.bucketCapacity) hl
  have hlt' : l / d.bucketCapacity < i / d.bucketCapacity + 1 :=
    Nat.div_lt_of_lt_mul (by rw [Nat.mul_comm]; exact hlt)
  omega

theorem Iterable.mono {i i' : Nat} (h : Iterable d i) (hle : i ≤ i') : Iterable d i' :=
  ⟨h.width, h.length, h.capacity, fun j l hj => h.compact j l (by omega)⟩

theorem not_occupied_of_ge (hlen : d.slots.length = d.capacity) {l : Nat} (h : d.capacity ≤ l) :
    ¬ Occupied RdictEntry.occupied d.slots l := by
  intro hocc
  have := hocc.lt
  omega

theorem occupied_iff_of_get {i : Nat} (hget : d.slots[i]? = some e) :
    Occupied RdictEntry.occupied d.slots i ↔ e.key.isSome = true := by
  constructor
  · rintro ⟨x, hx, ho⟩
    rw [hget] at hx
    cases hx
    exact ho
  · intro ho
    exact ⟨e, hget, ho⟩

theorem NextFrom.here {i : Nat} (hget : d.slots[i]? = some e) (ho : e.key.isSome = true) :
    NextFrom d i (some (.slot i), some (i + 1)) := by
  refine .inl ⟨i, le_refl i, rfl, (occupied_iff_of_get hget).mpr ho, ?_⟩
  intro l hl hlt
  omega

theorem NextFrom.nothing {i : Nat} (hlen : d.slots.length = d.capacity) (hi : d.capacity ≤ i) :
    NextFrom d i (none, some i) :=
  .inr ⟨i, le_refl i, rfl, fun _ hl => not_occupied_of_ge hlen (hi.trans hl)⟩

theorem nextBucket_spec {fuel i : Nat} (h : Iterable d i) (hrow : i % d.bucketCapacity = 0)
    (hfuel : d.capacity ≤ i + fuel) :
    ∃ r, nextBucket d.slots d.capacity d.bucketCapacity fuel i = .ok r ∧ NextFrom d i r := by
  induction fuel generalizing i with
  | zero =>
    unfold nextBucket
    rw [if_neg (by omega)]
    exact ⟨_, rfl, .nothing h.length (by omega)⟩
  | succ fuel ih =>
    unfold nextBucket
    by_cases hi : i + 1 < d.capacity
    · rw [if_pos hi]
      obtain ⟨e, hget⟩ : ∃ e, d.slots[i]? = some e :=
        ⟨_, List.getElem?_eq_getElem (by rw [h.length]; omega)⟩
      simp only [hget]
      by_cases ho : e.key.isSome = true
      · rw [if_pos ho]
        exact ⟨_, rfl, .here hget ho⟩
      · rw [if_neg ho]
        obtain ⟨hlt, hfree⟩ := h.row_free (mt (occupied_iff_of_get hget).mp ho)
        obtain ⟨r, hr, hnext⟩ := ih (h.mono hlt.le) (Nat.mul_mod_left _ _) (by omega)
        exact ⟨r, hr, hnext.skip hlt.le hfree⟩
    · rw [if_neg hi]
      -- a bucket that starts before the end has two slots before the end
      have hend : d.capacity ≤ i := by
        obtain ⟨n, hn⟩ := h.capacity
        have hw := h.width
        have hdiv := Nat.div_add_mod i d.bucketCapacity
        rw [hrow, Nat.add_zero] at hdiv
        by_contra hlt
        have hrows : i / d.bucketCapacity < n := by
          refine Nat.div_lt_of_lt_mul ?_
          rw [Nat.mul_comm, ← hn]
          omega
        have hmul := Nat.mul_le_mul_left d.bucketCapacity (show i / d.bucketCapacity + 1 ≤ n from hrows)
        rw [Nat.mul_succ, hdiv, Nat.mul_comm, ← hn] at hmul
        omega
      exact ⟨_, rfl, .nothing h.length (by omega)⟩

theorem nextFrom_spec {i : Nat} (h : Iterable d i) :
    ∃ r, nextFrom d i = .ok r ∧ NextFrom d i r := by
  unfold nextFrom
  by_cases hi : i < d.capacity
  · rw [if_pos hi]
    obtain ⟨e, hget⟩ : ∃ e, d.slots[i]? = some e :=
      ⟨_, List.getElem?_eq_getElem (by rw [h.length]; omega)⟩
    simp only [hget]
    by_cases ho : e.key.isSome = true
    · rw [if_pos ho]
      exact ⟨_, rfl, .here hget ho⟩
    · rw [if_neg ho]
      obtain ⟨hlt, hfree⟩ := h.row_free (mt (occupied_iff_of_get hget).mp ho)
      obtain ⟨r, hr, hnext⟩ := nextBucket_spec (h.mono hlt.le) (Nat.mul_mod_left _ _)
        (Nat.le_add_left d.capacity _)
      exact ⟨r, hr, hnext.skip hlt.le hfree⟩
  · rw [if_neg hi]
    exact ⟨_, rfl, .nothing h.length (by omega)⟩

/-- What a call leaves of the entries from the cursor on. -/
theorem NextFrom.entries {i : Nat} {r : Option RdictRef × Option Nat} (h : NextFrom d i r) :
    (∃ j e, i ≤ j ∧ r = (some (.slot j), some (j + 1)) ∧ d.slots[j]? = some e ∧ j < d.slots.length ∧
      (d.slots.drop i).filter RdictEntry.occupied =
        e :: (d.slots.drop (j + 1)).filter RdictEntry.occupied) ∨
    (∃ i', r = (none, some i') ∧ (d.slots.drop i).filter RdictEntry.occupied = []) := by
  rcases h with ⟨j, hj, hr, hocc, hskip⟩ | ⟨i', -, hr, hnone⟩
  · obtain ⟨e, hget, ho⟩ := id hocc
    refine .inl ⟨j, e, hj, hr, hget, hocc.lt, ?_⟩
    rw [filter_drop_skip hj hskip, drop_filter_cons hget ho]
  · refine .inr ⟨i', hr, filter_eq_nil_of_free ?_⟩
    rintro l ⟨x, hx, ho⟩
    rw [List.getElem?_drop] at hx
    exact hnone (i + l) (Nat.le_add_right i l) ⟨x, hx, ho⟩

/-! ### Clearing -/

/-- Behind the cursor nothing changes when an entry that was passed is freed. -/
theorem Iterable.free {j : Nat} (h : Iterable d j) (hd : d.entry.isSome = true)
    (hj : Occupied RdictEntry.occupied d.slots j) :
    Iterable (freeAt t d (.slot j)) (j + 1) := by
  have hslots : (freeAt t d (.slot j)).slots = d.slots.set j RdictEntry.empty :=
    slots_of_entry hd rfl
  have hother : ∀ l, j + 1 ≤ l → (Occupied RdictEntry.occupied (freeAt t d (.slot j)).slots l ↔
      Occupied RdictEntry.occupied d.slots l) := by
    intro l hl
    rw [hslots, occupied_set _ hj.lt, if_neg (by omega)]
  refine ⟨h.width, ?_, h.capacity, fun l l' hl hll' hrow hocc => ?_⟩
  · rw [hslots, List.length_set]
    exact h.length
  · rw [hother l' (by omega)] at hocc
    rw [hother l hl]
    exact h.compact l l' (by omega) hll' hrow hocc

theorem clearLoop_total {fuel i : Nat} (h : Iterable d i) (hd : d.entry.isSome = true)
    (hnull : d.entryNull = none) (hi : i ≤ d.capacity) (hfuel : d.capacity < i + fuel) :
    ∃ d', clearLoop t fuel d (some i) = .ok d' := by
  induction fuel generalizing d i with
  | zero => omega
  | succ fuel ih =>
    obtain ⟨r, hr, hnext⟩ := nextFrom_spec h
    simp only [clearLoop, rdictNext, hr, bind, Except.bind]
    rcases hnext with ⟨j, hj, rfl, hocc, -⟩ | ⟨i', -, rfl, -⟩
    · obtain ⟨hshape, hsome⟩ := freeAt_shape (t := t) hnull (.slot j)
      have hlt := hocc.lt
      rw [h.length] at hlt
      refine ih ((h.mono hj).free hd hocc) (hsome.trans hd) (hshape.entryNull.trans hnull) ?_ ?_
      · rw [hshape.capacity]
        exact hlt
      · rw [hshape.capacity]
        omega
    · exact ⟨d, rfl⟩

theorem rdictNext_none (hnull : d.entryNull = none) : rdictNext d none = rdictNext d (some 0) := by
  simp only [rdictNext, hnull, Option.isSome_none, Bool.false_eq_true, if_false]

/-- `rdict_clear` returns. -/
theorem rdictClear_total (h : d.Tidy) (hw : 2 ≤ d.bucketCapacity) :
    ∃ d', rdictClear t d = .ok d' := by
  unfold rdictClear
  dsimp only
  generalize (d.entryNull.map (freeEntry t d.dataExt)).getD d.dataExt = ext
  have hstart : Iterable { d with entryNull := none, dataExt := ext } 0 :=
    ⟨hw, h.length, ⟨d.buckets, h.capacity_eq⟩, (h.iterable hw 0).compact⟩
  have hfuel : d.capacity < 0 + (d.capacity + 1) := by omega
  obtain ⟨d', hd'⟩ := clearLoop_total (t := t) hstart h.table rfl (Nat.zero_le _) hfuel
  have hnone : clearLoop t (d.capacity + 1) { d with entryNull := none, dataExt := ext } none =
      .ok d' := by
    rw [← hd']
    unfold clearLoop
    rw [rdictNext_none rfl]
  simp only [hnone, bind, Except.bind]
  exact ⟨_, rfl⟩

/-! ### Removing what was returned -/

theorem moveLast_total {slots : List (RdictEntry K V)} {i m : Nat} (h : i + m < slots.length) :
    ∃ slots', moveLast slots i m = .ok slots' := by
  induction m with
  | zero => exact ⟨slots, rfl⟩
  | succ m ih =>
    unfold moveLast
    rw [List.getElem?_eq_getElem h]
    dsimp only
    split
    · exact ⟨_, rfl⟩
    · exact ih (by omega)

/-- An entry with the key is the one with the key. -/
theorem entry_unique (h : d.Inv t) {a b : RdictEntry K V} (ha : a ∈ d.entries) (hb : b ∈ d.entries)
    (hka : HasKey t k a) (hkb : HasKey t k b) : a = b := by
  obtain ⟨i, hi, -⟩ := mem_entries.mp ha
  obtain ⟨j, hj, -⟩ := mem_entries.mp hb
  have hij := h.slot_unique hi hj hka hkb
  subst hij
  rw [hi] at hj
  exact Option.some.inj hj

theorem buckets_pos (h : d.Inv t) (he : e ∈ d.entries) : 0 < d.buckets := by
  obtain ⟨i, hi, -⟩ := mem_entries.mp he
  have hlt := (List.getElem?_eq_some_iff.mp hi).1
  rw [h.length, h.capacity_eq] at hlt
  by_contra h0
  rw [Nat.eq_zero_of_not_pos h0] at hlt
  omega

/-- `rdict_remove` of the key of an entry takes that entry away. -/
theorem rdictRemove_entry (hc : Compatible t) (h : d.Inv t) (he : e ∈ d.entries)
    (hk : e.key = some k) : ∃ d', rdictRemove t d (some k) = .ok (rdictCodeOk, d') ∧ d'.Inv t ∧
      SameShape d d' ∧ d.entries.Perm (e :: d'.entries) := by
  have hhas : HasKey t k e := ⟨k, hk, hc.refl k⟩
  have hbuckets := buckets_pos h he
  obtain ⟨n, hn, -, hscan⟩ := removeScan_present hc h he hhas
  have hw := h.width
  have hlast := h.tidy.last_slot_lt (Nat.mod_lt (t.hashFunc k) hbuckets)
  obtain ⟨slots, hslots⟩ : ∃ slots, moveLast (d.slots.set (d.start t k + n) RdictEntry.empty)
      (d.start t k + n) (d.bucketCapacity - 1 - n) = .ok slots := by
    refine moveLast_total ?_
    rw [List.length_set]
    unfold Rdict.start
    omega
  obtain ⟨d', hrun⟩ : ∃ d', rdictRemove t d (some k) = .ok (rdictCodeOk, d') := by
    simp only [rdictRemove, h.tidy.findBucket_ok hbuckets, bind, Except.bind, hscan, hslots]
    exact ⟨_, rfl⟩
  obtain ⟨hinv, ⟨habsent, hold⟩, hshape, -⟩ := rdictRemove_spec hc h hrun
  refine ⟨d', hrun, hinv, hshape, ?_⟩
  rcases hold with hperm | ⟨e', he', hperm⟩
  · exact absurd hhas (habsent e (hperm.mem_iff.mp he))
  · have hmem : e' ∈ d.entries := hperm.mem_iff.mpr List.mem_cons_self
    rw [entry_unique h he hmem hhas he']
    exact hperm

end Funra
