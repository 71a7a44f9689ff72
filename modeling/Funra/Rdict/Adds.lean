import Funra.Rdict.Returns

/-!
# The additions that return

`AddEnds` is not only enough for the end of an addition, but for a key without an entry also needed
(`rdictAdd_addEnds`): a table without slots, or whose slots wrap around, is smaller than a bucket, and an addition
that has found a bucket crowded finds no room there. So for every dictionary that `rdict_create` makes and all
sequences of different keys, `adds_return_iff` says which additions return.
-/

namespace Funra

open Mem Table System

variable {K V E : Type} {t : RdictFuncs K V E} {d d' : Rdict K V E} {k : K} {e : RdictEntry K V} {ok : Nat → Bool}
  {scale : Nat → Nat} {w n m capacity fuel : Nat} {val : Option V}

/-- No entry has the key. -/
def Absent (t : RdictFuncs K V E) (d : Rdict K V E) (k : K) : Prop := ∀ e ∈ d.entries, ¬ HasKey t k e

/-- The table is smaller than a bucket. -/
def Small (d : Rdict K V E) : Prop := d.slots.length < d.bucketCapacity

theorem Absent.perm (h : Absent t d k) (hp : d'.entries.Perm d.entries) : Absent t d' k :=
  fun e he => h e (hp.mem_iff.mp he)

/-- The search for a key without an entry stops at a free slot. -/
theorem Absent.free (habsent : Absent t d k) (hscan : scan t k (d.slots.drop (d.start t k)) = .ok (n, e)) :
    e.occupied = false := by
  obtain ⟨hslot, hstop, -⟩ := scan_slot hscan
  apply Bool.eq_false_iff.mpr
  intro ho
  exact habsent e (mem_entries.mpr ⟨_, hslot, ho⟩) (hstop ho)

/-! ### Tables smaller than a bucket -/

/-- A table that a rehash leaves can be had, or is small. -/
theorem Moved.sized_or_small (hw : 0 < d.bucketCapacity)
    (hm : Moved t (triedBuckets scale d.bucketCapacity capacity m) d d') :
    Sized d.bucketCapacity (triedBuckets scale d.bucketCapacity capacity m) ∨ Small d' := by
  obtain ⟨c, hc⟩ := triedBuckets_eq scale d.bucketCapacity capacity m
  unfold Small
  rw [hm.length, hm.bucketCapacity, hc]
  by_cases hlt : bucketCountOf (u32 c) d.bucketCapacity * d.bucketCapacity < 4294967296
  · rcases Nat.eq_zero_or_pos (bucketCountOf (u32 c) d.bucketCapacity) with hzero | hpos
    · rw [hzero, Nat.zero_mul, u32_of_lt (by decide)]
      exact .inr hw
    · exact .inl ⟨hpos, hlt⟩
  · exact .inr (u32_lt_of_wrap hw (Nat.not_lt.mp hlt))

theorem Small.scan_lt (h : Small d) (hscan : scan t k (d.slots.drop (d.start t k)) = .ok (n, e)) :
    n < d.bucketCapacity - 1 := by
  have hlt := (List.getElem?_eq_some_iff.mp (scan_slot hscan).1).1
  unfold Small at h
  omega

/-- A small table with the entries of a crowded bucket has no free slot. -/
theorem Small.not_scan (h : Small d) (habsent : Absent t d k) (hfull : d.bucketCapacity - 1 ≤ d.entries.length) :
    scan t k (d.slots.drop (d.start t k)) ≠ .ok (n, e) := by
  intro hscan
  have hmem : e ∈ d.slots := List.mem_of_getElem? (scan_slot hscan).1
  have hlt : d.entries.length < d.slots.length :=
    List.length_filter_lt_length_iff_exists.mpr ⟨e, hmem, by simp [habsent.free hscan]⟩
  unfold Small at h
  omega

/-! ### The tables of an addition -/

/-- Whole buckets, with every key in its own. -/
def Shaped (t : RdictFuncs K V E) (d : Rdict K V E) : Prop :=
  d.Tidy ∧ Placed t d.bucketCapacity d.buckets d.slots

/-- `d'` is `d` after the rehashes of an addition of `k`. -/
inductive Grown (t : RdictFuncs K V E) (ok : Nat → Bool) (scale : Nat → Nat) (k : K) :
    Rdict K V E → Rdict K V E → Prop
  | refl (d : Rdict K V E) : Grown t ok scale k d d
  | step {d d₁ d' : Rdict K V E} {n fuel : Nat} {e : RdictEntry K V} :
      scan t k (d.slots.drop (d.start t k)) = .ok (n, e) → d.bucketCapacity - 1 ≤ n →
      rdictExpand t ok scale fuel d d.capacity = .ok (rdictCodeOk, d₁) → Grown t ok scale k d₁ d' →
      Grown t ok scale k d d'

/-- How an addition ends behind its rehashes. -/
inductive AddLast (t : RdictFuncs K V E) (ok : Nat → Bool) (scale : Nat → Nat) (k : K) (val : Option V)
    (d : Rdict K V E) : Int → Rdict K V E → Prop
  | put {n : Nat} {e : RdictEntry K V} : 0 < d.buckets → scan t k (d.slots.drop (d.start t k)) = .ok (n, e) →
      n < d.bucketCapacity - 1 → AddLast t ok scale k val d rdictCodeOk (putAt t d (d.start t k + n) e k val)
  | refused {n m : Nat} {e : RdictEntry K V} : scan t k (d.slots.drop (d.start t k)) = .ok (n, e) →
      d.bucketCapacity - 1 ≤ n → ok (d.heap.calls + m) = false →
      AddLast t ok scale k val d rdictCodeError (d.asked (m + 1))

theorem ExpandEnds.moved (h : ExpandEnds t ok scale d capacity m rdictCodeOk d') :
    Moved t (triedBuckets scale d.bucketCapacity capacity m) d d' := by
  generalize hcode : rdictCodeOk = code at h
  cases h with
  | refused _ => cases hcode
  | settled _ hmoved => exact hmoved

/-- What a rehash leaves. -/
theorem ExpandEnds.shaped_or_small (hd : d.Tidy) (h : ExpandEnds t ok scale d capacity m rdictCodeOk d') :
    Sized d.bucketCapacity (triedBuckets scale d.bucketCapacity capacity m) ∧ Shaped t d' ∨ Small d' := by
  rcases h.moved.sized_or_small hd.width with hsized | hsmall
  · exact .inl ⟨hsized, h.moved.tidy hd hsized.2, h.moved.placed⟩
  · exact .inr hsmall

/-- An addition that returns has rehashed some times, and then found its slot or no memory. -/
theorem rdictAdd_grown {code : Int} (hd : Shaped t d ∨ Small d)
    (hrun : rdictAdd t ok scale fuel d (some k) val = .ok (code, d')) :
    ∃ d₁, Grown t ok scale k d d₁ ∧ AddLast t ok scale k val d₁ code d' := by
  induction fuel generalizing d with
  | zero => cases hrun
  | succ fuel ih =>
    obtain ⟨hpos, hround⟩ := rdictAdd_cases hrun
    cases hround with
    | put hscan hn => exact ⟨d, .refl d, .put hpos hscan hn⟩
    | refused hscan hn hx hcode =>
      obtain ⟨htidy, -⟩ := hd.resolve_right fun hsmall => absurd (hsmall.scan_lt hscan) (Nat.not_lt.mpr hn)
      obtain ⟨m, -, hends⟩ := expandBuckets_ends htidy hx
      cases hends with
      | refused hno => exact ⟨d, .refl d, .refused hscan hn hno⟩
      | settled _ _ => exact absurd rfl hcode
    | again hscan hn hx hrest =>
      obtain ⟨htidy, -⟩ := hd.resolve_right fun hsmall => absurd (hsmall.scan_lt hscan) (Nat.not_lt.mpr hn)
      obtain ⟨m, -, hends⟩ := expandBuckets_ends htidy hx
      obtain ⟨d₂, hgrown, hlast⟩ := ih ((hends.shaped_or_small htidy).imp And.right id) hrest
      exact ⟨d₂, .step hscan hn hx hgrown, hlast⟩

/-- A small table is not rehashed. -/
theorem Grown.eq_of_small (h : Grown t ok scale k d d') (hsmall : Small d) : d' = d := by
  cases h with
  | refl => rfl
  | step hscan hn => exact absurd (hsmall.scan_lt hscan) (Nat.not_lt.mpr hn)

theorem AddLast.put_of_ok {code : Int} (hok : ∀ i, ok i = true) (h : AddLast t ok scale k val d code d') :
    code = rdictCodeOk ∧ 0 < d.buckets ∧ ∃ n e, scan t k (d.slots.drop (d.start t k)) = .ok (n, e) ∧
      n < d.bucketCapacity - 1 ∧ d' = putAt t d (d.start t k + n) e k val := by
  cases h with
  | put hpos hscan hn => exact ⟨rfl, hpos, _, _, hscan, hn, rfl⟩
  | refused _ _ hno =>
    rw [hok] at hno
    cases hno

/-! ### What an addition that returns has met -/

theorem others_le_load (es : List (RdictEntry K V)) :
    others t n es k ≤ load t n es (t.hashFunc k % n) := by
  apply List.countP_mono_left
  intro x _ hx
  exact (Bool.and_eq_true_iff.mp hx).1

/-- A search that stops at a free slot ends as the loads say. -/
theorem scanEnds_of_free (h : d.Tidy) (hp : Placed t d.bucketCapacity d.buckets d.slots)
    (hscan : scan t k (d.slots.drop (d.start t k)) = .ok (n, e)) (hfree : e.occupied = false) :
    ScanEnds t d.bucketCapacity d.entries k d.buckets := by
  have hslot := (scan_slot hscan).1
  have hw := h.width
  have hlt := (List.getElem?_eq_some_iff.mp hslot).1
  rw [h.length, h.capacity_eq, Nat.mul_comm] at hlt
  have hrow := Nat.mod_lt (d.start t k + n) hw
  refine ⟨(d.start t k + n) / d.bucketCapacity, ?_, Nat.div_lt_of_lt_mul hlt, .inr ?_⟩
  · apply (Nat.le_div_iff_mul_le hw).mpr
    exact Nat.le_add_right _ n
  · have hnot : ¬ Occupied RdictEntry.occupied d.slots
        ((d.start t k + n) / d.bucketCapacity * d.bucketCapacity + (d.start t k + n) % d.bucketCapacity) := by
      rw [Nat.div_add_mod']
      rintro ⟨x, hx, ho⟩
      rw [hslot] at hx
      cases hx
      rw [hfree] at ho
      cases ho
    rw [occupied_iff_lt_load h.compact hp hrow] at hnot
    exact Nat.lt_of_le_of_lt (Nat.not_lt.mp hnot) hrow

/-- Where a search stops before the last slot of the bucket, there is room. -/
theorem others_lt_of_free (h : d.Tidy) (hp : Placed t d.bucketCapacity d.buckets d.slots)
    (hscan : scan t k (d.slots.drop (d.start t k)) = .ok (n, e)) (hfree : e.occupied = false)
    (hn : n < d.bucketCapacity - 1) : others t d.buckets d.entries k < d.bucketCapacity - 1 := by
  have hnot : ¬ Occupied RdictEntry.occupied d.slots (t.hashFunc k % d.buckets * d.bucketCapacity + n) := by
    rintro ⟨x, hx, ho⟩
    rw [show d.slots[t.hashFunc k % d.buckets * d.bucketCapacity + n]? = some e from (scan_slot hscan).1] at hx
    cases hx
    rw [hfree] at ho
    cases ho
  rw [occupied_iff_lt_load h.compact hp (by omega)] at hnot
  have hle := others_le_load (t := t) (n := d.buckets) (k := k) d.entries
  exact Nat.lt_of_le_of_lt (hle.trans (Nat.not_lt.mp hnot)) hn

/-- The rehashes of an addition that finds its slot are those of `AddEnds`. -/
theorem Grown.addEnds (h : Grown t ok scale k d d') (hd : Shaped t d) (habsent : Absent t d k)
    (hscan : scan t k (d'.slots.drop (d'.start t k)) = .ok (n, e)) (hn : n < d'.bucketCapacity - 1) :
    AddEnds t scale d.bucketCapacity d.entries k d.buckets := by
  induction h with
  | refl d => exact .room (others_lt_of_free hd.1 hd.2 hscan (habsent.free hscan) hn)
  | @step d d₁ d' n' fuel e' hscan' hn' hx hgrown ih =>
    obtain ⟨m, hgives, hends⟩ := expandBuckets_ends hd.1 hx
    have hmoved := hends.moved
    have habsent' := habsent.perm hmoved.entries
    have hothers := ((crowded_iff hscan').mpr hn').le_others hd.1 hd.2
    rcases hends.shaped_or_small hd.1 with ⟨hsized, hshaped⟩ | hsmall
    · have hrest := ih hshaped habsent' hscan hn
      rw [hmoved.bucketCapacity, hmoved.buckets] at hrest
      rw [hd.1.capacity_eq] at hgives hrest hmoved hsized
      refine .rehash (scanEnds_of_free hd.1 hd.2 hscan' (habsent.free hscan'))
        ⟨m, rfl, hmoved.filled.load_le, ?_, ?_⟩ (hrest.perm hmoved.entries)
      · exact fun j hj => (hgives j hj).2.2
      · intro j hj
        rcases Nat.lt_or_eq_of_le hj with hlt | rfl
        · exact (hgives j hlt).2.1
        · exact hsized
    · rw [hgrown.eq_of_small hsmall] at hscan
      refine absurd hscan (hsmall.not_scan habsent' ?_)
      rw [hmoved.bucketCapacity, hmoved.entries.length_eq]
      exact hothers.trans List.countP_le_length

/-- An addition that returns meets `AddEnds`. -/
theorem rdictAdd_addEnds (hok : ∀ i, ok i = true) (hd : Shaped t d) (habsent : Absent t d k)
    {r : Int × Rdict K V E} (hrun : rdictAdd t ok scale fuel d (some k) val = .ok r) :
    AddEnds t scale d.bucketCapacity d.entries k d.buckets := by
  obtain ⟨d₁, hgrown, hlast⟩ := rdictAdd_grown (.inl hd) hrun
  obtain ⟨-, -, n, e, hscan, hn, -⟩ := hlast.put_of_ok hok
  exact hgrown.addEnds hd habsent hscan hn

/-- All the tables of an addition that ends can be had. -/
theorem AddEnds.sized {es : List (RdictEntry K V)} {m : Nat} (h : AddEnds t scale w es k n)
    (hs : AddSettles t scale w es k n m) : Sized w m := by
  induction h with
  | @room n hroom =>
    have hcrowd : w - 1 ≤ others t n es k := by
      cases hs with
      | once hcrowd _ => exact hcrowd
      | again hcrowd _ _ => exact hcrowd
    omega
  | rehash _ hends _ ih =>
    cases hs with
    | once _ hsettles =>
      rw [hsettles.unique hends.settles]
      exact hends.fits
    | again _ hsettles hrest =>
      rw [hsettles.unique hends.settles] at hrest
      exact ih hrest

/-- Exactly when the addition of a new key returns. -/
theorem rdictAdd_returns_iff (hok : ∀ i, ok i = true) (hd : Shaped t d) (hbuckets : 0 < d.buckets)
    (habsent : Absent t d k) (val : Option V) :
    (∃ fuel r, rdictAdd t ok scale fuel d (some k) val = .ok r) ↔ RoundEnds t scale d k := by
  constructor
  · rintro ⟨fuel, r, hrun⟩
    exact (rdictAdd_addEnds hok hd habsent hrun).round hd.1 hd.2
  · exact rdictAdd_total hok val hd.1 hbuckets

/-! ### Sequences of additions -/

/-- The condition on an addition of `k`: the search ends in the table, and so does what follows it. -/
def ReturnsAt (t : RdictFuncs K V E) (scale : Nat → Nat) (d : Rdict K V E) (k : K) : Prop :=
  0 < d.buckets ∧ Stops t d k ∧ RoundEnds t scale d k

/-- Every addition of the sequence returns. -/
def AddsReturn (t : RdictFuncs K V E) (ok : Nat → Bool) (scale : Nat → Nat) :
    Rdict K V E → List (Option K × Option V) → Prop
  | _, [] => True
  | d, (key, val) :: kvs => ∃ d', RdictStep t ok scale d (.add key val) d' ∧ AddsReturn t ok scale d' kvs

/-- Every addition of the sequence meets its condition in the state that those before it lead to. -/
def AddsMeet (t : RdictFuncs K V E) (ok : Nat → Bool) (scale : Nat → Nat) :
    Rdict K V E → List (Option K × Option V) → Prop
  | _, [] => True
  | d, (key, val) :: kvs => (∀ k, key = some k → ReturnsAt t scale d k) ∧
      ∀ d', RdictStep t ok scale d (.add key val) d' → AddsMeet t ok scale d' kvs

/-- The tables that additions to a new dictionary lead to. -/
def Ready (t : RdictFuncs K V E) (d : Rdict K V E) : Prop := Shaped t d ∧ 0 < d.buckets ∨ Small d

theorem Ready.shaped_or_small (h : Ready t d) : Shaped t d ∨ Small d := h.imp And.left id

/-- The table is in four fields. -/
theorem Ready.of_fields (h : Ready t d) (hentry : d'.entry = d.entry) (hcap : d'.capacity = d.capacity)
    (hbuckets : d'.buckets = d.buckets) (hw : d'.bucketCapacity = d.bucketCapacity) : Ready t d' := by
  have hslots : d'.slots = d.slots := by rw [Rdict.slots, Rdict.slots, hentry]
  rcases h with ⟨⟨htidy, hplaced⟩, hpos⟩ | hsmall
  · refine .inl ⟨⟨htidy.of_fields hentry hcap hbuckets hw, ?_⟩, hbuckets ▸ hpos⟩
    rw [hslots, hbuckets, hw]
    exact hplaced
  · refine .inr ?_
    unfold Small at hsmall ⊢
    rw [hslots, hw]
    exact hsmall

theorem addNull_fields (t : RdictFuncs K V E) (ok : Nat → Bool) (d : Rdict K V E) (val : Option V) :
    (addNull t ok d val).entry = d.entry ∧ (addNull t ok d val).capacity = d.capacity ∧
      (addNull t ok d val).buckets = d.buckets ∧ (addNull t ok d val).bucketCapacity = d.bucketCapacity := by
  unfold addNull
  split
  · split <;> exact ⟨rfl, rfl, rfl, rfl⟩
  · exact ⟨rfl, rfl, rfl, rfl⟩

theorem Grown.ready (h : Grown t ok scale k d d') (hd : Ready t d) :
    Ready t d' ∧ d'.entries.Perm d.entries := by
  induction h with
  | refl d => exact ⟨hd, List.Perm.refl _⟩
  | @step d d₁ d' n fuel e hscan hn hx hgrown ih =>
    obtain ⟨⟨htidy, -⟩, -⟩ := hd.resolve_right fun hsmall => absurd (hsmall.scan_lt hscan) (Nat.not_lt.mpr hn)
    obtain ⟨m, hgives, hends⟩ := expandBuckets_ends htidy hx
    have hd₁ : Ready t d₁ := by
      rcases hends.shaped_or_small htidy with ⟨hsized, hshaped⟩ | hsmall
      · exact .inl ⟨hshaped, hends.moved.buckets ▸ hsized.1⟩
      · exact .inr hsmall
    obtain ⟨hready, hperm⟩ := ih hd₁
    exact ⟨hready, hperm.trans hends.moved.entries⟩

/-- Only an allocated table has slots. -/
theorem isSome_of_slot {i : Nat} (h : d.slots[i]? = some e) : d.entry.isSome = true := by
  cases hentry : d.entry with
  | none =>
    rw [Rdict.slots, hentry] at h
    cases h
  | some _ => rfl

theorem Stops.of_scan (hscan : scan t k (d.slots.drop (d.start t k)) = .ok (n, e)) : Stops t d k := by
  obtain ⟨hslot, hstop, -⟩ := scan_slot hscan
  exact ⟨d.start t k + n, e, Nat.le_add_right _ n, hslot, hstop⟩

/-- A key without an entry gets a new one where its search stops. -/
theorem putAt_absent (hc : Compatible t) (habsent : Absent t d k)
    (hscan : scan t k (d.slots.drop (d.start t k)) = .ok (n, e)) (val : Option V) :
    ∃ x, HasKey t k x ∧ (putAt t d (d.start t k + n) e k val).slots = d.slots.set (d.start t k + n) x ∧
      (putAt t d (d.start t k + n) e k val).entry.isSome = true := by
  obtain ⟨hslot, -, -⟩ := scan_slot hscan
  have hkey : e.key = none := by
    rw [← Option.isNone_iff_eq_none]
    simpa [RdictEntry.occupied] using habsent.free hscan
  have htable := isSome_of_slot hslot
  obtain ⟨k', hcopy, heq⟩ := hc.copy_key d.dataExt k
  refine ⟨_, ⟨k', hcopy, heq⟩, putAt_free_slots _ k val htable hkey, ?_⟩
  simp only [putAt, hkey]
  rw [isSome_withSlots]
  exact htable

/-- A new entry in its slot. -/
theorem Ready.put (hc : Compatible t) (hd : Ready t d) (habsent : Absent t d k)
    (hscan : scan t k (d.slots.drop (d.start t k)) = .ok (n, e)) (hn : n < d.bucketCapacity - 1) (val : Option V) :
    Ready t (putAt t d (d.start t k + n) e k val) ∧
      ∀ x ∈ (putAt t d (d.start t k + n) e k val).entries, x ∈ d.entries ∨ HasKey t k x := by
  obtain ⟨x, hxhas, hslots, hentry⟩ := putAt_absent hc habsent hscan val
  have hshape := putAt_shape t d (d.start t k + n) e k val
  generalize putAt t d (d.start t k + n) e k val = d' at *
  constructor
  · rcases hd with ⟨⟨htidy, hplaced⟩, hpos⟩ | hsmall
    · refine .inl ⟨⟨htidy.of_shape hshape hentry (by rw [hslots, List.length_set]) ?_, ?_⟩, hshape.buckets ▸ hpos⟩
      · rw [hslots]
        exact compact_at_scan htidy hscan (by omega) hxhas.occupied
      · rw [hslots, hshape.buckets, hshape.bucketCapacity]
        refine placed_set hplaced fun k'' hk'' => ?_
        obtain ⟨k', hxkey, heq⟩ := hxhas
        rw [hxkey] at hk''
        cases hk''
        rw [htidy.start_row (by omega), hc.hash_eq heq]
    · refine .inr ?_
      unfold Small at hsmall ⊢
      rw [hslots, List.length_set, hshape.bucketCapacity]
      exact hsmall
  · intro y hy
    rw [Rdict.entries, hslots, List.mem_filter] at hy
    rcases List.mem_or_eq_of_mem_set hy.1 with hmem | rfl
    · exact .inl (List.mem_filter.mpr ⟨hmem, hy.2⟩)
    · exact .inr hxhas

/-- An addition that returns leaves such a table, without any other new key. -/
theorem Ready.step (hc : Compatible t) (hok : ∀ i, ok i = true) (hd : Ready t d) {key : Option K}
    (habsent : ∀ k, key = some k → Absent t d k) (hstep : RdictStep t ok scale d (.add key val) d') :
    Ready t d' ∧ ∀ k', keyEq t key (some k') = false → Absent t d k' → Absent t d' k' := by
  cases key with
  | none =>
    obtain rfl := hstep.eq_addNull
    obtain ⟨hentry, hcap, hbuckets, hw⟩ := addNull_fields t ok d val
    refine ⟨hd.of_fields hentry hcap hbuckets hw, fun k' _ habs => ?_⟩
    unfold Absent Rdict.entries Rdict.slots at habs ⊢
    rwa [hentry]
  | some k =>
    obtain ⟨fuel, code, hrun⟩ := hstep
    obtain ⟨d₁, hgrown, hlast⟩ := rdictAdd_grown hd.shaped_or_small hrun
    obtain ⟨hready, hperm⟩ := hgrown.ready hd
    obtain ⟨-, -, n, e, hscan, hn, rfl⟩ := hlast.put_of_ok hok
    obtain ⟨hput, hnew⟩ := hready.put hc ((habsent k rfl).perm hperm) hscan hn val
    refine ⟨hput, fun k' hne habs x hx hk' => ?_⟩
    rcases hnew x hx with hmem | ⟨a, ha, hak⟩
    · exact habs.perm hperm x hmem hk'
    · obtain ⟨b, hb, hbk⟩ := hk'
      rw [ha] at hb
      cases hb
      have heq : t.isKeyEqual k k' = true := hc.trans (hc.symm hak) hbk
      rw [show keyEq t (some k) (some k') = t.isKeyEqual k k' from rfl, heq] at hne
      cases hne

/-- An addition begins with a search. -/
theorem RdictStep.add_scan (hstep : RdictStep t ok scale d (.add (some k) val) d') :
    0 < d.buckets ∧ ∃ n e, scan t k (d.slots.drop (d.start t k)) = .ok (n, e) := by
  obtain ⟨fuel, code, hrun⟩ := hstep
  cases fuel with
  | zero => cases hrun
  | succ fuel =>
    obtain ⟨hpos, hround⟩ := rdictAdd_cases hrun
    refine ⟨hpos, ?_⟩
    cases hround with
    | put hscan _ => exact ⟨_, _, hscan⟩
    | refused hscan _ _ _ => exact ⟨_, _, hscan⟩
    | again hscan _ _ _ => exact ⟨_, _, hscan⟩

/-- A search that ends before the last slot of the bucket is all that an addition needs. -/
theorem step_of_scan (val : Option V) (hpos : 0 < d.buckets) (hscan : scan t k (d.slots.drop (d.start t k)) = .ok (n, e))
    (hn : n < d.bucketCapacity - 1) : ∃ d', RdictStep t ok scale d (.add (some k) val) d' := by
  have hfb : findBucket t d k = .ok (d.start t k) := by
    have htable := isSome_of_slot (scan_slot hscan).1
    rw [findBucket, if_neg (Nat.ne_of_gt hpos), ← Option.not_isSome, htable]
    rfl
  exact ⟨_, 1, rdictCodeOk, (rdictAdd_round hfb hscan).trans (if_neg (Nat.not_le.mpr hn))⟩

/-- Exactly when one addition returns. -/
theorem Ready.returns_iff (hok : ∀ i, ok i = true) (hd : Ready t d) (habsent : Absent t d k) :
    (∃ d', RdictStep t ok scale d (.add (some k) val) d') ↔ ReturnsAt t scale d k := by
  rcases hd with ⟨hshaped, hpos⟩ | hsmall
  · constructor
    · rintro ⟨d', hstep⟩
      obtain ⟨-, n, e, hscan⟩ := hstep.add_scan
      obtain ⟨fuel, code, hrun⟩ := hstep
      exact ⟨hpos, .of_scan hscan, (rdictAdd_returns_iff hok hshaped hpos habsent val).mp ⟨fuel, _, hrun⟩⟩
    · rintro ⟨-, -, hround⟩
      obtain ⟨fuel, r, hrun⟩ := (rdictAdd_returns_iff hok hshaped hpos habsent val).mpr hround
      exact ⟨r.2, fuel, r.1, hrun⟩
  · constructor
    · rintro ⟨d', hstep⟩
      obtain ⟨hpos, n, e, hscan⟩ := hstep.add_scan
      refine ⟨hpos, .of_scan hscan, fun hcrowd => ?_⟩
      exact absurd (hsmall.scan_lt hscan) (Nat.not_lt.mpr ((crowded_iff hscan).mp hcrowd))
    · rintro ⟨hpos, hstop, -⟩
      obtain ⟨n, e, hscan⟩ := hstop.scan_ok
      exact step_of_scan val hpos hscan (hsmall.scan_lt hscan)

/-- Exactly when all additions of a sequence of new, different keys return. -/
theorem Ready.adds_iff (hc : Compatible t) (hok : ∀ i, ok i = true) {kvs : List (Option K × Option V)}
    (hd : Ready t d) (hdiff : (kvs.map Prod.fst).Pairwise fun a b => keyEq t a b = false)
    (habsent : ∀ k, some k ∈ kvs.map Prod.fst → Absent t d k) :
    AddsReturn t ok scale d kvs ↔ AddsMeet t ok scale d kvs := by
  induction kvs generalizing d with
  | nil => exact Iff.rfl
  | cons kv kvs ih =>
    obtain ⟨key, val⟩ := kv
    obtain ⟨hhead, htail⟩ := List.pairwise_cons.mp hdiff
    have hkey (k : K) (hk : key = some k) : Absent t d k := habsent k (by rw [← hk]; exact List.mem_cons_self)
    have hrest (d' : Rdict K V E) (hstep : RdictStep t ok scale d (.add key val) d') :
        AddsReturn t ok scale d' kvs ↔ AddsMeet t ok scale d' kvs := by
      obtain ⟨hready, hnew⟩ := hd.step hc hok hkey hstep
      refine ih hready htail fun k hk => hnew k (hhead _ hk) ?_
      exact habsent k (List.mem_cons_of_mem _ hk)
    have hone : (∃ d', RdictStep t ok scale d (.add key val) d') ↔ ∀ k, key = some k → ReturnsAt t scale d k := by
      cases key with
      | none => exact iff_of_true ⟨_, 1, _, rfl⟩ (fun k hk => nomatch hk)
      | some k =>
        rw [hd.returns_iff hok (hkey k rfl)]
        constructor
        · intro h k' hk'
          cases hk'
          exact h
        · exact fun h => h k rfl
    rw [AddsReturn, AddsMeet, ← hone]
    constructor
    · rintro ⟨d', hstep, hreturn⟩
      refine ⟨⟨d', hstep⟩, fun d'' hstep' => ?_⟩
      rw [← hstep.unique hstep']
      exact (hrest d' hstep).mp hreturn
    · rintro ⟨⟨d', hstep⟩, hmeet⟩
      exact ⟨d', hstep, (hrest d' hstep).mpr (hmeet d' hstep)⟩

/-- A new dictionary, of whatever capacity. -/
theorem ready_create {init bc : Nat} {ext : E} {heap : RdictHeap} (hbc : 0 < bc) (hok : ok heap.calls = true)
    (hcreate : rdictCreate t ok scale fuel init bc ext heap = .ok d) : Ready t d ∧ d.entries = [] := by
  obtain ⟨n, hn, hvacant, hw, hcap, -⟩ := rdictCreate_spec hbc hok hcreate
  refine ⟨?_, hvacant.entries⟩
  have hlen : d.slots.length = u32 (n * bc) := by rw [hvacant.slots, List.length_replicate, hcap]
  by_cases hlt : n * bc < 4294967296
  · rcases Nat.eq_zero_or_pos n with hzero | hpos
    · refine .inr ?_
      rw [Small, hlen, hw, hzero, Nat.zero_mul, u32_of_lt (by decide)]
      exact hbc
    · have hinv : d.Inv t := hvacant.inv (hw ▸ hbc) (by rw [hcap, hw, u32_of_lt hlt]) (by rwa [hcap, u32_of_lt hlt])
      exact .inl ⟨⟨hinv.tidy, hinv.placed⟩, hvacant.buckets ▸ hpos⟩
  · refine .inr ?_
    rw [Small, hlen, hw, hn]
    apply u32_lt_of_wrap hbc
    rwa [← hn, ← Nat.not_lt]

/-- For every dictionary that `rdict_create` makes and every sequence of different keys, with memory for every
table: exactly when each addition returns. -/
theorem adds_return_iff (hc : Compatible t) (hok : ∀ i, ok i = true) {init bc : Nat} {ext : E} {heap : RdictHeap}
    (hbc : 1 ≤ bc) (hcreate : rdictCreate t ok scale fuel init bc ext heap = .ok d)
    {kvs : List (Option K × Option V)} (hdiff : (kvs.map Prod.fst).Pairwise fun a b => keyEq t a b = false) :
    AddsReturn t ok scale d kvs ↔ AddsMeet t ok scale d kvs := by
  obtain ⟨hready, hentries⟩ := ready_create hbc (hok _) hcreate
  refine hready.adds_iff hc hok hdiff fun k _ e he => ?_
  rw [hentries] at he
  cases he

/-- 4, 9 and 6 can be added, the last of them by a rehash, and 14 cannot behind them: 4 and 9 fill its bucket,
which is the last. -/
theorem adds_return_iff_four :
    let d := uint64Dict 0 [.empty, .empty, .empty, .empty] 0 2 1
    let kvs : List (Option Nat × Option Nat) := [(some 4, some 7), (some 9, none), (some 6, some 8)]
    AddsMeet uint64Funcs (fun _ => true) exactScale d kvs ∧
      ¬ AddsReturn uint64Funcs (fun _ => true) exactScale d (kvs ++ [(some 14, none)]) := by
  intro d kvs
  obtain ⟨hadd₁, hadd₂, hadd₃⟩ := uint64Dict_adds
  have hcreate : rdictCreate uint64Funcs (fun _ => true) exactScale 1 3 2 () ⟨0, []⟩ = .ok d := rfl
  constructor
  · exact (adds_return_iff uint64Funcs_compatible (fun _ => rfl) (by decide) hcreate (by decide)).1
      ⟨_, hadd₁, _, hadd₂, _, hadd₃, trivial⟩
  · intro hreturn
    have hmeet := (adds_return_iff uint64Funcs_compatible (fun _ => rfl) (by decide) hcreate (by decide)).1 hreturn
    obtain ⟨-, ⟨i, e, hi, hslot, hstop⟩, -⟩ := (((hmeet.2 _ hadd₁).2 _ hadd₂).2 _ hadd₃).1 14 rfl
    have hlt : i < 10 := (List.getElem?_eq_some_iff.mp hslot).1
    have hi' : 8 ≤ i := hi
    obtain rfl | rfl : i = 8 ∨ i = 9 := by omega
    · cases hslot
      obtain ⟨k, hk, heq⟩ := hstop rfl
      cases hk
      exact absurd heq (by decide)
    · cases hslot
      obtain ⟨k, hk, heq⟩ := hstop rfl
      cases hk
      exact absurd heq (by decide)
/-- All bucket counts that an addition which ends can settle at have fewer than 2^32 slots. -/
theorem AddEnds.settles_fits {es : List (RdictEntry K V)} {m : Nat} (h : AddEnds t scale w es k n)
    (hs : AddSettles t scale w es k n m) : 0 < m ∧ m * w < 4294967296 := by
  induction h with
  | room hroom =>
    cases hs with
    | once hcrowd _ => omega
    | again hcrowd _ _ => omega
  | rehash _ hrehash _ ih =>
    cases hs with
    | once _ hs => exact hs.unique hrehash.settles ▸ hrehash.fits
    | again _ hs hrest => exact ih (hs.unique hrehash.settles ▸ hrest)

theorem RoundEnds.settles_fits {m : Nat} (h : d.Inv t) (hb : 0 < d.buckets) (habsent : Absent t d k)
    (hends : RoundEnds t scale d k) (hs : AddSettles t scale d.bucketCapacity d.entries k d.buckets m) :
    0 < m ∧ m * d.bucketCapacity < 4294967296 := by
  have hcrowd : Crowded t d k := by
    by_contra hno
    obtain ⟨n, e, hscan⟩ := (stops_of_not_crowded h.tidy hb hno).scan_ok
    have hn := Nat.not_le.mp (mt (crowded_iff hscan).mpr hno)
    have hlt := others_lt_of_free h.tidy h.placed hscan (habsent.free hscan) hn
    cases hs with
    | once hle _ => omega
    | again hle _ _ => omega
  obtain ⟨-, l, hrehash, hends⟩ := hends hcrowd
  rw [h.capacity_eq] at hrehash
  cases hs with
  | once _ hs => exact hs.unique hrehash.settles ▸ hrehash.fits
  | again _ hs hrest => exact hends.settles_fits (hs.unique hrehash.settles ▸ hrest)

/-- A bucket of one slot never has room. -/
theorem AddEnds.width {es : List (RdictEntry K V)} (h : AddEnds t scale w es k n) : 2 ≤ w := by
  induction h with
  | room hroom => omega
  | rehash _ _ _ ih => exact ih

/-- With `bucket_capacity` 1 the first addition goes on for ever. -/
theorem adds_never_return : ¬ ∀ (init bc : Nat) (d : Rdict Nat Nat Unit) (kvs : List (Option Nat × Option Nat)),
    1 ≤ bc → rdictCreate uint64Funcs (fun _ => true) exactScale 1 init bc () ⟨0, []⟩ = .ok d →
      (kvs.map Prod.fst).Pairwise (fun a b => keyEq uint64Funcs a b = false) →
        AddsReturn uint64Funcs (fun _ => true) exactScale d kvs := by
  intro hall
  obtain ⟨d, hcreate⟩ : ∃ d, rdictCreate uint64Funcs (fun _ => true) exactScale 1 1 1 () ⟨0, []⟩ = .ok d := ⟨_, rfl⟩
  obtain ⟨d', ⟨fuel, code, hrun⟩, -⟩ := hall 1 1 d [(some 5, none)] (by decide) hcreate (List.pairwise_singleton _ _)
  obtain ⟨hready, hentries⟩ := ready_create (by decide) rfl hcreate
  have habsent : Absent uint64Funcs d 5 := by
    intro e he
    rw [hentries] at he
    cases he
  cases hcreate
  obtain ⟨hshaped, -⟩ := hready.resolve_right (by unfold Small; decide)
  have hwidth := (rdictAdd_addEnds (fun _ => rfl) hshaped habsent hrun).width
  exact absurd hwidth (by decide)

end Funra
