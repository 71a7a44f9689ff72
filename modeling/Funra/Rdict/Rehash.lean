import Funra.Rdict.Update

/-!
# The rehash

`_expand_buckets` tries one table after the other until no bucket gets more entries than it has slots
(`SettlesAt`). It places the entries one by one: `Filled` says what the new table holds so far, and that
the first slots of a bucket are taken, as many as the entries placed there. So a table that is left
early has an overflowing bucket (`place_full`), and one that is kept has none (`rehashLoop_spec`). A
bucket that is exactly full is kept too.
-/

namespace Funra

open Mem Table

variable {K V E : Type} {t : RdictFuncs K V E} {d d' : Rdict K V E} {k : K} {e : RdictEntry K V}
  {w n : Nat} {es table table' old : List (RdictEntry K V)}

/-- The entry's key belongs in bucket `b` of `n`. -/
def inBucket (t : RdictFuncs K V E) (n b : Nat) (e : RdictEntry K V) : Bool :=
  e.key.any fun k => t.hashFunc k % n == b

/-- How many of the entries belong in bucket `b` of `n`. -/
def load (t : RdictFuncs K V E) (n : Nat) (es : List (RdictEntry K V)) (b : Nat) : Nat :=
  es.countP (inBucket t n b)

/-- The new table with the entries `es` in it. -/
structure Filled (t : RdictFuncs K V E) (w n : Nat) (es table : List (RdictEntry K V)) : Prop where
  perm : (table.filter RdictEntry.occupied).Perm es
  compact : Compact w RdictEntry.occupied table
  placed : Placed t w n table
  load_le : ∀ b, load t n es b ≤ w

/-- The bucket counts that `_expand_buckets` tries for a capacity, one after the other. -/
def triedBuckets (scale : Nat → Nat) (w capacity : Nat) : Nat → Nat
  | 0 => bucketCountOf (u32 (scale capacity)) w
  | m + 1 => triedBuckets scale w (expandCapacity (u32 (u32 (scale capacity) * 2))) m

/-- `n` is the first bucket count tried at which no bucket gets more than `w` of the entries. -/
def SettlesAt (t : RdictFuncs K V E) (scale : Nat → Nat) (w : Nat) (es : List (RdictEntry K V))
    (capacity n : Nat) : Prop :=
  ∃ m, triedBuckets scale w capacity m = n ∧ (∀ b, load t n es b ≤ w) ∧
    ∀ j < m, ∃ b, w < load t (triedBuckets scale w capacity j) es b

/-- A table of `n` buckets can be had: it has slots, and fewer than 2^32. -/
def Sized (w n : Nat) : Prop := 0 < n ∧ n * w < 4294967296

/-- The first `m` tables of a call get their memory, and are given up because a bucket overflows. -/
def GivesUp (t : RdictFuncs K V E) (ok : Nat → Bool) (scale : Nat → Nat) (d : Rdict K V E) (capacity m : Nat) :
    Prop :=
  ∀ j < m, ok (d.heap.calls + j) = true ∧ Sized d.bucketCapacity (triedBuckets scale d.bucketCapacity capacity j) ∧
    ∃ b, d.bucketCapacity < load t (triedBuckets scale d.bucketCapacity capacity j) d.entries b

/-- The dictionary after `n` allocations whose tables are freed again. -/
def Rdict.asked (d : Rdict K V E) (n : Nat) : Rdict K V E :=
  { d with heap := { d.heap with calls := d.heap.calls + n } }

/-! ### Loads -/

theorem inBucket_iff {b : Nat} (hk : e.key = some k) :
    inBucket t n b e = true ↔ t.hashFunc k % n = b := by
  rw [inBucket, hk, Option.any_some, beq_iff_eq]

theorem load_perm {es' : List (RdictEntry K V)} (h : es.Perm es') (b : Nat) :
    load t n es b = load t n es' b := h.countP_eq _

theorem SettlesAt.perm {scale : Nat → Nat} {capacity : Nat} {es' : List (RdictEntry K V)}
    (h : es.Perm es') (hs : SettlesAt t scale w es capacity n) :
    SettlesAt t scale w es' capacity n := by
  obtain ⟨m, hm, hle, hlt⟩ := hs
  refine ⟨m, hm, fun b => ?_, fun j hj => ?_⟩
  · rw [← load_perm h]
    exact hle b
  · obtain ⟨b, hb⟩ := hlt j hj
    exact ⟨b, by rwa [← load_perm h]⟩

/-- In a compact table with every entry in its bucket, the load of a bucket tells its free slots. -/
theorem occupied_iff_lt_load {slots : List (RdictEntry K V)} {b j : Nat}
    (hcompact : Compact w RdictEntry.occupied slots) (hplaced : Placed t w n slots) (hj : j < w) :
    Occupied RdictEntry.occupied slots (b * w + j) ↔
      j < load t n (slots.filter RdictEntry.occupied) b := by
  refine occupied_iff_lt_count hcompact (by omega) hj fun i x hi hx => ?_
  obtain ⟨k, hk⟩ := occupied_iff.mp hx
  rw [inBucket_iff hk, hplaced i x k hi hk]

theorem Filled.occupied_iff {b j : Nat} (h : Filled t w n es table) (hj : j < w) :
    Occupied RdictEntry.occupied table (b * w + j) ↔ j < load t n es b := by
  rw [occupied_iff_lt_load h.compact h.placed hj, load_perm h.perm]

theorem lastFree_iff (h : d.Tidy) (hp : Placed t d.bucketCapacity d.buckets d.slots) (b : Nat) :
    LastFree d b ↔ load t d.buckets d.entries b < d.bucketCapacity := by
  have hw := h.width
  rw [LastFree, occupied_iff_lt_load h.compact hp (by omega), Rdict.entries]
  omega

/-! ### Placing an entry -/

theorem probe_some {l : List (RdictEntry K V)} {inc m : Nat} (hinc : inc < w)
    (h : probe w l inc = .ok (some m)) :
    inc ≤ m ∧ m < w ∧ (∃ y, l[m - inc]? = some y ∧ y.occupied = false) ∧
      ∀ j < m - inc, Occupied RdictEntry.occupied l j := by
  induction l generalizing inc with
  | nil => cases h
  | cons x l ih =>
    rw [probe] at h
    by_cases hx : x.key.isNone = true
    · rw [if_pos hx] at h
      cases h
      refine ⟨le_refl _, hinc, ⟨x, by simp, ?_⟩, fun j hj => absurd hj (by omega)⟩
      rw [Option.isNone_iff_eq_none] at hx
      simp [RdictEntry.occupied, hx]
    · rw [if_neg hx] at h
      by_cases hend : w > 0 ∧ inc ≥ w - 1
      · rw [if_pos hend] at h
        cases h
      · rw [if_neg hend] at h
        obtain ⟨hle, hlt, ⟨y, hy, hfree⟩, hpass⟩ := ih (by omega) h
        refine ⟨by omega, hlt, ⟨y, ?_, hfree⟩, fun j hj => ?_⟩
        · rw [show m - inc = (m - (inc + 1)) + 1 by omega]
          exact hy
        · cases j with
          | zero => exact ⟨x, rfl, by simpa [RdictEntry.occupied, Option.isSome_iff_ne_none] using hx⟩
          | succ j => exact hpass j (by omega)

theorem probe_none {l : List (RdictEntry K V)} {inc : Nat} (h : probe w l inc = .ok none) :
    ∀ j, inc + j < w → Occupied RdictEntry.occupied l j := by
  induction l generalizing inc with
  | nil => cases h
  | cons x l ih =>
    intro j hj
    rw [probe] at h
    by_cases hx : x.key.isNone = true
    · rw [if_pos hx] at h
      cases h
    · rw [if_neg hx] at h
      have ho : x.occupied = true := by
        simpa [RdictEntry.occupied, Option.isSome_iff_ne_none] using hx
      cases j with
      | zero => exact ⟨x, rfl, ho⟩
      | succ j =>
        by_cases hend : w > 0 ∧ inc ≥ w - 1
        · omega
        · rw [if_neg hend] at h
          exact ih h j (by omega)

theorem place_some (hw : 0 < w) (h : place t w n table e k = .ok (some table')) :
    0 < n ∧ ∃ inc y, inc < w ∧ table[t.hashFunc k % n * w + inc]? = some y ∧ y.occupied = false ∧
      (∀ j < inc, Occupied RdictEntry.occupied table (t.hashFunc k % n * w + j)) ∧
      table' = table.set (t.hashFunc k % n * w + inc) e := by
  unfold place at h
  split at h
  · cases h
  · dsimp only at h
    split at h
    · cases h
    · cases h
    · rename_i hn inc hprobe
      cases h
      obtain ⟨-, hlt, ⟨y, hy, hfree⟩, hpass⟩ := probe_some hw hprobe
      rw [Nat.sub_zero, List.getElem?_drop] at hy
      refine ⟨by omega, inc, y, hlt, hy, hfree, fun j hj => ?_, rfl⟩
      obtain ⟨x, hx, ho⟩ := hpass j hj
      rw [List.getElem?_drop] at hx
      exact ⟨x, hx, ho⟩

theorem place_none (h : place t w n table e k = .ok none) :
    0 < n ∧ ∀ j < w, Occupied RdictEntry.occupied table (t.hashFunc k % n * w + j) := by
  unfold place at h
  split at h
  · cases h
  · dsimp only at h
    split at h
    · cases h
    · rename_i hn hprobe
      refine ⟨by omega, fun j hj => ?_⟩
      obtain ⟨x, hx, ho⟩ := probe_none hprobe j (by omega)
      rw [List.getElem?_drop] at hx
      exact ⟨x, hx, ho⟩
    · cases h

theorem filled_empty (t : RdictFuncs K V E) (w n m : Nat) :
    Filled t w n [] (List.replicate m RdictEntry.empty) := by
  have hfree : ∀ x ∈ List.replicate m (RdictEntry.empty : RdictEntry K V), x.occupied = false := by
    intro x hx
    rw [List.eq_of_mem_replicate hx]
    rfl
  refine ⟨?_, compact_of_free hfree, fun i e k hi hk => ?_, fun b => Nat.zero_le _⟩
  · rw [List.filter_eq_nil_iff.mpr fun x hx => by simp [hfree x hx]]
  · have := hfree e (List.mem_of_getElem? hi)
    rw [RdictEntry.occupied, hk] at this
    cases this

theorem Filled.perm_right {es' : List (RdictEntry K V)} (h : Filled t w n es table)
    (hp : es.Perm es') : Filled t w n es' table :=
  ⟨h.perm.trans hp, h.compact, h.placed, fun b => load_perm hp b ▸ h.load_le b⟩

/-- One entry more. -/
theorem place_filled (hw : 0 < w) (h : Filled t w n es table) (hk : e.key = some k)
    (hrun : place t w n table e k = .ok (some table')) : Filled t w n (e :: es) table' := by
  obtain ⟨hn, inc, y, hlt, hy, hfree, hpass, rfl⟩ := place_some hw hrun
  have ho : e.occupied = true := occupied_iff.mpr ⟨k, hk⟩
  have hrow : ∀ j < w, (t.hashFunc k % n * w + j) / w = t.hashFunc k % n := by
    intro j hj
    rw [Nat.mul_comm, Nat.mul_add_div hw, Nat.div_eq_of_lt hj, Nat.add_zero]
  have hnot : ¬ Occupied RdictEntry.occupied table (t.hashFunc k % n * w + inc) := by
    rintro ⟨x, hx, hxo⟩
    rw [hy] at hx
    cases hx
    rw [hfree] at hxo
    cases hxo
  refine ⟨(filter_set_perm hy hfree ho).trans (h.perm.cons e), ?_, ?_, fun b => ?_⟩
  · refine h.compact.set (List.getElem?_eq_some_iff.mp hy).1 ho fun j hj hjrow => ?_
    rw [hrow inc hlt] at hjrow
    have hdiv := Nat.div_add_mod j w
    rw [hjrow, Nat.mul_comm] at hdiv
    rw [← hdiv]
    exact hpass _ (by omega)
  · refine placed_set h.placed fun k' hk' => ?_
    rw [hk] at hk'
    cases hk'
    exact hrow inc hlt
  · unfold load
    by_cases hb : inBucket t n b e = true
    · rw [List.countP_cons_of_pos hb]
      rw [inBucket_iff hk] at hb
      have hle := mt (h.occupied_iff hlt).mpr hnot
      rw [hb, load] at hle
      omega
    · rw [List.countP_cons_of_neg hb]
      exact h.load_le b

/-- The table is left when a bucket would get more entries than it has slots. -/
theorem place_full (hw : 0 < w) (h : Filled t w n es table) (hk : e.key = some k)
    (hrun : place t w n table e k = .ok none) : ∃ b, w < load t n (e :: es) b := by
  obtain ⟨-, hocc⟩ := place_none hrun
  have hle := (h.occupied_iff (by omega)).mp (hocc (w - 1) (by omega))
  refine ⟨t.hashFunc k % n, ?_⟩
  rw [load, List.countP_cons_of_pos ((inBucket_iff hk).mpr rfl)]
  rw [load] at hle
  omega

/-! ### The loop -/

/-- The first slot of the next bucket, computed without wrap-around. -/
theorem next_bucket_eq {i capacity buckets : Nat} (hcap : capacity = buckets * w)
    (hlt : capacity < 4294967296) (hw : 0 < w) (hi : i < capacity) :
    u32 (u32 (i / w + 1) * w) = (i / w + 1) * w := by
  have hrow : i / w + 1 ≤ buckets := by
    rw [hcap, Nat.mul_comm] at hi
    exact Nat.div_lt_of_lt_mul hi
  have hmul := Nat.mul_le_mul_right w hrow
  have hone := Nat.le_mul_of_pos_right (i / w + 1) hw
  rw [u32_of_lt (show i / w + 1 < 4294967296 by omega), u32_of_lt (by omega)]

/-- The rounds of a loop that returns. -/
inductive Rehashes (t : RdictFuncs K V E) (old : List (RdictEntry K V)) (capacity w n : Nat) :
    Nat → List (RdictEntry K V) → Option (List (RdictEntry K V)) → Prop
  | done {i : Nat} {table : List (RdictEntry K V)} : ¬ i < capacity → Rehashes t old capacity w n i table (some table)
  | skip {i : Nat} {table : List (RdictEntry K V)} {x : RdictEntry K V} {r : Option (List (RdictEntry K V))} :
      i < capacity → old[i]? = some x → x.key = none →
      Rehashes t old capacity w n (u32 (u32 (i / w + 1) * w)) table r → Rehashes t old capacity w n i table r
  | full {i : Nat} {table : List (RdictEntry K V)} {x : RdictEntry K V} {k : K} :
      i < capacity → old[i]? = some x → x.key = some k → place t w n table x k = .ok none →
      Rehashes t old capacity w n i table none
  | put {i : Nat} {table table' : List (RdictEntry K V)} {x : RdictEntry K V} {k : K}
      {r : Option (List (RdictEntry K V))} :
      i < capacity → old[i]? = some x → x.key = some k → place t w n table x k = .ok (some table') →
      Rehashes t old capacity w n (i + 1) table' r → Rehashes t old capacity w n i table r

theorem rehashLoop_rounds {capacity fuel i : Nat} {r : Option (List (RdictEntry K V))}
    (hrun : rehashLoop t old capacity w n fuel i table = .ok r) : Rehashes t old capacity w n i table r := by
  induction fuel generalizing i table with
  | zero =>
    unfold rehashLoop at hrun
    split at hrun
    · cases hrun
    next hi =>
      cases hrun
      exact .done hi
  | succ fuel ih =>
    unfold rehashLoop at hrun
    by_cases hi : i < capacity
    · rw [if_pos hi] at hrun
      cases hget : old[i]? with
      | none =>
        simp only [hget] at hrun
        cases hrun
      | some x =>
        simp only [hget] at hrun
        cases hx : x.key with
        | none =>
          simp only [hx] at hrun
          exact .skip hi hget hx (ih hrun)
        | some k =>
          simp only [hx] at hrun
          rcases hp : place t w n table x k with f | _ | table'
          · rw [hp] at hrun
            cases hrun
          · rw [hp] at hrun
            cases hrun
            exact .full hi hget hx hp
          · rw [hp] at hrun
            exact .put hi hget hx hp (ih hrun)
    · rw [if_neg hi] at hrun
      cases hrun
      exact .done hi

theorem rehashLoop_spec {capacity buckets fuel i : Nat} {r : Option (List (RdictEntry K V))}
    {all : List (RdictEntry K V)} (hlen : old.length = capacity) (hcap : capacity = buckets * w)
    (hlt : capacity < 4294967296) (hw : 0 < w) (hcompact : Compact w RdictEntry.occupied old)
    (h : Filled t w n es table)
    (hall : (es ++ (old.drop i).filter RdictEntry.occupied).Perm all)
    (hrun : rehashLoop t old capacity w n fuel i table = .ok r) :
    (∀ table', r = some table' → Filled t w n all table') ∧
      (r = none → ∃ b, w < load t n all b) := by
  have hrounds := rehashLoop_rounds hrun
  clear hrun
  induction hrounds generalizing es with
  | done hi =>
    rw [List.drop_eq_nil_of_le (by omega), List.filter_nil, List.append_nil] at hall
    exact ⟨fun _ hr => Option.some.inj hr ▸ h.perm_right hall, fun hr => (by cases hr)⟩
  | @skip i table x r hi hget hx hrest ih =>
    -- the rest of the bucket is free
    have hfree : ¬ Occupied RdictEntry.occupied old i := by
      rintro ⟨y, hy, ho⟩
      rw [hget] at hy
      cases hy
      rw [RdictEntry.occupied, hx] at ho
      cases ho
    rw [filter_drop_of_free hcompact hfree hw, ← next_bucket_eq hcap hlt hw hi] at hall
    exact ih h hall
  | full hi hget hx hp =>
    rw [drop_filter_cons hget (occupied_iff.mpr ⟨_, hx⟩)] at hall
    obtain ⟨b, hb⟩ := place_full hw h hx hp
    refine ⟨fun _ hr => (by cases hr), fun _ => ⟨b, lt_of_lt_of_le hb ?_⟩⟩
    rw [← load_perm (List.perm_middle.symm.trans hall), load, load, ← List.cons_append, List.countP_append]
    omega
  | put hi hget hx hp hrest ih =>
    rw [drop_filter_cons hget (occupied_iff.mpr ⟨_, hx⟩)] at hall
    exact ih (place_filled hw h hx hp) (List.perm_middle.symm.trans hall)

/-! ### The tables tried -/

/-- `d'` is `d` rehashed to `n` buckets. -/
structure Rebuilt (t : RdictFuncs K V E) (n : Nat) (d d' : Rdict K V E) : Prop where
  buckets : d'.buckets = n
  bucketCapacity : d'.bucketCapacity = d.bucketCapacity
  entryNull : d'.entryNull = d.entryNull
  size : d'.size = d.size
  entries : d'.entries.Perm d.entries
  capacity : d'.capacity = u32 (n * d.bucketCapacity)
  inv : n * d.bucketCapacity < 4294967296 → d'.Inv t

/-- `d'` is `d` with its entries in another table, of `n` buckets. -/
structure Moved (t : RdictFuncs K V E) (n : Nat) (d d' : Rdict K V E) : Prop where
  filled : Filled t d.bucketCapacity n d.entries d'.slots
  length : d'.slots.length = u32 (n * d.bucketCapacity)
  table : d'.entry.isSome = true
  buckets : d'.buckets = n
  bucketCapacity : d'.bucketCapacity = d.bucketCapacity
  entryNull : d'.entryNull = d.entryNull
  size : d'.size = d.size
  capacity : d'.capacity = u32 (n * d.bucketCapacity)
  dataExt : d'.dataExt = d.dataExt

theorem Rdict.Tidy.of_heap (h : d.Tidy) (heap : RdictHeap) : Rdict.Tidy { d with heap } :=
  ⟨h.width, h.table, h.length, h.capacity_eq, h.capacity_lt, h.compact⟩

theorem Rdict.Inv.of_heap (h : d.Inv t) (heap : RdictHeap) : Rdict.Inv t { d with heap } :=
  inv_of_tidy (h.tidy.of_heap heap) h.placed h.unique h.size_eq

theorem Moved.of_heap {heap : RdictHeap} (h : Moved t n { d with heap } d') : Moved t n d d' :=
  ⟨h.filled, h.length, h.table, h.buckets, h.bucketCapacity, h.entryNull, h.size, h.capacity, h.dataExt⟩

theorem Moved.entries (hm : Moved t n d d') : d'.entries.Perm d.entries := hm.filled.perm

theorem Moved.placed (hm : Moved t n d d') : Placed t d'.bucketCapacity d'.buckets d'.slots := by
  rw [hm.bucketCapacity, hm.buckets]
  exact hm.filled.placed

theorem Moved.tidy (hm : Moved t n d d') (h : d.Tidy) (hlt : n * d.bucketCapacity < 4294967296) : d'.Tidy where
  width := by
    rw [hm.bucketCapacity]
    exact h.width
  table := hm.table
  length := by rw [hm.length, hm.capacity]
  capacity_eq := by rw [hm.capacity, hm.buckets, hm.bucketCapacity, u32_of_lt hlt]
  capacity_lt := by
    rw [hm.capacity, u32_of_lt hlt]
    exact hlt
  compact := by
    rw [hm.bucketCapacity]
    exact hm.filled.compact

theorem Moved.rebuilt (hm : Moved t n d d') (h : d.Inv t) : Rebuilt t n d d' := by
  refine ⟨hm.buckets, hm.bucketCapacity, hm.entryNull, hm.size, hm.entries, hm.capacity, fun hlt => ?_⟩
  apply inv_of_tidy (hm.tidy h.tidy hlt) hm.placed (pairwise_perm hm.entries.symm h.unique)
  rw [hm.size, h.size_eq, hm.entryNull, hm.entries.length_eq]

theorem place_length (hrun : place t w n table e k = .ok (some table')) :
    table'.length = table.length := by
  unfold place at hrun
  split at hrun
  · cases hrun
  · dsimp only at hrun
    split at hrun
    · cases hrun
    · cases hrun
    · cases hrun
      exact List.length_set ..

theorem Rehashes.length {capacity i : Nat} (h : Rehashes t old capacity w n i table (some table')) :
    table'.length = table.length := by
  generalize hr : some table' = r at h
  induction h with
  | done _ =>
    cases hr
    rfl
  | skip _ _ _ _ ih => exact ih hr
  | full _ _ _ _ => cases hr
  | put _ _ _ hp _ ih => rw [ih hr, place_length hp]

/-! ### The attempts of a call -/

/-- A bucket that is full lies inside the table. -/
theorem place_none_length (hw : 0 < w) (h : place t w n table e k = .ok none) : w ≤ table.length := by
  obtain ⟨x, hx, -⟩ := (place_none h).2 (w - 1) (by omega)
  have hlt := (List.getElem?_eq_some_iff.mp hx).1
  omega

theorem Rehashes.none_length {capacity i : Nat} (hw : 0 < w) (h : Rehashes t old capacity w n i table none) :
    w ≤ table.length := by
  generalize hr : none = r at h
  induction h with
  | done _ => cases hr
  | skip _ _ _ _ ih => exact ih hr
  | full _ _ _ hp => exact place_none_length hw hp
  | put _ _ _ hp _ ih =>
    rw [← place_length hp]
    exact ih hr

/-- The bucket count does not exceed what the capacity asks for by a whole bucket. -/
theorem bucketCountOf_mul_lt {capacity : Nat} (hw : 0 < w) : bucketCountOf capacity w * w < capacity + w := by
  have hdiv := Nat.div_add_mod capacity w
  have hmod := Nat.mod_lt capacity hw
  rw [Nat.mul_comm] at hdiv
  unfold bucketCountOf
  split
  · omega
  · rw [Nat.succ_mul]
    omega

/-- A table whose slots wrap around is smaller than one bucket. -/
theorem u32_lt_of_wrap {c : Nat} (hw : 0 < w) (hwrap : 4294967296 ≤ bucketCountOf (u32 c) w * w) :
    u32 (bucketCountOf (u32 c) w * w) < w := by
  have hlt : bucketCountOf (u32 c) w * w < u32 c + w := bucketCountOf_mul_lt hw
  have hc : u32 c < 4294967296 := Nat.mod_lt _ (by decide)
  by_cases hbig : w < 4294967296
  · unfold u32 at hlt hc hwrap ⊢
    omega
  · exact Nat.lt_of_lt_of_le (Nat.mod_lt _ (by decide)) (Nat.not_lt.mp hbig)

theorem triedBuckets_eq (scale : Nat → Nat) (w capacity m : Nat) :
    ∃ c, triedBuckets scale w capacity m = bucketCountOf (u32 c) w := by
  induction m generalizing capacity with
  | zero => exact ⟨scale capacity, rfl⟩
  | succ m ih => exact ih (expandCapacity (u32 (u32 (scale capacity) * 2)))

/-- Only a table that could be had is given up. -/
theorem sized_of_none {c capacity fuel i : Nat} (hw : 0 < w)
    (hrun : rehashLoop t old capacity w (bucketCountOf (u32 c) w) fuel i
      (List.replicate (u32 (bucketCountOf (u32 c) w * w)) RdictEntry.empty) = .ok none) :
    Sized w (bucketCountOf (u32 c) w) := by
  have hlen := (rehashLoop_rounds hrun).none_length hw
  rw [List.length_replicate] at hlen
  constructor
  · rcases Nat.eq_zero_or_pos (bucketCountOf (u32 c) w) with hzero | hpos
    · rw [hzero, Nat.zero_mul, u32_of_lt (by decide)] at hlen
      omega
    · exact hpos
  · by_contra hwrap
    exact absurd hlen (Nat.not_le.mpr (u32_lt_of_wrap hw (Nat.not_lt.mp hwrap)))

/-- How a call of `_expand_buckets` that returns ends, after tables that it has given up. -/
inductive ExpandEnds (t : RdictFuncs K V E) (ok : Nat → Bool) (scale : Nat → Nat) (d : Rdict K V E)
    (capacity m : Nat) : Int → Rdict K V E → Prop
  | refused : ok (d.heap.calls + m) = false → ExpandEnds t ok scale d capacity m rdictCodeError (d.asked (m + 1))
  | settled {d' : Rdict K V E} {old slots : List (RdictEntry K V)} {oldId : Nat} : ok (d.heap.calls + m) = true →
      Moved t (triedBuckets scale d.bucketCapacity capacity m) d d' → d.entry = some (oldId, old) →
      d'.entry = some (d.heap.calls + m, slots) →
      d'.heap = ((d.asked (m + 1)).heap.addTable (d.heap.calls + m)).freeTable oldId →
      ExpandEnds t ok scale d capacity m rdictCodeOk d'

theorem Rdict.Tidy.asked (h : d.Tidy) (n : Nat) : (d.asked n).Tidy := h.of_heap _

/-- The heap after a table that is given up. -/
theorem freeTable_addTable (h : RdictHeap) (id : Nat) : (h.addTable id).freeTable id = h := by
  simp [RdictHeap.addTable, RdictHeap.freeTable]

/-- A table that is given up leaves one allocation behind. -/
theorem ExpandEnds.of_asked {ok : Nat → Bool} {scale : Nat → Nat} {capacity m : Nat} {code : Int}
    (h : ExpandEnds t ok scale (d.asked 1) (expandCapacity (u32 (u32 (scale capacity) * 2))) m code d') :
    ExpandEnds t ok scale d capacity (m + 1) code d' := by
  have hcalls : (d.asked 1).heap.calls + m = d.heap.calls + (m + 1) := by
    show d.heap.calls + 1 + m = _
    omega
  cases h with
  | refused hno =>
    rw [hcalls] at hno
    have hend : (d.asked 1).asked (m + 1) = d.asked (m + 1 + 1) := by
      unfold Rdict.asked
      simp only [Rdict.mk.injEq, RdictHeap.mk.injEq, true_and, and_true]
      omega
    rw [hend]
    exact .refused hno
  | settled hyes hmoved hold hnew hheap =>
    rw [hcalls] at hyes hnew hheap
    refine .settled hyes hmoved.of_heap hold hnew ?_
    rw [hheap]
    unfold Rdict.asked
    simp only [RdictHeap.addTable, RdictHeap.freeTable, RdictHeap.mk.injEq, and_true]
    omega

theorem GivesUp.succ {ok : Nat → Bool} {scale : Nat → Nat} {capacity m : Nat}
    (hhead : ok d.heap.calls = true ∧ Sized d.bucketCapacity (triedBuckets scale d.bucketCapacity capacity 0) ∧
      ∃ b, d.bucketCapacity < load t (triedBuckets scale d.bucketCapacity capacity 0) d.entries b)
    (h : GivesUp t ok scale (d.asked 1) (expandCapacity (u32 (u32 (scale capacity) * 2))) m) :
    GivesUp t ok scale d capacity (m + 1) := by
  intro j hj
  cases j with
  | zero => exact hhead
  | succ j =>
    obtain ⟨hok, hrest⟩ := h j (by omega)
    refine ⟨?_, hrest⟩
    rw [show d.heap.calls + (j + 1) = (d.asked 1).heap.calls + j by
      show _ = d.heap.calls + 1 + j
      omega]
    exact hok

/-- A call that returns has given up some tables, and then had no memory or found a table to keep. -/
theorem expandBuckets_ends {ok : Nat → Bool} {scale : Nat → Nat} {fuel capacity : Nat} {code : Int}
    (h : d.Tidy) (hrun : expandBuckets t ok scale fuel d capacity = .ok (code, d')) :
    ∃ m, GivesUp t ok scale d capacity m ∧ ExpandEnds t ok scale d capacity m code d' := by
  induction fuel generalizing d capacity with
  | zero => cases hrun
  | succ fuel ih =>
    obtain ⟨⟨oldId, old⟩, hold⟩ := Option.isSome_iff_exists.mp h.table
    have hslots : d.slots = old := by rw [Rdict.slots, hold]
    rw [expandBuckets] at hrun
    generalize hn : bucketCountOf (u32 (scale capacity)) d.bucketCapacity = n at hrun
    dsimp only at hrun
    by_cases hok : ok d.heap.calls = true
    · simp only [RdictHeap.alloc, hok, if_true, hold] at hrun
      cases hr : rehashLoop t old d.capacity d.bucketCapacity n d.capacity 0
          (List.replicate (u32 (n * d.bucketCapacity)) RdictEntry.empty) with
      | error f =>
        rw [hr] at hrun
        cases hrun
      | ok r =>
        have hall : ([] ++ (old.drop 0).filter RdictEntry.occupied).Perm d.entries := by
          rw [List.nil_append, List.drop_zero, ← hslots]
          exact List.Perm.refl _
        obtain ⟨hsome, hnone⟩ := rehashLoop_spec (hslots ▸ h.length) h.capacity_eq h.capacity_lt
          h.width (hslots ▸ h.compact) (filled_empty t d.bucketCapacity n _) hall hr
        rw [hr] at hrun
        cases r with
        | some table =>
          cases hrun
          refine ⟨0, fun j hj => absurd hj (Nat.not_lt_zero j), .settled hok ?_ hold rfl rfl⟩
          rw [triedBuckets, hn]
          refine ⟨hsome table rfl, ?_, rfl, rfl, rfl, rfl, rfl, rfl, rfl⟩
          exact (rehashLoop_rounds hr).length.trans (List.length_replicate ..)
        | none =>
          dsimp only at hrun
          rw [← hold, freeTable_addTable] at hrun
          obtain ⟨m, hgives, hends⟩ := ih (h.asked 1) hrun
          refine ⟨m + 1, hgives.succ ⟨hok, ?_, ?_⟩, hends.of_asked⟩
          · rw [triedBuckets, hn]
            subst hn
            exact sized_of_none h.width hr
          · rw [triedBuckets, hn]
            exact hnone rfl
    · simp only [RdictHeap.alloc, hok, Bool.false_eq_true, if_false] at hrun
      cases hrun
      exact ⟨0, fun j hj => absurd hj (Nat.not_lt_zero j), .refused (Bool.eq_false_iff.mpr hok)⟩

theorem expandBuckets_moved {ok : Nat → Bool} {scale : Nat → Nat} {fuel capacity : Nat} {code : Int}
    (h : d.Tidy) (hrun : expandBuckets t ok scale fuel d capacity = .ok (code, d')) :
    (code = rdictCodeError ∧ (∃ heap, d' = { d with heap }) ∧ ∃ i, ok i = false) ∨
      (code = rdictCodeOk ∧ ∃ n, SettlesAt t scale d.bucketCapacity d.entries capacity n ∧
        Moved t n d d') := by
  obtain ⟨m, hgives, hends⟩ := expandBuckets_ends h hrun
  cases hends with
  | refused hno => exact .inl ⟨rfl, ⟨_, rfl⟩, _, hno⟩
  | settled _ hmoved =>
    exact .inr ⟨rfl, _, ⟨m, rfl, hmoved.filled.load_le, fun j hj => (hgives j hj).2.2⟩, hmoved⟩

theorem expandBuckets_spec {ok : Nat → Bool} {scale : Nat → Nat} {fuel capacity : Nat} {code : Int}
    (h : d.Inv t) (hrun : expandBuckets t ok scale fuel d capacity = .ok (code, d')) :
    (code = rdictCodeError ∧ (∃ heap, d' = { d with heap }) ∧ ∃ i, ok i = false) ∨
      (code = rdictCodeOk ∧ ∃ n, SettlesAt t scale d.bucketCapacity d.entries capacity n ∧
        Rebuilt t n d d') := by
  rcases expandBuckets_moved h.tidy hrun with herror | ⟨hcode, n, hsettles, hmoved⟩
  · exact .inl herror
  · exact .inr ⟨hcode, n, hsettles, hmoved.rebuilt h⟩

/-- With memory for every table. -/
theorem expandBuckets_ok {ok : Nat → Bool} {scale : Nat → Nat} {fuel capacity : Nat} {code : Int}
    (hok : ∀ i, ok i = true) (h : d.Tidy)
    (hrun : expandBuckets t ok scale fuel d capacity = .ok (code, d')) :
    code = rdictCodeOk ∧ ∃ n, SettlesAt t scale d.bucketCapacity d.entries capacity n ∧ Moved t n d d' := by
  rcases expandBuckets_moved h hrun with ⟨-, -, i, hi⟩ | hmoved
  · rw [hok i] at hi
    cases hi
  · exact hmoved

end Funra
