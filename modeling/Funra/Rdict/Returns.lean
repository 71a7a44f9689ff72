import Funra.Rdict.Iter
import Funra.Rdict.Refine

/-!
# The calls that return

`rdict_add` goes on for as long as a search runs on and a rehash does not settle. `RoundEnds` and `AddEnds` are
enough for an end: the searches meet a free slot or the key inside the table, and every table that is tried has
slots, and fewer than 2^32 (`rdictAdd_total`). Behind a full last bucket the first fails, for keys of one hash
the second. Nothing is asked of the hash and of the comparison here. What a call returns does not depend on
the bound on its rounds (`RdictStep.unique`).
-/

namespace Funra

open Mem Table System

variable {K V E : Type} {t : RdictFuncs K V E} {d d' : Rdict K V E} {k : K} {e : RdictEntry K V}
  {ok : Nat → Bool} {scale : Nat → Nat} {w n capacity : Nat} {es table old : List (RdictEntry K V)}

/-- A rehash settles at `n`, and all the bucket counts tried up to it can be had. -/
def RehashEnds (t : RdictFuncs K V E) (scale : Nat → Nat) (w : Nat) (es : List (RdictEntry K V))
    (capacity n : Nat) : Prop :=
  ∃ m, triedBuckets scale w capacity m = n ∧ (∀ b, load t n es b ≤ w) ∧
    (∀ j < m, ∃ b, w < load t (triedBuckets scale w capacity j) es b) ∧
    ∀ j ≤ m, 0 < triedBuckets scale w capacity j ∧ triedBuckets scale w capacity j * w < 4294967296

/-- One of the buckets from that of the key on has an entry with the key, or room. -/
def ScanEnds (t : RdictFuncs K V E) (w : Nat) (es : List (RdictEntry K V)) (k : K) (n : Nat) : Prop :=
  ∃ b, t.hashFunc k % n ≤ b ∧ b < n ∧
    ((∃ e ∈ es, inBucket t n b e = true ∧ HasKey t k e) ∨ load t n es b < w)

/-- Adding `k` to a rehashed table of `n` buckets ends. -/
inductive AddEnds (t : RdictFuncs K V E) (scale : Nat → Nat) (w : Nat) (es : List (RdictEntry K V))
    (k : K) : Nat → Prop
  | room {n : Nat} : others t n es k < w - 1 → AddEnds t scale w es k n
  | rehash {n m : Nat} : ScanEnds t w es k n → RehashEnds t scale w es (expandCapacity (n * w)) m →
      AddEnds t scale w es k m → AddEnds t scale w es k n

/-- From the bucket of `k` on there is an entry with the key, or a free slot. -/
def Stops (t : RdictFuncs K V E) (d : Rdict K V E) (k : K) : Prop :=
  ∃ i e, d.start t k ≤ i ∧ d.slots[i]? = some e ∧ (e.occupied = true → HasKey t k e)

/-- Adding `k` to `d` ends: where the bucket is crowded, the search does, and what comes behind the rehash. -/
def RoundEnds (t : RdictFuncs K V E) (scale : Nat → Nat) (d : Rdict K V E) (k : K) : Prop :=
  Crowded t d k → Stops t d k ∧
    ∃ m, RehashEnds t scale d.bucketCapacity d.entries (expandCapacity d.capacity) m ∧
      AddEnds t scale d.bucketCapacity d.entries k m

/-- The condition on a call: its searches end in the table, and the tables it tries can be had. -/
def RdictEnds (t : RdictFuncs K V E) (scale : Nat → Nat) (d : Rdict K V E) : RdictOp K V → Prop
  | .add (some k) _ => RoundEnds t scale d k
  | .expand capacity => ∃ n, RehashEnds t scale d.bucketCapacity d.entries (expandCapacity capacity) n
  | _ => True

/-! ### The bucket count that is settled at -/

theorem SettlesAt.unique {m : Nat} (h : SettlesAt t scale w es capacity n)
    (h' : SettlesAt t scale w es capacity m) : n = m := by
  obtain ⟨i, rfl, hle, hfull⟩ := h
  obtain ⟨j, rfl, hle', hfull'⟩ := h'
  rcases Nat.lt_trichotomy i j with hlt | rfl | hgt
  · obtain ⟨b, hb⟩ := hfull' i hlt
    exact absurd hb (Nat.not_lt.mpr (hle b))
  · rfl
  · obtain ⟨b, hb⟩ := hfull j hgt
    exact absurd hb (Nat.not_lt.mpr (hle' b))

theorem RehashEnds.settles (h : RehashEnds t scale w es capacity n) : SettlesAt t scale w es capacity n := by
  obtain ⟨m, hm, hle, hfull, -⟩ := h
  exact ⟨m, hm, hle, hfull⟩

theorem RehashEnds.fits (h : RehashEnds t scale w es capacity n) : 0 < n ∧ n * w < 4294967296 := by
  obtain ⟨m, rfl, -, -, hfits⟩ := h
  exact hfits m (Nat.le_refl m)

/-! ### Rehashing -/

theorem probe_total {l : List (RdictEntry K V)} {inc : Nat} (hinc : inc < w) (hlen : w ≤ inc + l.length) :
    ∃ r, probe w l inc = .ok r := by
  induction l generalizing inc with
  | nil =>
    rw [List.length_nil] at hlen
    omega
  | cons x l ih =>
    rw [List.length_cons] at hlen
    rw [probe]
    split
    · exact ⟨_, rfl⟩
    split
    · exact ⟨_, rfl⟩
    · exact ih (by omega) (by omega)

theorem place_total (hw : 0 < w) (hn : 0 < n) (hlen : table.length = n * w) :
    ∃ r, place t w n table e k = .ok r := by
  have hrow := Nat.mul_le_mul_right w (show t.hashFunc k % n + 1 ≤ n from Nat.mod_lt _ hn)
  rw [Nat.succ_mul] at hrow
  obtain ⟨r, hr⟩ : ∃ r, probe w (table.drop (t.hashFunc k % n * w)) 0 = .ok r := by
    apply probe_total hw
    rw [List.length_drop]
    omega
  unfold place
  rw [if_neg (by omega)]
  simp only [hr]
  cases r with
  | none => exact ⟨_, rfl⟩
  | some inc => exact ⟨_, rfl⟩

theorem rehashLoop_total {buckets fuel i : Nat} (hlen : old.length = capacity)
    (hcap : capacity = buckets * w) (hlt : capacity < 4294967296) (hw : 0 < w) (hn : 0 < n)
    (htable : table.length = n * w) (hfuel : capacity ≤ i + fuel) :
    ∃ r, rehashLoop t old capacity w n fuel i table = .ok r := by
  induction fuel generalizing i table with
  | zero =>
    unfold rehashLoop
    rw [if_neg (by omega)]
    exact ⟨_, rfl⟩
  | succ fuel ih =>
    unfold rehashLoop
    by_cases hi : i < capacity
    · obtain ⟨x, hget⟩ : ∃ x, old[i]? = some x := ⟨_, List.getElem?_eq_getElem (by omega)⟩
      rw [if_pos hi]
      simp only [hget]
      cases hx : x.key with
      | none =>
        have hnext : i < (i / w + 1) * w := Nat.lt_mul_of_div_lt (Nat.lt_succ_self _) hw
        simp only [next_bucket_eq hcap hlt hw hi]
        exact ih htable (by omega)
      | some k =>
        obtain ⟨r, hr⟩ := place_total (t := t) (e := x) (k := k) hw hn htable
        simp only [hr]
        cases r with
        | none => exact ⟨_, rfl⟩
        | some table' =>
          have hlen' := place_length hr
          exact ih (hlen'.trans htable) (by omega)
    · rw [if_neg hi]
      exact ⟨_, rfl⟩

/-- What the loop makes of a table that can be had. -/
theorem rehash_table (h : d.Tidy) {oldId : Nat} (hold : d.entry = some (oldId, old)) (hn : 0 < n)
    (hlt : n * d.bucketCapacity < 4294967296) :
    ∃ r, rehashLoop t old d.capacity d.bucketCapacity n d.capacity 0
        (List.replicate (u32 (n * d.bucketCapacity)) RdictEntry.empty) = .ok r ∧
      (r = none ↔ ∃ b, d.bucketCapacity < load t n d.entries b) := by
  have hslots : d.slots = old := by rw [Rdict.slots, hold]
  have hlen : (List.replicate (u32 (n * d.bucketCapacity)) (RdictEntry.empty : RdictEntry K V)).length =
      n * d.bucketCapacity := by rw [List.length_replicate, u32_of_lt hlt]
  obtain ⟨r, hr⟩ := rehashLoop_total (t := t) (hslots ▸ h.length) h.capacity_eq h.capacity_lt h.width hn
    hlen (Nat.le_add_left d.capacity 0)
  refine ⟨r, hr, ?_⟩
  have hall : ([] ++ (old.drop 0).filter RdictEntry.occupied).Perm d.entries := by
    rw [List.nil_append, List.drop_zero, ← hslots]
    exact List.Perm.refl _
  obtain ⟨hsome, hnone⟩ := rehashLoop_spec (hslots ▸ h.length) h.capacity_eq h.capacity_lt h.width
    (hslots ▸ h.compact) (filled_empty t d.bucketCapacity n _) hall hr
  refine ⟨hnone, ?_⟩
  rintro ⟨b, hb⟩
  cases r with
  | none => rfl
  | some table' => exact absurd hb (Nat.not_lt.mpr ((hsome table' rfl).load_le b))

/-- A table that is given up costs one round. -/
theorem GivesUp.skip {m : Nat} (h : d.Tidy) (hgives : GivesUp t ok scale d capacity (m + 1)) :
    GivesUp t ok scale (d.asked 1) (expandCapacity (u32 (u32 (scale capacity) * 2))) m ∧
      ∀ fuel, expandBuckets t ok scale (fuel + 1) d capacity =
        expandBuckets t ok scale fuel (d.asked 1) (expandCapacity (u32 (u32 (scale capacity) * 2))) := by
  constructor
  · intro j hj
    obtain ⟨hok, hrest⟩ := hgives (j + 1) (Nat.succ_lt_succ hj)
    refine ⟨?_, hrest⟩
    rw [show (d.asked 1).heap.calls + j = d.heap.calls + (j + 1) by
      show d.heap.calls + 1 + j = _
      omega]
    exact hok
  · intro fuel
    obtain ⟨hok, ⟨hpos, hlt⟩, hfull⟩ := hgives 0 (Nat.succ_pos m)
    obtain ⟨⟨oldId, old⟩, hold⟩ := Option.isSome_iff_exists.mp h.table
    obtain ⟨r, hr, hiff⟩ := rehash_table (t := t) h hold hpos hlt
    obtain rfl : r = none := hiff.mpr hfull
    rw [triedBuckets] at hr
    rw [expandBuckets]
    simp only [RdictHeap.alloc, show ok d.heap.calls = true from hok, if_true, hold, hr, freeTable_addTable]
    rw [← hold]
    rfl

theorem expandBuckets_refuses {m : Nat} (h : d.Tidy) (hgives : GivesUp t ok scale d capacity m)
    (hno : ok (d.heap.calls + m) = false) :
    expandBuckets t ok scale (m + 1) d capacity = .ok (rdictCodeError, d.asked (m + 1)) := by
  induction m generalizing d capacity with
  | zero =>
    rw [expandBuckets]
    simp only [RdictHeap.alloc, show ok d.heap.calls = false from hno, Bool.false_eq_true, if_false]
    rfl
  | succ m ih =>
    obtain ⟨hrest, hskip⟩ := hgives.skip h
    have hcalls : (d.asked 1).heap.calls + m = d.heap.calls + (m + 1) := by
      show d.heap.calls + 1 + m = _
      omega
    rw [hskip, ih (h.asked 1) hrest (by rwa [hcalls])]
    unfold Rdict.asked
    simp only [Except.ok.injEq, Prod.mk.injEq, Rdict.mk.injEq, RdictHeap.mk.injEq, true_and, and_true]
    omega

theorem expandBuckets_settles {m : Nat} (h : d.Tidy) (hgives : GivesUp t ok scale d capacity m)
    (hyes : ok (d.heap.calls + m) = true)
    (hsized : Sized d.bucketCapacity (triedBuckets scale d.bucketCapacity capacity m))
    (hle : ∀ b, load t (triedBuckets scale d.bucketCapacity capacity m) d.entries b ≤ d.bucketCapacity) :
    ∃ d', expandBuckets t ok scale (m + 1) d capacity = .ok (rdictCodeOk, d') := by
  induction m generalizing d capacity with
  | zero =>
    obtain ⟨⟨oldId, old⟩, hold⟩ := Option.isSome_iff_exists.mp h.table
    obtain ⟨r, hr, hiff⟩ := rehash_table (t := t) h hold hsized.1 hsized.2
    rw [triedBuckets] at hr
    rw [expandBuckets]
    simp only [RdictHeap.alloc, show ok d.heap.calls = true from hyes, if_true, hold, hr]
    cases r with
    | none =>
      obtain ⟨b, hb⟩ := hiff.mp rfl
      exact absurd hb (Nat.not_lt.mpr (hle b))
    | some table => exact ⟨_, rfl⟩
  | succ m ih =>
    obtain ⟨hrest, hskip⟩ := hgives.skip h
    have hcalls : (d.asked 1).heap.calls + m = d.heap.calls + (m + 1) := by
      show d.heap.calls + 1 + m = _
      omega
    rw [hskip]
    exact ih (h.asked 1) hrest (by rwa [hcalls]) hsized hle

/-- One more round for every table that is left. -/
theorem expandBuckets_total (hok : ∀ i, ok i = true) (h : d.Tidy)
    (hends : RehashEnds t scale d.bucketCapacity d.entries capacity n) :
    ∃ fuel d', expandBuckets t ok scale fuel d capacity = .ok (rdictCodeOk, d') := by
  obtain ⟨m, rfl, hle, hfull, hfits⟩ := hends
  refine ⟨m + 1, expandBuckets_settles h ?_ (hok _) (hfits m (Nat.le_refl m)) hle⟩
  exact fun j hj => ⟨hok _, hfits j (Nat.le_of_lt hj), hfull j hj⟩

/-! ### The bound on the rounds -/

theorem expandBuckets_mono {fuel fuel' : Nat} {r : Int × Rdict K V E} (hle : fuel ≤ fuel')
    (h : expandBuckets t ok scale fuel d capacity = .ok r) :
    expandBuckets t ok scale fuel' d capacity = .ok r := by
  induction fuel generalizing fuel' d capacity with
  | zero => cases h
  | succ fuel ih =>
    obtain ⟨fuel', rfl⟩ : ∃ n, fuel' = n + 1 := ⟨fuel' - 1, by omega⟩
    rw [expandBuckets] at h ⊢
    dsimp only at h ⊢
    split at h
    · exact h
    · split at h
      · exact h
      · split at h
        · cases h
        · exact ih (by omega) h
        · exact h

/-- One round of `rdict_add`: the search stops, and there is room or the call is made again. -/
theorem rdictAdd_round {fuel start : Nat} {val : Option V} (hfb : findBucket t d k = .ok start)
    (hscan : scan t k (d.slots.drop start) = .ok (n, e)) :
    rdictAdd t ok scale (fuel + 1) d (some k) val =
      if n ≥ d.bucketCapacity - 1 then
        (rdictExpand t ok scale fuel d d.capacity).bind fun r =>
          if r.1 ≠ rdictCodeOk then .ok r else rdictAdd t ok scale fuel r.2 (some k) val
      else .ok (rdictCodeOk, putAt t d (start + n) e k val) := by
  simp only [rdictAdd, hfb, hscan, bind, Except.bind]
  rfl

theorem rdictAdd_mono {fuel fuel' : Nat} {key : Option K} {val : Option V} {r : Int × Rdict K V E}
    (hle : fuel ≤ fuel') (h : rdictAdd t ok scale fuel d key val = .ok r) :
    rdictAdd t ok scale fuel' d key val = .ok r := by
  induction fuel generalizing fuel' d with
  | zero => cases h
  | succ fuel ih =>
    obtain ⟨fuel', rfl⟩ : ∃ n, fuel' = n + 1 := ⟨fuel' - 1, by omega⟩
    cases key with
    | none => exact h
    | some k =>
      obtain ⟨start, hfb, hrest⟩ := Except.of_bind_ok h
      obtain ⟨⟨n, e⟩, hs, -⟩ := Except.of_bind_ok hrest
      rw [rdictAdd_round hfb hs] at h ⊢
      split at h
      next hn =>
        obtain ⟨⟨code, d₁⟩, hx, h⟩ := Except.of_bind_ok h
        rw [if_pos hn, rdictExpand, expandBuckets_mono (by omega) hx]
        show (if code ≠ rdictCodeOk then _ else _) = _
        split at h
        next hcode =>
          rw [if_pos hcode]
          exact h
        next hcode =>
          rw [if_neg hcode]
          exact ih (by omega) h
      next hn =>
        rw [if_neg hn]
        exact h

/-- The bound does not change what a call returns. -/
theorem RdictOp.exec_mono {op : RdictOp K V} {fuel fuel' : Nat} {r : Int × Rdict K V E}
    (hle : fuel ≤ fuel') (h : op.exec t ok scale fuel d = .ok r) : op.exec t ok scale fuel' d = .ok r := by
  cases op with
  | add key val => exact rdictAdd_mono hle h
  | remove key => exact h
  | expand capacity => exact expandBuckets_mono hle h
  | clear => exact h

theorem RdictStep.unique {op : RdictOp K V} {d₁ d₂ : Rdict K V E} (h₁ : RdictStep t ok scale d op d₁)
    (h₂ : RdictStep t ok scale d op d₂) : d₁ = d₂ := by
  obtain ⟨fuel₁, code₁, h₁⟩ := h₁
  obtain ⟨fuel₂, code₂, h₂⟩ := h₂
  have hmax := RdictOp.exec_mono (Nat.le_max_left fuel₁ fuel₂) h₁
  rw [RdictOp.exec_mono (Nat.le_max_right fuel₁ fuel₂) h₂] at hmax
  cases hmax
  rfl

/-! ### Adding -/

theorem Stops.scan_ok (hstops : Stops t d k) : ∃ n e, scan t k (d.slots.drop (d.start t k)) = .ok (n, e) := by
  obtain ⟨i, x, hle, hslot, hstop⟩ := hstops
  have hdrop : (d.slots.drop (d.start t k))[i - d.start t k]? = some x := by
    rw [List.getElem?_drop, Nat.add_sub_cancel' hle]
    exact hslot
  obtain ⟨n, e, -, hscan⟩ := scan_total hdrop hstop
  exact ⟨n, e, hscan⟩

/-- The slots of the bucket are in the table, so one of them is free or has the key. -/
theorem stops_of_not_crowded (h : d.Tidy) (hbuckets : 0 < d.buckets) (hroom : ¬ Crowded t d k) :
    Stops t d k := by
  unfold Crowded at hroom
  push Not at hroom
  obtain ⟨j, hj, hother⟩ := hroom
  have hlast := h.last_slot_lt (Nat.mod_lt (t.hashFunc k) hbuckets)
  have hlt : d.start t k + j < d.slots.length := by
    unfold Rdict.start
    omega
  exact ⟨d.start t k + j, _, Nat.le_add_right _ _, List.getElem?_eq_getElem hlt,
    hother _ (List.getElem?_eq_getElem hlt)⟩

/-- A slot before the last one of the bucket stops the search. -/
theorem roundEnds_of_slot {j : Nat} (hj : j < d.bucketCapacity - 1) (hslot : d.slots[d.start t k + j]? = some e)
    (hstop : e.occupied = true → HasKey t k e) : RoundEnds t scale d k := by
  intro hcrowd
  obtain ⟨x, hx, ho, hne⟩ := hcrowd j hj
  rw [hslot] at hx
  cases hx
  exact absurd (hstop ho) hne

theorem ScanEnds.stops (h : d.Tidy) (hp : Placed t d.bucketCapacity d.buckets d.slots)
    (hends : ScanEnds t d.bucketCapacity d.entries k d.buckets) : Stops t d k := by
  obtain ⟨b, hge, hlt, hb⟩ := hends
  have hstart : d.start t k ≤ b * d.bucketCapacity := Nat.mul_le_mul_right _ hge
  rcases hb with ⟨e, he, hrow, hhas⟩ | hload
  · obtain ⟨i, hi, ho⟩ := mem_entries.mp he
    obtain ⟨k', hk'⟩ := occupied_iff.mp ho
    rw [inBucket_iff hk', ← hp i e k' hi hk'] at hrow
    refine ⟨i, e, hstart.trans ?_, hi, fun _ => hhas⟩
    rw [← hrow]
    exact Nat.div_mul_le_self i _
  · obtain ⟨x, hx, hfree⟩ := last_slot h hlt ((lastFree_iff h hp b).mpr hload)
    exact ⟨_, x, hstart.trans (Nat.le_add_right _ _), hx, stop_of_free hfree⟩

theorem ScanEnds.perm {es' : List (RdictEntry K V)} (hp : es.Perm es') (h : ScanEnds t w es k n) :
    ScanEnds t w es' k n := by
  obtain ⟨b, hge, hlt, ⟨e, he, hrow, hhas⟩ | hload⟩ := h
  · exact ⟨b, hge, hlt, .inl ⟨e, hp.mem_iff.mp he, hrow, hhas⟩⟩
  · refine ⟨b, hge, hlt, .inr ?_⟩
    rw [← load_perm hp]
    exact hload

theorem RehashEnds.perm {es' : List (RdictEntry K V)} (hp : es.Perm es')
    (h : RehashEnds t scale w es capacity n) : RehashEnds t scale w es' capacity n := by
  obtain ⟨m, hm, hle, hfull, hfits⟩ := h
  refine ⟨m, hm, fun b => ?_, fun j hj => ?_, hfits⟩
  · rw [← load_perm hp]
    exact hle b
  · obtain ⟨b, hb⟩ := hfull j hj
    exact ⟨b, by rwa [← load_perm hp]⟩

theorem AddEnds.perm {es' : List (RdictEntry K V)} (hp : es.Perm es') (h : AddEnds t scale w es k n) :
    AddEnds t scale w es' k n := by
  induction h with
  | room hroom => exact .room (others_perm hp ▸ hroom)
  | rehash hscan hrehash _ ih => exact .rehash (hscan.perm hp) (hrehash.perm hp) ih

/-- A rehashed table is searched where the loads say. -/
theorem AddEnds.round (h : d.Tidy) (hp : Placed t d.bucketCapacity d.buckets d.slots)
    (hends : AddEnds t scale d.bucketCapacity d.entries k d.buckets) : RoundEnds t scale d k := by
  intro hcrowd
  cases hends with
  | room hroom => exact absurd hroom (Nat.not_lt.mpr (hcrowd.le_others h hp))
  | @rehash _ m hscan hrehash hends =>
    rw [← h.capacity_eq] at hrehash
    exact ⟨hscan.stops h hp, m, hrehash, hends⟩

/-- A call returns if the call behind its rehash does. -/
theorem rdictAdd_returns (hok : ∀ i, ok i = true) {val : Option V} (h : d.Tidy) (hbuckets : 0 < d.buckets)
    (hround : Crowded t d k → Stops t d k ∧
      ∃ m, RehashEnds t scale d.bucketCapacity d.entries (expandCapacity d.capacity) m ∧
        ∀ d₁, Moved t m d d₁ → ∃ fuel r, rdictAdd t ok scale fuel d₁ (some k) val = .ok r) :
    ∃ fuel r, rdictAdd t ok scale fuel d (some k) val = .ok r := by
  have hfb := h.findBucket_ok (t := t) (k := k) hbuckets
  by_cases hcrowd : Crowded t d k
  · obtain ⟨hstops, m, hrehash, hnext⟩ := hround hcrowd
    obtain ⟨n, e, hscan⟩ := hstops.scan_ok
    obtain ⟨fuel, d₁, hx⟩ := expandBuckets_total hok h hrehash
    obtain ⟨-, m₁, hsettles, hmoved⟩ := expandBuckets_ok hok h hx
    rw [hsettles.unique hrehash.settles] at hmoved
    obtain ⟨fuel', r, hr⟩ := hnext d₁ hmoved
    refine ⟨max fuel fuel' + 1, r, ?_⟩
    rw [rdictAdd_round hfb hscan, if_pos ((crowded_iff hscan).mp hcrowd), rdictExpand,
      expandBuckets_mono (Nat.le_max_left fuel fuel') hx]
    exact rdictAdd_mono (Nat.le_max_right fuel fuel') hr
  · obtain ⟨n, e, hscan⟩ := (stops_of_not_crowded h hbuckets hcrowd).scan_ok
    refine ⟨1, ?_⟩
    rw [rdictAdd_round hfb hscan, if_neg (mt (crowded_iff hscan).mpr hcrowd)]
    exact ⟨_, rfl⟩

/-- Adding to a rehashed table. -/
theorem AddEnds.returns (hok : ∀ i, ok i = true) {val : Option V} (h : d.Tidy)
    (hp : Placed t d.bucketCapacity d.buckets d.slots) (hbuckets : 0 < d.buckets)
    (hperm : d.entries.Perm es) (hends : AddEnds t scale d.bucketCapacity es k d.buckets) :
    ∃ fuel r, rdictAdd t ok scale fuel d (some k) val = .ok r := by
  generalize hw : d.bucketCapacity = w at hends
  generalize hn : d.buckets = n at hends
  induction hends generalizing d with
  | room hroom =>
    subst hw hn
    refine rdictAdd_returns hok h hbuckets fun hcrowd => ?_
    rw [← others_perm hperm] at hroom
    exact absurd hroom (Nat.not_lt.mpr (hcrowd.le_others h hp))
  | @rehash n m hscan hrehash _ ih =>
    subst hw hn
    have hstops := (hscan.perm hperm.symm).stops h hp
    refine rdictAdd_returns hok h hbuckets fun _ => ⟨hstops, m, ?_, fun d₁ hmoved => ?_⟩
    · rw [h.capacity_eq]
      exact hrehash.perm hperm.symm
    · obtain ⟨hpos, hlt⟩ := hrehash.fits
      exact ih (hmoved.tidy h hlt) hmoved.placed (hmoved.buckets ▸ hpos) (hmoved.entries.trans hperm)
        hmoved.bucketCapacity hmoved.buckets

theorem rdictAdd_total (hok : ∀ i, ok i = true) (val : Option V) (h : d.Tidy) (hbuckets : 0 < d.buckets)
    (hends : RoundEnds t scale d k) : ∃ fuel r, rdictAdd t ok scale fuel d (some k) val = .ok r := by
  refine rdictAdd_returns hok h hbuckets fun hcrowd => ?_
  obtain ⟨hstops, m, hrehash, hends⟩ := hends hcrowd
  refine ⟨hstops, m, hrehash, fun d₁ hmoved => ?_⟩
  obtain ⟨hpos, hlt⟩ := hrehash.fits
  rw [← hmoved.bucketCapacity, ← hmoved.buckets] at hends
  exact hends.returns hok (hmoved.tidy h hlt) hmoved.placed (hmoved.buckets ▸ hpos) hmoved.entries

/-- `rdict_add` searches as `rdict_find` does. -/
theorem not_step_of_find_error {val : Option V} {f : Fault} (h : rdictFind t d (some k) = .error f) :
    ¬ RdictStep t ok scale d (.add (some k) val) d' := by
  rintro ⟨fuel, code, hrun⟩
  cases fuel with
  | zero => cases hrun
  | succ fuel =>
    obtain ⟨start, hfb, hrest⟩ := Except.of_bind_ok hrun
    obtain ⟨⟨n, e⟩, hscan, -⟩ := Except.of_bind_ok hrest
    simp only [rdictFind, hfb, hscan, bind, Except.bind] at h
    cases h

/-! ### Removing -/

theorem removeScan_total {l : List (RdictEntry K V)} {inc : Nat} (hinc : inc < w)
    (hlen : w ≤ inc + l.length) : ∃ found, removeScan t k w l inc = .ok found := by
  induction l generalizing inc with
  | nil =>
    rw [List.length_nil] at hlen
    omega
  | cons e es ih =>
    rw [List.length_cons] at hlen
    rw [removeScan]
    split
    · exact ⟨_, rfl⟩
    split
    · exact ⟨_, rfl⟩
    split
    · exact ⟨_, rfl⟩
    · exact ih (by omega) (by omega)

/-- `rdict_remove` looks at the slots of one bucket, and always returns. -/
theorem rdictRemove_total (h : d.Tidy) (hbuckets : 0 < d.buckets) (key : Option K) :
    ∃ code d', rdictRemove t d key = .ok (code, d') := by
  cases key with
  | none => exact ⟨_, _, rfl⟩
  | some k =>
    have hw := h.width
    have hlast := h.last_slot_lt (Nat.mod_lt (t.hashFunc k) hbuckets)
    obtain ⟨found, hscan⟩ := removeScan_total (t := t) (k := k) (l := d.slots.drop (d.start t k)) hw (by
      rw [List.length_drop]
      unfold Rdict.start
      omega)
    simp only [rdictRemove, h.findBucket_ok hbuckets, bind, Except.bind, hscan]
    rcases found with _ | ⟨n, e⟩
    · exact ⟨_, _, rfl⟩
    · obtain ⟨-, hn, -⟩ := removeScan_inv hw hscan
      have hrow : d.start t k + n + (d.bucketCapacity - 1 - n) <
          (d.slots.set (d.start t k + n) RdictEntry.empty).length := by
        rw [List.length_set]
        unfold Rdict.start
        omega
      obtain ⟨slots, hslots⟩ := moveLast_total hrow
      simp only [hslots]
      exact ⟨_, _, rfl⟩

/-! ### Every call -/

theorem RdictEnds.returns (hok : ∀ i, ok i = true) (h : d.Tidy)
    (hbuckets : 0 < d.buckets) (hw : 2 ≤ d.bucketCapacity) {op : RdictOp K V}
    (hends : RdictEnds t scale d op) : ∃ d', RdictStep t ok scale d op d' := by
  cases op with
  | add key val =>
    cases key with
    | none => exact ⟨_, 1, _, rfl⟩
    | some k =>
      obtain ⟨fuel, r, hr⟩ := rdictAdd_total hok val h hbuckets hends
      exact ⟨r.2, fuel, r.1, hr⟩
  | remove key =>
    obtain ⟨code, d', hrun⟩ := rdictRemove_total h hbuckets key
    exact ⟨d', 0, code, hrun⟩
  | expand capacity =>
    obtain ⟨n, hends⟩ := hends
    obtain ⟨fuel, d', hrun⟩ := expandBuckets_total hok h hends
    exact ⟨d', fuel, rdictCodeOk, hrun⟩
  | clear =>
    obtain ⟨d', hrun⟩ := rdictClear_total h hw
    refine ⟨d', 0, rdictCodeOk, ?_⟩
    rw [RdictOp.exec, hrun]
    rfl

end Funra
