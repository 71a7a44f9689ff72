import Funra.Rdict.Basic

/-!
# The invariant of the table, and what the searches find

`Rdict.Inv` holds of every table built without wrap-around, full buckets included: the occupied slots of
a bucket come first, each key lies in its bucket, no two entries have equal keys, and `size` counts them.
`Rdict.Tidy` is its part about the shape, which holds for any hash and comparison.

`entries` are the occupied slots. The searches are determined by them: a key that has an entry is found
in its bucket (`scan_present`, `removeScan_present`), and a search that stops at a free slot has passed
no entry of its key (`scan_absent`).
-/

namespace Funra

open Mem Table

variable {K V E : Type}

/-- Equality of keys is an equivalence that the hash respects, and a copied key equals the original. -/
structure Compatible (t : RdictFuncs K V E) : Prop where
  refl : ∀ a, t.isKeyEqual a a = true
  symm : ∀ {a b}, t.isKeyEqual a b = true → t.isKeyEqual b a = true
  trans : ∀ {a b c}, t.isKeyEqual a b = true → t.isKeyEqual b c = true → t.isKeyEqual a c = true
  hash_eq : ∀ {a b}, t.isKeyEqual a b = true → t.hashFunc a = t.hashFunc b
  copy_key : ∀ ext k, ∃ k', (t.copyKeyFunc ext (some k)).1 = some k' ∧ t.isKeyEqual k' k = true

theorem uint64Funcs_compatible : Compatible uint64Funcs where
  refl a := beq_self_eq_true a
  symm h := by simp only [uint64Funcs, beq_iff_eq] at h ⊢; exact h.symm
  trans h₁ h₂ := by simp only [uint64Funcs, beq_iff_eq] at h₁ h₂ ⊢; exact h₁.trans h₂
  hash_eq h := by simp only [uint64Funcs, beq_iff_eq] at h ⊢; exact h
  copy_key _ k := ⟨k, rfl, beq_self_eq_true k⟩

/-- The entry has a key equal to `k`. -/
def HasKey (t : RdictFuncs K V E) (k : K) (e : RdictEntry K V) : Prop :=
  ∃ k', e.key = some k' ∧ t.isKeyEqual k' k = true

/-- Two entries have equal keys. -/
def SameKey (t : RdictFuncs K V E) (a b : RdictEntry K V) : Prop := ∃ k, HasKey t k a ∧ HasKey t k b

/-- The occupied slots, in order. -/
def Rdict.entries (d : Rdict K V E) : List (RdictEntry K V) := d.slots.filter RdictEntry.occupied

/-- Every key of the slots lies in its bucket. -/
def Placed (t : RdictFuncs K V E) (bucketCapacity buckets : Nat) (slots : List (RdictEntry K V)) :
    Prop :=
  ∀ i e k, slots[i]? = some e → e.key = some k → i / bucketCapacity = t.hashFunc k % buckets

structure Rdict.Inv (t : RdictFuncs K V E) (d : Rdict K V E) : Prop where
  width : 0 < d.bucketCapacity
  table : d.entry.isSome = true
  length : d.slots.length = d.capacity
  capacity_eq : d.capacity = d.buckets * d.bucketCapacity
  capacity_lt : d.capacity < 4294967296
  compact : Compact d.bucketCapacity RdictEntry.occupied d.slots
  placed : Placed t d.bucketCapacity d.buckets d.slots
  unique : d.entries.Pairwise fun a b => ¬ SameKey t a b
  size_eq : d.size = d.entries.length + if d.entryNull.isSome then 1 else 0

/-- The shape of the table alone: whole buckets, in which the occupied slots come first. -/
structure Rdict.Tidy (d : Rdict K V E) : Prop where
  width : 0 < d.bucketCapacity
  table : d.entry.isSome = true
  length : d.slots.length = d.capacity
  capacity_eq : d.capacity = d.buckets * d.bucketCapacity
  capacity_lt : d.capacity < 4294967296
  compact : Compact d.bucketCapacity RdictEntry.occupied d.slots

variable {t : RdictFuncs K V E} {d : Rdict K V E} {k : K} {e : RdictEntry K V}

theorem Rdict.Inv.tidy (h : d.Inv t) : d.Tidy :=
  ⟨h.width, h.table, h.length, h.capacity_eq, h.capacity_lt, h.compact⟩

/-- The shape is in the table and three counts. -/
theorem Rdict.Tidy.of_fields {d' : Rdict K V E} (h : d.Tidy) (hentry : d'.entry = d.entry)
    (hcap : d'.capacity = d.capacity) (hbuckets : d'.buckets = d.buckets)
    (hw : d'.bucketCapacity = d.bucketCapacity) : d'.Tidy := by
  have hslots : d'.slots = d.slots := by rw [Rdict.slots, Rdict.slots, hentry]
  constructor
  · exact hw ▸ h.width
  · exact hentry ▸ h.table
  · rw [hslots, hcap]
    exact h.length
  · rw [hcap, hbuckets, hw]
    exact h.capacity_eq
  · exact hcap ▸ h.capacity_lt
  · rw [hslots, hw]
    exact h.compact

/-! ### Entries and keys -/

@[simp] theorem occupied_empty : (RdictEntry.empty : RdictEntry K V).occupied = false := rfl

@[simp] theorem slots_withSlots (h : d.entry.isSome = true) (s : List (RdictEntry K V)) :
    (d.withSlots s).slots = s := by
  obtain ⟨⟨id, old⟩, he⟩ := Option.isSome_iff_exists.mp h
  simp [Rdict.withSlots, Rdict.slots, he]

theorem slots_of_entry {d' : Rdict K V E} {s : List (RdictEntry K V)} (h : d.entry.isSome = true)
    (he : d'.entry = (d.withSlots s).entry) : d'.slots = s := by
  rw [← slots_withSlots h s, Rdict.slots, Rdict.slots, he]

theorem isSome_withSlots (s : List (RdictEntry K V)) :
    (d.withSlots s).entry.isSome = d.entry.isSome := by
  simp [Rdict.withSlots]

theorem HasKey.occupied (h : HasKey t k e) : e.occupied = true := by
  obtain ⟨k', hk, -⟩ := h
  simp [RdictEntry.occupied, hk]

theorem occupied_iff : e.occupied = true ↔ ∃ k, e.key = some k := Option.isSome_iff_exists

theorem sameKey_symm {a b : RdictEntry K V} (h : SameKey t a b) : SameKey t b a := by
  obtain ⟨k, ha, hb⟩ := h
  exact ⟨k, hb, ha⟩

/-- Equal keys have the same bucket. -/
theorem HasKey.bucket (hc : Compatible t) {i w n : Nat} {slots : List (RdictEntry K V)}
    (hp : Placed t w n slots) (hi : slots[i]? = some e) (h : HasKey t k e) :
    i / w = t.hashFunc k % n := by
  obtain ⟨k', hk, heq⟩ := h
  rw [hp i e k' hi hk, hc.hash_eq heq]

/-- A key is in one slot at most. -/
theorem Rdict.Inv.slot_unique (h : d.Inv t) {i j : Nat} {a b : RdictEntry K V}
    (hi : d.slots[i]? = some a) (hj : d.slots[j]? = some b) (ha : HasKey t k a) (hb : HasKey t k b) :
    i = j := by
  have hpair := h.unique
  unfold Rdict.entries at hpair
  rw [List.pairwise_filter, List.pairwise_iff_getElem] at hpair
  obtain ⟨hil, rfl⟩ := List.getElem?_eq_some_iff.mp hi
  obtain ⟨hjl, rfl⟩ := List.getElem?_eq_some_iff.mp hj
  rcases Nat.lt_trichotomy i j with hlt | heq | hgt
  · exact absurd ⟨k, ha, hb⟩ (hpair i j hil hjl hlt ha.occupied hb.occupied)
  · exact heq
  · exact absurd ⟨k, hb, ha⟩ (hpair j i hjl hil hgt hb.occupied ha.occupied)

/-- The position of an entry. -/
theorem mem_entries : e ∈ d.entries ↔ ∃ i : Nat, d.slots[i]? = some e ∧ e.occupied = true := by
  rw [Rdict.entries, List.mem_filter, List.mem_iff_getElem?]
  constructor
  · rintro ⟨⟨i, hi⟩, ho⟩
    exact ⟨i, hi, ho⟩
  · rintro ⟨i, hi, ho⟩
    exact ⟨⟨i, hi⟩, ho⟩

/-! ### The unbounded search -/

/-- Where the search stops, and what it has passed. -/
theorem scan_inv {l : List (RdictEntry K V)} {n : Nat} (h : scan t k l = .ok (n, e)) :
    l[n]? = some e ∧ (e.occupied = true → HasKey t k e) ∧
      ∀ j < n, ∃ e', l[j]? = some e' ∧ e'.occupied = true ∧ ¬ HasKey t k e' := by
  induction l generalizing n e with
  | nil => cases h
  | cons x l ih =>
    rw [scan] at h
    cases hx : x.key with
    | none =>
      simp only [hx] at h
      cases h
      exact ⟨rfl, fun ho => by simp [RdictEntry.occupied, hx] at ho, fun j hj => absurd hj (Nat.not_lt_zero j)⟩
    | some k' =>
      simp only [hx] at h
      by_cases heq : t.isKeyEqual k' k = true
      · rw [if_pos heq] at h
        cases h
        exact ⟨rfl, fun _ => ⟨k', hx, heq⟩, fun j hj => absurd hj (Nat.not_lt_zero j)⟩
      · rw [if_neg heq] at h
        cases hl : scan t k l with
        | error f =>
          rw [hl] at h
          cases h
        | ok r =>
          obtain ⟨m, e'⟩ := r
          rw [hl] at h
          cases h
          obtain ⟨hm, hstop, hpass⟩ := ih hl
          refine ⟨hm, hstop, fun j hj => ?_⟩
          cases j with
          | zero =>
            refine ⟨x, rfl, occupied_iff.mpr ⟨k', hx⟩, ?_⟩
            rintro ⟨k'', hk'', heq'⟩
            rw [hx] at hk''
            cases hk''
            exact heq heq'
          | succ j => exact hpass j (by omega)

/-- A search that meets a slot to stop at does stop, and at the first one. -/
theorem scan_stops {l : List (RdictEntry K V)} {n : Nat} (hn : l[n]? = some e)
    (hstop : e.occupied = true → HasKey t k e)
    (hpass : ∀ j < n, ∃ e', l[j]? = some e' ∧ e'.occupied = true ∧ ¬ HasKey t k e') :
    scan t k l = .ok (n, e) := by
  induction n generalizing l with
  | zero =>
    obtain ⟨l', rfl⟩ : ∃ l', l = e :: l' := by
      cases l with
      | nil => cases hn
      | cons x l => cases hn; exact ⟨l, rfl⟩
    cases hx : e.key with
    | none => simp only [scan, hx]
    | some k' =>
      obtain ⟨k'', hk, heq⟩ := hstop (occupied_iff.mpr ⟨k', hx⟩)
      rw [hx] at hk
      cases hk
      simp only [scan, hx]
      rw [if_pos heq]
  | succ n ih =>
    obtain ⟨x, hx, ho, hne⟩ := hpass 0 (Nat.zero_lt_succ n)
    obtain ⟨l', rfl⟩ : ∃ l', l = x :: l' := by
      cases l with
      | nil => cases hx
      | cons y l => cases hx; exact ⟨l, rfl⟩
    obtain ⟨k', hk⟩ := occupied_iff.mp ho
    have htail := ih (l := l') hn (fun j hj => hpass (j + 1) (by omega))
    simp only [scan, hk]
    rw [if_neg (fun heq => hne ⟨k', hk, heq⟩), htail]
    rfl

/-- A search ends at the latest at a slot to stop at. -/
theorem scan_total {l : List (RdictEntry K V)} {i : Nat} (hi : l[i]? = some e)
    (hstop : e.occupied = true → HasKey t k e) : ∃ n e', n ≤ i ∧ scan t k l = .ok (n, e') := by
  induction i generalizing l with
  | zero =>
    refine ⟨0, e, le_refl _, scan_stops hi hstop ?_⟩
    exact fun j hj => absurd hj (Nat.not_lt_zero j)
  | succ i ih =>
    cases l with
    | nil => cases hi
    | cons x l =>
      obtain ⟨n, e', hn, hscan⟩ := ih (l := l) hi
      cases hx : x.key with
      | none => exact ⟨0, x, by omega, by simp only [scan, hx]⟩
      | some k' =>
        by_cases heq : t.isKeyEqual k' k = true
        · exact ⟨0, x, by omega, by simp only [scan, hx]; rw [if_pos heq]⟩
        · refine ⟨n + 1, e', by omega, ?_⟩
          simp only [scan, hx]
          rw [if_neg heq, hscan]
          rfl

theorem stop_of_free (hfree : e.occupied = false) : e.occupied = true → HasKey t k e := by
  intro ho
  rw [hfree] at ho
  cases ho

/-! ### Keys in the table -/

/-- The first slot of a key's bucket. -/
def Rdict.start (t : RdictFuncs K V E) (d : Rdict K V E) (k : K) : Nat :=
  t.hashFunc k % d.buckets * d.bucketCapacity

theorem findBucket_inv {start : Nat} (h : findBucket t d k = .ok start) :
    0 < d.buckets ∧ start = d.start t k := by
  unfold findBucket at h
  split at h
  · cases h
  · split at h
    · cases h
    · cases h
      exact ⟨by omega, rfl⟩

theorem Rdict.Tidy.findBucket_ok (h : d.Tidy) (hb : 0 < d.buckets) :
    findBucket t d k = .ok (d.start t k) := by
  have hnone : d.entry.isNone = false := Option.isNone_eq_false_iff.mpr h.table
  rw [findBucket, if_neg (by omega), if_neg (by simp [hnone])]
  rfl

theorem Rdict.Tidy.last_slot_lt (h : d.Tidy) {b : Nat} (hb : b < d.buckets) :
    b * d.bucketCapacity + (d.bucketCapacity - 1) < d.slots.length := by
  have hw := h.width
  have hmul := Nat.mul_le_mul_right d.bucketCapacity (show b + 1 ≤ d.buckets from hb)
  rw [Nat.succ_mul] at hmul
  rw [h.length, h.capacity_eq]
  omega

theorem Rdict.Tidy.start_row (h : d.Tidy) {j : Nat} (hj : j < d.bucketCapacity) :
    (d.start t k + j) / d.bucketCapacity = t.hashFunc k % d.buckets := by
  rw [Rdict.start, Nat.mul_comm, Nat.mul_add_div h.width, Nat.div_eq_of_lt hj, Nat.add_zero]

/-- A slot of the key's bucket, by its distance from the first. -/
theorem Rdict.Tidy.slot_of_row (h : d.Tidy) {i : Nat}
    (hi : i / d.bucketCapacity = t.hashFunc k % d.buckets) :
    ∃ j, j < d.bucketCapacity ∧ i = d.start t k + j := by
  refine ⟨i % d.bucketCapacity, Nat.mod_lt _ h.width, ?_⟩
  rw [Rdict.start, ← hi, Nat.mul_comm, Nat.div_add_mod]

/-- An entry with the key is in its bucket, behind entries with other keys. -/
theorem Rdict.Inv.present (hc : Compatible t) (h : d.Inv t) (he : e ∈ d.entries) (hk : HasKey t k e) :
    ∃ n, n < d.bucketCapacity ∧ d.slots[d.start t k + n]? = some e ∧
      ∀ j < n, ∃ e', d.slots[d.start t k + j]? = some e' ∧ e'.occupied = true ∧ ¬ HasKey t k e' := by
  obtain ⟨i, hi, ho⟩ := mem_entries.mp he
  obtain ⟨n, hn, rfl⟩ := h.tidy.slot_of_row (hk.bucket hc h.placed hi)
  refine ⟨n, hn, hi, fun j hj => ?_⟩
  have hrow : (d.start t k + j) / d.bucketCapacity = (d.start t k + n) / d.bucketCapacity := by
    rw [h.tidy.start_row (by omega), h.tidy.start_row hn]
  obtain ⟨e', he', ho'⟩ := h.compact _ _ (by omega) hrow ⟨e, hi, ho⟩
  refine ⟨e', he', ho', fun hk' => ?_⟩
  have := h.slot_unique he' hi hk' hk
  omega

theorem scan_present (hc : Compatible t) (h : d.Inv t) (he : e ∈ d.entries) (hk : HasKey t k e) :
    ∃ n, n < d.bucketCapacity ∧ d.slots[d.start t k + n]? = some e ∧
      scan t k (d.slots.drop (d.start t k)) = .ok (n, e) := by
  obtain ⟨n, hn, hi, hpass⟩ := h.present hc he hk
  refine ⟨n, hn, hi, scan_stops (by rw [List.getElem?_drop]; exact hi) (fun _ => hk) fun j hj => ?_⟩
  rw [List.getElem?_drop]
  exact hpass j hj

/-- A lookup gives the slot where its search stops, or its error. -/
theorem rdictFind_scan (h : d.Tidy) (hb : 0 < d.buckets) (k : K) : rdictFind t d (some k) =
    (scan t k (d.slots.drop (d.start t k))).bind fun r => .ok (if r.2.key.isSome then some r.2 else none) := by
  simp only [rdictFind, h.findBucket_ok hb, bind, Except.bind]
  rfl

/-- A lookup of a key with an entry finds it. -/
theorem rdictFind_present (hc : Compatible t) (h : d.Inv t) (hb : 0 < d.buckets) (he : e ∈ d.entries)
    (hk : HasKey t k e) : rdictFind t d (some k) = .ok (some e) := by
  obtain ⟨n, -, -, hscan⟩ := scan_present hc h he hk
  have ho : e.key.isSome = true := hk.occupied
  rw [rdictFind_scan h.tidy hb, hscan, Except.bind, if_pos ho]

/-- A search that stops at a free slot has a key without an entry. -/
theorem scan_absent (hc : Compatible t) (h : d.Inv t) {n : Nat}
    (hscan : scan t k (d.slots.drop (d.start t k)) = .ok (n, e)) (hfree : e.occupied = false) :
    ∀ x ∈ d.entries, ¬ HasKey t k x := by
  intro x hx hk
  obtain ⟨m, -, -, hscan'⟩ := scan_present hc h hx hk
  rw [hscan] at hscan'
  cases hscan'
  rw [hk.occupied] at hfree
  cases hfree

/-- The slot where a search inside the bucket has stopped. -/
theorem scan_slot {n : Nat} (hscan : scan t k (d.slots.drop (d.start t k)) = .ok (n, e)) :
    d.slots[d.start t k + n]? = some e ∧ (e.occupied = true → HasKey t k e) ∧
      ∀ j < n, Occupied RdictEntry.occupied d.slots (d.start t k + j) := by
  obtain ⟨hn, hstop, hpass⟩ := scan_inv hscan
  rw [List.getElem?_drop] at hn
  refine ⟨hn, hstop, fun j hj => ?_⟩
  obtain ⟨e', he', ho, -⟩ := hpass j hj
  rw [List.getElem?_drop] at he'
  exact ⟨e', he', ho⟩

/-! ### The bounded search of `rdict_remove` -/

theorem removeScan_inv {w : Nat} {l : List (RdictEntry K V)} {inc n : Nat}
    (hinc : inc < w) (h : removeScan t k w l inc = .ok (some (n, e))) :
    inc ≤ n ∧ n < w ∧ l[n - inc]? = some e ∧ HasKey t k e := by
  induction l generalizing inc with
  | nil => cases h
  | cons x l ih =>
    rw [removeScan] at h
    cases hx : x.key with
    | none =>
      simp only [hx] at h
      cases h
    | some k' =>
      simp only [hx] at h
      by_cases heq : t.isKeyEqual k' k = true
      · rw [if_pos heq] at h
        cases h
        exact ⟨le_refl _, hinc, by simp, k', hx, heq⟩
      · rw [if_neg heq] at h
        by_cases hend : inc = w - 1
        · rw [if_pos hend] at h
          cases h
        · rw [if_neg hend] at h
          obtain ⟨hle, hlt, hn, hk⟩ := ih (by omega) h
          refine ⟨by omega, hlt, ?_, hk⟩
          rw [show n - inc = (n - (inc + 1)) + 1 by omega]
          exact hn

theorem removeScan_stops {w : Nat} {l : List (RdictEntry K V)} {inc n : Nat} (hn : l[n]? = some e)
    (hlt : inc + n < w) (hk : HasKey t k e)
    (hpass : ∀ j < n, ∃ e', l[j]? = some e' ∧ e'.occupied = true ∧ ¬ HasKey t k e') :
    removeScan t k w l inc = .ok (some (inc + n, e)) := by
  induction n generalizing l inc with
  | zero =>
    obtain ⟨l', rfl⟩ : ∃ l', l = e :: l' := by
      cases l with
      | nil => cases hn
      | cons x l => cases hn; exact ⟨l, rfl⟩
    obtain ⟨k', hx, heq⟩ := hk
    simp only [removeScan, hx]
    rw [if_pos heq]
    rfl
  | succ n ih =>
    obtain ⟨x, hx, ho, hne⟩ := hpass 0 (Nat.zero_lt_succ n)
    obtain ⟨l', rfl⟩ : ∃ l', l = x :: l' := by
      cases l with
      | nil => cases hx
      | cons y l => cases hx; exact ⟨l, rfl⟩
    obtain ⟨k', hk'⟩ := occupied_iff.mp ho
    have htail := @ih l' (inc + 1) hn (by omega) (fun j hj => hpass (j + 1) (by omega))
    simp only [removeScan, hk']
    rw [if_neg (fun heq => hne ⟨k', hk', heq⟩), if_neg (by omega), htail]
    congr 3
    omega

theorem removeScan_present (hc : Compatible t) (h : d.Inv t) (he : e ∈ d.entries)
    (hk : HasKey t k e) : ∃ n, n < d.bucketCapacity ∧ d.slots[d.start t k + n]? = some e ∧
      removeScan t k d.bucketCapacity (d.slots.drop (d.start t k)) 0 = .ok (some (n, e)) := by
  obtain ⟨n, hn, hi, hpass⟩ := h.present hc he hk
  refine ⟨n, hn, hi, ?_⟩
  have hstops : removeScan t k d.bucketCapacity (d.slots.drop (d.start t k)) 0 =
      .ok (some (0 + n, e)) :=
    removeScan_stops (by rw [List.getElem?_drop]; exact hi) (by omega) hk
      (fun j hj => by rw [List.getElem?_drop]; exact hpass j hj)
  rw [Nat.zero_add] at hstops
  exact hstops

end Funra
