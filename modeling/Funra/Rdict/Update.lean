import Funra.Lib.KeyMap
import Funra.Rdict.Inv

/-!
# Adding without a rehash, and removing

What the operations do to the entries when the table keeps its shape: `putAt` replaces or adds the entry
of one key (`Put`), `rdict_remove` takes it away (`Taken`), filling its slot with the last entry of the
bucket. Both keep the invariant (`putAt_spec`, `rdictRemove_spec`), and neither occupies the last slot of
a bucket.
-/

namespace Funra

open Mem Table

variable {K V E : Type} {t : RdictFuncs K V E} {d d' : Rdict K V E} {k : K} {e : RdictEntry K V}

/-- The entries `es'` are those of `es` with the value `v` for `k`. -/
def Put (t : RdictFuncs K V E) (k : K) (v : Option V) (es es' : List (RdictEntry K V)) : Prop :=
  KeyMap.Put (HasKey t k) (fun e => e.value = v) es es'

/-- The entries `es'` are those of `es` without `k`. -/
def Taken (t : RdictFuncs K V E) (k : K) (es es' : List (RdictEntry K V)) : Prop :=
  KeyMap.Taken (HasKey t k) es es'

/-- The table has the same shape, and nothing else has changed. -/
structure SameShape (d d' : Rdict K V E) : Prop where
  buckets : d'.buckets = d.buckets
  bucketCapacity : d'.bucketCapacity = d.bucketCapacity
  capacity : d'.capacity = d.capacity
  entryNull : d'.entryNull = d.entryNull
  heap : d'.heap = d.heap

/-- The last slot of bucket `b` is free. -/
def LastFree (d : Rdict K V E) (b : Nat) : Prop :=
  ¬ Occupied RdictEntry.occupied d.slots (b * d.bucketCapacity + (d.bucketCapacity - 1))

/-! ### Sizes -/

theorem entries_length_le (h : d.Inv t) : d.entries.length ≤ d.capacity := by
  rw [← h.length]
  exact List.length_filter_le _ _

theorem u32Pred_eq {n : Nat} (hpos : 0 < n) (hle : n ≤ 4294967296) : u32Pred n = n - 1 := by
  unfold u32Pred u32
  omega

theorem u32_of_lt {n : Nat} (h : n < 4294967296) : u32 n = n := Nat.mod_eq_of_lt h

/-- Two free slots leave room for one more entry in the count. -/
theorem entries_length_lt (h : d.Inv t) {i j : Nat} (hij : i ≠ j) {a b : RdictEntry K V}
    (hi : d.slots[i]? = some a) (ha : a.occupied = false) (hj : d.slots[j]? = some b)
    (hb : b.occupied = false) {x : RdictEntry K V} (hx : x.occupied = true) :
    d.entries.length + 1 < d.capacity := by
  have hperm := (filter_set_perm hi ha hx).length_eq
  have hmem : b ∈ d.slots.set i x := by
    refine List.mem_iff_getElem?.mpr ⟨j, ?_⟩
    rw [List.getElem?_set_ne hij]
    exact hj
  have hlt : ((d.slots.set i x).filter RdictEntry.occupied).length < (d.slots.set i x).length :=
    List.length_filter_lt_length_iff_exists.mpr ⟨b, hmem, by simp [hb]⟩
  rw [hperm, List.length_set, h.length] at hlt
  exact hlt

/-! ### `putAt` -/

section put

variable {n : Nat} {val : Option V}

theorem placed_set {w m i : Nat} {slots : List (RdictEntry K V)} {x : RdictEntry K V}
    (hp : Placed t w m slots) (hx : ∀ k, x.key = some k → i / w = t.hashFunc k % m) :
    Placed t w m (slots.set i x) := by
  intro j e k hj hk
  rw [List.getElem?_set] at hj
  split at hj
  · rename_i hij
    subst hij
    split at hj
    · cases hj
      exact hx k hk
    · cases hj
  · exact hp j e k hj hk

theorem pairwise_perm {es es' : List (RdictEntry K V)} (hperm : es.Perm es')
    (h : es.Pairwise fun a b => ¬ SameKey t a b) : es'.Pairwise fun a b => ¬ SameKey t a b :=
  hperm.pairwise h fun hab hba => hab (sameKey_symm hba)

/-- A table of the same shape with other slots. -/
theorem Rdict.Tidy.of_shape (h : d.Tidy) (hshape : SameShape d d') (htable : d'.entry.isSome = true)
    (hlen : d'.slots.length = d.slots.length)
    (hcompact : Compact d.bucketCapacity RdictEntry.occupied d'.slots) : d'.Tidy where
  width := by
    rw [hshape.bucketCapacity]
    exact h.width
  table := htable
  length := by rw [hlen, hshape.capacity, h.length]
  capacity_eq := by rw [hshape.capacity, hshape.buckets, hshape.bucketCapacity, h.capacity_eq]
  capacity_lt := by
    rw [hshape.capacity]
    exact h.capacity_lt
  compact := by
    rw [hshape.bucketCapacity]
    exact hcompact

theorem inv_of_tidy (h : d.Tidy) (hplaced : Placed t d.bucketCapacity d.buckets d.slots)
    (hunique : d.entries.Pairwise fun a b => ¬ SameKey t a b)
    (hsize : d.size = d.entries.length + if d.entryNull.isSome then 1 else 0) : d.Inv t :=
  ⟨h.width, h.table, h.length, h.capacity_eq, h.capacity_lt, h.compact, hplaced, hunique, hsize⟩

theorem inv_of_shape (h : d.Inv t) (hshape : SameShape d d') (htable : d'.entry.isSome = true)
    (hlen : d'.slots.length = d.slots.length)
    (hcompact : Compact d.bucketCapacity RdictEntry.occupied d'.slots)
    (hplaced : Placed t d.bucketCapacity d.buckets d'.slots)
    (hunique : d'.entries.Pairwise fun a b => ¬ SameKey t a b)
    (hsize : d'.size = d'.entries.length + if d.entryNull.isSome then 1 else 0) : d'.Inv t := by
  apply inv_of_tidy (h.tidy.of_shape hshape htable hlen hcompact)
  · rw [hshape.bucketCapacity, hshape.buckets]
    exact hplaced
  · exact hunique
  · rw [hsize, hshape.entryNull]

theorem putAt_shape (t : RdictFuncs K V E) (d : Rdict K V E) (i : Nat) (e : RdictEntry K V) (k : K)
    (val : Option V) : SameShape d (putAt t d i e k val) := by
  unfold putAt
  split <;> exact ⟨rfl, rfl, rfl, rfl, rfl⟩

theorem putAt_free_slots (i : Nat) (k : K) (val : Option V) (htable : d.entry.isSome = true)
    (hfree : e.key = none) : (putAt t d i e k val).slots = d.slots.set i ⟨(t.copyKeyFunc d.dataExt (some k)).1,
      (t.copyValueFunc (t.copyKeyFunc d.dataExt (some k)).2 val).1⟩ := by
  simp only [putAt, hfree]
  exact slots_withSlots htable _

theorem putAt_found_slots (i : Nat) (k : K) (val : Option V) {k' : K} (htable : d.entry.isSome = true)
    (hkey : e.key = some k') : (putAt t d i e k val).slots = d.slots.set i
      { e with value := (t.copyValueFunc (t.freeValueFunc d.dataExt e.value) val).1 } := by
  simp only [putAt, hkey]
  exact slots_withSlots htable _

/-- With a slot before the last one free, the last one is free too, so the count does not wrap. -/
theorem length_lt_of_free (h : d.Inv t) (hslot : d.slots[d.start t k + n]? = some e)
    (hocc : e.occupied = false) (hn : n < d.bucketCapacity - 1) {x : RdictEntry K V}
    (hx : x.occupied = true) : d.entries.length + 1 < d.capacity := by
  have hrow := h.tidy.start_row (t := t) (k := k) (show n < d.bucketCapacity by omega)
  have hlt := (List.getElem?_eq_some_iff.mp hslot).1
  have hbuckets : t.hashFunc k % d.buckets < d.buckets := by
    rcases Nat.eq_zero_or_pos d.buckets with h0 | hpos
    · rw [h.length, h.capacity_eq, h0] at hlt
      omega
    · exact Nat.mod_lt _ hpos
  obtain ⟨b, hbslot⟩ : ∃ b, d.slots[d.start t k + (d.bucketCapacity - 1)]? = some b :=
    ⟨_, List.getElem?_eq_getElem (h.tidy.last_slot_lt hbuckets)⟩
  have hbfree : b.occupied = false := by
    apply Bool.eq_false_iff.mpr
    intro hbo
    obtain ⟨e', he', ho'⟩ := h.compact (d.start t k + n) _ (by omega)
      (by rw [hrow, h.tidy.start_row (by omega)]) ⟨b, hbslot, hbo⟩
    rw [hslot] at he'
    cases he'
    rw [hocc] at ho'
    cases ho'
  exact entries_length_lt h (show d.start t k + n ≠ d.start t k + (d.bucketCapacity - 1) by omega)
    hslot hocc hbslot hbfree hx

/-- The slot at which the search has stopped may be occupied. -/
theorem compact_at_scan (h : d.Tidy) (hscan : scan t k (d.slots.drop (d.start t k)) = .ok (n, e))
    (hn : n < d.bucketCapacity) {x : RdictEntry K V} (hx : x.occupied = true) :
    Compact d.bucketCapacity RdictEntry.occupied (d.slots.set (d.start t k + n) x) := by
  obtain ⟨hslot, -, hpass⟩ := scan_slot hscan
  refine h.compact.set (List.getElem?_eq_some_iff.mp hslot).1 hx fun j hj hjrow => ?_
  obtain ⟨m, -, rfl⟩ := h.slot_of_row (hjrow.trans (h.start_row hn))
  exact hpass m (by omega)

/-- A free slot behind the entries of the bucket takes the new entry. -/
theorem putAt_free (hc : Compatible t) (h : d.Inv t)
    (hscan : scan t k (d.slots.drop (d.start t k)) = .ok (n, e)) (hn : n < d.bucketCapacity - 1)
    (hfree : e.key = none) : (putAt t d (d.start t k + n) e k val).Inv t ∧
      ∃ ext, Put t k (t.copyValueFunc ext val).1 d.entries
        (putAt t d (d.start t k + n) e k val).entries := by
  obtain ⟨hslot, -, -⟩ := scan_slot hscan
  have hocc : e.occupied = false := by simp [RdictEntry.occupied, hfree]
  have habsent := scan_absent hc h hscan hocc
  obtain ⟨k', hcopy, heq⟩ := hc.copy_key d.dataExt k
  -- the new entry, and the table with it
  obtain ⟨x, hx⟩ : ∃ x : RdictEntry K V, x = ⟨(t.copyKeyFunc d.dataExt (some k)).1,
      (t.copyValueFunc (t.copyKeyFunc d.dataExt (some k)).2 val).1⟩ := ⟨_, rfl⟩
  have hxkey : x.key = some k' := by rw [hx]; exact hcopy
  have hxhas : HasKey t k x := ⟨k', hxkey, heq⟩
  have hslots : (putAt t d (d.start t k + n) e k val).slots = d.slots.set (d.start t k + n) x := by
    rw [hx]
    exact putAt_free_slots _ k val h.table hfree
  have hsize : (putAt t d (d.start t k + n) e k val).size = u32 (d.size + 1) := by
    simp only [putAt, hfree]
  have htable : (putAt t d (d.start t k + n) e k val).entry.isSome = true := by
    simp only [putAt, hfree]
    rw [isSome_withSlots]
    exact h.table
  have hshape := putAt_shape t d (d.start t k + n) e k val
  generalize putAt t d (d.start t k + n) e k val = d' at *
  have hperm : d'.entries.Perm (x :: d.entries) := by
    rw [Rdict.entries, hslots]
    exact filter_set_perm hslot hocc hxhas.occupied
  have hrow := h.tidy.start_row (t := t) (k := k) (show n < d.bucketCapacity by omega)
  have hplaced : Placed t d.bucketCapacity d.buckets (d.slots.set (d.start t k + n) x) := by
    refine placed_set h.placed fun k'' hk'' => ?_
    rw [hxkey] at hk''
    cases hk''
    rw [hrow, hc.hash_eq heq]
  have hcompact := compact_at_scan h.tidy hscan (by omega) hxhas.occupied
  have hcount := length_lt_of_free h hslot hocc hn hxhas.occupied
  have hinv : d'.Inv t := by
    apply inv_of_shape h hshape htable
    · rw [hslots, List.length_set]
    · rw [hslots]
      exact hcompact
    · rw [hslots]
      exact hplaced
    · refine pairwise_perm hperm.symm (List.pairwise_cons.mpr ⟨fun y hy hsame => ?_, h.unique⟩)
      obtain ⟨k2, ⟨kx, hkx, hkx2⟩, ky, hky, hky2⟩ := hsame
      rw [hxkey] at hkx
      cases hkx
      exact habsent y hy ⟨ky, hky, hc.trans hky2 (hc.trans (hc.symm hkx2) heq)⟩
    · have hlt' := h.capacity_lt
      rw [hsize, h.size_eq, hperm.length_eq, List.length_cons]
      rw [u32_of_lt (by split <;> omega)]
      omega
  exact ⟨hinv, _, d.entries, x, hperm, hxhas, by rw [hx], habsent, .inl (List.Perm.refl _)⟩

/-- The entry of the key keeps its slot and gets the new value. -/
theorem putAt_found (h : d.Inv t)
    (hscan : scan t k (d.slots.drop (d.start t k)) = .ok (n, e)) (hfound : e.occupied = true) :
    (putAt t d (d.start t k + n) e k val).Inv t ∧
      ∃ ext, Put t k (t.copyValueFunc ext val).1 d.entries
        (putAt t d (d.start t k + n) e k val).entries := by
  obtain ⟨hslot, hstop, -⟩ := scan_slot hscan
  have hhas := hstop hfound
  obtain ⟨k', hkey, heq⟩ := hhas
  obtain ⟨x, hx⟩ : ∃ x : RdictEntry K V,
      x = { e with value := (t.copyValueFunc (t.freeValueFunc d.dataExt e.value) val).1 } := ⟨_, rfl⟩
  have hxkey : x.key = some k' := by rw [hx]; exact hkey
  have hxhas : HasKey t k x := ⟨k', hxkey, heq⟩
  have hslots : (putAt t d (d.start t k + n) e k val).slots = d.slots.set (d.start t k + n) x := by
    rw [hx]
    exact putAt_found_slots _ k val h.table hkey
  have hsize : (putAt t d (d.start t k + n) e k val).size = d.size := by
    simp only [putAt, hkey]
    rfl
  have htable : (putAt t d (d.start t k + n) e k val).entry.isSome = true := by
    simp only [putAt, hkey]
    rw [isSome_withSlots]
    exact h.table
  have hshape := putAt_shape t d (d.start t k + n) e k val
  generalize putAt t d (d.start t k + n) e k val = d' at *
  obtain ⟨a, b, hold, hnew⟩ := filter_reset hslot hfound hxhas.occupied
  have hentries : d.entries = a ++ e :: b := hold
  have hentries' : d'.entries = a ++ x :: b := by rw [Rdict.entries, hslots]; exact hnew
  -- the key of the slot is the old one, so nothing moves
  have hsame : ∀ y, SameKey t x y ↔ SameKey t e y := by
    intro y
    constructor <;> rintro ⟨k2, ⟨kx, hkx, hkx2⟩, hy⟩
    · rw [hxkey] at hkx
      cases hkx
      exact ⟨k2, ⟨k', hkey, hkx2⟩, hy⟩
    · rw [hkey] at hkx
      cases hkx
      exact ⟨k2, ⟨k', hxkey, hkx2⟩, hy⟩
  have hother : ∀ y ∈ a ++ b, ¬ HasKey t k y := by
    intro y hy hky
    have hpair := pairwise_perm List.perm_middle (hentries ▸ h.unique)
    exact (List.pairwise_cons.mp hpair).1 y hy ⟨k, ⟨k', hkey, heq⟩, hky⟩
  have hinv : d'.Inv t := by
    apply inv_of_shape h hshape htable
    · rw [hslots, List.length_set]
    · rw [hslots]
      exact h.compact.reset hxhas.occupied ⟨e, hslot, hfound⟩
    · rw [hslots]
      refine placed_set h.placed fun k2 hk2 => ?_
      rw [hxkey] at hk2
      cases hk2
      exact h.placed _ e k' hslot hkey
    · rw [hentries']
      have hpair := List.pairwise_cons.mp (pairwise_perm List.perm_middle (hentries ▸ h.unique))
      refine pairwise_perm List.perm_middle.symm (List.pairwise_cons.mpr ⟨fun y hy hs => ?_, hpair.2⟩)
      exact hpair.1 y hy ((hsame y).mp hs)
    · rw [hsize, h.size_eq, hentries, hentries']
      simp
  exact ⟨hinv, _, a ++ b, x, by rw [hentries']; exact List.perm_middle, hxhas, by rw [hx], hother,
    .inr ⟨e, ⟨k', hkey, heq⟩, by rw [hentries]; exact List.perm_middle⟩⟩

/-- Away from the last slot of a bucket, adding keeps the invariant. -/
theorem putAt_spec (hc : Compatible t) (h : d.Inv t) (val : Option V)
    (hscan : scan t k (d.slots.drop (d.start t k)) = .ok (n, e)) (hn : n < d.bucketCapacity - 1) :
    (putAt t d (d.start t k + n) e k val).Inv t ∧
      ∃ ext, Put t k (t.copyValueFunc ext val).1 d.entries
        (putAt t d (d.start t k + n) e k val).entries := by
  cases hkey : e.key with
  | none => exact putAt_free hc h hscan hn hkey
  | some k' => exact putAt_found h hscan (occupied_iff.mpr ⟨k', hkey⟩)

theorem putAt_lastFree (h : d.Inv t) {i b : Nat} (hi : i % d.bucketCapacity < d.bucketCapacity - 1)
    (hlt : i < d.slots.length) (hfree : LastFree d b) : LastFree (putAt t d i e k val) b := by
  intro hb
  have hshape := putAt_shape t d i e k val
  obtain ⟨x, hslots⟩ : ∃ x, (putAt t d i e k val).slots = d.slots.set i x := by
    unfold putAt
    split <;> exact ⟨_, slots_withSlots h.table _⟩
  rw [hslots, hshape.bucketCapacity, occupied_set x hlt] at hb
  split at hb
  · rename_i heq
    have hw := h.width
    rw [← heq, Nat.mul_comm, Nat.mul_add_mod, Nat.mod_eq_of_lt (by omega)] at hi
    omega
  · exact hfree hb

end put

/-! ### `rdict_remove` -/

theorem moveLast_inv {slots slots' : List (RdictEntry K V)} {i m : Nat}
    (hrun : moveLast slots i m = .ok slots') :
    (slots' = slots ∧ ∀ j, 0 < j → j ≤ m → ¬ Occupied RdictEntry.occupied slots (i + j)) ∨
      ∃ j x, 0 < j ∧ j ≤ m ∧ slots[i + j]? = some x ∧ x.occupied = true ∧
        (∀ j', j < j' → j' ≤ m → ¬ Occupied RdictEntry.occupied slots (i + j')) ∧
        slots' = (slots.set i x).set (i + j) RdictEntry.empty := by
  induction m with
  | zero =>
    cases hrun
    exact .inl ⟨rfl, fun j h0 hj => absurd h0 (by omega)⟩
  | succ m ih =>
    rw [moveLast] at hrun
    cases hx : slots[i + (m + 1)]? with
    | none =>
      rw [hx] at hrun
      cases hrun
    | some x =>
      simp only [hx] at hrun
      by_cases ho : x.key.isSome = true
      · rw [if_pos ho] at hrun
        cases hrun
        exact .inr ⟨m + 1, x, by omega, le_refl _, hx, ho, fun j' h1 h2 => absurd h1 (by omega), rfl⟩
      · rw [if_neg ho] at hrun
        have hfree : ¬ Occupied RdictEntry.occupied slots (i + (m + 1)) := by
          rintro ⟨y, hy, hyo⟩
          rw [hx] at hy
          cases hy
          exact ho hyo
        rcases ih hrun with ⟨rfl, hnone⟩ | ⟨j, y, h0, hj, hy, hyo, hlast, rfl⟩
        · refine .inl ⟨rfl, fun j h0 hj => ?_⟩
          rcases Nat.lt_or_ge m j with hgt | hle
          · rw [show j = m + 1 by omega]
            exact hfree
          · exact hnone j h0 hle
        · refine .inr ⟨j, y, h0, by omega, hy, hyo, fun j' h1 h2 => ?_, rfl⟩
          rcases Nat.lt_or_ge m j' with hgt | hle
          · rw [show j' = m + 1 by omega]
            exact hfree
          · exact hlast j' h1 hle

/-- Taking an entry out of its bucket: the others stay in their buckets, without a gap, and no slot is
occupied that was not. -/
theorem moveLast_spec (h : d.Tidy) {n : Nat} {slots : List (RdictEntry K V)} (hn : n < d.bucketCapacity)
    (hslot : d.slots[d.start t k + n]? = some e) (hocc : e.occupied = true)
    (hrun : moveLast (d.slots.set (d.start t k + n) RdictEntry.empty) (d.start t k + n)
      (d.bucketCapacity - 1 - n) = .ok slots) :
    slots.length = d.slots.length ∧ d.entries.Perm (e :: slots.filter RdictEntry.occupied) ∧
      Compact d.bucketCapacity RdictEntry.occupied slots ∧
      (Placed t d.bucketCapacity d.buckets d.slots → Placed t d.bucketCapacity d.buckets slots) ∧
      ∀ i, Occupied RdictEntry.occupied slots i → Occupied RdictEntry.occupied d.slots i := by
  have hlt : d.start t k + n < d.slots.length := (List.getElem?_eq_some_iff.mp hslot).1
  have hrow := h.start_row (t := t) (k := k) hn
  have hunset (hp : Placed t d.bucketCapacity d.buckets d.slots) : Placed t d.bucketCapacity d.buckets
      (d.slots.set (d.start t k + n) RdictEntry.empty) :=
    placed_set hp fun k hk => by cases hk
  -- the slots of the row behind the freed one
  have hbehind : ∀ j, d.start t k + n < j → j / d.bucketCapacity = (d.start t k + n) / d.bucketCapacity →
      ∃ m, 0 < m ∧ m ≤ d.bucketCapacity - 1 - n ∧ j = d.start t k + n + m := by
    intro j hj hjrow
    obtain ⟨m, hm, rfl⟩ := h.slot_of_row (hjrow.trans hrow)
    exact ⟨m - n, by omega, by omega, by omega⟩
  have hother : ∀ j, 0 < j → (Occupied RdictEntry.occupied
      (d.slots.set (d.start t k + n) RdictEntry.empty) (d.start t k + n + j) ↔
        Occupied RdictEntry.occupied d.slots (d.start t k + n + j)) := by
    intro j hj
    rw [occupied_set _ hlt, if_neg (by omega)]
  rcases moveLast_inv hrun with ⟨rfl, hnone⟩ | ⟨j, x, h0, hj, hx, hxo, hlast, rfl⟩
  · refine ⟨List.length_set .., filter_unset_perm hslot hocc rfl, ?_, hunset, fun i hi => ?_⟩
    · refine h.compact.unset hlt rfl fun j hj hjrow => ?_
      obtain ⟨m, h0, hm, rfl⟩ := hbehind j hj hjrow
      rw [← hother m h0]
      exact hnone m h0 hm
    · rw [occupied_set _ hlt] at hi
      split at hi
      · cases hi
      · exact hi
  · rw [List.set_set] at *
    have hx' : d.slots[d.start t k + n + j]? = some x := by
      rw [List.getElem?_set_ne (by omega)] at hx
      exact hx
    have hltj : d.start t k + n + j < (d.slots.set (d.start t k + n) x).length := by
      rw [List.length_set]
      exact (List.getElem?_eq_some_iff.mp hx').1
    refine ⟨by rw [List.length_set, List.length_set], ?_, ?_, ?_, fun i hi => ?_⟩
    · exact filter_move_perm (by omega) hslot hx' hocc hxo rfl
    · refine (h.compact.reset hxo ⟨e, hslot, hocc⟩).unset hltj rfl fun i hi hirow => ?_
      have hjrow : (d.start t k + n + j) / d.bucketCapacity =
          (d.start t k + n) / d.bucketCapacity := by
        rw [hrow, Nat.add_assoc, h.start_row (by omega)]
      obtain ⟨m, hm0, hm, rfl⟩ := hbehind i (by omega) (hirow.trans hjrow)
      rw [occupied_set _ hlt, if_neg (by omega), ← hother m hm0]
      exact hlast m (by omega) hm
    · intro hp
      refine placed_set (placed_set hp fun k2 hk2 => ?_) fun k2 hk2 => by cases hk2
      have hp := hp _ x k2 hx' hk2
      rwa [Nat.add_assoc, h.start_row (by omega), ← hrow] at hp
    · rw [occupied_set _ hltj] at hi
      split at hi
      · cases hi
      · rw [occupied_set _ hlt] at hi
        split at hi
        · rename_i heq
          subst heq
          exact ⟨e, hslot, hocc⟩
        · exact hi

/-- `d'` is `d` without the entry `e`, which has been freed. -/
structure Dropped (t : RdictFuncs K V E) (e : RdictEntry K V) (d d' : Rdict K V E) : Prop where
  shape : SameShape d d'
  tidy : d'.Tidy
  entries : d.entries.Perm (e :: d'.entries)
  placed : Placed t d.bucketCapacity d.buckets d.slots → Placed t d.bucketCapacity d.buckets d'.slots
  occupied : ∀ i, Occupied RdictEntry.occupied d'.slots i → Occupied RdictEntry.occupied d.slots i
  size : d'.size = u32Pred d.size
  dataExt : d'.dataExt = freeEntry t d.dataExt e

/-- The key is not found in its bucket, or its entry is removed. -/
theorem rdictRemove_inv (h : d.Tidy) {code : Int} (hrun : rdictRemove t d (some k) = .ok (code, d')) :
    (removeScan t k d.bucketCapacity (d.slots.drop (d.start t k)) 0 = .ok none ∧ d' = d) ∨
      ∃ e, HasKey t k e ∧ Dropped t e d d' := by
  obtain ⟨start, hfb, hrun⟩ := Except.of_bind_ok hrun
  obtain ⟨hb, rfl⟩ := findBucket_inv hfb
  obtain ⟨found, hrs, hrun⟩ := Except.of_bind_ok hrun
  rcases found with _ | ⟨n, e⟩
  · cases hrun
    exact .inl ⟨hrs, rfl⟩
  · obtain ⟨-, hn, hslot, hhas⟩ := removeScan_inv h.width hrs
    rw [Nat.sub_zero, List.getElem?_drop] at hslot
    obtain ⟨slots, hml, hrun⟩ := Except.of_bind_ok hrun
    simp only [pure, Except.pure, Except.ok.injEq, Prod.mk.injEq] at hrun
    obtain ⟨-, hd'⟩ := hrun
    obtain ⟨hlen, hperm, hcompact, hplaced, hsub⟩ := moveLast_spec h hn hslot hhas.occupied hml
    have hentry : d'.entry = (d.withSlots slots).entry := by rw [← hd']
    have hslots : d'.slots = slots := slots_of_entry h.table hentry
    have htable : d'.entry.isSome = true := by rw [hentry, isSome_withSlots, h.table]
    have hshape : SameShape d d' := by
      rw [← hd']
      exact ⟨rfl, rfl, rfl, rfl, rfl⟩
    have hsize : d'.size = u32Pred d.size := by rw [← hd']
    have hext : d'.dataExt = freeEntry t d.dataExt e := by rw [← hd']
    clear hd'
    subst hslots
    exact .inr ⟨e, hhas, hshape, h.of_shape hshape htable hlen hcompact, hperm, hplaced, hsub, hsize, hext⟩

theorem Dropped.inv (hr : Dropped t e d d') (h : d.Inv t) : d'.Inv t := by
  have hcount := hr.entries.length_eq
  rw [List.length_cons] at hcount
  have hle := entries_length_le h
  have hcap := h.capacity_lt
  apply inv_of_tidy hr.tidy
  · rw [hr.shape.bucketCapacity, hr.shape.buckets]
    exact hr.placed h.placed
  · exact (List.pairwise_cons.mp (pairwise_perm hr.entries h.unique)).2
  · have hpos : 0 < d.size := by
      rw [h.size_eq]
      omega
    have hmax : d.size ≤ 4294967296 := by
      rw [h.size_eq]
      split <;> omega
    rw [hr.size, u32Pred_eq hpos hmax, h.size_eq, hr.shape.entryNull, hcount]
    omega

theorem rdictRemove_spec (hc : Compatible t) (h : d.Inv t) {code : Int}
    (hrun : rdictRemove t d (some k) = .ok (code, d')) :
    d'.Inv t ∧ Taken t k d.entries d'.entries ∧ SameShape d d' ∧ ∀ b, LastFree d b → LastFree d' b := by
  rcases rdictRemove_inv h.tidy hrun with ⟨hrs, rfl⟩ | ⟨e, hhas, hr⟩
  · refine ⟨h, ⟨fun x hx hk => ?_, .inl (List.Perm.refl _)⟩, ⟨rfl, rfl, rfl, rfl, rfl⟩, fun _ => id⟩
    obtain ⟨n, -, -, hfound⟩ := removeScan_present hc h hx hk
    rw [hrs] at hfound
    cases hfound
  · refine ⟨hr.inv h, ⟨fun x hx hk => ?_, .inr ⟨e, hhas, hr.entries⟩⟩, hr.shape, fun b hfree hb' => hfree ?_⟩
    · exact (List.pairwise_cons.mp (pairwise_perm hr.entries h.unique)).1 x hx ⟨k, hhas, hk⟩
    · rw [hr.shape.bucketCapacity] at hb'
      exact hr.occupied _ hb'

/-! ### The `NULL` key -/

theorem removeNull_buckets : (removeNull t d).buckets = d.buckets := by
  unfold removeNull
  split <;> rfl

theorem removeNull_capacity : (removeNull t d).capacity = d.capacity := by
  unfold removeNull
  split <;> rfl

theorem addNull_buckets {ok : Nat → Bool} {val : Option V} :
    (addNull t ok d val).buckets = d.buckets := by
  unfold addNull
  split
  · split <;> rfl
  · rfl

theorem removeNull_spec (h : d.Inv t) : (removeNull t d).Inv t ∧
    (removeNull t d).entries = d.entries ∧ (removeNull t d).slots = d.slots ∧
    (removeNull t d).entryNull = none ∧ (removeNull t d).bucketCapacity = d.bucketCapacity := by
  unfold removeNull
  cases hnull : d.entryNull with
  | none => exact ⟨h, rfl, rfl, hnull, rfl⟩
  | some e =>
    have hsize := h.size_eq
    have hle := entries_length_le h
    have hcap := h.capacity_lt
    simp only [hnull, Option.isSome_some, if_true] at hsize
    refine ⟨⟨h.width, h.table, h.length, h.capacity_eq, h.capacity_lt, h.compact, h.placed, h.unique, ?_⟩,
      rfl, rfl, rfl, rfl⟩
    dsimp only
    rw [u32Pred_eq (by omega) (by omega), hsize]
    rfl

theorem addNull_spec (h : d.Inv t) {ok : Nat → Bool} (val : Option V)
    (hok : d.entryNull = none → ok d.heap.calls = true)
    (hroom : d.entryNull = none → d.entries.length + 1 < 4294967296) : (addNull t ok d val).Inv t ∧
    (addNull t ok d val).entries = d.entries ∧ (addNull t ok d val).slots = d.slots ∧
    (addNull t ok d val).bucketCapacity = d.bucketCapacity ∧
    ∃ e ext, (addNull t ok d val).entryNull = some e ∧ e.value = (t.copyValueFunc ext val).1 := by
  have hsize := h.size_eq
  unfold addNull
  cases hnull : d.entryNull with
  | none =>
    have halloc : d.heap.alloc ok =
        (some d.heap.calls, { d.heap with calls := d.heap.calls + 1 }) := by
      simp [RdictHeap.alloc, hok hnull]
    rw [halloc]
    refine ⟨⟨h.width, h.table, h.length, h.capacity_eq, h.capacity_lt, h.compact, h.placed, h.unique, ?_⟩,
      rfl, rfl, rfl, _, _, rfl, rfl⟩
    simp only [hnull, Option.isSome_none, Bool.false_eq_true, if_false] at hsize
    dsimp only
    rw [hsize, u32_of_lt (hroom hnull)]
    rfl
  | some e =>
    simp only [hnull] at hsize
    exact ⟨⟨h.width, h.table, h.length, h.capacity_eq, h.capacity_lt, h.compact, h.placed, h.unique,
      hsize⟩, rfl, rfl, rfl, _, _, rfl, rfl⟩

end Funra
