import Funra.Rdict.Adds

/-!
# Failed expansions

When there is no memory for a table, `_expand_buckets` has freed the ones it has given up, and leaves the dictionary
as it was. `rdict_add` may have expanded the table before it fails: then it keeps the new table, with the same
entries, and the old one is freed (`failed_call_keeps`).
-/

namespace Funra

open Mem Table

variable {K V E : Type} {t : RdictFuncs K V E} {d d' d₁ d₂ : Rdict K V E} {k : K} {e : RdictEntry K V}
  {ok : Nat → Bool} {scale : Nat → Nat} {fuel capacity m : Nat} {val : Option V} {code : Int}

/-- The table of the dictionary is in memory, and the numbers of allocations are given once. -/
structure Rdict.Allocated (d : Rdict K V E) : Prop where
  table : ∀ id slots, d.entry = some (id, slots) → id ∈ d.heap.tables
  nodup : d.heap.tables.Nodup
  lt : ∀ id ∈ d.heap.tables, id < d.heap.calls

/-- Every lookup, the size, the capacity and the bucket count are as before; the original table is still there, and
no other table more than before. -/
structure LosesNothing (t : RdictFuncs K V E) (d d' : Rdict K V E) : Prop where
  find : ∀ key, rdictFind t d' key = rdictFind t d key
  size : d'.size = d.size
  capacity : d'.capacity = d.capacity
  buckets : d'.buckets = d.buckets
  table : d'.entry = d.entry
  allocated : d'.Allocated
  freed : d'.heap.tables = d.heap.tables

/-- The size is as before, every lookup that finds an entry finds the same one, and besides the table of the
dictionary, which is in memory, there are the same tables as before. -/
structure KeepsEntries (t : RdictFuncs K V E) (d d' : Rdict K V E) : Prop where
  find : ∀ key e, rdictFind t d' key = .ok (some e) ↔ rdictFind t d key = .ok (some e)
  size : d'.size = d.size
  allocated : d'.Allocated
  freed : ∀ id slots id' slots', d.entry = some (id, slots) → d'.entry = some (id', slots') →
    (d'.heap.tables.erase id').Perm (d.heap.tables.erase id)

/-- The first expansion that the call makes succeeds. -/
def Expands (t : RdictFuncs K V E) (ok : Nat → Bool) (scale : Nat → Nat) (d : Rdict K V E) : Prop :=
  ∃ fuel d', rdictExpand t ok scale fuel d d.capacity = .ok (rdictCodeOk, d')

/-! ### Lookups -/

theorem rdictFind_found {key : Option K} (hc : Compatible t) (h : d.Inv t) (hb : 0 < d.buckets) :
    rdictFind t d key = .ok (some e) ↔
      (key = none ∧ d.entryNull = some e) ∨ ∃ k, key = some k ∧ e ∈ d.entries ∧ HasKey t k e := by
  cases key with
  | none =>
    constructor
    · intro hfind
      exact .inl ⟨rfl, Except.ok.inj hfind⟩
    · rintro (⟨-, hnull⟩ | ⟨k, hk, -⟩)
      · exact congrArg Except.ok hnull
      · cases hk
  | some k =>
    constructor
    · intro hfind
      obtain ⟨start, hfb, hfind⟩ := Except.of_bind_ok hfind
      obtain ⟨-, rfl⟩ := findBucket_inv hfb
      obtain ⟨⟨n, x⟩, hscan, hfind⟩ := Except.of_bind_ok hfind
      obtain ⟨hslot, hstop, -⟩ := scan_slot hscan
      have hite : (if x.key.isSome then some x else none) = some e := Except.ok.inj hfind
      split at hite
      · rename_i ho
        cases hite
        exact .inr ⟨k, rfl, mem_entries.mpr ⟨_, hslot, ho⟩, hstop ho⟩
      · cases hite
    · rintro (⟨hk, -⟩ | ⟨k', hk, he, hhas⟩)
      · cases hk
      · cases hk
        exact rdictFind_present hc h hb he hhas

/-! ### What a call that fails has kept -/

/-- What the successful expansions of a call keep. -/
structure Kept (t : RdictFuncs K V E) (d d' : Rdict K V E) : Prop where
  inv : d'.Inv t
  buckets : 0 < d.buckets → 0 < d'.buckets
  entries : d'.entries.Perm d.entries
  entryNull : d'.entryNull = d.entryNull
  size : d'.size = d.size
  allocated : d'.Allocated
  freed : ∀ id slots id' slots', d.entry = some (id, slots) → d'.entry = some (id', slots') →
    (d'.heap.tables.erase id').Perm (d.heap.tables.erase id)

theorem Rdict.Allocated.asked (h : d.Allocated) (n : Nat) : (d.asked n).Allocated :=
  ⟨h.table, h.nodup, fun id hid => Nat.lt_of_lt_of_le (h.lt id hid) (Nat.le_add_right _ n)⟩

theorem Kept.asked (h : d.Inv t) (halloc : d.Allocated) (n : Nat) : Kept t d (d.asked n) where
  inv := h.of_heap _
  buckets := id
  entries := List.Perm.refl _
  entryNull := rfl
  size := rfl
  allocated := halloc.asked n
  freed := by
    intro id slots id' slots' hid hid'
    have heq := Option.some.inj (hid.symm.trans hid')
    rw [(Prod.mk.inj heq).1]
    exact List.Perm.refl _

theorem Kept.trans (h : Kept t d d₁) (h' : Kept t d₁ d₂) : Kept t d d₂ where
  inv := h'.inv
  buckets := fun hb => h'.buckets (h.buckets hb)
  entries := h'.entries.trans h.entries
  entryNull := h'.entryNull.trans h.entryNull
  size := h'.size.trans h.size
  allocated := h'.allocated
  freed := by
    intro id slots id' slots' hid hid'
    obtain ⟨⟨id₁, slots₁⟩, hid₁⟩ := Option.isSome_iff_exists.mp h.inv.table
    exact (h'.freed id₁ slots₁ id' slots' hid₁ hid').trans (h.freed id slots id₁ slots₁ hid hid₁)

/-- The new table takes the place of the old one. -/
theorem Rdict.Allocated.replaced (halloc : d.Allocated) {oldId : Nat} {old slots : List (RdictEntry K V)}
    (hold : d.entry = some (oldId, old)) (hnew : d'.entry = some (d.heap.calls + m, slots))
    (hheap : d'.heap = ((d.asked (m + 1)).heap.addTable (d.heap.calls + m)).freeTable oldId) :
    d'.heap.tables = (d.heap.calls + m) :: d.heap.tables.erase oldId ∧ d'.Allocated := by
  have hnot : d.heap.calls + m ∉ d.heap.tables := fun hmem => absurd (halloc.lt _ hmem) (by omega)
  have hne : d.heap.calls + m ≠ oldId := by
    rintro heq
    rw [heq] at hnot
    exact hnot (halloc.table _ _ hold)
  have htables : d'.heap.tables = (d.heap.calls + m) :: d.heap.tables.erase oldId := by
    rw [hheap]
    show ((d.heap.calls + m) :: d.heap.tables).erase oldId = _
    rw [List.erase_cons_tail (by simpa using hne)]
  have hcalls : d'.heap.calls = d.heap.calls + (m + 1) := by
    rw [hheap]
    rfl
  refine ⟨htables, ?_, ?_, ?_⟩
  · intro id slots' hid
    rw [hnew] at hid
    cases hid
    rw [htables]
    exact List.mem_cons_self
  · rw [htables]
    exact List.nodup_cons.mpr ⟨fun hmem => hnot (List.mem_of_mem_erase hmem), halloc.nodup.erase oldId⟩
  · intro id hid
    rw [htables] at hid
    rw [hcalls]
    rcases List.mem_cons.mp hid with rfl | hid
    · omega
    · exact Nat.lt_of_lt_of_le (halloc.lt id (List.mem_of_mem_erase hid)) (Nat.le_add_right _ _)

/-- An expansion that succeeds. -/
theorem ExpandEnds.kept (h : d.Inv t) (halloc : d.Allocated)
    (hends : ExpandEnds t ok scale d capacity m rdictCodeOk d')
    (hsized : Sized d.bucketCapacity (triedBuckets scale d.bucketCapacity capacity m)) : Kept t d d' := by
  have hre := hends.moved.rebuilt h
  generalize hcode : rdictCodeOk = code at hends
  cases hends with
  | refused _ => cases hcode
  | settled _ hmoved hold hnew hheap =>
    obtain ⟨htables, halloc'⟩ := halloc.replaced hold hnew hheap
    refine ⟨hre.inv hsized.2, fun _ => hmoved.buckets ▸ hsized.1, hre.entries, hre.entryNull, hre.size, halloc', ?_⟩
    intro id slots₁ id' slots₂ hid hid'
    rw [hold] at hid
    rw [hnew] at hid'
    cases hid
    cases hid'
    rw [htables, List.erase_cons_head]

/-- The tables of an addition, when the last one is at least a bucket. -/
theorem Grown.kept (h : Grown t ok scale k d d') (hinv : d.Inv t) (halloc : d.Allocated) (hlast : ¬ Small d') :
    Kept t d d' := by
  induction h with
  | refl d => exact Kept.asked hinv halloc 0
  | @step d d₁ d' n fuel e hscan hn hx hgrown ih =>
    obtain ⟨m, hgives, hends⟩ := expandBuckets_ends hinv.tidy hx
    rcases hends.shaped_or_small hinv.tidy with ⟨hsized, -⟩ | hsmall
    · have hkept := hends.kept hinv halloc hsized
      exact hkept.trans (ih hkept.inv hkept.allocated hlast)
    · rw [hgrown.eq_of_small hsmall] at hlast
      exact absurd hsmall hlast

theorem losesNothing_asked (t : RdictFuncs K V E) (halloc : d.Allocated) (n : Nat) : LosesNothing t d (d.asked n) :=
  ⟨fun _ => rfl, rfl, rfl, rfl, rfl, halloc.asked n, rfl⟩

theorem Kept.keepsEntries (hc : Compatible t) (h : d.Inv t) (hb : 0 < d.buckets) (hk : Kept t d d') :
    KeepsEntries t d d' := by
  refine ⟨fun key e => ?_, hk.size, hk.allocated, hk.freed⟩
  rw [rdictFind_found hc hk.inv (hk.buckets hb), rdictFind_found hc h hb, hk.entryNull]
  simp only [hk.entries.mem_iff]

/-- An addition that fails has expanded the table some times, and then had no memory. -/
theorem rdictAdd_fails (hinv : d.Inv t) (halloc : d.Allocated)
    (hrun : rdictAdd t ok scale fuel d (some k) val = .ok (code, d')) (hcode : code ≠ rdictCodeOk) :
    0 < d.buckets ∧ Kept t d d' ∧ (Expands t ok scale d ∨ ∃ n, d' = d.asked n) := by
  have hbuckets : 0 < d.buckets := (RdictStep.add_scan ⟨fuel, code, hrun⟩).1
  obtain ⟨d₁, hgrown, hlast⟩ := rdictAdd_grown (.inl ⟨hinv.tidy, hinv.placed⟩) hrun
  cases hlast with
  | put _ _ _ => exact absurd rfl hcode
  | @refused n m e hscan hn hno =>
    have hbig : ¬ Small d₁ := fun hsmall => absurd (hsmall.scan_lt hscan) (Nat.not_lt.mpr hn)
    have hkept := hgrown.kept hinv halloc hbig
    refine ⟨hbuckets, hkept.trans (Kept.asked hkept.inv hkept.allocated _), ?_⟩
    cases hgrown with
    | refl => exact .inr ⟨m + 1, rfl⟩
    | step _ _ hx _ => exact .inl ⟨_, _, hx⟩

/-- For every well-formed dictionary and every pattern of allocations. -/
theorem failed_call_keeps (hc : Compatible t) (hinv : d.Inv t) (halloc : d.Allocated) :
    (∀ fuel capacity code d', rdictExpand t ok scale fuel d capacity = .ok (code, d') → code ≠ rdictCodeOk →
      LosesNothing t d d') ∧
    ∀ fuel k v code d', rdictAdd t ok scale fuel d (some k) (some v) = .ok (code, d') → code ≠ rdictCodeOk →
      (¬ Expands t ok scale d → LosesNothing t d d') ∧ KeepsEntries t d d' := by
  constructor
  · intro fuel capacity code d' hrun hcode
    obtain ⟨m, -, hends⟩ := expandBuckets_ends hinv.tidy hrun
    cases hends with
    | refused _ => exact losesNothing_asked t halloc _
    | settled _ _ => exact absurd rfl hcode
  · intro fuel k v code d' hrun hcode
    obtain ⟨hb, hkept, hend⟩ := rdictAdd_fails hinv halloc hrun hcode
    refine ⟨fun hno => ?_, hkept.keepsEntries hc hinv hb⟩
    obtain ⟨n, rfl⟩ := hend.resolve_left hno
    exact losesNothing_asked t halloc n

theorem oneEntry_allocated : (uint64Dict 0 [⟨some 60, some 7⟩, .empty] 1 1 1).Allocated := by
  refine ⟨?_, by decide, by decide⟩
  intro id slots hid
  cases hid
  decide

theorem failed_call_keeps_one :
    (∀ fuel capacity code d', rdictExpand uint64Funcs (fun _ => false) exactScale fuel
        (uint64Dict 0 [⟨some 60, some 7⟩, .empty] 1 1 1) capacity = .ok (code, d') → code ≠ rdictCodeOk →
      LosesNothing uint64Funcs (uint64Dict 0 [⟨some 60, some 7⟩, .empty] 1 1 1) d') ∧
    ∀ fuel k v code d', rdictAdd uint64Funcs (fun _ => false) exactScale fuel
        (uint64Dict 0 [⟨some 60, some 7⟩, .empty] 1 1 1) (some k) (some v) = .ok (code, d') → code ≠ rdictCodeOk →
      (¬ Expands uint64Funcs (fun _ => false) exactScale (uint64Dict 0 [⟨some 60, some 7⟩, .empty] 1 1 1) →
        LosesNothing uint64Funcs (uint64Dict 0 [⟨some 60, some 7⟩, .empty] 1 1 1) d') ∧
      KeepsEntries uint64Funcs (uint64Dict 0 [⟨some 60, some 7⟩, .empty] 1 1 1) d' :=
  failed_call_keeps uint64Funcs_compatible oneEntry_inv oneEntry_allocated

/-- 60 and 120 share a bucket of one and of three: the first expansion succeeds, the second has no memory, and the
table is left with six slots for two. -/
theorem failed_add_expands : ¬ ∀ (d : Rdict Nat Nat Unit) (ok : Nat → Bool) (fuel k v : Nat) (code : Int)
    (d' : Rdict Nat Nat Unit), d.Inv uint64Funcs → d.Allocated → 2 ≤ d.bucketCapacity →
      rdictAdd uint64Funcs ok exactScale fuel d (some k) (some v) = .ok (code, d') → code ≠ rdictCodeOk →
        LosesNothing uint64Funcs d d' := by
  intro hall
  have hend : (rdictAdd uint64Funcs (fun i => i != 2) exactScale 3
      (uint64Dict 0 [⟨some 60, some 7⟩, .empty] 1 1 1) (some 120) (some 8)).map
        (fun r => (r.1, r.2.capacity)) = .ok (rdictCodeError, 6) := by
    decide +kernel
  obtain ⟨⟨code, d'⟩, hrun, heq⟩ := Except.of_map_ok hend
  obtain ⟨hcode, hcapacity⟩ := Prod.mk.inj heq
  dsimp only at hcode hcapacity
  have hloses := hall _ _ 3 120 8 code d' oneEntry_inv oneEntry_allocated (by decide) hrun (by rw [hcode]; decide)
  have hsame := hloses.capacity
  rw [hcapacity] at hsame
  exact absurd hsame (by decide)

end Funra
