import Funra.Lib.Ledger
import Funra.Rdict.Returns

/-!
# Ownership of the copies

The callbacks keep a ledger of the keys and of the values (`RdictFuncs.noted`): what the copy functions
return, and what the free functions are given, `NULL` apart. The dictionary holds the copies in its entries and
in the entry of the `NULL` key, and every call keeps the ledger balanced for them (`RdictOwns.step`): a rehash
only moves entries, the hole that a removal leaves is filled by an entry that is held on, and `rdict_clear` comes
to each entry once. This needs the shape of the table alone (`Rdict.Tidy`), not that the keys are in their
buckets or differ. A search that leaves the table ends a run before the release (`rdict_owns_past_end`).
-/

namespace Funra

open Mem Table System KeyMap Ownership

structure RdictLedger (K V : Type) where
  keys : Ledger K
  values : Ledger V
  deriving DecidableEq, Repr

variable {K V E : Type} {t : RdictFuncs K V E} {ok : Nat → Bool} {scale : Nat → Nat} {k : K}
  {e : RdictEntry K V} {es es' : List (RdictEntry K V)} {s : E × RdictLedger K V}
  {d d' : Rdict K V (E × RdictLedger K V)}

namespace RdictLedger

def empty : RdictLedger K V := ⟨.empty, .empty⟩

/-- Balanced for the keys and the values of the entries. -/
structure Covers (L : RdictLedger K V) (es : List (RdictEntry K V)) : Prop where
  keys : L.keys.Balanced (es.flatMap fun e => e.key.toList)
  values : L.values.Balanced (es.flatMap fun e => e.value.toList)

/-- Every copy has been freed, and nothing else. -/
structure Settled (L : RdictLedger K V) : Prop where
  keys : L.keys.Settled
  values : L.values.Settled

/-- The copies of the entry have not been freed. -/
structure Live [DecidableEq K] [DecidableEq V] (L : RdictLedger K V) (e : RdictEntry K V) : Prop where
  key : ∀ c, e.key = some c → L.keys.Live c
  value : ∀ c, e.value = some c → L.values.Live c

end RdictLedger

/-- The callbacks with a ledger of what is copied and freed. -/
def RdictFuncs.noted (t : RdictFuncs K V E) : RdictFuncs K V (E × RdictLedger K V) where
  hashFunc := t.hashFunc
  isKeyEqual := t.isKeyEqual
  copyKeyFunc s key :=
    let (key, ext) := t.copyKeyFunc s.1 key
    (key, ext, { s.2 with keys := s.2.keys.make key })
  copyValueFunc s val :=
    let (val, ext) := t.copyValueFunc s.1 val
    (val, ext, { s.2 with values := s.2.values.make val })
  freeKeyFunc s key := (t.freeKeyFunc s.1 key, { s.2 with keys := s.2.keys.free key })
  freeValueFunc s val := (t.freeValueFunc s.1 val, { s.2 with values := s.2.values.free val })

/-- The entries that own their keys and values. -/
def Rdict.held {E : Type} (d : Rdict K V E) : List (RdictEntry K V) := d.entryNull.toList ++ d.entries

/-- A dictionary with its copies noted. -/
structure RdictOwns (d : Rdict K V (E × RdictLedger K V)) : Prop where
  tidy : d.Tidy
  buckets : 0 < d.buckets
  width : 2 ≤ d.bucketCapacity
  covers : d.dataExt.2.Covers d.held

/-! ### Entries and the ledger -/

namespace RdictLedger.Covers

theorem perm {L : RdictLedger K V} (h : L.Covers es) (hp : es.Perm es') : L.Covers es' :=
  ⟨h.keys.perm (hp.flatMap_right _), h.values.perm (hp.flatMap_right _)⟩

theorem copy (h : s.2.Covers es) (key : Option K) (val : Option V) :
    (t.noted.copyValueFunc (t.noted.copyKeyFunc s key).2 val).2.2.Covers
      (⟨(t.noted.copyKeyFunc s key).1, (t.noted.copyValueFunc (t.noted.copyKeyFunc s key).2 val).1⟩ :: es) :=
  ⟨h.keys.make _, h.values.make _⟩

theorem replace (h : s.2.Covers (e :: es)) (val : Option V) :
    (t.noted.copyValueFunc (t.noted.freeValueFunc s e.value) val).2.2.Covers
      ({ e with value := (t.noted.copyValueFunc (t.noted.freeValueFunc s e.value) val).1 } :: es) :=
  ⟨h.keys, Ledger.Balanced.make h.values.free _⟩

theorem free (h : s.2.Covers (e :: es)) : (freeEntry t.noted s e).2.Covers es :=
  ⟨h.keys.free, h.values.free⟩

theorem settled {L : RdictLedger K V} (h : L.Covers []) : L.Settled :=
  ⟨h.keys.settled, h.values.settled⟩

theorem live [DecidableEq K] [DecidableEq V] {L : RdictLedger K V} (h : L.Covers es) (he : e ∈ es) :
    L.Live e := by
  refine ⟨fun c hc => h.keys.live ?_, fun c hc => h.values.live ?_⟩
  · exact List.mem_flatMap.mpr ⟨e, he, by simp [hc]⟩
  · exact List.mem_flatMap.mpr ⟨e, he, by simp [hc]⟩

end RdictLedger.Covers

/-! ### Adding -/

/-- An entry of the table in the place of another one, or of a free slot. -/
theorem held_perm {x : RdictEntry K V} (hnull : d'.entryNull = d.entryNull)
    (hentries : d'.entries.Perm (x :: es)) : d'.held.Perm (x :: (d.entryNull.toList ++ es)) := by
  rw [Rdict.held, hnull]
  exact (hentries.append_left _).trans List.perm_middle

/-- A new entry in a free slot; the copied key is not `NULL`, so the entry counts. -/
theorem putAt_free_owns {n : Nat} {val : Option V} (h : RdictOwns d)
    (hcopy : ∀ s k, (t.copyKeyFunc s (some k)).1.isSome = true)
    (hscan : scan t.noted k (d.slots.drop (d.start t.noted k)) = .ok (n, e))
    (hn : n < d.bucketCapacity) (hkey : e.key = none) :
    RdictOwns (putAt t.noted d (d.start t.noted k + n) e k val) := by
  have hshape := putAt_shape t.noted d (d.start t.noted k + n) e k val
  have hslots := putAt_free_slots (t := t.noted) (d.start t.noted k + n) k val h.tidy.table hkey
  have htable : (putAt t.noted d (d.start t.noted k + n) e k val).entry.isSome = true := by
    simp only [putAt, hkey]
    exact (isSome_withSlots _).trans h.tidy.table
  have hext : (putAt t.noted d (d.start t.noted k + n) e k val).dataExt =
      (t.noted.copyValueFunc (t.noted.copyKeyFunc d.dataExt (some k)).2 val).2 := by
    simp only [putAt, hkey]
  have hcovers := h.covers.copy (t := t) (some k) val
  generalize putAt t.noted d (d.start t.noted k + n) e k val = d' at hshape hslots htable hext
  rw [← hext] at hcovers
  generalize hx : (⟨(t.noted.copyKeyFunc d.dataExt (some k)).1,
    (t.noted.copyValueFunc (t.noted.copyKeyFunc d.dataExt (some k)).2 val).1⟩ : RdictEntry K V) = x
    at hslots hcovers
  have hocc : x.occupied = true := by
    rw [← hx]
    exact hcopy d.dataExt.1 k
  have hperm : d'.entries.Perm (x :: d.entries) := by
    rw [Rdict.entries, hslots]
    exact filter_set_perm (scan_slot hscan).1 (by simp [RdictEntry.occupied, hkey]) hocc
  refine ⟨h.tidy.of_shape hshape htable ?_ ?_, hshape.buckets ▸ h.buckets, hshape.bucketCapacity ▸ h.width,
    hcovers.perm (held_perm hshape.entryNull hperm).symm⟩
  · rw [hslots, List.length_set]
  · rw [hslots]
    exact compact_at_scan h.tidy hscan hn hocc

/-- The entry that was found keeps its key and gets another value. -/
theorem putAt_found_owns {i : Nat} {k' : K} {val : Option V} (h : RdictOwns d) (hslot : d.slots[i]? = some e)
    (hkey : e.key = some k') : RdictOwns (putAt t.noted d i e k val) := by
  have hshape := putAt_shape t.noted d i e k val
  have hslots := putAt_found_slots (t := t.noted) i k val h.tidy.table hkey
  have htable : (putAt t.noted d i e k val).entry.isSome = true := by
    simp only [putAt, hkey]
    exact (isSome_withSlots _).trans h.tidy.table
  have hext : (putAt t.noted d i e k val).dataExt =
      (t.noted.copyValueFunc (t.noted.freeValueFunc d.dataExt e.value) val).2 := by
    simp only [putAt, hkey]
  generalize putAt t.noted d i e k val = d' at hshape hslots htable hext
  generalize hx : ({ e with value := (t.noted.copyValueFunc (t.noted.freeValueFunc d.dataExt e.value) val).1 } :
    RdictEntry K V) = x at hslots
  have hocc : e.occupied = true := occupied_iff.mpr ⟨k', hkey⟩
  have hxocc : x.occupied = true := by
    rw [← hx]
    exact hocc
  obtain ⟨a, b, hold, hnew⟩ := filter_reset hslot hocc hxocc
  rw [← hslots] at hnew
  have hperm : d.entries.Perm (e :: (a ++ b)) := by
    rw [Rdict.entries, hold]
    exact List.perm_middle
  have hperm' : d'.entries.Perm (x :: (a ++ b)) := by
    rw [Rdict.entries, hnew]
    exact List.perm_middle
  have hreplaced := (h.covers.perm (held_perm rfl hperm)).replace (t := t) val
  rw [hx, ← hext] at hreplaced
  refine ⟨h.tidy.of_shape hshape htable ?_ ?_, hshape.buckets ▸ h.buckets, hshape.bucketCapacity ▸ h.width,
    hreplaced.perm (held_perm hshape.entryNull hperm').symm⟩
  · rw [hslots, List.length_set]
  · rw [hslots]
    exact h.tidy.compact.reset hxocc ⟨e, hslot, hocc⟩

theorem addNull_owns (hok : ∀ i, ok i = true) (val : Option V) (h : RdictOwns d) :
    RdictOwns (addNull t.noted ok d val) := by
  have hheld := h.covers
  unfold addNull
  cases hnull : d.entryNull with
  | none =>
    rw [Rdict.held, hnull] at hheld
    simp only [RdictHeap.alloc, hok, if_true]
    exact ⟨h.tidy.of_fields rfl rfl rfl rfl, h.buckets, h.width, hheld.copy none val⟩
  | some e =>
    rw [Rdict.held, hnull] at hheld
    exact ⟨h.tidy.of_fields rfl rfl rfl rfl, h.buckets, h.width, hheld.replace val⟩

/-- A rehash moves the entries. -/
theorem Moved.owns {n : Nat} (hmoved : Moved t.noted n d d') (hpos : 0 < n)
    (hlt : n * d.bucketCapacity < 4294967296) (h : RdictOwns d) : RdictOwns d' := by
  refine ⟨hmoved.tidy h.tidy hlt, hmoved.buckets ▸ hpos, hmoved.bucketCapacity ▸ h.width, ?_⟩
  rw [hmoved.dataExt]
  apply h.covers.perm
  rw [Rdict.held, Rdict.held, hmoved.entryNull]
  exact hmoved.entries.symm.append_left _

theorem rdictAdd_owns (hcopy : ∀ s k, (t.copyKeyFunc s (some k)).1.isSome = true) (hok : ∀ i, ok i = true)
    {fuel : Nat} {val : Option V} {code : Int} (h : RdictOwns d) (hends : RoundEnds t.noted scale d k)
    (hrun : rdictAdd t.noted ok scale fuel d (some k) val = .ok (code, d')) : RdictOwns d' := by
  induction fuel generalizing d with
  | zero => cases hrun
  | succ fuel ih =>
    obtain ⟨-, hround⟩ := rdictAdd_cases hrun
    cases hround with
    | put hscan hn =>
      rename_i n e
      cases hkey : e.key with
      | none => exact putAt_free_owns h hcopy hscan (by omega) hkey
      | some k' => exact putAt_found_owns h (scan_slot hscan).1 hkey
    | refused _ _ hx hcode => exact absurd (expandBuckets_ok hok h.tidy hx).1 hcode
    | again hscan hn hx hrest =>
      obtain ⟨-, m, hrehash, hends⟩ := hends ((crowded_iff hscan).mpr hn)
      obtain ⟨-, m₁, hsettles, hmoved⟩ := expandBuckets_ok hok h.tidy hx
      rw [hsettles.unique hrehash.settles] at hmoved
      obtain ⟨hpos, hlt⟩ := hrehash.fits
      have hmoved' := hmoved.owns hpos hlt h
      refine ih hmoved' (AddEnds.round hmoved'.tidy hmoved.placed ?_) hrest
      rw [hmoved.bucketCapacity, hmoved.buckets]
      exact hends.perm hmoved.entries.symm

/-! ### Removing -/

theorem removeNull_owns (h : RdictOwns d) : RdictOwns (removeNull t.noted d) := by
  have hheld := h.covers
  unfold removeNull
  cases hnull : d.entryNull with
  | none => exact h
  | some e =>
    rw [Rdict.held, hnull] at hheld
    exact ⟨h.tidy.of_fields rfl rfl rfl rfl, h.buckets, h.width, hheld.free⟩

/-- The entry that was found is freed, the others are held on. -/
theorem Dropped.owns (hr : Dropped t.noted e d d') (h : RdictOwns d) : RdictOwns d' := by
  refine ⟨hr.tidy, hr.shape.buckets ▸ h.buckets, hr.shape.bucketCapacity ▸ h.width, ?_⟩
  rw [hr.dataExt, Rdict.held, hr.shape.entryNull]
  exact (h.covers.perm (held_perm rfl hr.entries)).free

/-! ### Clearing -/

theorem clearLoop_covers {fuel i : Nat} (hit : Iterable d i) (htable : d.entry.isSome = true)
    (hnull : d.entryNull = none) (h : d.dataExt.2.Covers ((d.slots.drop i).filter RdictEntry.occupied))
    (hrun : clearLoop t.noted fuel d (some i) = .ok d') : d'.dataExt.2.Covers [] := by
  induction fuel generalizing d i with
  | zero => cases hrun
  | succ fuel ih =>
    obtain ⟨r, hr, hnext⟩ := nextFrom_spec hit
    simp only [clearLoop, rdictNext, hr, bind, Except.bind] at hrun
    rcases hnext.entries with ⟨j, e, hj, rfl, hget, -, hrest⟩ | ⟨i', rfl, hnone⟩
    · rcases hnext with ⟨j', -, heq, hocc, -⟩ | ⟨i', -, heq, -⟩
      · cases heq
        obtain ⟨hshape, hsome⟩ := freeAt_shape (t := t.noted) hnull (.slot j)
        have hslots : (freeAt t.noted d (.slot j)).slots = d.slots.set j RdictEntry.empty :=
          slots_of_entry htable rfl
        refine ih ((hit.mono hj).free htable hocc) (hsome.trans htable) (hshape.entryNull.trans hnull) ?_ hrun
        rw [hrest] at h
        rw [hslots, List.drop_set_of_lt (Nat.lt_succ_self j)]
        simp only [freeAt, hget]
        exact h.free
      · cases heq
    · cases hrun
      rw [hnone] at h
      exact h

theorem rdictClear_covers (h : RdictOwns d) (hrun : rdictClear t.noted d = .ok d') : d'.dataExt.2.Covers [] := by
  obtain ⟨d₁, hloop, hrun⟩ := Except.of_bind_ok hrun
  cases hrun
  have hcov : ((d.entryNull.map (freeEntry t.noted d.dataExt)).getD d.dataExt).2.Covers d.entries := by
    have hheld := h.covers
    unfold Rdict.held at hheld
    cases hnull : d.entryNull with
    | none =>
      rw [hnull] at hheld
      exact hheld
    | some e =>
      rw [hnull] at hheld
      exact hheld.free
  generalize (d.entryNull.map (freeEntry t.noted d.dataExt)).getD d.dataExt = s at hloop hcov
  have hstart : Iterable { d with entryNull := none, dataExt := s } 0 :=
    ⟨h.width, h.tidy.length, ⟨d.buckets, h.tidy.capacity_eq⟩, (h.tidy.iterable h.width 0).compact⟩
  have hfirst : clearLoop t.noted (d.capacity + 1) { d with entryNull := none, dataExt := s } (some 0) =
      .ok d₁ := by
    rw [← hloop]
    unfold clearLoop
    rw [rdictNext_none rfl]
  have hend := clearLoop_covers hstart h.tidy.table rfl hcov hfirst
  exact hend

theorem rdictFind_held {key : Option K} {E : Type} {t : RdictFuncs K V E} {d : Rdict K V E}
    (hfind : rdictFind t d key = .ok (some e)) : e ∈ d.held := by
  cases key with
  | none =>
    have hnull : d.entryNull = some e := Except.ok.inj hfind
    simp [Rdict.held, hnull]
  | some k =>
    obtain ⟨start, hfb, hfind⟩ := Except.of_bind_ok hfind
    obtain ⟨-, rfl⟩ := findBucket_inv hfb
    obtain ⟨⟨n, x⟩, hscan, hfind⟩ := Except.of_bind_ok hfind
    have hx : (if x.key.isSome = true then some x else none) = some e := Except.ok.inj hfind
    split at hx
    next hocc =>
      cases hx
      exact List.mem_append_right _ (mem_entries.mpr ⟨_, (scan_slot hscan).1, hocc⟩)
    next => cases hx

/-! ### Runs -/

theorem held_vacant {n : Nat} (h : Vacant n d) : d.held = [] := by
  rw [Rdict.held, h.entryNull, h.entries]
  rfl

theorem rdictClear_owns (h : RdictOwns d) (hrun : rdictClear t.noted d = .ok d') : RdictOwns d' := by
  obtain ⟨hvacant, hw, hcap⟩ := rdictClear_vacant h.tidy.table hrun
  have hinv : d'.Inv t.noted := by
    apply hvacant.inv
    · exact hw ▸ h.tidy.width
    · rw [hcap, hw]
      exact h.tidy.capacity_eq
    · exact hcap ▸ h.tidy.capacity_lt
  refine ⟨hinv.tidy, hvacant.buckets ▸ h.buckets, hw ▸ h.width, ?_⟩
  rw [held_vacant hvacant]
  exact rdictClear_covers h hrun

theorem RdictOwns.step (hcopy : ∀ s k, (t.copyKeyFunc s (some k)).1.isSome = true) (hok : ∀ i, ok i = true)
    {op : RdictOp K V} (h : RdictOwns d) (hends : RdictEnds t.noted scale d op)
    (hstep : RdictStep t.noted ok scale d op d') : RdictOwns d' := by
  cases op with
  | add key val =>
    cases key with
    | none =>
      obtain rfl := hstep.eq_addNull
      exact addNull_owns hok val h
    | some k =>
      obtain ⟨fuel, code, hrun⟩ := hstep
      exact rdictAdd_owns hcopy hok h hends hrun
  | remove key =>
    cases key with
    | none =>
      obtain rfl := hstep.eq_removeNull
      exact removeNull_owns h
    | some k =>
      obtain ⟨fuel, code, hrun⟩ := hstep
      rcases rdictRemove_inv h.tidy hrun with ⟨-, rfl⟩ | ⟨e, -, hr⟩
      · exact h
      · exact hr.owns h
  | expand capacity =>
    obtain ⟨fuel, code, hrun⟩ := hstep
    obtain ⟨n, hrehash⟩ := hends
    obtain ⟨-, m, hsettles, hmoved⟩ := expandBuckets_ok hok h.tidy hrun
    rw [hsettles.unique hrehash.settles] at hmoved
    exact hmoved.owns hrehash.fits.1 hrehash.fits.2 h
  | clear => exact rdictClear_owns h hstep.clear_ok

theorem owns_create {fuel init bc : Nat} {ext : E} {heap : RdictHeap} (hbc : 2 ≤ bc)
    (hok : ∀ i, ok i = true)
    (hn : 0 < bucketCountOf (u32 (scale (if init > 0 then init else 16))) bc)
    (hlt : bucketCountOf (u32 (scale (if init > 0 then init else 16))) bc * bc < 4294967296)
    (hcreate : rdictCreate t.noted ok scale fuel init bc (ext, .empty) heap = .ok d) : RdictOwns d := by
  have hroomy := roomy_create (by omega) (hok _) hn hlt hcreate
  obtain ⟨n, -, hvacant, hw, -, hext⟩ := rdictCreate_spec (by omega) (hok _) hcreate
  refine ⟨hroomy.inv.tidy, hroomy.buckets, hw ▸ hbc, ?_⟩
  rw [held_vacant hvacant, hext]
  exact ⟨Ledger.balanced_empty, Ledger.balanced_empty⟩

/-- In a run of calls that end, the copies made are at every time those freed and those held, a lookup
returns none that has been freed, and a release frees the rest. -/
theorem rdict_owns_run [DecidableEq K] [DecidableEq V]
    (hcopy : ∀ s k, (t.copyKeyFunc s (some k)).1.isSome = true) {fuel init bc : Nat} {ext : E}
    {heap : RdictHeap} {ops : List (RdictOp K V)} (hbc : 2 ≤ bc) (hok : ∀ i, ok i = true)
    (hn : 0 < bucketCountOf (u32 (scale (if init > 0 then init else 16))) bc)
    (hlt : bucketCountOf (u32 (scale (if init > 0 then init else 16))) bc * bc < 4294967296)
    (hcreate : rdictCreate t.noted ok scale fuel init bc (ext, .empty) heap = .ok d)
    (hrun : Steps (Guarded (RdictEnds t.noted scale) (RdictStep t.noted ok scale)) d ops d') :
    d'.dataExt.2.Covers d'.held ∧
      (∀ key e, rdictFind t.noted d' key = .ok (some e) → d'.dataExt.2.Live e) ∧
      ((rdictRelease t.noted d').Succeeds fun r => r.1.2.Settled) ∧
      ∀ op, RdictEnds t.noted scale d' op → ∃ d₁, RdictStep t.noted ok scale d' op d₁ := by
  have hd : RdictOwns d := owns_create hbc hok hn hlt hcreate
  have hd' : RdictOwns d' := by
    refine hrun.invariant ?_ hd
    intro s op s' hs hstep
    exact hs.step hcopy hok hstep.1 hstep.2
  refine ⟨hd'.covers, fun key e hfind => hd'.covers.live (rdictFind_held hfind), ?_, fun op hends => ?_⟩
  · obtain ⟨d₁, hclear⟩ := rdictClear_total (t := t.noted) hd'.tidy hd'.width
    refine Except.Succeeds.map ⟨d₁, hclear, ?_⟩
    exact (rdictClear_covers hd' hclear).settled
  · exact hends.returns hok hd'.tidy hd'.buckets hd'.width

/-! ### Copies at new addresses -/

/-- A pointer is an address with what is there, and a copy gets the next address. -/
def copyPtr (next : Nat) : Option (Nat × Nat) → Option (Nat × Nat) × Nat
  | none => (none, next)
  | some p => (some (next, p.2), next + 1)

/-- Keys are hashed and compared by what they point to. -/
def copyFuncs : RdictFuncs (Nat × Nat) (Nat × Nat) Nat where
  hashFunc k := k.2
  isKeyEqual a b := a.2 == b.2
  copyKeyFunc := copyPtr
  copyValueFunc := copyPtr
  freeKeyFunc next _ := next
  freeValueFunc next _ := next

/-- Two buckets of two slots. -/
def copyDict (slots : List (RdictEntry (Nat × Nat) (Nat × Nat)))
    (entryNull : Option (RdictEntry (Nat × Nat) (Nat × Nat))) (size calls next : Nat)
    (ledger : RdictLedger (Nat × Nat) (Nat × Nat)) :
    Rdict (Nat × Nat) (Nat × Nat) (Nat × RdictLedger (Nat × Nat) (Nat × Nat)) where
  entry := some (0, slots)
  entryNull
  size
  capacity := 4
  buckets := 2
  bucketCapacity := 2
  dataExt := (next, ledger)
  heap := ⟨calls, [0]⟩

/-- A value is replaced, the `NULL` key added. -/
theorem rdict_owns_replaced : ∃ r, rdictRelease copyFuncs.noted
    (copyDict [⟨some (1, 4), some (3, 8)⟩, .empty, .empty, .empty] (some ⟨none, some (4, 9)⟩) 2 2 5
      ⟨⟨[(1, 4)], []⟩, ⟨[(4, 9), (3, 8), (2, 7)], [(2, 7)]⟩⟩) = .ok r ∧ r.1.2.Settled := by
  obtain ⟨d₀, hd₀⟩ : ∃ d, d = copyDict [.empty, .empty, .empty, .empty] none 0 1 1 .empty := ⟨_, rfl⟩
  obtain ⟨d₁, hd₁⟩ : ∃ d, d = copyDict [⟨some (1, 4), some (2, 7)⟩, .empty, .empty, .empty] none 1 1 3
      ⟨⟨[(1, 4)], []⟩, ⟨[(2, 7)], []⟩⟩ := ⟨_, rfl⟩
  obtain ⟨d₂, hd₂⟩ : ∃ d, d = copyDict [⟨some (1, 4), some (3, 8)⟩, .empty, .empty, .empty] none 1 1 4
      ⟨⟨[(1, 4)], []⟩, ⟨[(3, 8), (2, 7)], [(2, 7)]⟩⟩ := ⟨_, rfl⟩
  obtain ⟨d₃, hd₃⟩ : ∃ d, d = copyDict [⟨some (1, 4), some (3, 8)⟩, .empty, .empty, .empty]
      (some ⟨none, some (4, 9)⟩) 2 2 5 ⟨⟨[(1, 4)], []⟩, ⟨[(4, 9), (3, 8), (2, 7)], [(2, 7)]⟩⟩ := ⟨_, rfl⟩
  have hcreate : rdictCreate copyFuncs.noted (fun _ => true) exactScale 1 3 2 (1, .empty) ⟨0, []⟩ =
      .ok d₀ := by
    rw [hd₀]
    rfl
  have h₁ : RdictStep copyFuncs.noted (fun _ => true) exactScale d₀ (.add (some (0, 4)) (some (0, 7))) d₁ := by
    refine ⟨1, rdictCodeOk, ?_⟩
    rw [hd₀, hd₁]
    rfl
  have h₂ : RdictStep copyFuncs.noted (fun _ => true) exactScale d₁ (.add (some (0, 4)) (some (0, 8))) d₂ := by
    refine ⟨1, rdictCodeOk, ?_⟩
    rw [hd₁, hd₂]
    rfl
  have h₃ : RdictStep copyFuncs.noted (fun _ => true) exactScale d₂ (.add none (some (0, 9))) d₃ := by
    refine ⟨1, rdictCodeOk, ?_⟩
    rw [hd₂, hd₃]
    rfl
  have hends₁ : RdictEnds copyFuncs.noted exactScale d₀ (.add (some (0, 4)) (some (0, 7))) := by
    rw [hd₀]
    exact roundEnds_of_slot (j := 0) (by decide) rfl (stop_of_free rfl)
  have hends₂ : RdictEnds copyFuncs.noted exactScale d₁ (.add (some (0, 4)) (some (0, 8))) := by
    rw [hd₁]
    exact roundEnds_of_slot (j := 0) (by decide) rfl fun _ => ⟨(1, 4), rfl, rfl⟩
  have hrun : Steps (Guarded (RdictEnds copyFuncs.noted exactScale)
      (RdictStep copyFuncs.noted (fun _ => true) exactScale)) d₀
      [.add (some (0, 4)) (some (0, 7)), .add (some (0, 4)) (some (0, 8)), .add none (some (0, 9))] d₃ :=
    .cons ⟨hends₁, h₁⟩ (.cons ⟨hends₂, h₂⟩ (.cons ⟨trivial, h₃⟩ (.nil _)))
  rw [← hd₃]
  exact (rdict_owns_run (fun _ _ => rfl) (by decide) (fun _ => rfl) (by decide) (by decide) hcreate
    hrun).2.2.1

/-- Adding 14, of the last bucket, when 4 and 9 fill it: the search leaves the table, and their copies are
not freed. -/
theorem rdict_owns_past_end :
    ∃ d, rdictCreate copyFuncs.noted (fun _ => true) exactScale 1 3 2 (1, .empty) ⟨0, []⟩ = .ok d ∧
      ¬ ∃ d' r, Steps (RdictStep copyFuncs.noted (fun _ => true) exactScale) d
          ([.add (some (0, 4)) none, .add (some (0, 9)) none, .add (some (0, 6)) none] ++
            [.add (some (0, 14)) none]) d' ∧
        rdictRelease copyFuncs.noted d' = .ok r ∧ r.1.2.Settled := by
  obtain ⟨d₀, hd₀⟩ : ∃ d, d = copyDict [.empty, .empty, .empty, .empty] none 0 1 1 .empty := ⟨_, rfl⟩
  refine ⟨d₀, by rw [hd₀]; rfl, ?_⟩
  rintro ⟨d', r, hrun, -⟩
  obtain ⟨d₂, hfirst, hlast⟩ := hrun.of_append
  have hend : (RdictOp.execAll copyFuncs.noted (fun _ => true) exactScale 4 d₀
      [.add (some (0, 4)) none, .add (some (0, 9)) none, .add (some (0, 6)) none]).map
        (fun d => rdictFind copyFuncs.noted d (some (0, 14))) = .ok (.error .outOfBounds) := by
    rw [hd₀]
    decide +kernel
  obtain ⟨d₁, hexec, hfault⟩ := Except.of_map_ok hend
  have hsame := hfirst.unique (fun h h' => h.unique h') (steps_of_execAll hexec)
  subst hsame
  cases hlast with
  | cons hstep _ => exact not_step_of_find_error hfault hstep

end Funra
