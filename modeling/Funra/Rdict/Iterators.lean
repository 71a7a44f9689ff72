import Mathlib.Data.List.Nodup
import Funra.Lib.Cursor
import Funra.Rdict.Iter
import Funra.Rdict.Runs

/-!
# Whole traversals

`rdict_it`, `rdict_it_first` and `rdict_it_heap` set the cursor, `rdict_next` moves it. As long as the
dictionary is not modified, an iterator gives the entries that are left and then nothing
(`Rdict.Left.yields`). `rdict_it` and `rdict_it_first` start at the pointer to the entry of the `NULL` key,
before the table, `rdict_it_heap` starts in the table.
-/

namespace Funra

open Mem Table Cursor

variable {K V E : Type} {t : RdictFuncs K V E} {d : Rdict K V E} {e : RdictEntry K V}

/-- `rdict_iterator_t`; its `entry` is the table of `d`. -/
structure RdictIterator (K V E : Type) where
  d : Rdict K V E
  next : Option Nat

def rdictIt (d : Rdict K V E) : RdictIterator K V E := ⟨d, none⟩

def rdictItFirst (it : RdictIterator K V E) : RdictIterator K V E := { it with next := none }

/-- `none` where the new iterator stays as `malloc` gave it. -/
def rdictItHeap (d : Rdict K V E) : Option (RdictIterator K V E) :=
  if d.entry.isNone then none else some ⟨d, some 0⟩

/-- `rdict_next` of an iterator. -/
def rdictItNext (it : RdictIterator K V E) :
    Except Fault (Option RdictRef × RdictIterator K V E) := do
  let (r, next) ← rdictNext it.d it.next
  return (r, { it with next := next })

/-! ### What is left -/

/-- The pointer is one to an entry of the dictionary. -/
def Rdict.Live (d : Rdict K V E) : RdictRef → Prop
  | .null => d.entryNull.isSome = true
  | .slot i => Occupied RdictEntry.occupied d.slots i

/-- The pointers to the occupied slots from slot `i` on. -/
def Rdict.refsFrom (d : Rdict K V E) (i : Nat) : List RdictRef :=
  ((d.slots.zipIdx.drop i).filter fun x => x.1.occupied).map fun x => .slot x.2

/-- The pointers to the entries, the one of the `NULL` key first. -/
def Rdict.refs (d : Rdict K V E) : List RdictRef :=
  if d.entryNull.isSome then .null :: d.refsFrom 0 else d.refsFrom 0

/-- What an iterator over `d` has not given yet. -/
inductive Rdict.Left (d : Rdict K V E) : RdictIterator K V E → List RdictRef → Prop
  | start : Left d ⟨d, none⟩ d.refs
  | slot (i : Nat) : Left d ⟨d, some i⟩ (d.refsFrom i)

theorem occupied_zipIdx {i : Nat} :
    Occupied (fun x : RdictEntry K V × Nat => x.1.occupied) d.slots.zipIdx i ↔
      Occupied RdictEntry.occupied d.slots i := by
  unfold Occupied
  rw [List.getElem?_zipIdx]
  cases d.slots[i]? <;> simp

theorem mem_refsFrom_zero {r : RdictRef} :
    r ∈ d.refsFrom 0 ↔ ∃ i, r = .slot i ∧ Occupied RdictEntry.occupied d.slots i := by
  unfold Rdict.refsFrom
  rw [List.drop_zero, List.mem_map]
  constructor
  · intro h
    obtain ⟨⟨e, i⟩, hmem, rfl⟩ := h
    obtain ⟨hget, ho⟩ := List.mem_filter.mp hmem
    exact ⟨i, rfl, e, List.mem_zipIdx_iff_getElem?.mp hget, ho⟩
  · intro h
    obtain ⟨i, rfl, e, hget, ho⟩ := h
    exact ⟨(e, i), List.mem_filter.mpr ⟨List.mem_zipIdx_iff_getElem?.mpr hget, ho⟩, rfl⟩

theorem refsFrom_zero_nodup : (d.refsFrom 0).Nodup := by
  have hall : (d.slots.zipIdx.map fun x => RdictRef.slot x.2).Nodup := by
    have hsnd : (d.slots.zipIdx.map Prod.snd).Nodup := by
      rw [List.zipIdx_map_snd]
      exact List.nodup_range'
    have hmap := List.Nodup.map (fun _ _ => RdictRef.slot.inj) hsnd
    rwa [List.map_map] at hmap
  refine List.Nodup.sublist ?_ hall
  unfold Rdict.refsFrom
  rw [List.drop_zero]
  exact List.filter_sublist.map _

theorem refs_nodup : d.refs.Nodup := by
  unfold Rdict.refs
  by_cases hnull : d.entryNull.isSome = true
  · rw [if_pos hnull, List.nodup_cons]
    refine ⟨fun hmem => ?_, refsFrom_zero_nodup⟩
    obtain ⟨i, hi, -⟩ := mem_refsFrom_zero.mp hmem
    exact RdictRef.noConfusion hi
  · rw [if_neg hnull]
    exact refsFrom_zero_nodup

theorem mem_refs {r : RdictRef} : r ∈ d.refs ↔ d.Live r := by
  unfold Rdict.refs
  cases r with
  | null =>
    have hslots : RdictRef.null ∉ d.refsFrom 0 := by
      intro hmem
      obtain ⟨i, hi, -⟩ := mem_refsFrom_zero.mp hmem
      exact RdictRef.noConfusion hi
    by_cases hnull : d.entryNull.isSome = true
    · simp [Rdict.Live, hnull]
    · simp [Rdict.Live, hnull, hslots]
  | slot i =>
    have hslots : RdictRef.slot i ∈ d.refsFrom 0 ↔ Occupied RdictEntry.occupied d.slots i := by
      simp [mem_refsFrom_zero]
    by_cases hnull : d.entryNull.isSome = true
    · simp [Rdict.Live, hnull, hslots]
    · simp [Rdict.Live, hnull, hslots]

/-- What a call of `rdict_next` with the cursor at a slot leaves. -/
theorem NextFrom.refs {i : Nat} {r : Option RdictRef × Option Nat} (h : NextFrom d i r) :
    ∃ i', r = ((d.refsFrom i).head?, some i') ∧ d.refsFrom i' = (d.refsFrom i).tail := by
  rcases h with ⟨j, hj, hr, hocc, hskip⟩ | ⟨i', hi', hr, hnone⟩
  · have hfrom : d.refsFrom i = .slot j :: d.refsFrom (j + 1) := by
      obtain ⟨e, hget, ho⟩ := hocc
      have hzip : d.slots.zipIdx[j]? = some (e, j) := by
        rw [List.getElem?_zipIdx, hget]
        simp
      unfold Rdict.refsFrom
      rw [filter_drop_skip hj fun l hl hlt => mt occupied_zipIdx.mp (hskip l hl hlt),
        drop_filter_cons (p := fun x => x.1.occupied) hzip ho, List.map_cons]
    refine ⟨j + 1, ?_, ?_⟩
    · rw [hr, hfrom, List.head?_cons]
    · rw [hfrom, List.tail_cons]
  · have hfree : ∀ k, i ≤ k → d.refsFrom k = [] := by
      intro k hk
      unfold Rdict.refsFrom
      rw [List.map_eq_nil_iff]
      apply filter_eq_nil_of_free
      intro l hocc
      obtain ⟨x, hx, ho⟩ := hocc
      rw [List.getElem?_drop] at hx
      exact hnone (k + l) (by omega) (occupied_zipIdx.mp ⟨x, hx, ho⟩)
    refine ⟨i', ?_, ?_⟩
    · rw [hr, hfree i (le_refl i), List.head?_nil]
    · rw [hfree i (le_refl i), hfree i' hi', List.tail_nil]

theorem nextFrom_refs (h : d.Tidy) (hw : 2 ≤ d.bucketCapacity) (i : Nat) :
    ∃ i', nextFrom d i = .ok ((d.refsFrom i).head?, some i') ∧
      d.refsFrom i' = (d.refsFrom i).tail := by
  obtain ⟨r, hr, hnext⟩ := nextFrom_spec (h.iterable hw i)
  obtain ⟨i', rfl, hrest⟩ := hnext.refs
  exact ⟨i', hr, hrest⟩

/-- One call gives the first of what is left. -/
theorem Rdict.Left.next {it : RdictIterator K V E} {l : List RdictRef} (h : d.Tidy)
    (hw : 2 ≤ d.bucketCapacity) (hleft : d.Left it l) :
    ∃ it', rdictItNext it = .ok (l.head?, it') ∧ d.Left it' l.tail := by
  cases hleft with
  | start =>
    by_cases hnull : d.entryNull.isSome = true
    · refine ⟨⟨d, some 0⟩, ?_, ?_⟩
      · simp only [rdictItNext, rdictNext, Rdict.refs, hnull, if_true, bind, Except.bind, pure,
          Except.pure, List.head?_cons]
      · rw [Rdict.refs, if_pos hnull, List.tail_cons]
        exact .slot 0
    · obtain ⟨i', hrun, hrest⟩ := nextFrom_refs h hw 0
      refine ⟨⟨d, some i'⟩, ?_, ?_⟩
      · simp only [rdictItNext, rdictNext, Rdict.refs, if_neg hnull, hrun, bind, Except.bind, pure,
          Except.pure]
      · rw [Rdict.refs, if_neg hnull, ← hrest]
        exact .slot i'
  | slot i =>
    obtain ⟨i', hrun, hrest⟩ := nextFrom_refs h hw i
    refine ⟨⟨d, some i'⟩, ?_, ?_⟩
    · simp only [rdictItNext, rdictNext, hrun, bind, Except.bind, pure, Except.pure]
    · rw [← hrest]
      exact .slot i'

theorem Rdict.Left.yields {it : RdictIterator K V E} {l : List RdictRef} (h : d.Tidy)
    (hw : 2 ≤ d.bucketCapacity) (hleft : d.Left it l) : Yields rdictItNext it l :=
  yields_of_rest (fun _ _ hrest => hrest.next h hw) hleft

/-- From the start of an iteration each entry comes once, then nothing. -/
theorem iteration_complete {it : RdictIterator K V E} (h : d.Tidy) (hw : 2 ≤ d.bucketCapacity)
    (hit : it = rdictIt d ∨ ∃ it₀, it₀.d = d ∧ it = rdictItFirst it₀) :
    ∃ refs : List RdictRef, refs.Nodup ∧ (∀ r, r ∈ refs ↔ d.Live r) ∧
      ∀ m, results rdictItNext m it = .ok ((List.range m).map fun i => refs[i]?) := by
  have hstart : it = ⟨d, none⟩ := by
    rcases hit with rfl | ⟨it₀, rfl, rfl⟩
    · rfl
    · rfl
  subst hstart
  exact ⟨d.refs, refs_nodup, fun _ => mem_refs, Rdict.Left.start.yields h hw⟩

/-- One entry in the table and one of the `NULL` key. -/
def twoKeys : Rdict Nat Nat Unit :=
  addNull uint64Funcs (fun _ => true) (uint64Dict 0 [⟨some 60, some 7⟩, .empty] 1 1 1) (some 8)

theorem twoKeys_tidy : twoKeys.Tidy := oneEntry_inv.tidy.of_fields rfl rfl rfl rfl

theorem iteration_complete_two : ∃ refs : List RdictRef, refs.Nodup ∧ (∀ r, r ∈ refs ↔ twoKeys.Live r) ∧
    ∀ m, results rdictItNext m (rdictIt twoKeys) = .ok ((List.range m).map fun i => refs[i]?) :=
  iteration_complete twoKeys_tidy (by decide) (.inl rfl)

/-! ### The iterator on the heap -/

/-- It gives what `rdict_it` gives just where no entry has the `NULL` key: it starts behind that entry. -/
theorem itHeap_agrees_iff (h : d.Tidy) (hw : 2 ≤ d.bucketCapacity) :
    (∃ it, rdictItHeap d = some it ∧
      ∀ m, results rdictItNext m it = results rdictItNext m (rdictIt d)) ↔ d.entryNull = none := by
  have hheap : rdictItHeap d = some ⟨d, some 0⟩ := by
    unfold rdictItHeap
    rw [if_neg]
    rw [Option.isNone_iff_eq_none]
    exact Option.isSome_iff_ne_none.mp h.table
  have htable : Yields rdictItNext ⟨d, some 0⟩ (d.refsFrom 0) := (Rdict.Left.slot 0).yields h hw
  have hall : Yields rdictItNext (rdictIt d) d.refs := Rdict.Left.start.yields h hw
  constructor
  · intro hagree
    obtain ⟨it, hit, heq⟩ := hagree
    obtain rfl := Option.some.inj (hheap.symm.trans hit)
    have hrefs : d.refs = d.refsFrom 0 := hall.unique fun m => (heq m).symm.trans (htable m)
    by_contra hnull
    have hmem : RdictRef.null ∈ d.refsFrom 0 :=
      hrefs ▸ mem_refs.mpr (Option.isSome_iff_ne_none.mpr hnull)
    obtain ⟨i, hi, -⟩ := mem_refsFrom_zero.mp hmem
    exact RdictRef.noConfusion hi
  · intro hnull
    refine ⟨⟨d, some 0⟩, hheap, fun m => ?_⟩
    have hrefs : d.refs = d.refsFrom 0 := by
      rw [Rdict.refs, hnull]
      rfl
    rw [htable m, hall m, hrefs]

theorem itHeap_agrees_iff_one :
    (∃ it, rdictItHeap (uint64Dict 0 [⟨some 60, some 7⟩, .empty] 1 1 1) = some it ∧
      ∀ m, results rdictItNext m it =
        results rdictItNext m (rdictIt (uint64Dict 0 [⟨some 60, some 7⟩, .empty] 1 1 1))) ↔
      (uint64Dict 0 [⟨some 60, some 7⟩, .empty] 1 1 1).entryNull = none :=
  itHeap_agrees_iff oneEntry_inv.tidy (by decide)

/-- The first call gives the entry of 60, not the one of the `NULL` key. -/
theorem itHeap_skips_null : ¬ ∀ d : Rdict Nat Nat Unit, d.Inv uint64Funcs → 2 ≤ d.bucketCapacity →
    ∀ it, rdictItHeap d = some it →
      ∀ m, results rdictItNext m it = results rdictItNext m (rdictIt d) := by
  intro hall
  have hinv : twoKeys.Inv uint64Funcs := (addNull_spec oneEntry_inv (some 8) (fun _ => rfl) fun _ => by decide).1
  have heq := hall twoKeys hinv (by decide) ⟨twoKeys, some 0⟩ rfl 1
  have hheap : results rdictItNext 1 ⟨twoKeys, some 0⟩ = .ok [some (.slot 0)] := by rfl
  have hit : results rdictItNext 1 (rdictIt twoKeys) = .ok [some .null] := by rfl
  rw [hheap, hit] at heq
  exact absurd (Except.ok.inj heq) (by decide)

end Funra
