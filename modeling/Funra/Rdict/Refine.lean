import Funra.Rdict.Runs

/-!
# `rdict` as a finite map

The map a run of operations leads to (`mapAfter`) gives each key, `NULL` included, the value of the last
`rdict_add` that affected it. `Refines` relates it to a dictionary, and every operation that returns
keeps the relation (`Refines.step`), full buckets or not: a search of `rdict_find` may run on into later
buckets, where it meets other keys only. What it needs is an end. `find_iff` says that a lookup answers
as the map does exactly when the key is there or a slot is free somewhere behind the start of its bucket;
behind a full last bucket there is none (`find_past_end`).
-/

namespace Funra

open Mem Table System KeyMap

variable {K V E : Type} {t : RdictFuncs K V E} {d d' : Rdict K V E} {k : K} {e : RdictEntry K V}
  {ok : Nat → Bool} {scale : Nat → Nat}

/-- Equality of keys, `NULL` is equal to itself only. -/
def keyEq (t : RdictFuncs K V E) : Option K → Option K → Bool
  | none, none => true
  | some a, some b => t.isKeyEqual a b
  | _, _ => false

/-- What an operation does to the map. -/
def mapStep (t : RdictFuncs K V E) (m : Option K → Option (Option V)) :
    RdictOp K V → Option K → Option (Option V)
  | .add key val => set (keyEq t) key val m
  | .remove key => unset (keyEq t) key m
  | .expand _ => m
  | .clear => fun _ => none

def mapAfter (t : RdictFuncs K V E) (ops : List (RdictOp K V)) : Option K → Option (Option V) :=
  ops.foldl (mapStep t) fun _ => none

/-- The value of the entry is one that the dictionary has stored for `v`. -/
def Carries (t : RdictFuncs K V E) (e : RdictEntry K V) (v : Option V) : Prop :=
  ∃ ext, e.value = (t.copyValueFunc ext v).1

/-- The entry of the `NULL` key and the value it should have. -/
def NullAs (t : RdictFuncs K V E) (entryNull : Option (RdictEntry K V)) : Option (Option V) → Prop
  | none => entryNull = none
  | some v => ∃ e, entryNull = some e ∧ Carries t e v

structure Refines (t : RdictFuncs K V E) (d : Rdict K V E) (m : Option K → Option (Option V)) :
    Prop where
  inv : d.Inv t
  buckets : 0 < d.buckets
  entries : Represents (HasKey t) (Carries t) d.entries fun k => m (some k)
  null : NullAs t d.entryNull (m none)

/-- `rdict_find` answers as the map does. -/
def FindsAs (t : RdictFuncs K V E) (d : Rdict K V E) (key : Option K) : Option (Option V) → Prop
  | none => rdictFind t d key = .ok none
  | some v => ∃ e, rdictFind t d key = .ok (some e) ∧ Carries t e v

/-- The condition on a step: it rehashes to bucket counts from 1 on with fewer than 2^32 slots, and the
count has room for the `NULL` key. -/
structure NoWrap (t : RdictFuncs K V E) (scale : Nat → Nat) (d : Rdict K V E) (op : RdictOp K V) :
    Prop where
  settled : ∀ n, op.Settles t scale d n → 0 < n ∧ n * d.bucketCapacity < 4294967296
  null : ∀ val, op = .add none val → d.entryNull = none → d.size + 1 < 4294967296

/-- Where the bucket has room nothing is expanded. -/
theorem NoWrap.of_room {d : Rdict K V E} {k : K} {v : Option V}
    (h : others t d.buckets d.entries k < d.bucketCapacity - 1) : NoWrap t scale d (.add (some k) v) :=
  ⟨fun _ hn => absurd hn.crowded h.not_ge, fun _ heq => (by cases heq)⟩

theorem NoWrap.remove {d : Rdict K V E} {key : Option K} : NoWrap t scale d (.remove key) :=
  ⟨fun _ hn => hn.elim, fun _ heq => (by cases heq)⟩

/-! ### Steps -/

theorem separates (hc : Compatible t) : Separates t.isKeyEqual (HasKey (V := V) t) where
  same_of_has := by
    rintro k k' x ⟨a, ha, hk⟩ ⟨b, hb, hk'⟩
    rw [ha] at hb
    cases hb
    exact hc.trans (hc.symm hk) hk'
  has_iff := by
    intro k k' x hkk
    constructor
    · rintro ⟨a, ha, hk⟩
      exact ⟨a, ha, hc.trans hk hkk⟩
    · rintro ⟨a, ha, hk⟩
      exact ⟨a, ha, hc.trans hk (hc.symm hkk)⟩

/-- A table of the same entries refines the same map. -/
theorem Refines.rebuilt {m : Option K → Option (Option V)} {n : Nat} (h : Refines t d m)
    (hre : Rebuilt t n d d') (hn : 0 < n) (hlt : n * d.bucketCapacity < 4294967296) :
    Refines t d' m := by
  refine ⟨hre.inv hlt, hre.buckets ▸ hn, h.entries.perm hre.entries.symm, ?_⟩
  rw [hre.entryNull]
  exact h.null

theorem Refines.step (hc : Compatible t) {m : Option K → Option (Option V)} {op : RdictOp K V}
    (hok : ∀ i, ok i = true) (h : Refines t d m) (hwrap : NoWrap t scale d op)
    (hstep : RdictStep t ok scale d op d') : Refines t d' (mapStep t m op) := by
  cases op with
  | add key val =>
    cases key with
    | none =>
      obtain rfl := hstep.eq_addNull
      have hroom : d.entryNull = none → d.entries.length + 1 < 4294967296 := by
        intro hnull
        have hsize := hwrap.null val rfl hnull
        rw [h.inv.size_eq] at hsize
        omega
      obtain ⟨hinv, hentries, -, -, e, ext, hnull, hval⟩ :=
        addNull_spec h.inv val (fun _ => hok _) hroom
      refine ⟨hinv, ?_, ?_, e, hnull, ext, hval⟩
      · rw [addNull_buckets]
        exact h.buckets
      · rw [hentries]
        exact h.entries
    | some k =>
      obtain ⟨fuel, code, hrun⟩ := hstep
      have hadd := rdictAdd_spec hc h.inv (fun n hn => (hwrap.settled n hn).2) hrun
      rcases hadd.entries with ⟨-, ext, hput⟩ | ⟨-, -, i, hi⟩
      · refine ⟨hadd.inv, ?_, ?_, ?_⟩
        · rcases hadd.buckets with heq | hsettles
          · exact heq ▸ h.buckets
          · exact (hwrap.settled _ hsettles).1
        · refine h.entries.put (separates hc) (fun x hx => ?_) hput
          exact ⟨ext, hx⟩
        · rw [hadd.entryNull]
          exact h.null
      · rw [hok i] at hi
        cases hi
  | remove key =>
    cases key with
    | none =>
      obtain rfl := hstep.eq_removeNull
      obtain ⟨hinv, hentries, -, hnull, -⟩ := removeNull_spec h.inv
      refine ⟨hinv, ?_, ?_, hnull⟩
      · rw [removeNull_buckets]
        exact h.buckets
      · rw [hentries]
        exact h.entries
    | some k =>
      obtain ⟨fuel, code, hrun⟩ := hstep
      obtain ⟨hinv, htaken, hshape, -⟩ := rdictRemove_spec hc h.inv hrun
      refine ⟨hinv, hshape.buckets ▸ h.buckets, h.entries.taken (separates hc) htaken, ?_⟩
      rw [hshape.entryNull]
      exact h.null
  | expand capacity =>
    obtain ⟨fuel, code, hrun⟩ := hstep
    obtain ⟨-, n, hsettles, hmoved⟩ := expandBuckets_ok hok h.inv.tidy hrun
    obtain ⟨hn, hlt⟩ := hwrap.settled n hsettles
    exact h.rebuilt (hmoved.rebuilt h.inv) hn hlt
  | clear =>
    obtain ⟨hinv, hvacant, -⟩ := rdictClear_spec h.inv hstep.clear_ok
    refine ⟨hinv, hvacant.buckets ▸ h.buckets, ?_, hvacant.entryNull⟩
    rw [hvacant.entries]
    exact represents_nil fun _ => rfl

/-! ### Lookups and the size -/

theorem Refines.findsAs_null {m : Option K → Option (Option V)} (h : Refines t d m) : FindsAs t d none (m none) := by
  have hnull := h.null
  cases hm : m none with
  | none =>
    rw [hm] at hnull
    exact congrArg Except.ok hnull
  | some v =>
    rw [hm] at hnull
    obtain ⟨e, he, hcarries⟩ := hnull
    exact ⟨e, congrArg Except.ok he, hcarries⟩

/-- A search for a key without an entry stops at a free slot only. -/
theorem find_absent_iff (h : d.Tidy) (hb : 0 < d.buckets) (habsent : ∀ e ∈ d.entries, ¬ HasKey t k e) :
    rdictFind t d (some k) = .ok none ↔ ∃ i e, d.start t k ≤ i ∧ d.slots[i]? = some e ∧ e.key = none := by
  have hfree {n : Nat} {e : RdictEntry K V} (hscan : scan t k (d.slots.drop (d.start t k)) = .ok (n, e)) :
      e.key = none := by
    obtain ⟨hslot, hstop, -⟩ := scan_slot hscan
    cases hkey : e.key with
    | none => rfl
    | some k' =>
      have ho : e.occupied = true := occupied_iff.mpr ⟨k', hkey⟩
      exact absurd (hstop ho) (habsent e (mem_entries.mpr ⟨_, hslot, ho⟩))
  rw [rdictFind_scan h hb]
  constructor
  · intro hnone
    obtain ⟨⟨n, e⟩, hscan, -⟩ := Except.of_bind_ok hnone
    exact ⟨_, e, Nat.le_add_right _ n, (scan_slot hscan).1, hfree hscan⟩
  · rintro ⟨i, e, hle, hslot, hkey⟩
    have hdrop : (d.slots.drop (d.start t k))[i - d.start t k]? = some e := by
      rw [List.getElem?_drop, Nat.add_sub_cancel' hle]
      exact hslot
    have hocc : e.occupied = false := by simp [RdictEntry.occupied, hkey]
    obtain ⟨n, x, -, hscan⟩ := scan_total (t := t) (k := k) hdrop (stop_of_free hocc)
    rw [hscan, Except.bind, hfree hscan]
    rfl

/-- A lookup answers as the map does if and only if its search ends in the table. -/
theorem find_iff (hc : Compatible t) {m : Option K → Option (Option V)} (h : Refines t d m)
    (key : Option K) : FindsAs t d key (m key) ↔ ∀ k, key = some k → m key = none →
      ∃ i e, d.start t k ≤ i ∧ d.slots[i]? = some e ∧ e.key = none := by
  cases key with
  | none => exact iff_of_true h.findsAs_null fun k hk => nomatch hk
  | some k =>
    cases hm : m (some k) with
    | some v =>
      apply iff_of_true
      · obtain ⟨e, he, hk, hcarries⟩ := h.entries.present k v hm
        exact ⟨e, rdictFind_present hc h.inv h.buckets he hk, hcarries⟩
      · intro k' _ hnone
        cases hnone
    | none =>
      have hiff := find_absent_iff h.inv.tidy h.buckets (h.entries.absent k hm)
      constructor
      · intro hnone k' hk' _
        cases hk'
        exact hiff.mp hnone
      · intro hend
        exact hiff.mpr (hend k rfl rfl)

theorem entry_key (h : e ∈ d.entries) : ∃ k, e.key = some k := by
  obtain ⟨-, -, ho⟩ := mem_entries.mp h
  exact occupied_iff.mp ho

theorem null_iff {m : Option K → Option (Option V)} (h : Refines t d m) :
    (m none).isSome = true ↔ d.entryNull.isSome = true := by
  have hnull := h.null
  cases hm : m none with
  | none =>
    rw [hm] at hnull
    rw [hnull]
    rfl
  | some v =>
    rw [hm] at hnull
    obtain ⟨e, he, -⟩ := hnull
    rw [he]
    rfl

theorem present_iff {m : Option K → Option (Option V)} (h : Refines t d m) :
    (m (some k)).isSome = true ↔ ∃ e ∈ d.entries, HasKey t k e := by
  cases hm : m (some k) with
  | none =>
    refine iff_of_false (by simp) ?_
    rintro ⟨e, he, hk⟩
    exact h.entries.absent k hm e he hk
  | some v =>
    refine iff_of_true rfl ?_
    obtain ⟨e, he, hk, -⟩ := h.entries.present k v hm
    exact ⟨e, he, hk⟩

/-- The keys of the entries are different ones. -/
theorem keys_pairwise (hc : Compatible t) (h : d.Inv t) :
    (d.entries.map RdictEntry.key).Pairwise fun a b => keyEq t a b = false := by
  rw [List.pairwise_map]
  refine h.unique.imp_of_mem ?_
  intro a b ha hb hne
  obtain ⟨ka, hka⟩ := entry_key ha
  obtain ⟨kb, hkb⟩ := entry_key hb
  rw [hka, hkb]
  apply Bool.eq_false_iff.mpr
  intro heq
  exact hne ⟨kb, ⟨ka, hka, heq⟩, ⟨kb, hkb, hc.refl kb⟩⟩

/-- `size` counts the keys. -/
theorem Refines.counts (hc : Compatible t) {m : Option K → Option (Option V)} (h : Refines t d m) :
    Counts (keyEq t) m d.size := by
  refine ⟨(d.entryNull.map fun _ => none).toList ++ d.entries.map RdictEntry.key, ?_, ?_, fun key => ?_⟩
  · rw [List.length_append, List.length_map, h.inv.size_eq, Nat.add_comm]
    cases d.entryNull <;> rfl
  · refine List.pairwise_append.mpr ⟨?_, keys_pairwise hc h.inv, fun a ha b hb => ?_⟩
    · cases d.entryNull with
      | none => exact List.Pairwise.nil
      | some e => exact List.pairwise_singleton _ _
    · obtain ⟨e, he, rfl⟩ := List.mem_map.mp hb
      obtain ⟨k, hk⟩ := entry_key he
      obtain ⟨-, rfl⟩ : d.entryNull.isSome = true ∧ a = none := by
        cases hnull : d.entryNull with
        | none => simp [hnull] at ha
        | some x => simpa [hnull] using ha
      rw [hk]
      rfl
  · cases key with
    | none =>
      rw [null_iff h]
      constructor
      · intro hsome
        obtain ⟨e, he⟩ := Option.isSome_iff_exists.mp hsome
        exact ⟨none, by simp [he], rfl⟩
      · rintro ⟨a, ha, heq⟩
        rcases List.mem_append.mp ha with hnull | hkey
        · cases hn : d.entryNull with
          | none => simp [hn] at hnull
          | some x => rfl
        · obtain ⟨e, he, rfl⟩ := List.mem_map.mp hkey
          obtain ⟨k, hk⟩ := entry_key he
          rw [hk] at heq
          cases heq
    | some k =>
      rw [present_iff h]
      constructor
      · rintro ⟨e, he, k', hk', heq⟩
        exact ⟨e.key, List.mem_append_right _ (List.mem_map_of_mem he), by rw [hk']; exact heq⟩
      · rintro ⟨a, ha, heq⟩
        rcases List.mem_append.mp ha with hnull | hkey
        · cases hn : d.entryNull with
          | none => simp [hn] at hnull
          | some x =>
            obtain rfl : a = none := by simpa [hn] using hnull
            cases heq
        · obtain ⟨e, he, rfl⟩ := List.mem_map.mp hkey
          obtain ⟨k', hk'⟩ := entry_key he
          rw [hk'] at heq
          exact ⟨e, he, k', hk', heq⟩

/-! ### Runs -/

theorem refines_create {fuel init bc : Nat} {ext : E} {heap : RdictHeap} (hbc : 0 < bc)
    (hok : ok heap.calls = true)
    (hn : 0 < bucketCountOf (u32 (scale (if init > 0 then init else 16))) bc)
    (hlt : bucketCountOf (u32 (scale (if init > 0 then init else 16))) bc * bc < 4294967296)
    (hcreate : rdictCreate t ok scale fuel init bc ext heap = .ok d) :
    Refines t d fun _ => none := by
  have hroomy := roomy_create hbc hok hn hlt hcreate
  obtain ⟨n, -, hvacant, -, -⟩ := rdictCreate_spec hbc hok hcreate
  refine ⟨hroomy.inv, hroomy.buckets, ?_, hvacant.entryNull⟩
  rw [hvacant.entries]
  exact represents_nil fun _ => rfl

/-- After a run that does not wrap around, `size` is the number of keys, and a lookup answers with the
last value added if and only if its search ends in the table. -/
theorem findsAs_run (hc : Compatible t) {fuel init bc : Nat} {ext : E} {heap : RdictHeap}
    {ops : List (RdictOp K V)} (hbc : 2 ≤ bc) (hok : ∀ i, ok i = true)
    (hn : 0 < bucketCountOf (u32 (scale (if init > 0 then init else 16))) bc)
    (hlt : bucketCountOf (u32 (scale (if init > 0 then init else 16))) bc * bc < 4294967296)
    (hcreate : rdictCreate t ok scale fuel init bc ext heap = .ok d)
    (hrun : Steps (Guarded (NoWrap t scale) (RdictStep t ok scale)) d ops d') :
    Counts (keyEq t) (mapAfter t ops) d'.size ∧
      ∀ key, FindsAs t d' key (mapAfter t ops key) ↔
        ∀ k, key = some k → mapAfter t ops key = none →
          ∃ i e, d'.start t k ≤ i ∧ d'.slots[i]? = some e ∧ e.key = none := by
  have hd : Refines t d fun _ => none := refines_create (by omega) (hok _) hn hlt hcreate
  have hd' : Refines t d' (mapAfter t ops) := by
    refine hrun.simulate ?_ hd
    intro s op s' m hs hstep
    exact hs.step hc hok hstep.1 hstep.2
  exact ⟨hd'.counts hc, find_iff hc hd'⟩

/-- The keys 4, 9 and 6, the last of which expands the table: 6 is found, 11 is not there, and the lookup
of 14 does not end. -/
theorem findsAs_run_expand :
    let ops : List (RdictOp Nat Nat) := [.add (some 4) (some 7), .add (some 9) none, .add (some 6) (some 8)]
    ∃ d d' : Rdict Nat Nat Unit, rdictCreate uint64Funcs (fun _ => true) exactScale 1 3 2 () ⟨0, []⟩ = .ok d ∧
      Steps (Guarded (NoWrap uint64Funcs exactScale) (RdictStep uint64Funcs (fun _ => true) exactScale)) d ops d' ∧
      d'.buckets = 5 ∧ Counts (keyEq uint64Funcs) (mapAfter uint64Funcs ops) d'.size ∧
      FindsAs uint64Funcs d' (some 6) (some (some 8)) ∧ FindsAs uint64Funcs d' (some 11) none ∧
      ¬ FindsAs uint64Funcs d' (some 14) none := by
  intro ops
  obtain ⟨d₀, hd₀⟩ : ∃ d, d = uint64Dict 0 [.empty, .empty, .empty, .empty] 0 2 1 := ⟨_, rfl⟩
  obtain ⟨d₁, hd₁⟩ : ∃ d, d = uint64Dict 0 [⟨some 4, some 7⟩, .empty, .empty, .empty] 1 2 1 := ⟨_, rfl⟩
  obtain ⟨d₂, hd₂⟩ : ∃ d, d = uint64Dict 0 [⟨some 4, some 7⟩, .empty, ⟨some 9, none⟩, .empty] 2 2 1 := ⟨_, rfl⟩
  obtain ⟨d₃, hd₃⟩ : ∃ d, d = uint64Dict 1 [.empty, .empty, ⟨some 6, some 8⟩, .empty, .empty, .empty, .empty,
    .empty, ⟨some 4, some 7⟩, ⟨some 9, none⟩] 3 5 2 := ⟨_, rfl⟩
  have hcreate : rdictCreate uint64Funcs (fun _ => true) exactScale 1 3 2 () ⟨0, []⟩ = .ok d₀ := by
    rw [hd₀]
    rfl
  have hadds := uint64Dict_adds
  rw [← hd₀, ← hd₁, ← hd₂, ← hd₃] at hadds
  obtain ⟨hadd₁, hadd₂, hadd₃⟩ := hadds
  have hentries₂ : d₂.entries = [⟨some 4, some 7⟩, ⟨some 9, none⟩] := by rw [hd₂]; rfl
  have hwrap₁ : NoWrap uint64Funcs exactScale d₀ (.add (some 4) (some 7)) := .of_room (by rw [hd₀]; decide)
  have hwrap₂ : NoWrap uint64Funcs exactScale d₁ (.add (some 9) none) := .of_room (by rw [hd₁]; decide)
  have hwrap₃ : NoWrap uint64Funcs exactScale d₂ (.add (some 6) (some 8)) := by
    refine ⟨fun n hn => ?_, fun _ h => (by cases h)⟩
    have hbc : d₂.bucketCapacity = 2 := by rw [hd₂]; rfl
    have hbuckets : d₂.buckets = 2 := by rw [hd₂]; rfl
    rw [RdictOp.Settles, hentries₂, hbc, hbuckets] at hn
    -- 5 buckets, where 6 has room
    have hfive {m : Nat} (hm : SettlesAt uint64Funcs exactScale 2 [⟨some 4, some 7⟩, ⟨some 9, (none : Option Nat)⟩]
        (expandCapacity (2 * 2)) m) : m = 5 := (settlesAt_few (by decide) hm).trans (by decide)
    rw [hbc]
    cases hn with
    | once _ hs => rw [hfive hs]; decide
    | again _ hs hrest =>
      rw [hfive hs] at hrest
      exact absurd hrest.crowded (by decide)
  have hsteps : Steps (Guarded (NoWrap uint64Funcs exactScale) (RdictStep uint64Funcs (fun _ => true) exactScale))
      d₀ ops d₃ := .cons ⟨hwrap₁, hadd₁⟩ (.cons ⟨hwrap₂, hadd₂⟩ (.cons ⟨hwrap₃, hadd₃⟩ (.nil _)))
  obtain ⟨hcounts, hfinds⟩ := findsAs_run uint64Funcs_compatible (by decide) (fun _ => rfl) (by decide) (by decide)
    hcreate hsteps
  refine ⟨d₀, d₃, hcreate, hsteps, by rw [hd₃]; rfl, hcounts, (hfinds (some 6)).2 ?_, (hfinds (some 11)).2 ?_, ?_⟩
  · intro k _ hnone
    cases hnone
  · rintro k hk -
    cases hk
    exact ⟨3, .empty, by rw [hd₃]; decide, by rw [hd₃]; rfl, rfl⟩
  · intro h14
    -- behind the start of the last bucket are 4 and 9
    obtain ⟨i, e, hi, hslot, hkey⟩ := (hfinds (some 14)).1 h14 14 rfl rfl
    rw [hd₃] at hi hslot
    have hlt : i < 10 := (List.getElem?_eq_some_iff.mp hslot).1
    have hi' : 8 ≤ i := hi
    obtain rfl | rfl : i = 8 ∨ i = 9 := by omega
    · cases hslot
      cases hkey
    · cases hslot
      cases hkey

/-- A lookup of 14, of the last bucket, when 4 and 9 fill it. -/
theorem find_past_end : ∃ d d' : Rdict Nat Nat Unit,
    rdictCreate uint64Funcs (fun _ => true) exactScale 1 3 2 () ⟨0, []⟩ = .ok d ∧
    Steps (RdictStep uint64Funcs (fun _ => true) exactScale) d
      [.add (some 4) none, .add (some 9) none, .add (some 6) none] d' ∧
    ¬ FindsAs uint64Funcs d' (some 14) (mapAfter uint64Funcs
      [.add (some 4) none, .add (some 9) none, .add (some 6) none] (some 14)) := by
  have hend : (uint64Run 3 2 [.add (some 4) none, .add (some 9) none, .add (some 6) none]).map
      (fun d => rdictFind uint64Funcs d (some 14)) = .ok (.error .outOfBounds) := by
    decide +kernel
  obtain ⟨d', hrun, hfault⟩ := Except.of_map_ok hend
  obtain ⟨d, hd, hsteps⟩ := steps_of_uint64Run hrun
  refine ⟨d, d', hd, hsteps, fun hfinds => ?_⟩
  have hnone : rdictFind uint64Funcs d' (some 14) = .ok none := hfinds
  rw [hnone] at hfault
  cases hfault

end Funra
