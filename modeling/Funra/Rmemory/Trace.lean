import Funra.Rdict.Failures
import Funra.Rdict.Iterators
import Funra.Rdict.Ownership
import Funra.Rstring.Cat

/-!
# The memory tracer

With `rmemory_enable_tracer` every allocation is noted in a dictionary, `rmem_trace_map`, under the address of the
block, with where it was made; `rmem_free` frees a block only when it is in the dictionary, and `rmem_statistics`
writes a line for every entry. A failed allocation is noted under `NULL`.

In every run the dictionary has exactly the blocks that have not been freed, each with the record of its last
allocation (`rmem_traces`). The report lists each of them once, and the records themselves are freed as well
(`rmem_reports`).
-/

namespace Funra

open Mem System KeyMap Ownership

/-! ### Records and calls -/

/-- `rmem_info_t`, with its own address. -/
structure RmemInfo where
  address : Nat
  ptr : Nat
  elemSize : Nat
  count : Nat
  threadId : Int
  filename : Obj
  func : Obj
  line : Int
  deriving DecidableEq

/-- The place of a call, as the macros give it. -/
structure RmemSite where
  threadId : Int
  filename : Obj
  func : Obj
  line : Int

/-- The callbacks that `rmem_init` sets. What they free are the records. -/
def rmemFuncs : RdictFuncs Nat RmemInfo Unit where
  hashFunc k := k
  isKeyEqual a b := a == b
  copyKeyFunc ext k := (k, ext)
  copyValueFunc ext v := (v, ext)
  freeKeyFunc ext _ := ext
  freeValueFunc ext _ := ext

abbrev RmemTraceMap := Rdict Nat RmemInfo (Unit × RdictLedger Nat RmemInfo)

/-- `rmem_trace_map`, and the blocks that `malloc` and `calloc` have given out and `free` was given. -/
structure RmemState where
  map : RmemTraceMap
  blocks : Ledger Nat

def rmemoryDictSize : Nat := 200000

/-- 16 is `rdict_bucket_capacity_default`. -/
def rmemInit (ok : Nat → Bool) (scale : Nat → Nat) (fuel : Nat) : Except Fault RmemState :=
  (rdictCreate rmemFuncs.noted ok scale fuel rmemoryDictSize 16 ((), .empty) ⟨0, []⟩).map fun map => ⟨map, .empty⟩

/-- What `rmem_malloc_trace` and `rmem_cmalloc_trace` do once they have the block and the record. Nobody looks at the
code of `rdict_add`. -/
def rmemTrace (ok : Nat → Bool) (scale : Nat → Nat) (fuel : Nat) (info : RmemInfo) (x : RmemState) :
    Except Fault (Nat × RmemState) := do
  let (_, map) ← rdictAdd rmemFuncs.noted ok scale fuel x.map (uint64Key info.ptr) (some info)
  return (info.ptr, ⟨map, x.blocks.make (uint64Key info.ptr)⟩)

/-- The record of `rmem_malloc_trace`; `ret` is what `malloc` returns. -/
def mallocInfo (elemSize : Nat) (site : RmemSite) (ret address : Nat) : RmemInfo :=
  ⟨address, ret, elemSize, 0, site.threadId, site.filename, site.func, site.line⟩

def cmallocInfo (elemSize count : Nat) (site : RmemSite) (ret address : Nat) : RmemInfo :=
  ⟨address, ret, elemSize, count, site.threadId, site.filename, site.func, site.line⟩

def rmemMallocTrace (ok : Nat → Bool) (scale : Nat → Nat) (fuel elemSize : Nat) (site : RmemSite) (ret address : Nat)
    (x : RmemState) : Except Fault (Nat × RmemState) :=
  rmemTrace ok scale fuel (mallocInfo elemSize site ret address) x

def rmemCmallocTrace (ok : Nat → Bool) (scale : Nat → Nat) (fuel elemSize count : Nat) (site : RmemSite)
    (ret address : Nat) (x : RmemState) : Except Fault (Nat × RmemState) :=
  rmemTrace ok scale fuel (cmallocInfo elemSize count site ret address) x

def rmemFree (ptr : Nat) (x : RmemState) : Except Fault (Int × RmemState) := do
  match ← rdictFind rmemFuncs.noted x.map (uint64Key ptr) with
  | none => return (1, x)
  | some e =>
    match e.value with
    | none => .error .nullDeref
    | some info =>
      if info.ptr ≠ ptr then return (1, x)
      else
        let (_, map) ← rdictRemove rmemFuncs.noted x.map (uint64Key ptr)
        return (0, ⟨map, x.blocks.free (uint64Key ptr)⟩)

/-! ### The report -/

/-- "(%zu * %zu)-%p from %ld, %s:%d-%s"; `pointer` is what `%p` writes. -/
def RmemInfo.text (pointer : Nat → Obj) (info : RmemInfo) : Obj :=
  "(".toUTF8.toList ++ fmtInt 1 info.count ++ " * ".toUTF8.toList ++ fmtInt 1 info.elemSize ++ ")-".toUTF8.toList ++
    pointer info.ptr ++ " from ".toUTF8.toList ++ fmtInt 1 info.threadId ++ ", ".toUTF8.toList ++ info.filename ++
    ":".toUTF8.toList ++ fmtInt 1 info.line ++ "-".toUTF8.toList ++ info.func ++ "\n".toUTF8.toList

/-- The loop of `rmem_statistics`, with the file written so far. -/
def statisticsLoop (pointer : Nat → Obj) :
    Nat → RdictIterator Nat RmemInfo (Unit × RdictLedger Nat RmemInfo) → Obj → Except Fault Obj
  | 0, _, _ => .error .outOfFuel
  | fuel + 1, it, file => do
    match ← rdictItNext it with
    | (none, _) => return file
    | (some ref, it) =>
      match refValue it.d ref with
      | none => .error .nullDeref
      | some info => statisticsLoop pointer fuel it (file ++ info.text pointer)

/-- The file that `rmem_statistics` writes, once it is open. -/
def rmemStatistics (pointer : Nat → Obj) (x : RmemState) : Except Fault Obj :=
  if x.map.size = 0 then .ok "nice, no memory leak.".toUTF8.toList
  else statisticsLoop pointer (x.map.capacity + 2) (rdictIt x.map) []

/-- The report, and what the callbacks have seen in the end. -/
def rmemUninit (pointer : Nat → Obj) (x : RmemState) : Except Fault (Obj × RdictLedger Nat RmemInfo) := do
  let file ← rmemStatistics pointer x
  let (ext, _) ← rdictRelease rmemFuncs.noted x.map
  return (file, ext.2)

/-! ### Calls -/

inductive RmemCall
  | malloc (elemSize : Nat) (site : RmemSite) (ret address : Nat)
  | cmalloc (elemSize count : Nat) (site : RmemSite) (ret address : Nat)
  | free (ptr : Nat)

def RmemCall.info : RmemCall → Option RmemInfo
  | .malloc elemSize site ret address => some (mallocInfo elemSize site ret address)
  | .cmalloc elemSize count site ret address => some (cmallocInfo elemSize count site ret address)
  | .free _ => none

def RmemCall.Step (ok : Nat → Bool) (scale : Nat → Nat) (x : RmemState) (call : RmemCall) (x' : RmemState) : Prop :=
  match call with
  | .malloc elemSize site ret address =>
      ∃ fuel r, rmemMallocTrace ok scale fuel elemSize site ret address x = .ok (r, x')
  | .cmalloc elemSize count site ret address =>
      ∃ fuel r, rmemCmallocTrace ok scale fuel elemSize count site ret address x = .ok (r, x')
  | .free ptr => ∃ code, rmemFree ptr x = .ok (code, x')

/-- `malloc` returns `NULL` or a block that is not in use, and `rdict_add` ends. -/
def RmemCall.Fits (scale : Nat → Nat) (x : RmemState) (call : RmemCall) : Prop :=
  ∀ info ∈ call.info, (info.ptr = 0 ∨ ¬ x.blocks.Live info.ptr) ∧
    RdictEnds rmemFuncs.noted scale x.map (.add (uint64Key info.ptr) (some info))

/-- The records of the blocks in use. -/
abbrev RmemBlocks := Nat → Option RmemInfo

def RmemBlocks.call (m : RmemBlocks) : RmemCall → RmemBlocks
  | .malloc elemSize site ret address => Function.update m ret (some (mallocInfo elemSize site ret address))
  | .cmalloc elemSize count site ret address =>
      Function.update m ret (some (cmallocInfo elemSize count site ret address))
  | .free ptr => Function.update m ptr none

def rmemTraced (calls : List RmemCall) : RmemBlocks := calls.foldl RmemBlocks.call fun _ => none

/-! ### The dictionary and the blocks -/

theorem rmemFuncs_compatible : Compatible rmemFuncs.noted where
  refl a := beq_self_eq_true a
  symm h := by simp only [RdictFuncs.noted, rmemFuncs, beq_iff_eq] at h ⊢; exact h.symm
  trans h₁ h₂ := by simp only [RdictFuncs.noted, rmemFuncs, beq_iff_eq] at h₁ h₂ ⊢; exact h₁.trans h₂
  hash_eq h := by simp only [RdictFuncs.noted, rmemFuncs, beq_iff_eq] at h ⊢; exact h
  copy_key _ k := ⟨k, rfl, beq_self_eq_true k⟩

theorem keyEq_rmem {key key' : Option Nat} : keyEq rmemFuncs.noted key key' = true ↔ key = key' := by
  cases key with
  | none => cases key' <;> simp [keyEq]
  | some k => cases key' <;> simp [keyEq, RdictFuncs.noted, rmemFuncs]

/-- The map of the dictionary: `NULL` is the key of address 0. -/
def RmemBlocks.keyed (m : RmemBlocks) : Option Nat → Option (Option RmemInfo)
  | none => (m 0).map some
  | some k => if k = 0 then none else (m k).map some

section keyed

variable {m : RmemBlocks} {p : Nat} {info : RmemInfo}

@[simp] theorem keyed_uint64Key (m : RmemBlocks) (p : Nat) : m.keyed (uint64Key p) = (m p).map some := by
  unfold uint64Key
  by_cases hp : p = 0
  · subst hp
    rfl
  · rw [if_neg hp]
    exact if_neg hp

/-- A key of the dictionary is that of one address, or none at all. -/
theorem keyed_update (m : RmemBlocks) (p : Nat) (v : Option RmemInfo) (key : Option Nat) :
    RmemBlocks.keyed (Function.update m p v) key = if uint64Key p = key then v.map some else m.keyed key := by
  by_cases hkey : uint64Key p = key
  · rw [if_pos hkey, ← hkey, keyed_uint64Key, Function.update_self]
  · rw [if_neg hkey]
    cases key with
    | none =>
      have hne : (0 : Nat) ≠ p := by
        rintro rfl
        exact hkey rfl
      show (Function.update m p v 0).map some = _
      rw [Function.update_of_ne hne]
      rfl
    | some k =>
      show (if k = 0 then none else (Function.update m p v k).map some) = if k = 0 then none else (m k).map some
      by_cases hk : k = 0
      · rw [if_pos hk, if_pos hk]
      · have hne : k ≠ p := by
          rintro rfl
          exact hkey (if_neg hk)
        rw [if_neg hk, if_neg hk, Function.update_of_ne hne]

theorem mapStep_add (m : RmemBlocks) (info : RmemInfo) :
    mapStep rmemFuncs.noted m.keyed (.add (uint64Key info.ptr) (some info)) =
      RmemBlocks.keyed (Function.update m info.ptr (some info)) := by
  funext key
  simp only [mapStep, KeyMap.set, keyEq_rmem, keyed_update, Option.map_some]

theorem mapStep_remove (m : RmemBlocks) (p : Nat) :
    mapStep rmemFuncs.noted m.keyed (.remove (uint64Key p)) = RmemBlocks.keyed (Function.update m p none) := by
  funext key
  simp only [mapStep, KeyMap.unset, keyEq_rmem, keyed_update, Option.map_none]

theorem RmemBlocks.call_of_info {call : RmemCall} (m : RmemBlocks) (h : call.info = some info) :
    m.call call = Function.update m info.ptr (some info) := by
  cases call with
  | malloc | cmalloc =>
    obtain rfl := Option.some.inj h
    rfl
  | free ptr => cases h

end keyed

/-- The dictionary has the records of the blocks in use, which are those allocated and not freed. -/
structure RmemState.Tracks (x : RmemState) (m : RmemBlocks) : Prop where
  refines : Refines rmemFuncs.noted x.map m.keyed
  owns : RdictOwns x.map
  width : x.map.bucketCapacity = 16
  ptr : ∀ p info, m p = some info → info.ptr = p
  blocks : ∃ l : List Nat, l.Nodup ∧ (∀ p, p ∈ l ↔ p ≠ 0 ∧ (m p).isSome = true) ∧ x.blocks.Balanced l

section tracks

variable {ok : Nat → Bool} {scale : Nat → Nat} {x x' : RmemState} {m : RmemBlocks} {p : Nat} {info : RmemInfo}
  {call : RmemCall}

theorem RmemState.Tracks.live_iff (h : x.Tracks m) : x.blocks.Live p ↔ p ≠ 0 ∧ (m p).isSome = true := by
  obtain ⟨l, -, hmem, hbal⟩ := h.blocks
  rw [hbal.live_iff, hmem]

theorem RmemState.Tracks.find_some (h : x.Tracks m) (hm : m p = some info) :
    ∃ e, rdictFind rmemFuncs.noted x.map (uint64Key p) = .ok (some e) ∧ e.value = some info := by
  have hkey : m.keyed (uint64Key p) = some (some info) := by rw [keyed_uint64Key, hm, Option.map_some]
  have hfinds := (find_iff rmemFuncs_compatible h.refines (uint64Key p)).mpr
    fun k _ hnone => by rw [hkey] at hnone; cases hnone
  rw [hkey] at hfinds
  obtain ⟨e, hfind, ext, hval⟩ := hfinds
  exact ⟨e, hfind, hval⟩

/-- What a search finds that ends. -/
theorem RmemState.Tracks.find_inv (h : x.Tracks m) {r : Option (RdictEntry Nat RmemInfo)}
    (hfind : rdictFind rmemFuncs.noted x.map (uint64Key p) = .ok r) :
    (m p = none ∧ r = none) ∨ ∃ info e, m p = some info ∧ r = some e ∧ e.value = some info := by
  cases hm : m p with
  | some info =>
    obtain ⟨e, hfind', hval⟩ := h.find_some hm
    obtain rfl := Except.ok.inj (hfind.symm.trans hfind')
    exact .inr ⟨info, e, rfl, rfl, hval⟩
  | none =>
    refine .inl ⟨rfl, ?_⟩
    have hnone : m.keyed (uint64Key p) = none := by rw [keyed_uint64Key, hm, Option.map_none]
    cases r with
    | none => rfl
    | some e =>
      rcases (rdictFind_found rmemFuncs_compatible h.refines.inv h.refines.buckets).mp hfind with ⟨hkey, hnull⟩ |
        ⟨k, hkey, he, hk⟩
      · have hn := h.refines.null
        rw [← hkey, hnone] at hn
        exact absurd hnull (by rw [show x.map.entryNull = none from hn]; simp)
      · rw [hkey] at hnone
        exact absurd hk (h.refines.entries.absent k hnone e he)

/-- A call that ends does not wrap around. -/
theorem RmemState.Tracks.noWrap (h : x.Tracks m) (hfresh : info.ptr = 0 ∨ m info.ptr = none)
    (hends : RdictEnds rmemFuncs.noted scale x.map (.add (uint64Key info.ptr) (some info))) :
    NoWrap rmemFuncs.noted scale x.map (.add (uint64Key info.ptr) (some info)) := by
  have hinv := h.refines.inv
  constructor
  · intro n hn
    unfold uint64Key at hn hends
    split at hn
    · exact hn.elim
    · next hp =>
      rw [if_neg hp] at hends
      refine RoundEnds.settles_fits hinv h.refines.buckets (fun e he hk => ?_) hends hn
      have hnone : m.keyed (some info.ptr) = none := by
        show (if info.ptr = 0 then none else (m info.ptr).map some) = none
        rw [if_neg hp, hfresh.resolve_left hp, Option.map_none]
      exact h.refines.entries.absent info.ptr hnone e he hk
  · intro val _ hnull
    have hsize := hinv.size_eq
    have hle := entries_length_le hinv
    have hcap := hinv.capacity_eq
    have hlt := hinv.capacity_lt
    rw [hnull] at hsize
    rw [h.width] at hcap
    simp at hsize
    omega

theorem add_bucketCapacity (hok : ∀ i, ok i = true) {d d' : RmemTraceMap} {key : Option Nat} {val : Option RmemInfo}
    (h : d.Inv rmemFuncs.noted) (hwrap : NoWrap rmemFuncs.noted scale d (.add key val))
    (hstep : RdictStep rmemFuncs.noted ok scale d (.add key val) d') : d'.bucketCapacity = d.bucketCapacity := by
  cases key with
  | none =>
    obtain rfl := hstep.eq_addNull
    have hroom : d.entryNull = none → d.entries.length + 1 < 4294967296 := by
      intro hnull
      have hsize := hwrap.null val rfl hnull
      rw [h.size_eq] at hsize
      omega
    obtain ⟨-, -, -, hw, -⟩ := addNull_spec h val (fun _ => hok _) hroom
    exact hw
  | some k =>
    obtain ⟨fuel, code, hrun⟩ := hstep
    exact (rdictAdd_spec rmemFuncs_compatible h (fun n hn => (hwrap.settled n hn).2) hrun).bucketCapacity

theorem remove_bucketCapacity {d d' : RmemTraceMap} {key : Option Nat} {code : Int} (h : d.Inv rmemFuncs.noted)
    (hrun : rdictRemove rmemFuncs.noted d key = .ok (code, d')) : d'.bucketCapacity = d.bucketCapacity := by
  cases key with
  | none =>
    cases hrun
    exact (removeNull_spec h).2.2.2.2
  | some k =>
    obtain ⟨-, -, hshape, -⟩ := rdictRemove_spec rmemFuncs_compatible h hrun
    exact hshape.bucketCapacity

/-! ### Steps -/

/-- A call that allocates is one of the dictionary. -/
theorem RmemCall.Step.add (hinfo : call.info = some info) (hstep : call.Step ok scale x x') :
    RdictStep rmemFuncs.noted ok scale x.map (.add (uint64Key info.ptr) (some info)) x'.map ∧
      x'.blocks = x.blocks.make (uint64Key info.ptr) := by
  have htrace : ∀ {fuel r}, rmemTrace ok scale fuel info x = .ok (r, x') →
      RdictStep rmemFuncs.noted ok scale x.map (.add (uint64Key info.ptr) (some info)) x'.map ∧
        x'.blocks = x.blocks.make (uint64Key info.ptr) := by
    intro fuel r hrun
    obtain ⟨⟨code, map⟩, hadd, hrun⟩ := Except.of_bind_ok hrun
    cases hrun
    exact ⟨⟨fuel, code, hadd⟩, rfl⟩
  cases call with
  | malloc | cmalloc =>
    obtain rfl := Option.some.inj hinfo
    obtain ⟨fuel, r, hrun⟩ := hstep
    exact htrace hrun
  | free ptr => cases hinfo

theorem RmemState.Tracks.alloc (hok : ∀ i, ok i = true) (h : x.Tracks m) (hinfo : call.info = some info)
    (hfits : call.Fits scale x) (hstep : call.Step ok scale x x') :
    x'.Tracks (Function.update m info.ptr (some info)) := by
  obtain ⟨hunused, hends⟩ := hfits info hinfo
  obtain ⟨hadd, hblocks⟩ := hstep.add hinfo
  have hfresh : info.ptr = 0 ∨ m info.ptr = none := by
    rcases hunused with hnull | hdead
    · exact .inl hnull
    · by_cases hp : info.ptr = 0
      · exact .inl hp
      · refine .inr (Option.not_isSome_iff_eq_none.mp fun hsome => hdead (h.live_iff.mpr ⟨hp, hsome⟩))
  have hwrap := h.noWrap hfresh hends
  refine ⟨?_, h.owns.step (fun _ _ => rfl) hok hends hadd, ?_, fun p i hi => ?_, ?_⟩
  · rw [← mapStep_add]
    exact h.refines.step rmemFuncs_compatible hok hwrap hadd
  · rw [add_bucketCapacity hok h.refines.inv hwrap hadd, h.width]
  · by_cases hp : p = info.ptr
    · subst hp
      rw [Function.update_self] at hi
      rw [Option.some.inj hi]
    · rw [Function.update_of_ne hp] at hi
      exact h.ptr p i hi
  · obtain ⟨l, hnodup, hmem, hbal⟩ := h.blocks
    rw [hblocks]
    by_cases hp : info.ptr = 0
    · refine ⟨l, hnodup, fun q => ?_, ?_⟩
      · rw [hmem]
        by_cases hq : q = 0
        · exact iff_of_false (fun hand => hand.1 hq) fun hand => hand.1 hq
        · rw [Function.update_of_ne (hp.symm ▸ hq)]
      · rw [uint64Key, if_pos hp]
        exact hbal
    · have hnew : info.ptr ∉ l := by
        rw [hmem, hfresh.resolve_left hp]
        exact fun hand => Bool.false_ne_true hand.2
      refine ⟨info.ptr :: l, List.nodup_cons.mpr ⟨hnew, hnodup⟩, fun q => ?_, ?_⟩
      · rw [List.mem_cons, hmem]
        by_cases hq : q = info.ptr
        · rw [hq, Function.update_self]
          exact iff_of_true (.inl rfl) ⟨hp, rfl⟩
        · rw [Function.update_of_ne hq]
          exact ⟨fun hor => hor.resolve_left hq, .inr⟩
      · rw [uint64Key, if_neg hp]
        exact hbal.make (some info.ptr)

theorem RmemState.Tracks.remove (h : x.Tracks m) (hm : m p = some info) {code : Int} {map : RmemTraceMap}
    (hrun : rdictRemove rmemFuncs.noted x.map (uint64Key p) = .ok (code, map)) :
    RmemState.Tracks ⟨map, x.blocks.free (uint64Key p)⟩ (Function.update m p none) := by
  have hstep : RdictStep rmemFuncs.noted (fun _ => true) id x.map (.remove (uint64Key p)) map := ⟨0, code, hrun⟩
  have hends : RdictEnds rmemFuncs.noted id x.map (.remove (uint64Key p)) := trivial
  refine ⟨?_, h.owns.step (fun _ _ => rfl) (fun _ => rfl) hends hstep, ?_, fun q i hi => ?_, ?_⟩
  · rw [← mapStep_remove]
    exact h.refines.step rmemFuncs_compatible (fun _ => rfl) .remove hstep
  · rw [remove_bucketCapacity h.refines.inv hrun, h.width]
  · by_cases hq : q = p
    · rw [hq, Function.update_self] at hi
      cases hi
    · rw [Function.update_of_ne hq] at hi
      exact h.ptr q i hi
  · obtain ⟨l, hnodup, hmem, hbal⟩ := h.blocks
    by_cases hp : p = 0
    · refine ⟨l, hnodup, fun q => ?_, ?_⟩
      · rw [hmem]
        by_cases hq : q = 0
        · exact iff_of_false (fun hand => hand.1 hq) fun hand => hand.1 hq
        · rw [Function.update_of_ne (hp.symm ▸ hq)]
      · rw [uint64Key, if_pos hp]
        exact hbal
    · have hin : p ∈ l := (hmem p).mpr ⟨hp, by rw [hm]; rfl⟩
      refine ⟨l.erase p, hnodup.erase p, fun q => ?_, ?_⟩
      · rw [hnodup.mem_erase_iff, hmem]
        by_cases hq : q = p
        · rw [hq, Function.update_self]
          exact iff_of_false (fun hand => hand.1 rfl) fun hand => Bool.false_ne_true hand.2
        · rw [Function.update_of_ne hq]
          exact ⟨And.right, fun hand => ⟨hq, hand⟩⟩
      · rw [uint64Key, if_neg hp]
        exact Ledger.Balanced.free (x := some p) (hbal.perm (List.perm_cons_erase hin))

/-- A block in use is freed, with its record; otherwise nothing is changed. -/
theorem RmemState.Tracks.free_cases (h : x.Tracks m) {code : Int} (hrun : rmemFree p x = .ok (code, x')) :
    (m p = none ∧ code = 1 ∧ x' = x) ∨
      ((m p).isSome = true ∧ code = 0 ∧ x'.blocks = x.blocks.free (uint64Key p) ∧
        x'.Tracks (Function.update m p none)) := by
  obtain ⟨r, hfind, hrun⟩ := Except.of_bind_ok hrun
  rcases h.find_inv hfind with ⟨hnone, rfl⟩ | ⟨info, e, hm, rfl, hval⟩
  · cases hrun
    exact .inl ⟨hnone, rfl, rfl⟩
  · simp only [hval, h.ptr p info hm, ne_eq, not_true, if_false] at hrun
    obtain ⟨⟨c, map⟩, hremove, hrun⟩ := Except.of_bind_ok hrun
    cases hrun
    exact .inr ⟨by rw [hm]; rfl, rfl, rfl, h.remove hm hremove⟩

/-- A block in use can be freed. -/
theorem RmemState.Tracks.free_isOk (h : x.Tracks m) (hm : (m p).isSome = true) : ∃ x', rmemFree p x = .ok (0, x') := by
  obtain ⟨info, hm⟩ := Option.isSome_iff_exists.mp hm
  obtain ⟨e, hfind, hval⟩ := h.find_some hm
  obtain ⟨code, map, hremove⟩ :=
    rdictRemove_total h.refines.inv.tidy h.refines.buckets (t := rmemFuncs.noted) (uint64Key p)
  refine ⟨⟨map, x.blocks.free (uint64Key p)⟩, ?_⟩
  simp only [rmemFree, hfind, bind, Except.bind, hval, h.ptr p info hm, ne_eq, not_true, if_false, hremove]
  rfl

theorem RmemState.Tracks.step (hok : ∀ i, ok i = true) (h : x.Tracks m) (hfits : call.Fits scale x)
    (hstep : call.Step ok scale x x') : x'.Tracks (m.call call) := by
  cases hinfo : call.info with
  | some info =>
    rw [m.call_of_info hinfo]
    exact h.alloc hok hinfo hfits hstep
  | none =>
    cases call with
    | malloc | cmalloc => cases hinfo
    | free ptr =>
      obtain ⟨code, hrun⟩ := hstep
      rcases h.free_cases hrun with ⟨hnone, -, rfl⟩ | ⟨-, -, -, htracks⟩
      · show x'.Tracks (Function.update m ptr none)
        rw [Function.update_eq_self_iff.mpr hnone.symm]
        exact h
      · exact htracks

theorem RmemState.tracks_init {fuel : Nat} (hok : ∀ i, ok i = true)
    (hn : 0 < bucketCountOf (u32 (scale rmemoryDictSize)) 16)
    (hlt : bucketCountOf (u32 (scale rmemoryDictSize)) 16 * 16 < 4294967296) (hinit : rmemInit ok scale fuel = .ok x) :
    x.Tracks fun _ => none := by
  obtain ⟨map, hcreate, rfl⟩ := Except.of_map_ok hinit
  have hsize : rmemoryDictSize > 0 := by decide
  have hrefines := refines_create (by decide) (hok _) (by rwa [if_pos hsize]) (by rwa [if_pos hsize]) hcreate
  refine ⟨?_, owns_create (by decide) hok (by rwa [if_pos hsize]) (by rwa [if_pos hsize]) hcreate, ?_, ?_,
    [], .nil, fun p => ?_, Ledger.balanced_empty⟩
  · have hnone : (RmemBlocks.keyed fun _ => none) = fun _ => none := by
      funext key
      cases key with
      | none => rfl
      | some k => exact ite_self none
    rw [hnone]
    exact hrefines
  · obtain ⟨n, -, -, hw, -⟩ := rdictCreate_spec (by decide) (hok _) hcreate
    exact hw
  · rintro p info ⟨⟩
  · simp

/-! ### The report and the release -/

/-- An entry has the record of the block that is its key. -/
theorem RmemState.Tracks.live_ref (h : x.Tracks m) {r : RdictRef} (hlive : x.map.Live r) :
    ∃ info, refValue x.map r = some info ∧ m info.ptr = some info ∧
      ((r = .null ∧ info.ptr = 0) ∨
        ∃ i e, r = .slot i ∧ x.map.slots[i]? = some e ∧ e.key = some info.ptr ∧ info.ptr ≠ 0) := by
  cases r with
  | null =>
    obtain ⟨e, he⟩ := Option.isSome_iff_exists.mp hlive
    have hnull := h.refines.null
    rw [he] at hnull
    cases hm : m 0 with
    | none =>
      rw [show m.keyed none = none by rw [RmemBlocks.keyed, hm, Option.map_none]] at hnull
      cases hnull
    | some info =>
      rw [show m.keyed none = some (some info) by rw [RmemBlocks.keyed, hm, Option.map_some]] at hnull
      obtain ⟨e', he', ext, hval⟩ := hnull
      obtain rfl := Option.some.inj he'
      have hptr := h.ptr 0 info hm
      refine ⟨info, ?_, hptr ▸ hm, .inl ⟨rfl, hptr⟩⟩
      rw [refValue, he]
      exact hval
  | slot i =>
    obtain ⟨e, hslot, hocc⟩ := hlive
    obtain ⟨k, hk⟩ := occupied_iff.mp hocc
    have hmem : e ∈ x.map.entries := mem_entries.mpr ⟨i, hslot, hocc⟩
    have hhas : HasKey rmemFuncs.noted k e := ⟨k, hk, beq_self_eq_true k⟩
    cases hkeyed : m.keyed (some k) with
    | none => exact absurd hhas (h.refines.entries.absent k hkeyed e hmem)
    | some v =>
      obtain ⟨e', hmem', hhas', ext, hval⟩ := h.refines.entries.present k v hkeyed
      obtain ⟨j, hj, -⟩ := mem_entries.mp hmem'
      obtain rfl := h.refines.inv.slot_unique hslot hj hhas hhas'
      obtain rfl := Option.some.inj (hslot.symm.trans hj)
      rw [RmemBlocks.keyed] at hkeyed
      split at hkeyed
      · cases hkeyed
      · next hne =>
        obtain ⟨info, hm, rfl⟩ := Option.map_eq_some_iff.mp hkeyed
        have hptr := h.ptr k info hm
        refine ⟨info, ?_, hptr.symm ▸ hm, .inr ⟨i, e, rfl, hslot, hptr.symm ▸ hk, hptr.symm ▸ hne⟩⟩
        rw [refValue, hslot]
        exact hval

theorem RmemState.Tracks.ref_unique (h : x.Tracks m) {r r' : RdictRef} (hr : x.map.Live r) (hr' : x.map.Live r')
    {info' : RmemInfo} (hinfo : refValue x.map r = some info) (hinfo' : refValue x.map r' = some info')
    (hptr : info.ptr = info'.ptr) : r = r' := by
  obtain ⟨i₁, hval₁, -, hpos₁⟩ := h.live_ref hr
  obtain rfl := Option.some.inj (hinfo.symm.trans hval₁)
  obtain ⟨i₂, hval₂, -, hpos₂⟩ := h.live_ref hr'
  obtain rfl := Option.some.inj (hinfo'.symm.trans hval₂)
  rcases hpos₁ with ⟨rfl, hzero⟩ | ⟨i, e, rfl, hslot, hkey, hne⟩
  · rcases hpos₂ with ⟨rfl, -⟩ | ⟨-, -, -, -, -, hne⟩
    · rfl
    · exact absurd (hptr.symm.trans hzero) hne
  · rcases hpos₂ with ⟨-, hzero⟩ | ⟨j, e', rfl, hslot', hkey', -⟩
    · exact absurd (hptr.trans hzero) hne
    · have hhas : HasKey rmemFuncs.noted info.ptr e := ⟨_, hkey, beq_self_eq_true _⟩
      have hhas' : HasKey rmemFuncs.noted info.ptr e' := ⟨_, hkey'.trans (by rw [hptr]), beq_self_eq_true _⟩
      rw [h.refines.inv.slot_unique hslot hslot' hhas hhas']

theorem RmemState.Tracks.ref_of_some (h : x.Tracks m) (hm : m p = some info) :
    ∃ r, x.map.Live r ∧ refValue x.map r = some info := by
  by_cases hp : p = 0
  · subst hp
    have hnull := h.refines.null
    rw [show m.keyed none = some (some info) by rw [RmemBlocks.keyed, hm, Option.map_some]] at hnull
    obtain ⟨e, he, ext, hval⟩ := hnull
    refine ⟨.null, Option.isSome_iff_exists.mpr ⟨e, he⟩, ?_⟩
    rw [refValue, he]
    exact hval
  · have hkeyed : m.keyed (some p) = some (some info) := by rw [RmemBlocks.keyed, if_neg hp, hm, Option.map_some]
    obtain ⟨e, hmem, -, ext, hval⟩ := h.refines.entries.present p (some info) hkeyed
    obtain ⟨i, hslot, hocc⟩ := mem_entries.mp hmem
    refine ⟨.slot i, ⟨e, hslot, hocc⟩, ?_⟩
    rw [refValue, hslot]
    exact hval

/-- The records in the order of the iterator. -/
def RmemState.infos (x : RmemState) : List RmemInfo := x.map.refs.filterMap (refValue x.map)

theorem RmemState.Tracks.mem_infos (h : x.Tracks m) : info ∈ x.infos ↔ m info.ptr = some info := by
  rw [RmemState.infos, List.mem_filterMap]
  constructor
  · rintro ⟨r, hr, hval⟩
    obtain ⟨info', hval', hm, -⟩ := h.live_ref (mem_refs.mp hr)
    obtain rfl := Option.some.inj (hval.symm.trans hval')
    exact hm
  · intro hm
    obtain ⟨r, hr, hval⟩ := h.ref_of_some hm
    exact ⟨r, mem_refs.mpr hr, hval⟩

theorem RmemState.Tracks.infos_nodup (h : x.Tracks m) : (x.infos.map RmemInfo.ptr).Nodup := by
  have hpair : x.map.refs.Pairwise fun r r' => ∀ info, refValue x.map r = some info →
      ∀ info', refValue x.map r' = some info' → info.ptr ≠ info'.ptr := by
    refine List.Pairwise.imp_of_mem ?_ refs_nodup
    intro r r' hr hr' hne info hinfo info' hinfo' hptr
    exact hne (h.ref_unique (mem_refs.mp hr) (mem_refs.mp hr') hinfo hinfo' hptr)
  exact List.pairwise_map.mpr (List.pairwise_filterMap.mpr hpair)

theorem length_refs {K V E : Type} (d : Rdict K V E) :
    d.refs.length = d.entries.length + if d.entryNull.isSome then 1 else 0 := by
  have hfrom : (d.refsFrom 0).length = d.entries.length := by
    rw [Rdict.refsFrom, List.drop_zero, List.length_map, Rdict.entries, ← List.countP_eq_length_filter,
      ← List.countP_eq_length_filter]
    conv_rhs => rw [← List.zipIdx_map_fst 0 d.slots, List.countP_map]
    rfl
  unfold Rdict.refs
  split
  · rw [List.length_cons, hfrom]
  · rw [hfrom]
    rfl

theorem RmemState.Tracks.length_infos (h : x.Tracks m) : x.infos.length = x.map.size := by
  have hall : ∀ l : List RdictRef, (∀ r ∈ l, x.map.Live r) → (l.filterMap (refValue x.map)).length = l.length := by
    intro l
    induction l with
    | nil => exact fun _ => rfl
    | cons r l ih =>
      intro hlive
      obtain ⟨info, hval, -⟩ := h.live_ref (hlive r List.mem_cons_self)
      rw [List.filterMap_cons_some hval, List.length_cons, List.length_cons,
        ih fun r hr => hlive r (List.mem_cons_of_mem _ hr)]
  rw [RmemState.infos, hall _ fun r hr => mem_refs.mp hr, length_refs, h.refines.inv.size_eq]

theorem Rdict.Left.dict {K V E : Type} {d : Rdict K V E} {it : RdictIterator K V E} {l : List RdictRef}
    (h : d.Left it l) : it.d = d := by
  cases h with
  | start | slot => rfl

/-- The loop writes what is left. -/
theorem statisticsLoop_writes (pointer : Nat → Obj) {d : RmemTraceMap} (htidy : d.Tidy) (hw : 2 ≤ d.bucketCapacity)
    {refs : List RdictRef} {fuel : Nat} {it : RdictIterator Nat RmemInfo (Unit × RdictLedger Nat RmemInfo)} (file : Obj)
    (hleft : d.Left it refs) (hall : ∀ r ∈ refs, (refValue d r).isSome = true) (hfuel : refs.length < fuel) :
    statisticsLoop pointer fuel it file =
      .ok (file ++ (refs.filterMap (refValue d)).flatMap (RmemInfo.text pointer)) := by
  induction fuel generalizing refs it file with
  | zero => omega
  | succ fuel ih =>
    obtain ⟨it', hnext, hrest⟩ := hleft.next htidy hw
    have hd : it'.d = d := hrest.dict
    unfold statisticsLoop
    rw [hnext]
    cases refs with
    | nil => exact congrArg Except.ok (List.append_nil file).symm
    | cons r refs =>
      obtain ⟨info, hval⟩ := Option.isSome_iff_exists.mp (hall r List.mem_cons_self)
      have hstep := ih (file ++ info.text pointer) hrest (fun r hr => hall r (List.mem_cons_of_mem _ hr))
        (Nat.lt_of_succ_lt_succ hfuel)
      simp only [bind, Except.bind, List.head?_cons, hd, hval]
      rw [List.tail_cons] at hstep
      rw [hstep, List.filterMap_cons_some hval, List.flatMap_cons, List.append_assoc]

theorem RmemState.Tracks.statistics (pointer : Nat → Obj) (h : x.Tracks m) :
    rmemStatistics pointer x =
      .ok (if x.infos = [] then "nice, no memory leak.".toUTF8.toList
        else x.infos.flatMap (RmemInfo.text pointer)) := by
  have hempty : x.map.size = 0 ↔ x.infos = [] := by rw [← h.length_infos, List.length_eq_zero_iff]
  unfold rmemStatistics
  by_cases hsize : x.map.size = 0
  · rw [if_pos hsize, if_pos (hempty.mp hsize)]
  · rw [if_neg hsize, if_neg (mt hempty.mpr hsize)]
    have hlen : x.map.refs.length < x.map.capacity + 2 := by
      have hle := entries_length_le h.refines.inv
      have hcap := h.refines.inv.capacity_eq
      rw [length_refs]
      split <;> omega
    exact statisticsLoop_writes pointer h.refines.inv.tidy (by rw [h.width]; omega) [] .start
      (fun r hr => by
        obtain ⟨info, hval, -⟩ := h.live_ref (mem_refs.mp hr)
        rw [hval]
        rfl) hlen

theorem RmemState.Tracks.uninit (pointer : Nat → Obj) (h : x.Tracks m) :
    (rmemUninit pointer x).Succeeds fun r => r.1 = (if x.infos = [] then "nice, no memory leak.".toUTF8.toList
      else x.infos.flatMap (RmemInfo.text pointer)) ∧ r.2.values.Settled := by
  obtain ⟨d, hclear⟩ := rdictClear_total (t := rmemFuncs.noted) h.owns.tidy h.owns.width
  refine ⟨(_, d.dataExt.2), ?_, rfl, (rdictClear_covers h.owns hclear).settled.values⟩
  simp only [rmemUninit, h.statistics pointer, bind, Except.bind, rdictRelease, hclear, Except.map]
  rfl

/-- An allocation for which `rdict_add` ends returns. -/
theorem RmemState.Tracks.alloc_returns (hok : ∀ i, ok i = true) (h : x.Tracks m) (hinfo : call.info = some info)
    (hends : RdictEnds rmemFuncs.noted scale x.map (.add (uint64Key info.ptr) (some info))) :
    ∃ x', call.Step ok scale x x' := by
  obtain ⟨map, fuel, code, hadd⟩ := hends.returns hok h.owns.tidy h.owns.buckets h.owns.width
  have hrun : rdictAdd rmemFuncs.noted ok scale fuel x.map (uint64Key info.ptr) (some info) = .ok (code, map) := hadd
  have htrace : rmemTrace ok scale fuel info x = .ok (info.ptr, ⟨map, x.blocks.make (uint64Key info.ptr)⟩) := by
    simp only [rmemTrace, hrun, bind, Except.bind]
    rfl
  cases call with
  | malloc | cmalloc =>
    obtain rfl := Option.some.inj hinfo
    exact ⟨_, fuel, _, htrace⟩
  | free ptr => cases hinfo

theorem RmemState.tracks_run {fuel : Nat} {calls : List RmemCall} (hok : ∀ i, ok i = true)
    (hn : 0 < bucketCountOf (u32 (scale rmemoryDictSize)) 16)
    (hlt : bucketCountOf (u32 (scale rmemoryDictSize)) 16 * 16 < 4294967296) (hinit : rmemInit ok scale fuel = .ok x)
    (hrun : Steps (Guarded (RmemCall.Fits scale) (RmemCall.Step ok scale)) x calls x') :
    x'.Tracks (rmemTraced calls) :=
  hrun.simulate (fun h hstep => h.step hok hstep.1 hstep.2) (RmemState.tracks_init hok hn hlt hinit)

end tracks

/-! ### Runs -/

section runs

variable {ok : Nat → Bool} {scale : Nat → Nat} {fuel : Nat} {x x' : RmemState} {calls : List RmemCall}

/-- The report names each block that has not been freed once, and every record is freed in the end. -/
theorem rmem_reports (pointer : Nat → Obj) (hok : ∀ i, ok i = true)
    (hn : 0 < bucketCountOf (u32 (scale rmemoryDictSize)) 16)
    (hlt : bucketCountOf (u32 (scale rmemoryDictSize)) 16 * 16 < 4294967296) (hinit : rmemInit ok scale fuel = .ok x)
    (hrun : Steps (Guarded (RmemCall.Fits scale) (RmemCall.Step ok scale)) x calls x') :
    ∃ infos : List RmemInfo, (infos.map RmemInfo.ptr).Nodup ∧
      (∀ info, info ∈ infos ↔ rmemTraced calls info.ptr = some info) ∧ x'.map.size = infos.length ∧
      (rmemUninit pointer x').Succeeds fun r => r.1 = (if infos = [] then "nice, no memory leak.".toUTF8.toList
        else infos.flatMap (RmemInfo.text pointer)) ∧ r.2.values.Settled := by
  have h := RmemState.tracks_run hok hn hlt hinit hrun
  exact ⟨x'.infos, h.infos_nodup, fun info => h.mem_infos, h.length_infos.symm, h.uninit pointer⟩

end runs

/-! ### A leak -/

/-- An allocation that is freed, and one that fails. -/
def leakCalls : List RmemCall :=
  [.malloc 24 ⟨1, [97], [102], 10⟩ 4096 8000, .malloc 8 ⟨1, [97], [103], 20⟩ 0 8064, .free 4096]

/-- The record of the one that fails. -/
def leakInfo : RmemInfo := mallocInfo 8 ⟨1, [97], [103], 20⟩ 0 8064

theorem Vacant.roundEnds {K V E : Type} {t : RdictFuncs K V E} {scale : Nat → Nat} {d : Rdict K V E} {n : Nat} {k : K}
    (h : Vacant n d) (hw : 2 ≤ d.bucketCapacity) : RoundEnds t scale d k := by
  intro hcrowd
  obtain ⟨e, he, ho, -⟩ := hcrowd 0 (by omega)
  rw [h.slots] at he
  obtain rfl := List.eq_of_mem_replicate (List.mem_of_getElem? he)
  cases ho

theorem leak_run : ∃ x x', rmemInit (fun _ => true) exactScale 1 = .ok x ∧
    Steps (Guarded (RmemCall.Fits exactScale) (RmemCall.Step (fun _ => true) exactScale)) x leakCalls x' := by
  obtain ⟨x, hinit⟩ : ∃ x, rmemInit (fun _ => true) exactScale 1 = .ok x := ⟨_, rfl⟩
  have hok : ∀ i : Nat, (fun _ : Nat => true) i = true := fun _ => rfl
  have h : x.Tracks fun _ => none := RmemState.tracks_init hok (by decide) (by decide) hinit
  have hfits : (RmemCall.malloc 24 ⟨1, [97], [102], 10⟩ 4096 8000).Fits exactScale x := by
    rintro info ⟨⟩
    refine ⟨.inr fun hlive => ?_, ?_⟩
    · cases (h.live_iff.mp hlive).2
    · obtain ⟨map, hcreate, rfl⟩ := Except.of_map_ok hinit
      obtain ⟨n, -, hvacant, -⟩ := rdictCreate_spec (by decide) rfl hcreate
      exact hvacant.roundEnds (by rw [h.width]; omega)
  obtain ⟨x₁, hfirst⟩ :
      ∃ x₁, (RmemCall.malloc 24 ⟨1, [97], [102], 10⟩ 4096 8000).Step (fun _ => true) exactScale x x₁ :=
    h.alloc_returns hok rfl (hfits _ rfl).2
  have h₁ := h.step hok hfits hfirst
  have hfits' : (RmemCall.malloc 8 ⟨1, [97], [103], 20⟩ 0 8064).Fits exactScale x₁ := by
    rintro info ⟨⟩
    exact ⟨.inl rfl, trivial⟩
  obtain ⟨x₂, hsecond⟩ : ∃ x₂, (RmemCall.malloc 8 ⟨1, [97], [103], 20⟩ 0 8064).Step (fun _ => true) exactScale x₁ x₂ :=
    h₁.alloc_returns hok rfl (hfits' _ rfl).2
  have h₂ := h₁.step hok hfits' hsecond
  obtain ⟨x₃, hfree⟩ := h₂.free_isOk (p := 4096) rfl
  refine ⟨x, x₃, hinit, .cons ⟨hfits, hfirst⟩ (.cons ⟨hfits', hsecond⟩ (.cons ⟨?_, 0, hfree⟩ (.nil _)))⟩
  rintro info ⟨⟩

theorem rmem_reports_leak : ∃ x x', rmemInit (fun _ => true) exactScale 1 = .ok x ∧
    Steps (Guarded (RmemCall.Fits exactScale) (RmemCall.Step (fun _ => true) exactScale)) x leakCalls x' ∧
      (rmemUninit (fun p => if p = 0 then "(nil)".toUTF8.toList else fmtInt 1 p) x').Succeeds fun r =>
        r.1 = "(0 * 8)-(nil) from 1, a:20-g\n".toUTF8.toList ∧ r.2.values.Settled := by
  obtain ⟨x, x', hinit, hrun⟩ := leak_run
  obtain ⟨infos, hnodup, hmem, -, r, huninit, htext, hsettled⟩ :=
    rmem_reports (fun p => if p = 0 then "(nil)".toUTF8.toList else fmtInt 1 p) (fun _ => rfl) (by decide) (by decide)
      hinit hrun
  refine ⟨x, x', hinit, hrun, r, huninit, ?_, hsettled⟩
  have hone : ∀ info, info ∈ infos ↔ info ∈ [leakInfo] := by
    intro info
    rw [hmem, List.mem_singleton]
    constructor
    · intro h
      by_cases hp : info.ptr = 4096
      · rw [hp] at h
        cases h
      · by_cases hz : info.ptr = 0
        · rw [hz] at h
          exact (Option.some.inj h).symm
        · simp [rmemTraced, leakCalls, RmemBlocks.call, hp, hz] at h
    · rintro rfl
      rfl
  have hinfos : infos = [leakInfo] :=
    List.perm_singleton.mp ((List.perm_ext_iff_of_nodup hnodup.of_map (List.nodup_singleton _)).mpr hone)
  rw [htext, hinfos]
  decide +kernel

end Funra
