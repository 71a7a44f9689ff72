import Funra.Lib.System
import Funra.Rdict.Ops

/-!
# The representation invariant over a run

`RepInv` is what the searches of `rdict_find` and `rdict_add` rely on: besides the invariant, the last
slot of every bucket is empty. `rdict_add` never fills that slot, but `_expand_buckets` looks at the
bound only when it has met an occupied slot, so a bucket that gets exactly `bucket_capacity` entries is
kept (`repInv_full_bucket`). The invariant holds in every state of a run whose rehashes settle at bucket
counts with room in every bucket (`repInv_run`).
-/

namespace Funra

open Mem Table System

variable {K V E : Type} {t : RdictFuncs K V E} {d d' : Rdict K V E}
  {ok : Nat → Bool} {scale : Nat → Nat}

/-- The operations that change a dictionary. -/
inductive RdictOp (K V : Type)
  | add (key : Option K) (val : Option V)
  | remove (key : Option K)
  | expand (capacity : Nat)
  | clear

namespace RdictOp

def exec (t : RdictFuncs K V E) (ok : Nat → Bool) (scale : Nat → Nat) (fuel : Nat)
    (d : Rdict K V E) : RdictOp K V → Except Fault (Int × Rdict K V E)
  | .add key val => rdictAdd t ok scale fuel d key val
  | .remove key => rdictRemove t d key
  | .expand capacity => rdictExpand t ok scale fuel d capacity
  | .clear => (rdictClear t d).map fun d => (rdictCodeOk, d)

/-- The operation may rehash the table to `n` buckets. -/
def Settles (t : RdictFuncs K V E) (scale : Nat → Nat) (d : Rdict K V E) (n : Nat) :
    RdictOp K V → Prop
  | .add (some k) _ => AddSettles t scale d.bucketCapacity d.entries k d.buckets n
  | .expand capacity => SettlesAt t scale d.bucketCapacity d.entries (expandCapacity capacity) n
  | _ => False

end RdictOp

/-- The operation returns, with some code. -/
def RdictStep (t : RdictFuncs K V E) (ok : Nat → Bool) (scale : Nat → Nat) (d : Rdict K V E)
    (op : RdictOp K V) (d' : Rdict K V E) : Prop :=
  ∃ fuel code, op.exec t ok scale fuel d = .ok (code, d')

theorem RdictStep.eq_addNull {val : Option V} (h : RdictStep t ok scale d (.add none val) d') :
    d' = addNull t ok d val := by
  obtain ⟨fuel, code, hrun⟩ := h
  cases fuel with
  | zero => cases hrun
  | succ fuel =>
    cases hrun
    rfl

theorem RdictStep.eq_removeNull (h : RdictStep t ok scale d (.remove none) d') : d' = removeNull t d := by
  obtain ⟨fuel, code, hrun⟩ := h
  cases hrun
  rfl

theorem RdictStep.clear_ok (h : RdictStep t ok scale d .clear d') : rdictClear t d = .ok d' := by
  obtain ⟨fuel, code, hrun⟩ := h
  obtain ⟨d₁, hclear, heq⟩ := Except.of_map_ok hrun
  cases heq
  exact hclear

/-- The representation invariant, on the slots. -/
structure RepInv (t : RdictFuncs K V E) (d : Rdict K V E) : Prop where
  compact : ∀ i j, i ≤ j → i / d.bucketCapacity = j / d.bucketCapacity →
    (∃ x, d.slots[j]? = some x ∧ x.key.isSome = true) →
    ∃ x, d.slots[i]? = some x ∧ x.key.isSome = true
  placed : ∀ i x k, d.slots[i]? = some x → x.key = some k →
    i / d.bucketCapacity = t.hashFunc k % d.buckets
  distinct : ∀ i j : Nat, ∀ x y : RdictEntry K V, ∀ k k', d.slots[i]? = some x → d.slots[j]? = some y →
    x.key = some k → y.key = some k' → t.isKeyEqual k k' = true → i = j
  size_eq : d.size = d.slots.countP (fun e => e.key.isSome) + if d.entryNull.isSome then 1 else 0
  lastEmpty : ∀ b < d.buckets,
    ∃ x, d.slots[b * d.bucketCapacity + (d.bucketCapacity - 1)]? = some x ∧ x.key = none
  scans : ∀ k, ∃ n x, n < d.bucketCapacity ∧
    findBucket t d k = .ok (t.hashFunc k % d.buckets * d.bucketCapacity) ∧
    scan t k (d.slots.drop (t.hashFunc k % d.buckets * d.bucketCapacity)) = .ok (n, x)

/-- The condition on a step: the bucket counts that it rehashes to leave a slot in every bucket and have
fewer than 2^32 slots, and the entry of the `NULL` key gets its memory. -/
structure KeepsRoom (t : RdictFuncs K V E) (ok : Nat → Bool) (scale : Nat → Nat) (d : Rdict K V E)
    (op : RdictOp K V) : Prop where
  settled : ∀ n, op.Settles t scale d n → 0 < n ∧ n * d.bucketCapacity < 4294967296 ∧
    ∀ b, load t n d.entries b < d.bucketCapacity
  null : ∀ val, op = .add none val → d.entryNull = none → ok d.heap.calls = true

/-- A table with buckets, the last slot of each free. -/
structure Roomy (t : RdictFuncs K V E) (d : Rdict K V E) : Prop where
  inv : d.Inv t
  buckets : 0 < d.buckets
  lastFree : ∀ b, LastFree d b

/-! ### From the table to its slots -/

theorem last_slot (h : d.Tidy) {b : Nat} (hb : b < d.buckets) (hfree : LastFree d b) :
    ∃ x, d.slots[b * d.bucketCapacity + (d.bucketCapacity - 1)]? = some x ∧ x.occupied = false := by
  have hget := List.getElem?_eq_getElem (h.last_slot_lt hb)
  refine ⟨_, hget, ?_⟩
  apply Bool.eq_false_iff.mpr
  intro ho
  exact hfree ⟨_, hget, ho⟩

theorem key_of_free {e : RdictEntry K V} (h : e.occupied = false) : e.key = none := by
  rw [← Option.isNone_iff_eq_none]
  simpa [RdictEntry.occupied] using h

/-- With its last slot free, the search stops in the bucket. -/
theorem Roomy.scan_ok (h : Roomy t d) (k : K) : ∃ n x, n < d.bucketCapacity ∧
    scan t k (d.slots.drop (d.start t k)) = .ok (n, x) := by
  have hw := h.inv.width
  obtain ⟨x, hx, hfree⟩ := last_slot h.inv.tidy (Nat.mod_lt (t.hashFunc k) h.buckets) (h.lastFree _)
  rw [← List.getElem?_drop] at hx
  obtain ⟨n, y, hn, hscan⟩ := scan_total (t := t) (k := k) hx (stop_of_free hfree)
  exact ⟨n, y, by omega, hscan⟩

theorem Roomy.repInv (hc : Compatible t) (h : Roomy t d) : RepInv t d where
  compact := h.inv.compact
  placed := h.inv.placed
  distinct := by
    intro i j x y k k' hi hj hk hk' heq
    exact h.inv.slot_unique hi hj ⟨k, hk, heq⟩ ⟨k', hk', hc.refl k'⟩
  size_eq := by
    rw [h.inv.size_eq, Rdict.entries, ← List.countP_eq_length_filter]
    rfl
  lastEmpty := by
    intro b hb
    obtain ⟨x, hx, hfree⟩ := last_slot h.inv.tidy hb (h.lastFree b)
    exact ⟨x, hx, key_of_free hfree⟩
  scans := by
    intro k
    obtain ⟨n, x, hn, hscan⟩ := h.scan_ok k
    exact ⟨n, x, hn, h.inv.tidy.findBucket_ok h.buckets, hscan⟩

/-- There is room for the `NULL` key in the count. -/
theorem Roomy.length_lt (h : Roomy t d) : d.entries.length + 1 < 4294967296 := by
  obtain ⟨x, hx, hfree⟩ := last_slot h.inv.tidy h.buckets (h.lastFree 0)
  have hlt : d.entries.length < d.slots.length :=
    List.length_filter_lt_length_iff_exists.mpr ⟨x, List.mem_of_getElem? hx, by simp [hfree]⟩
  have hcap := h.inv.capacity_lt
  rw [h.inv.length] at hlt
  omega

/-! ### One step -/

theorem lastFree_of_slots (hslots : d'.slots = d.slots)
    (hbc : d'.bucketCapacity = d.bucketCapacity) {b : Nat} (h : LastFree d b) : LastFree d' b := by
  unfold LastFree
  rw [hslots, hbc]
  exact h

theorem roomy_of_rebuilt {n : Nat} (hre : Rebuilt t n d d') (hn : 0 < n)
    (hlt : n * d.bucketCapacity < 4294967296) (hload : ∀ b, load t n d.entries b < d.bucketCapacity) :
    Roomy t d' := by
  refine ⟨hre.inv hlt, hre.buckets ▸ hn, fun b => ?_⟩
  rw [lastFree_iff (hre.inv hlt).tidy (hre.inv hlt).placed, hre.bucketCapacity, hre.buckets, load_perm hre.entries]
  exact hload b

theorem Roomy.step (hc : Compatible t) {op : RdictOp K V} (h : Roomy t d)
    (hroom : KeepsRoom t ok scale d op) (hstep : RdictStep t ok scale d op d') : Roomy t d' := by
  cases op with
  | add key val =>
    cases key with
    | none =>
      obtain rfl := hstep.eq_addNull
      obtain ⟨hinv, -, hslots, hbc, -⟩ :=
        addNull_spec h.inv val (hroom.null val rfl) fun _ => h.length_lt
      refine ⟨hinv, ?_, fun b => lastFree_of_slots hslots hbc (h.lastFree b)⟩
      rw [addNull_buckets]
      exact h.buckets
    | some k =>
      obtain ⟨fuel, code, hrun⟩ := hstep
      have hadd := rdictAdd_spec hc h.inv (fun n hn => (hroom.settled n hn).2.1) hrun
      refine ⟨hadd.inv, ?_, hadd.lastFree (fun n hn => (hroom.settled n hn).2.2) h.lastFree⟩
      rcases hadd.buckets with heq | hsettles
      · rw [heq]
        exact h.buckets
      · exact (hroom.settled _ hsettles).1
  | remove key =>
    cases key with
    | none =>
      obtain rfl := hstep.eq_removeNull
      obtain ⟨hinv, -, hslots, -, hbc⟩ := removeNull_spec h.inv
      refine ⟨hinv, ?_, fun b => lastFree_of_slots hslots hbc (h.lastFree b)⟩
      rw [removeNull_buckets]
      exact h.buckets
    | some k =>
      obtain ⟨fuel, code, hrun⟩ := hstep
      obtain ⟨hinv, -, hshape, hfree⟩ := rdictRemove_spec hc h.inv hrun
      exact ⟨hinv, hshape.buckets ▸ h.buckets, fun b => hfree b (h.lastFree b)⟩
  | expand capacity =>
    obtain ⟨fuel, code, hrun⟩ := hstep
    rcases expandBuckets_spec h.inv hrun with ⟨-, ⟨heap, rfl⟩, -⟩ | ⟨-, n, hsettles, hre⟩
    · exact ⟨h.inv.of_heap heap, h.buckets, h.lastFree⟩
    · obtain ⟨hn, hlt, hload⟩ := hroom.settled n hsettles
      exact roomy_of_rebuilt hre hn hlt hload
  | clear =>
    obtain ⟨hinv, hvacant, -⟩ := rdictClear_spec h.inv hstep.clear_ok
    exact ⟨hinv, hvacant.buckets ▸ h.buckets, hvacant.lastFree⟩

/-! ### Runs -/

theorem roomy_create {fuel init bc : Nat} {ext : E} {heap : RdictHeap} (hbc : 0 < bc)
    (hok : ok heap.calls = true)
    (hn : 0 < bucketCountOf (u32 (scale (if init > 0 then init else 16))) bc)
    (hlt : bucketCountOf (u32 (scale (if init > 0 then init else 16))) bc * bc < 4294967296)
    (hcreate : rdictCreate t ok scale fuel init bc ext heap = .ok d) : Roomy t d := by
  obtain ⟨n, rfl, hvacant, hw, hcap, -⟩ := rdictCreate_spec hbc hok hcreate
  rw [u32_of_lt hlt] at hcap
  refine ⟨hvacant.inv (hw ▸ hbc) (hw ▸ hcap) (hcap ▸ hlt), ?_, hvacant.lastFree⟩
  rw [hvacant.buckets]
  exact hn

/-- The representation invariant holds in every state of a run of operations that keep room. -/
theorem repInv_run (hc : Compatible t) {fuel init bc : Nat} {ext : E} {heap : RdictHeap}
    {ops : List (RdictOp K V)} (hbc : 2 ≤ bc) (hok : ok heap.calls = true)
    (hn : 0 < bucketCountOf (u32 (scale (if init > 0 then init else 16))) bc)
    (hlt : bucketCountOf (u32 (scale (if init > 0 then init else 16))) bc * bc < 4294967296)
    (hcreate : rdictCreate t ok scale fuel init bc ext heap = .ok d)
    (hrun : Steps (Guarded (KeepsRoom t ok scale) (RdictStep t ok scale)) d ops d') :
    RepInv t d' := by
  have hd : Roomy t d := roomy_create (by omega) hok hn hlt hcreate
  have hd' : Roomy t d' := by
    refine hrun.invariant ?_ hd
    intro s op s' hs hstep
    exact hs.step hc hstep.1 hstep.2
  exact hd'.repInv hc

theorem length_le_of_put {k : K} {v : Option V} {es es' : List (RdictEntry K V)}
    (h : Put t k v es es') : es'.length ≤ es.length + 1 := by
  obtain ⟨rest, x, hperm, -, -, -, hold⟩ := h
  rw [hperm.length_eq, List.length_cons]
  rcases hold with hsame | ⟨y, -, hmore⟩
  · rw [hsame.length_eq]
  · rw [hmore.length_eq, List.length_cons]
    omega

/-- Fewer keys than a bucket has slots never lead to a rehash. -/
theorem roomy_adds (hc : Compatible t) (kvs : List (K × Option V)) (h : Roomy t d)
    (hlen : d.entries.length + kvs.length < d.bucketCapacity)
    (hrun : Steps (RdictStep t ok scale) d (kvs.map fun kv => .add (some kv.1) kv.2) d') :
    Roomy t d' := by
  induction kvs generalizing d with
  | nil =>
    cases hrun
    exact h
  | cons kv kvs ih =>
    rw [List.map_cons] at hrun
    rw [List.length_cons] at hlen
    cases hrun with
    | cons hstep hrun =>
      have hno : ∀ n, ¬ AddSettles t scale d.bucketCapacity d.entries kv.1 d.buckets n :=
        fun n => not_addSettles (by omega)
      have hroom : KeepsRoom t ok scale d (.add (some kv.1) kv.2) :=
        ⟨fun n hn => absurd hn (hno n), fun _ hop => (by cases hop)⟩
      have hroomy := h.step hc hroom hstep
      obtain ⟨fuel, code, hadd⟩ := hstep
      have hadded := rdictAdd_spec hc h.inv (fun n hn => absurd hn (hno n)) hadd
      refine ih hroomy ?_ hrun
      rw [hadded.bucketCapacity]
      rcases hadded.entries with ⟨-, ext, hput⟩ | ⟨-, hperm, -⟩
      · have := length_le_of_put hput
        omega
      · rw [hperm.length_eq]
        omega

/-! ### A full bucket -/

/-- The exact quotient by 3/4. -/
def exactScale (n : Nat) : Nat := n * 4 / 3

/-- Operations one after the other. -/
def RdictOp.execAll (t : RdictFuncs K V E) (ok : Nat → Bool) (scale : Nat → Nat) (fuel : Nat)
    (d : Rdict K V E) : List (RdictOp K V) → Except Fault (Rdict K V E)
  | [] => .ok d
  | op :: ops => do
    let (_, d) ← op.exec t ok scale fuel d
    RdictOp.execAll t ok scale fuel d ops

theorem steps_of_execAll {fuel : Nat} {ops : List (RdictOp K V)}
    (h : RdictOp.execAll t ok scale fuel d ops = .ok d') : Steps (RdictStep t ok scale) d ops d' := by
  induction ops generalizing d with
  | nil =>
    cases h
    exact .nil _
  | cons op ops ih =>
    obtain ⟨⟨code, d₁⟩, hr, hrest⟩ := Except.of_bind_ok h
    exact .cons ⟨fuel, code, hr⟩ (ih hrest)

/-- The dictionary that operations on a new one lead to. -/
def uint64Run (init bc : Nat) (ops : List (RdictOp Nat Nat)) : Except Fault (Rdict Nat Nat Unit) := do
  let d ← rdictCreate uint64Funcs (fun _ => true) exactScale 1 init bc () ⟨0, []⟩
  RdictOp.execAll uint64Funcs (fun _ => true) exactScale 4 d ops

theorem steps_of_uint64Run {init bc : Nat} {ops : List (RdictOp Nat Nat)} {d' : Rdict Nat Nat Unit}
    (h : uint64Run init bc ops = .ok d') :
    ∃ d, rdictCreate uint64Funcs (fun _ => true) exactScale 1 init bc () ⟨0, []⟩ = .ok d ∧
      Steps (RdictStep uint64Funcs (fun _ => true) exactScale) d ops d' := by
  rw [uint64Run] at h
  obtain ⟨d, hd, hrest⟩ := Except.of_bind_ok h
  exact ⟨d, hd, steps_of_execAll hrest⟩

/-- Adding 6 to 4 and 9 rehashes to 5 buckets, where 4 and 9 fill the last one. -/
theorem repInv_full_bucket : ∃ d d' : Rdict Nat Nat Unit,
    rdictCreate uint64Funcs (fun _ => true) exactScale 1 3 2 () ⟨0, []⟩ = .ok d ∧
    Steps (RdictStep uint64Funcs (fun _ => true) exactScale) d
      [.add (some 4) none, .add (some 9) none, .add (some 6) none] d' ∧ ¬ RepInv uint64Funcs d' := by
  have hend : (uint64Run 3 2 [.add (some 4) none, .add (some 9) none, .add (some 6) none]).map
      (fun d => (d.buckets, d.bucketCapacity, d.slots[9]?.map RdictEntry.key)) =
        .ok (5, 2, some (some 9)) := by
    decide +kernel
  obtain ⟨d', hrun, hfacts⟩ := Except.of_map_ok hend
  obtain ⟨d, hd, hsteps⟩ := steps_of_uint64Run hrun
  simp only [Prod.mk.injEq] at hfacts
  obtain ⟨hbuckets, hbc, hslot⟩ := hfacts
  refine ⟨d, d', hd, hsteps, fun hinv => ?_⟩
  obtain ⟨x, hx, hkey⟩ := hinv.lastEmpty 4 (by rw [hbuckets]; decide)
  rw [hbc] at hx
  rw [hx, Option.map_some, hkey] at hslot
  cases hslot

/-- Entries that fit into one bucket settle at the first count. -/
theorem settlesAt_few {E : Type} {t : RdictFuncs K V E} {es : List (RdictEntry K V)} {w capacity n : Nat}
    (hlen : es.length ≤ w) (h : SettlesAt t scale w es capacity n) : n = triedBuckets scale w capacity 0 := by
  obtain ⟨m, hm, -, hfull⟩ := h
  rcases Nat.eq_zero_or_pos m with h0 | hpos
  · rw [← hm, h0]
  · obtain ⟨b, hb⟩ := hfull 0 hpos
    have hle : load t (triedBuckets scale w capacity 0) es b ≤ es.length := List.countP_le_length
    omega

/-- A dictionary with two slots to a bucket. -/
def uint64Dict (id : Nat) (slots : List (RdictEntry Nat Nat)) (size buckets calls : Nat) :
    Rdict Nat Nat Unit where
  entry := some (id, slots)
  entryNull := none
  size
  capacity := buckets * 2
  buckets
  bucketCapacity := 2
  dataExt := ()
  heap := ⟨calls, [id]⟩

/-- 4 and 9 take the first slots of two buckets, and 6 expands the table to 5 buckets, where 4 and 9 fill the
last one. -/
theorem uint64Dict_adds :
    RdictStep uint64Funcs (fun _ => true) exactScale (uint64Dict 0 [.empty, .empty, .empty, .empty] 0 2 1)
      (.add (some 4) (some 7)) (uint64Dict 0 [⟨some 4, some 7⟩, .empty, .empty, .empty] 1 2 1) ∧
    RdictStep uint64Funcs (fun _ => true) exactScale
      (uint64Dict 0 [⟨some 4, some 7⟩, .empty, .empty, .empty] 1 2 1) (.add (some 9) none)
      (uint64Dict 0 [⟨some 4, some 7⟩, .empty, ⟨some 9, none⟩, .empty] 2 2 1) ∧
    RdictStep uint64Funcs (fun _ => true) exactScale
      (uint64Dict 0 [⟨some 4, some 7⟩, .empty, ⟨some 9, none⟩, .empty] 2 2 1) (.add (some 6) (some 8))
      (uint64Dict 1 [.empty, .empty, ⟨some 6, some 8⟩, .empty, .empty, .empty, .empty, .empty, ⟨some 4, some 7⟩,
        ⟨some 9, none⟩] 3 5 2) :=
  ⟨⟨1, rdictCodeOk, rfl⟩, ⟨1, rdictCodeOk, rfl⟩, ⟨2, rdictCodeOk, rfl⟩⟩

/-- Two slots, one of them with an entry. -/
theorem oneEntry_inv : (uint64Dict 0 [⟨some 60, some 7⟩, .empty] 1 1 1).Inv uint64Funcs := by
  have hvacant : Vacant 1 (uint64Dict 0 [.empty, .empty] 0 1 1) := ⟨rfl, rfl, rfl, rfl, rfl⟩
  have hinv : (uint64Dict 0 [.empty, .empty] 0 1 1).Inv uint64Funcs := hvacant.inv (by decide) rfl (by decide)
  have hrun : rdictAdd uint64Funcs (fun _ => true) exactScale 1 (uint64Dict 0 [.empty, .empty] 0 1 1) (some 60)
      (some 7) = .ok (rdictCodeOk, uint64Dict 0 [⟨some 60, some 7⟩, .empty] 1 1 1) := rfl
  refine (rdictAdd_spec uint64Funcs_compatible hinv (fun n hn => ?_) hrun).inv
  rw [hvacant.entries] at hn
  exact absurd hn (not_addSettles (by decide))

/-- Adding a key and expanding the table. -/
theorem repInv_run_expand : ∃ d d' : Rdict Nat Nat Unit,
    rdictCreate uint64Funcs (fun _ => true) exactScale 1 3 2 () ⟨0, []⟩ = .ok d ∧
    Steps (RdictStep uint64Funcs (fun _ => true) exactScale) d [.add (some 4) none, .expand 4] d' ∧
    RepInv uint64Funcs d' := by
  obtain ⟨d₀, hd₀⟩ : ∃ d, d = uint64Dict 0 [.empty, .empty, .empty, .empty] 0 2 1 := ⟨_, rfl⟩
  obtain ⟨d₁, hd₁⟩ : ∃ d, d = uint64Dict 0 [⟨some 4, none⟩, .empty, .empty, .empty] 1 2 1 := ⟨_, rfl⟩
  obtain ⟨d₂, hd₂⟩ : ∃ d, d = uint64Dict 1 [.empty, .empty, .empty, .empty, .empty, .empty, .empty,
    .empty, ⟨some 4, none⟩, .empty] 1 5 2 := ⟨_, rfl⟩
  have hcreate : rdictCreate uint64Funcs (fun _ => true) exactScale 1 3 2 () ⟨0, []⟩ = .ok d₀ := by
    rw [hd₀]
    rfl
  have hadd : RdictStep uint64Funcs (fun _ => true) exactScale d₀ (.add (some 4) none) d₁ := by
    refine ⟨1, rdictCodeOk, ?_⟩
    rw [hd₀, hd₁]
    rfl
  have hexpand : RdictStep uint64Funcs (fun _ => true) exactScale d₁ (.expand 4) d₂ := by
    refine ⟨1, rdictCodeOk, ?_⟩
    rw [hd₁, hd₂]
    rfl
  have hroom₀ : KeepsRoom uint64Funcs (fun _ => true) exactScale d₀ (.add (some 4) none) := by
    refine ⟨fun n hn => ?_, fun _ h => (by cases h)⟩
    have hentries : d₀.entries = [] := by rw [hd₀]; rfl
    have hbc : d₀.bucketCapacity = 2 := by rw [hd₀]; rfl
    rw [RdictOp.Settles, hentries, hbc] at hn
    exact absurd hn (not_addSettles (by decide))
  have hroom₁ : KeepsRoom uint64Funcs (fun _ => true) exactScale d₁ (.expand 4) := by
    refine ⟨fun n hn => ?_, fun _ h => (by cases h)⟩
    have hentries : d₁.entries = [⟨some 4, none⟩] := by rw [hd₁]; rfl
    have hbc : d₁.bucketCapacity = 2 := by rw [hd₁]; rfl
    rw [RdictOp.Settles, hentries, hbc] at hn
    rw [hentries, hbc, settlesAt_few (by decide) hn]
    refine ⟨by decide, by decide, fun b => Nat.lt_succ_of_le List.countP_le_length⟩
  have hsteps : Steps (Guarded (KeepsRoom uint64Funcs (fun _ => true) exactScale)
      (RdictStep uint64Funcs (fun _ => true) exactScale)) d₀ [.add (some 4) none, .expand 4] d₂ :=
    .cons ⟨hroom₀, hadd⟩ (.cons ⟨hroom₁, hexpand⟩ (.nil _))
  refine ⟨d₀, d₂, hcreate, .cons hadd (.cons hexpand (.nil _)), ?_⟩
  exact repInv_run uint64Funcs_compatible (by decide) rfl (by decide) (by decide) hcreate hsteps

end Funra
