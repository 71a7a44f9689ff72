import Funra.Lib.Except
import Funra.Lib.Mem
import Funra.Lib.Table

/-!
# `rdict`: the hash table

`rdict.c` on a flat table of slots, `bucket_capacity` slots to a bucket. A `NULL` key has an entry of its
own beside the table. A lookup starts at the first slot of the key's bucket and goes on to the first
free slot with no other bound, so a read behind the last slot is a fault here; so is a division by a
bucket count of 0.

Keys and values are pointers, `none` for `NULL`. The callbacks see `data_ext`, which they may change.
Parameters stand for the rest: `ok` says which allocations succeed, by their number, and `scale` is the
division by `scale_factor` before its conversion to `rdict_size_t`. Arithmetic on `rdict_size_t` is
modulo 2^32. Recursion and the loop that a wrapped index can keep going take a bound on their rounds.
-/

namespace Funra

open Mem Table

variable {K V E : Type}

structure RdictEntry (K V : Type) where
  key : Option K
  value : Option V
  deriving DecidableEq, Repr

/-- The callbacks of `rdict_t`. A missing copy or free function is one that does nothing. -/
structure RdictFuncs (K V E : Type) where
  hashFunc : K → Nat
  isKeyEqual : K → K → Bool
  copyKeyFunc : E → Option K → Option K × E
  copyValueFunc : E → Option V → Option V × E
  freeKeyFunc : E → Option K → E
  freeValueFunc : E → Option V → E

/-- The allocator: how often it was asked, and the tables it has given out that are not freed. -/
structure RdictHeap where
  calls : Nat
  tables : List Nat
  deriving DecidableEq, Repr

/-- `entry` is the table with the number of its allocation, `none` for `NULL`. -/
structure Rdict (K V E : Type) where
  entry : Option (Nat × List (RdictEntry K V))
  entryNull : Option (RdictEntry K V)
  size : Nat
  capacity : Nat
  buckets : Nat
  bucketCapacity : Nat
  dataExt : E
  heap : RdictHeap

def rdictCodeOk : Int := 0
def rdictCodeError : Int := 1
def rdictCodeNotExist : Int := 2

/-- `rdict_size_t`. -/
def u32 (n : Nat) : Nat := n % 4294967296

/-- `-= 1` on an `rdict_size_t`. -/
def u32Pred (n : Nat) : Nat := u32 (n + 4294967295)

def RdictEntry.empty : RdictEntry K V := ⟨none, none⟩

def RdictEntry.occupied (e : RdictEntry K V) : Bool := e.key.isSome

namespace RdictHeap

/-- The number of the allocation, when it succeeds. -/
def alloc (ok : Nat → Bool) (h : RdictHeap) : Option Nat × RdictHeap :=
  (if ok h.calls then some h.calls else none, { h with calls := h.calls + 1 })

def addTable (h : RdictHeap) (id : Nat) : RdictHeap := { h with tables := id :: h.tables }

def freeTable (h : RdictHeap) (id : Nat) : RdictHeap := { h with tables := h.tables.erase id }

end RdictHeap

namespace Rdict

def slots (d : Rdict K V E) : List (RdictEntry K V) :=
  match d.entry with
  | some (_, slots) => slots
  | none => []

def withSlots (d : Rdict K V E) (slots : List (RdictEntry K V)) : Rdict K V E :=
  { d with entry := d.entry.map fun (id, _) => (id, slots) }

end Rdict

/-- The callbacks of `rdict_init(d, rdata_type_uint64, rdata_type_ptr, ..)`: the key is its own hash,
and nothing is copied or freed. -/
def uint64Funcs : RdictFuncs Nat Nat Unit where
  hashFunc k := k
  isKeyEqual a b := a == b
  copyKeyFunc ext k := (k, ext)
  copyValueFunc ext v := (v, ext)
  freeKeyFunc ext _ := ext
  freeValueFunc ext _ := ext

/-- `(void*)n` as a key: 0 is `NULL`. -/
def uint64Key (n : Nat) : Option Nat := if n = 0 then none else some n

/-! ## Expanding -/

/-- `rdict_expand`: doubled below `rdict_hill_expand_capacity`, then `rdict_hill_add_capacity` more. -/
def expandCapacity (capacity : Nat) : Nat :=
  if capacity < 640000 then u32 (capacity * 2) else u32 (capacity + 64000)

def bucketCountOf (capacity bucketCapacity : Nat) : Nat :=
  if capacity % bucketCapacity = 0 then capacity / bucketCapacity else capacity / bucketCapacity + 1

/-- The search of the rehash for a free slot, from the first slot of a bucket on: its distance, or
`none` when the table has to grow. -/
def probe (bucketCapacity : Nat) : List (RdictEntry K V) → Nat → Except Fault (Option Nat)
  | [], _ => .error .outOfBounds
  | e :: es, inc =>
    if e.key.isNone then .ok (some inc)
    else if bucketCapacity > 0 ∧ inc ≥ bucketCapacity - 1 then .ok none
    else probe bucketCapacity es (inc + 1)

/-- Put an entry into its bucket of the new table. -/
def place (t : RdictFuncs K V E) (bucketCapacity bucketCount : Nat) (table : List (RdictEntry K V))
    (e : RdictEntry K V) (k : K) : Except Fault (Option (List (RdictEntry K V))) :=
  if bucketCount = 0 then .error .divByZero
  else
    let pos := t.hashFunc k % bucketCount * bucketCapacity
    match probe bucketCapacity (table.drop pos) 0 with
    | .error f => .error f
    | .ok none => .ok none
    | .ok (some inc) => .ok (some (table.set (pos + inc) e))

/-- The loop over the old slots; `none` when the table has to grow. -/
def rehashLoop (t : RdictFuncs K V E) (old : List (RdictEntry K V))
    (capacity bucketCapacity bucketCount : Nat) :
    Nat → Nat → List (RdictEntry K V) → Except Fault (Option (List (RdictEntry K V)))
  | fuel, i, table =>
    if i < capacity then
      match fuel, old[i]? with
      | 0, _ => .error .outOfFuel
      | _, none => .error .outOfBounds
      | fuel + 1, some e =>
        match e.key with
        | none => rehashLoop t old capacity bucketCapacity bucketCount fuel
            (u32 (u32 (i / bucketCapacity + 1) * bucketCapacity)) table
        | some k =>
          match place t bucketCapacity bucketCount table e k with
          | .error f => .error f
          | .ok none => .ok none
          | .ok (some table) =>
            rehashLoop t old capacity bucketCapacity bucketCount fuel (i + 1) table
    else .ok (some table)

/-- `_expand_buckets`. Its check of the capacity against `rdict_size_max` and `rdict_size_min` never
fires on an `rdict_size_t`. -/
def expandBuckets (t : RdictFuncs K V E) (ok : Nat → Bool) (scale : Nat → Nat) :
    Nat → Rdict K V E → Nat → Except Fault (Int × Rdict K V E)
  | 0, _, _ => .error .outOfFuel
  | fuel + 1, d, capacity =>
    let capacity := u32 (scale capacity)
    let bucketCount := bucketCountOf capacity d.bucketCapacity
    let destCapacity := u32 (bucketCount * d.bucketCapacity)
    match d.heap.alloc ok with
    | (none, heap) => .ok (rdictCodeError, { d with heap })
    | (some id, heap) =>
      let heap := heap.addTable id
      let newEntry := List.replicate destCapacity RdictEntry.empty
      match d.entry with
      | none =>
        .ok (rdictCodeOk, { d with
          entry := some (id, newEntry), capacity := destCapacity, size := 0, buckets := bucketCount, heap })
      | some (oldId, old) =>
        match rehashLoop t old d.capacity d.bucketCapacity bucketCount d.capacity 0 newEntry with
        | .error f => .error f
        | .ok none =>
          expandBuckets t ok scale fuel { d with heap := heap.freeTable id }
            (expandCapacity (u32 (capacity * 2)))
        | .ok (some newEntry) =>
          .ok (rdictCodeOk, { d with
            entry := some (id, newEntry), capacity := destCapacity, buckets := bucketCount,
            heap := heap.freeTable oldId })

def rdictExpand (t : RdictFuncs K V E) (ok : Nat → Bool) (scale : Nat → Nat) (fuel : Nat)
    (d : Rdict K V E) (capacity : Nat) : Except Fault (Int × Rdict K V E) :=
  expandBuckets t ok scale fuel d (expandCapacity capacity)

def rdictCreate (t : RdictFuncs K V E) (ok : Nat → Bool) (scale : Nat → Nat) (fuel : Nat)
    (initCapacity bucketCapacity : Nat) (dataExt : E) (heap : RdictHeap) :
    Except Fault (Rdict K V E) :=
  let d : Rdict K V E := {
    entry := none
    entryNull := none
    size := 0
    capacity := if initCapacity > 0 then initCapacity else 16
    buckets := 0
    bucketCapacity := if bucketCapacity > 0 then bucketCapacity else 16
    dataExt
    heap }
  (expandBuckets t ok scale fuel d d.capacity).map fun r => r.2

/-! ## Adding, removing and finding -/

/-- `while (entry->key.ptr && !rdict_is_key_equal(d, entry->key.ptr, key)) ++entry`: the distance, and
the entry it stops at. -/
def scan (t : RdictFuncs K V E) (k : K) :
    List (RdictEntry K V) → Except Fault (Nat × RdictEntry K V)
  | [] => .error .outOfBounds
  | e :: es =>
    match e.key with
    | none => .ok (0, e)
    | some k' =>
      if t.isKeyEqual k' k then .ok (0, e)
      else (scan t k es).map fun (n, e) => (n + 1, e)

/-- `_find_bucket`: the first slot of the key's bucket. -/
def findBucket (t : RdictFuncs K V E) (d : Rdict K V E) (k : K) : Except Fault Nat :=
  if d.buckets = 0 then .error .divByZero
  else if d.entry.isNone then .error .nullDeref
  else .ok (t.hashFunc k % d.buckets * d.bucketCapacity)

def rdictFind (t : RdictFuncs K V E) (d : Rdict K V E) (key : Option K) :
    Except Fault (Option (RdictEntry K V)) :=
  match key with
  | none => .ok d.entryNull
  | some k => do
    let start ← findBucket t d k
    let (_, e) ← scan t k (d.slots.drop start)
    return if e.key.isSome then some e else none

/-- The `NULL` key: its entry is allocated once, later values replace the one it holds. Without memory
the entry stays `NULL`. -/
def addNull (t : RdictFuncs K V E) (ok : Nat → Bool) (d : Rdict K V E) (val : Option V) :
    Rdict K V E :=
  match d.entryNull with
  | none =>
    match d.heap.alloc ok with
    | (none, heap) => { d with size := u32 (d.size + 1), heap }
    | (some _, heap) =>
      let (key, ext) := t.copyKeyFunc d.dataExt none
      let (value, ext) := t.copyValueFunc ext val
      { d with entryNull := some ⟨key, value⟩, size := u32 (d.size + 1), dataExt := ext, heap }
  | some e =>
    let ext := t.freeValueFunc d.dataExt e.value
    let (value, ext) := t.copyValueFunc ext val
    { d with entryNull := some { e with value }, dataExt := ext }

/-- The slot a search for `k` has stopped at gets the value, and the key when it is free. -/
def putAt (t : RdictFuncs K V E) (d : Rdict K V E) (i : Nat) (e : RdictEntry K V) (k : K)
    (val : Option V) : Rdict K V E :=
  match e.key with
  | none =>
    let (key, ext) := t.copyKeyFunc d.dataExt (some k)
    let (value, ext) := t.copyValueFunc ext val
    { d.withSlots (d.slots.set i ⟨key, value⟩) with size := u32 (d.size + 1), dataExt := ext }
  | some _ =>
    let ext := t.freeValueFunc d.dataExt e.value
    let (value, ext) := t.copyValueFunc ext val
    { d.withSlots (d.slots.set i { e with value }) with dataExt := ext }

def rdictAdd (t : RdictFuncs K V E) (ok : Nat → Bool) (scale : Nat → Nat) :
    Nat → Rdict K V E → Option K → Option V → Except Fault (Int × Rdict K V E)
  | 0, _, _, _ => .error .outOfFuel
  | fuel + 1, d, key, val =>
    match key with
    | none => .ok (rdictCodeOk, addNull t ok d val)
    | some k => do
      let start ← findBucket t d k
      let (n, e) ← scan t k (d.slots.drop start)
      if n ≥ d.bucketCapacity - 1 then
        let (code, d) ← rdictExpand t ok scale fuel d d.capacity
        if code ≠ rdictCodeOk then return (code, d)
        rdictAdd t ok scale fuel d key val
      else return (rdictCodeOk, putAt t d (start + n) e k val)

/-- The bounded search of `rdict_remove`, at distance `inc` from the first slot: where the key is. -/
def removeScan (t : RdictFuncs K V E) (k : K) (bucketCapacity : Nat) :
    List (RdictEntry K V) → Nat → Except Fault (Option (Nat × RdictEntry K V))
  | [], _ => .error .outOfBounds
  | e :: es, inc =>
    match e.key with
    | none => .ok none
    | some k' =>
      if t.isKeyEqual k' k then .ok (some (inc, e))
      else if inc = bucketCapacity - 1 then .ok none
      else removeScan t k bucketCapacity es (inc + 1)

/-- The last entry behind `i` in the `n` slots from `i + 1` on moves into slot `i`. -/
def moveLast (slots : List (RdictEntry K V)) (i : Nat) :
    Nat → Except Fault (List (RdictEntry K V))
  | 0 => .ok slots
  | n + 1 =>
    match slots[i + (n + 1)]? with
    | none => .error .outOfBounds
    | some e =>
      if e.key.isSome then .ok ((slots.set i e).set (i + (n + 1)) RdictEntry.empty)
      else moveLast slots i n

/-- `rdict_free_key` and `rdict_free_value` on an entry. -/
def freeEntry (t : RdictFuncs K V E) (ext : E) (e : RdictEntry K V) : E :=
  t.freeValueFunc (t.freeKeyFunc ext e.key) e.value

/-- The `NULL` key. -/
def removeNull (t : RdictFuncs K V E) (d : Rdict K V E) : Rdict K V E :=
  match d.entryNull with
  | none => d
  | some e =>
    { d with entryNull := none, size := u32Pred d.size, dataExt := freeEntry t d.dataExt e }

def rdictRemove (t : RdictFuncs K V E) (d : Rdict K V E) (key : Option K) :
    Except Fault (Int × Rdict K V E) :=
  match key with
  | none => .ok (rdictCodeOk, removeNull t d)
  | some k => do
    let start ← findBucket t d k
    match ← removeScan t k d.bucketCapacity (d.slots.drop start) 0 with
    | none => return (rdictCodeNotExist, d)
    | some (n, e) =>
      let slots ← moveLast (d.slots.set (start + n) RdictEntry.empty) (start + n)
        (d.bucketCapacity - 1 - n)
      return (rdictCodeOk, { d.withSlots slots with
        size := u32Pred d.size, dataExt := freeEntry t d.dataExt e })

/-! ## Iterating -/

/-- What `rdict_next` returns a pointer to. -/
inductive RdictRef
  | null
  | slot (i : Nat)
  deriving DecidableEq, Repr

/-- `de->value.ptr`. -/
def refValue (d : Rdict K V E) : RdictRef → Option V
  | .null => d.entryNull.bind RdictEntry.value
  | .slot j => d.slots[j]?.bind RdictEntry.value

/-- The inner loop of `rdict_next`, from the first slot of a bucket on. -/
def nextBucket (slots : List (RdictEntry K V)) (capacity bucketCapacity : Nat) :
    Nat → Nat → Except Fault (Option RdictRef × Option Nat)
  | fuel, i =>
    if i + 1 < capacity then
      match fuel, slots[i]? with
      | 0, _ => .error .outOfFuel
      | _, none => .error .outOfBounds
      | fuel + 1, some e =>
        if e.key.isSome then .ok (some (.slot i), some (i + 1))
        else nextBucket slots capacity bucketCapacity fuel ((i / bucketCapacity + 1) * bucketCapacity)
    else .ok (none, some i)

/-- `rdict_next` from slot `i` on. -/
def nextFrom (d : Rdict K V E) (i : Nat) : Except Fault (Option RdictRef × Option Nat) :=
  if i < d.capacity then
    match d.slots[i]? with
    | none => .error .outOfBounds
    | some e =>
      if e.key.isSome then .ok (some (.slot i), some (i + 1))
      else nextBucket d.slots d.capacity d.bucketCapacity d.capacity
        ((i / d.bucketCapacity + 1) * d.bucketCapacity)
  else .ok (none, some i)

/-- `next` is `none` for the pointer `d->entry_null` that `rdict_it` starts with. -/
def rdictNext (d : Rdict K V E) (next : Option Nat) : Except Fault (Option RdictRef × Option Nat) :=
  match next with
  | none => if d.entryNull.isSome then .ok (some .null, some 0) else nextFrom d 0
  | some i => nextFrom d i

/-! ## Clearing -/

def freeAt (t : RdictFuncs K V E) (d : Rdict K V E) : RdictRef → Rdict K V E
  | .null => { d with
      entryNull := d.entryNull.map fun _ => RdictEntry.empty
      dataExt := (d.entryNull.map (freeEntry t d.dataExt)).getD d.dataExt }
  | .slot i => { d.withSlots (d.slots.set i RdictEntry.empty) with
      dataExt := (d.slots[i]?.map (freeEntry t d.dataExt)).getD d.dataExt }

/-- The loop of `rdict_clear`; each round goes on to a later slot. -/
def clearLoop (t : RdictFuncs K V E) : Nat → Rdict K V E → Option Nat → Except Fault (Rdict K V E)
  | 0, _, _ => .error .outOfFuel
  | fuel + 1, d, next => do
    match ← rdictNext d next with
    | (none, _) => return d
    | (some ref, next) => clearLoop t fuel (freeAt t d ref) next

def rdictClear (t : RdictFuncs K V E) (d : Rdict K V E) : Except Fault (Rdict K V E) := do
  let d := { d with
    entryNull := none
    dataExt := (d.entryNull.map (freeEntry t d.dataExt)).getD d.dataExt }
  let d ← clearLoop t (d.capacity + 1) d none
  return { d.withSlots (List.replicate d.capacity RdictEntry.empty) with size := 0 }

/-- `rdict_release`: what the callbacks have seen, and the tables that are left. -/
def rdictRelease (t : RdictFuncs K V E) (d : Rdict K V E) : Except Fault (E × RdictHeap) :=
  (rdictClear t d).map fun d =>
    (d.dataExt, match d.entry with
      | some (id, _) => d.heap.freeTable id
      | none => d.heap)

end Funra
