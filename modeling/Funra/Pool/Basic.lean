import Funra.Lib.CInt
import Funra.Lib.Mem
import Mathlib.Logic.Function.Basic

/-!
# `rpool`: blocks, items and the operations of one pool

`rpool.h` generates the functions for each type. A pool is a list of blocks linked through `next_block` and
`prev_block`; the free items of a block are linked through the items themselves, whose first word is the
link while they are free and belongs to the user while they are not. `items` is that memory.

The loops over the blocks end after `capacity` rounds: a block has one item at least.
-/

namespace Funra

open CInt Mem

/-- A block, without the fields only the log reads. `items` and `head` are addresses of items. -/
structure RpoolBlock where
  totalCount : Nat
  freeCount : Int
  nextBlock : Option Nat
  prevBlock : Option Nat
  head : Option Nat
  items : Nat
  deriving DecidableEq, Repr

/-- A pool, and the blocks and items in memory. `items a` is the first word of the item at `a`. -/
structure Rpool where
  capacity : Int
  totalFree : Int
  freeHeadBlock : Option Nat
  blocks : Nat → Option RpoolBlock
  items : Nat → Option (Option Nat)

/-- The arguments of `rdefine_pool`, and the size of an item. -/
structure RpoolType where
  itemSize : Nat
  sizeInit : Nat
  sizeAdjust : Nat
  deriving DecidableEq, Repr

/-- What `malloc` returns for a block and `calloc` for its items. -/
structure RpoolAlloc where
  block : Option Nat
  items : Option Nat
  deriving DecidableEq, Repr

def itemAddrs (size : Nat) : Nat → Nat → List Nat
  | _, 0 => []
  | base, num + 1 => base :: itemAddrs size (base + size) num

namespace RpoolBlock

/-- The test of `rpool_free` on the address of an item. -/
def holds (size : Nat) (blk : RpoolBlock) (item : Nat) : Bool :=
  decide (blk.items ≤ item) && decide (item < blk.items + blk.totalCount * size)

def addrs (size : Nat) (blk : RpoolBlock) : List Nat := itemAddrs size blk.items blk.totalCount

end RpoolBlock

namespace Rpool

variable (pool : Rpool)

/-- The block behind a pointer. -/
def block : Option Nat → Except Fault RpoolBlock
  | none => .error .nullDeref
  | some b =>
    match pool.blocks b with
    | none => .error .useAfterFree
    | some blk => .ok blk

/-- Assignments to fields of the block behind a pointer. -/
def modifyBlock (f : RpoolBlock → RpoolBlock) : Option Nat → Except Fault Rpool
  | none => .error .nullDeref
  | some b =>
    match pool.blocks b with
    | none => .error .useAfterFree
    | some blk => .ok { pool with blocks := Function.update pool.blocks b (some (f blk)) }

/-- `if (block != NULL) block->prev_block = prev`. -/
def setPrev (prev : Option Nat) : Option Nat → Except Fault Rpool
  | none => .ok pool
  | some b => pool.modifyBlock (fun blk => { blk with prevBlock := prev }) (some b)

/-- `item->next`. -/
def link (item : Nat) : Except Fault (Option Nat) :=
  match pool.items item with
  | none => .error .useAfterFree
  | some next => .ok next

/-- A word is written over the link of an item. -/
def setLink (item : Nat) (next : Option Nat) : Except Fault Rpool :=
  match pool.items item with
  | none => .error .useAfterFree
  | some _ => .ok { pool with items := Function.update pool.items item (some next) }

/-- `rayfree` of a block and of its items. -/
def freeBlock (size b : Nat) (blk : RpoolBlock) : Rpool :=
  { pool with
    blocks := Function.update pool.blocks b none
    items := fun a => if a ∈ blk.addrs size then none else pool.items a }

end Rpool

/-- The loop of `rpool_expand`: every item links to the next one, the last to `NULL`. -/
def linkItems (size : Nat) : Nat → Nat → (Nat → Option (Option Nat)) → Nat → Option (Option Nat)
  | _, 0, mem => mem
  | base, 1, mem => Function.update mem base (some none)
  | base, num + 2, mem =>
    linkItems size (base + size) (num + 1) (Function.update mem base (some (some (base + size))))

/-- A block at `b` with all of its items free. -/
def Rpool.addBlock (pool : Rpool) (size num b base : Nat) : Rpool where
  capacity := pool.capacity + num
  totalFree := pool.totalFree + num
  freeHeadBlock := pool.freeHeadBlock
  blocks := Function.update pool.blocks b (some ⟨num, num, none, none, some base, base⟩)
  items := linkItems size base num pool.items

def rpoolExpand (size : Nat) (m : RpoolAlloc) (pool : Rpool) (num : Nat) : Option Nat × Rpool :=
  match m.block, m.items with
  | some b, some base => (some b, pool.addBlock size num b base)
  | _, _ => (none, pool)

/-- `rpool_create` up to the chain of all pools. -/
def newRpool (ty : RpoolType) (m : RpoolAlloc) : Option Rpool :=
  match rpoolExpand ty.itemSize m ⟨0, 0, none, fun _ => none, fun _ => none⟩ ty.sizeInit with
  | (none, _) => none
  | (some b, pool) => some { pool with freeHeadBlock := some b }

/-! ### `rpool_get` -/

/-- The loop of `rpool_get`: the first block behind `b` with a free item, and the item. -/
def nextFree (pool : Rpool) : Nat → Nat → Except Fault (Option (Nat × Nat))
  | 0, _ => .error .outOfFuel
  | fuel + 1, b => do
    let blk ← pool.block (some b)
    match blk.nextBlock with
    | none => return none
    | some b' =>
      let blk' ← pool.block (some b')
      match blk'.head with
      | some item => return some (b', item)
      | none => nextFree pool fuel b'

/-- A new block goes behind the first one. -/
def spliceBlock (pool : Rpool) (b : Nat) : Except Fault Rpool := do
  let first ← pool.block pool.freeHeadBlock
  let pool ← pool.modifyBlock (fun blk => { blk with nextBlock := some b }) pool.freeHeadBlock
  let pool ← pool.setPrev (some b) first.nextBlock
  let head := pool.freeHeadBlock
  pool.modifyBlock (fun blk => { blk with prevBlock := head, nextBlock := first.nextBlock }) (some b)

/-- The end of `rpool_get`. -/
def takeItem (pool : Rpool) (b item : Nat) : Except Fault (Option Nat × Rpool) := do
  let next ← pool.link item
  let pool ← pool.modifyBlock (fun blk => { blk with head := next, freeCount := blk.freeCount - 1 })
    (some b)
  return (some item, { pool with totalFree := pool.totalFree - 1 })

/-- The search of `rpool_get`, from the first block on. -/
def findFree (pool : Rpool) : Except Fault (Option (Nat × Nat)) :=
  match pool.freeHeadBlock with
  | none => .error .nullDeref
  | some first => do
    let blk ← pool.block (some first)
    match blk.head with
    | some item => return some (first, item)
    | none => nextFree pool pool.capacity.toNat first

/-- No block has a free item. -/
def takeNew (ty : RpoolType) (m : RpoolAlloc) (pool : Rpool) : Except Fault (Option Nat × Rpool) :=
  match rpoolExpand ty.itemSize m pool ty.sizeAdjust with
  | (none, pool) => .ok (none, pool)
  | (some b, pool) => do
    let pool ← spliceBlock pool b
    let blk ← pool.block (some b)
    match blk.head with
    | none => .error .nullDeref
    | some item => takeItem pool b item

/-- `dataPool` is the variable of the type that holds its pool. -/
def rpoolGet (ty : RpoolType) (dataPool : Option Nat) (m : RpoolAlloc) (pool : Rpool) :
    Except Fault (Option Nat × Rpool) :=
  if dataPool = none then .ok (none, pool)
  else do
    match ← findFree pool with
    | some (b, item) => takeItem pool b item
    | none => takeNew ty m pool

/-! ### `rpool_free` -/

/-- The loop of `rpool_free`: the block with the item, from the pointer on. -/
def findBlock (size : Nat) (pool : Rpool) (item : Nat) : Nat → Option Nat → Except Fault (Option Nat)
  | 0, _ => .error .outOfFuel
  | _, none => .ok none
  | fuel + 1, some b => do
    let blk ← pool.block (some b)
    if blk.holds size item then return some b else findBlock size pool item fuel blk.nextBlock

/-- A block with free items only leaves the list. -/
def releaseBlock (size : Nat) (pool : Rpool) (b : Nat) : Except Fault Rpool := do
  let blk ← pool.block (some b)
  let pool ← pool.modifyBlock (fun x => { x with nextBlock := blk.nextBlock }) blk.prevBlock
  let pool ← pool.setPrev blk.prevBlock blk.nextBlock
  return { pool.freeBlock size b blk with
    capacity := pool.capacity - blk.totalCount
    totalFree := pool.totalFree - blk.totalCount }

/-- The item becomes the first free one of its block. -/
def giveBack (pool : Rpool) (b item : Nat) : Except Fault Rpool := do
  let blk ← pool.block (some b)
  let pool ← pool.setLink item blk.head
  let pool ← pool.modifyBlock
    (fun blk => { blk with head := some item, freeCount := blk.freeCount + 1 }) (some b)
  return { pool with totalFree := pool.totalFree + 1 }

/-- The search of `rpool_free`, from the first block on. -/
def findOwner (size : Nat) (pool : Rpool) (item : Nat) : Except Fault (Option Nat) := do
  let first ← pool.block pool.freeHeadBlock
  if first.holds size item then return pool.freeHeadBlock
  else findBlock size pool item pool.capacity.toNat first.nextBlock

/-- The end of `rpool_free`. -/
def shrink (size : Nat) (pool : Rpool) (b : Nat) : Except Fault Rpool := do
  let blk ← pool.block (some b)
  if pool.freeHeadBlock ≠ some b ∧ pool.totalFree > int32 (2 * blk.freeCount) ∧
      blk.totalCount = blk.freeCount then releaseBlock size pool b
  else return pool

def rpoolFree (ty : RpoolType) (dataPool : Option Nat) (item : Nat) (pool : Rpool) :
    Except Fault (Int × Rpool) :=
  if dataPool = none then .ok (-1, pool)
  else do
    match ← findOwner ty.itemSize pool item with
    | none => return (-1, pool)
    | some b =>
      let pool ← giveBack pool b item
      let pool ← shrink ty.itemSize pool b
      return (0, pool)

end Funra
