import Funra.Lib.CInt
import Funra.Lib.Mem

/-!
# `rbuffer`: the byte buffer of the connections

`rbuffer.c` and the macros of `rbuffer.h`, on a block of bytes with a read cursor `offset` and a write
cursor `pos`. Fields are C `int`s; every access to the block is a checked one (`Mem`), so a `memcpy`
outside the block or with a negative size is a fault of the call.

`unread` is what the component is for: the bytes written and not read yet. The operations are
specified on it in `Funra.Rbuffer.Spec`.
-/

namespace Funra

open CInt Mem

structure Rbuffer where
  data : Obj
  offset : Int
  pos : Int
  capacity : Int
  deriving DecidableEq, Repr

namespace Rbuffer

/-- `block` is what `malloc` returned for the data. -/
def create (initCapacity : Int) (block : Obj) : Rbuffer :=
  { data := block, offset := 0, pos := 0, capacity := initCapacity }

def size (d : Rbuffer) : Int := d.pos - d.offset

def left (d : Rbuffer) : Int := d.capacity - d.pos

/-- `rbuffer_empty`. -/
def isEmpty (d : Rbuffer) : Bool := d.pos == d.offset

/-- The move of `offset` past the bytes read; a drained buffer starts again at the front. -/
def advance (d : Rbuffer) (readSize : Int) : Rbuffer :=
  let d := { d with offset := d.offset + readSize }
  if d.isEmpty then { d with offset := 0, pos := 0 } else d

/-- `val` is the room behind the destination pointer, `none` for `NULL` (or `rstr_empty`). Yields the
returned count and the bytes stored through the pointer. -/
def read (d : Rbuffer) (val : Option Nat) (readSize : Int) : Except Fault (Int × Obj × Rbuffer) :=
  match val with
  | none => .ok (0, [], d)
  | some room =>
    let readSize := if readSize > d.size then d.size else readSize
    match load d.data d.offset readSize with
    | .error f => .error f
    | .ok bytes =>
      if room < bytes.length then .error .outOfBounds
      else .ok (readSize, bytes, d.advance readSize)

/-- The loop of `rbuffer_rewind`; each round moves at least one byte, so `size` rounds are enough. -/
def rewindLoop (offset size : Int) : Nat → Obj → Int → Int → Except Fault (Int × Obj)
  | fuel, data, moveSize, block =>
    if moveSize < size then
      match fuel with
      | 0 => .error .outOfFuel
      | fuel + 1 =>
        let block := if moveSize + block > size then size - moveSize else block
        match copyWithin data moveSize (offset + moveSize) block with
        | .error f => .error f
        | .ok data => rewindLoop offset size fuel data (moveSize + block) block
    else .ok (moveSize, data)

def rewind (d : Rbuffer) : Except Fault (Int × Rbuffer) :=
  if d.offset > 0 then
    match rewindLoop d.offset d.size d.size.toNat d.data 0 d.offset with
    | .error f => .error f
    | .ok (moveSize, data) => .ok (moveSize, { d with data, offset := 0, pos := d.size })
  else .ok (0, d)

/-- `memcpy(d->data + d->pos, val, size)` and the move of `pos`. -/
def append (d : Rbuffer) (val : Obj) (size : Int) : Except Fault (Int × Rbuffer) :=
  match load val 0 size with
  | .error f => .error f
  | .ok bytes =>
    match store d.data d.pos bytes with
    | .error f => .error f
    | .ok data => .ok (size, { d with data, pos := d.pos + size })

/-- `rbuffer_write` once the size is known: make room at the end, then copy what fits. -/
def put (d : Rbuffer) (val : Obj) (size : Int) : Except Fault (Int × Rbuffer) :=
  match (if d.left < size then d.rewind else .ok (0, d)) with
  | .error f => .error f
  | .ok (_, d) => if d.left ≥ size then d.append val size else d.append val d.left

/-- `val` holds the bytes that can be read through the pointer, `none` for `NULL`. A size of 0 or less
stands for the length of the string at `val`. -/
def write (d : Rbuffer) (val : Option Obj) (size : Int) : Except Fault (Int × Rbuffer) :=
  match val with
  | none => .ok (0, d)
  | some val =>
    if size ≤ 0 then
      match strlen val with
      | none => .error .outOfBounds
      | some n => d.put val (int32 n)
    else d.put val size

def seek (d : Rbuffer) (pos : Int) : Rbuffer :=
  if pos ≥ d.offset ∧ pos < d.capacity then { d with pos }
  else if pos < d.offset then { d with pos := d.offset }
  else { d with pos := d.capacity - 1 }

def skip (d : Rbuffer) (size : Int) : Rbuffer :=
  let offset := int32 (d.offset + size)
  let offset := if offset > d.pos then d.pos else offset
  { d with offset := if offset < 0 then 0 else offset }

def revert (d : Rbuffer) : Rbuffer := { d with offset := d.pos }

def clear (d : Rbuffer) : Rbuffer := { d with offset := 0, pos := 0 }

/-- The macro passes `offset + len`, and `rbuffer_skip` adds its argument to `offset`. -/
def readExt (d : Rbuffer) (len : Int) : Rbuffer := d.skip (int32 (d.offset + len))

def writeExt (d : Rbuffer) (len : Int) : Rbuffer := d.seek (int32 (d.pos + len))

/-! ### The invariant and the queue view -/

/-- The cursors are ordered, and the block has the capacity's size. -/
structure Wf (d : Rbuffer) : Prop where
  offset_nonneg : 0 ≤ d.offset
  offset_le_pos : d.offset ≤ d.pos
  pos_le_capacity : d.pos ≤ d.capacity
  capacity_lt : d.capacity < 2147483648
  length_data : d.data.length = d.capacity

/-- The bytes written and not read yet, in order. -/
def unread (d : Rbuffer) : Obj := window d.data d.offset.toNat d.size.toNat

end Rbuffer

end Funra
