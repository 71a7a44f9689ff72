import Mathlib.Algebra.Group.Defs
import Funra.Lib.CInt
import Funra.Lib.Mem

/-!
# rarray

The growing array. A slot holds a value of type `V`, `0` is what the zero bytes of `calloc` and `memset`
stand for. Sizes in bytes are computed as the code computes them, in 32 bits where it does; every slot
access and every copy is checked against the slots there are. Allocation succeeds, and `rassert` is active
(the build that switches it off would not allocate at all, and nothing defines it).
-/

namespace Funra

open Mem CInt

variable {V : Type} [Zero V] [DecidableEq V]

/-- `freed` is what `free_value_func` was called with. -/
structure Rarray (V : Type) where
  valueSize : Nat
  size : Nat
  capacity : Nat
  items : List V
  freed : List V
  deriving DecidableEq, Repr

/-- The element types with their set, get and remove functions. -/
inductive RarrayType
  | int
  | string
  | ptr
  deriving DecidableEq, Repr

/-- `rdata_type_int_size` and its siblings. -/
def RarrayType.size : RarrayType → Nat
  | .int => 4
  | .string | .ptr => 8

/-- `copyValue` says whether there is a `copy_value_func`, `copies obj v` that `v` may be the copy of `obj`
it (for strings, `rstr_cpy`) returns. -/
structure RarrayFuncs (V : Type) where
  type : RarrayType
  copyValue : Bool
  copies : V → V → Prop
  compareValue : V → V → Int

/-- What `set_value_func` stores for `obj`. -/
def RarrayFuncs.Stores (F : RarrayFuncs V) (obj v : V) : Prop :=
  match F.type with
  | .int => v = obj
  | .string => F.copies obj v
  | .ptr => if F.copyValue then F.copies obj v else v = obj

/-- `rcode_eq` is 0. -/
def RarrayFuncs.equal (F : RarrayFuncs V) (temp val : V) : Bool := F.compareValue temp val == 0

/-! ### Slots -/

namespace Rarray

variable (ar : Rarray V)

def slot (offset : Nat) : Except Fault V :=
  match ar.items[offset]? with
  | none => .error .outOfBounds
  | some v => .ok v

def setSlot (offset : Nat) (v : V) : Except Fault (Rarray V) :=
  if offset < ar.items.length then .ok { ar with items := ar.items.set offset v }
  else .error .outOfBounds

/-- `memcpy(dest_ptr, dest_ptr + 1, n * sizeof *dest_ptr)` with `dest_ptr` at `index`, taken as a move. -/
def shift (index n : Nat) : Except Fault (Rarray V) :=
  if index + 1 + n ≤ ar.items.length then
    .ok { ar with items := ar.items.take index ++ (ar.items.drop (index + 1)).take n ++ ar.items.drop (index + n) }
  else .error .outOfBounds

/-- `memset` over the first `n` slots. -/
def zero (n : Nat) : Except Fault (Rarray V) :=
  if n ≤ ar.items.length then .ok { ar with items := List.replicate n 0 ++ ar.items.drop n }
  else .error .outOfBounds

def freeValue (v : V) : Rarray V := { ar with freed := ar.freed ++ [v] }

end Rarray

/-! ### The functions of the element types -/

def rarraySetInt (offset : Nat) (v : V) (ar : Rarray V) : Except Fault (Rarray V) := ar.setSlot offset v

def rarraySetString (offset : Nat) (v : V) (ar : Rarray V) : Except Fault (Rarray V) := ar.setSlot offset v

/-- An object that is there already is freed. -/
def rarraySetPtr (offset : Nat) (v : V) (ar : Rarray V) : Except Fault (Rarray V) := do
  let old ← ar.slot offset
  let ar := if old ≠ 0 then ar.freeValue old else ar
  ar.setSlot offset v

/-- The last slot becomes zero. -/
def rarrayDropLast (ar : Rarray V) : Except Fault (Rarray V) := do
  let ar ← ar.setSlot (uint32 (ar.size - 1)).toNat 0
  return { ar with size := (uint32 (ar.size - 1)).toNat }

/-- `copy_len` is a `size_t`. -/
def rarrayRemoveInt (index : Nat) (ar : Rarray V) : Except Fault (Rarray V) := do
  let copyLen := uint32 (ar.size - index - 1)
  let ar ← (if 0 < copyLen then ar.shift index copyLen.toNat else .ok ar)
  rarrayDropLast ar

/-- `copy_len` is an `int`, its product with `value_size` has 32 bits. -/
def rarrayRemovePtr (index : Nat) (ar : Rarray V) : Except Fault (Rarray V) := do
  let old ← ar.slot index
  let ar := if old ≠ 0 then ar.freeValue old else ar
  let copyLen := int32 (uint32 (ar.size - index - 1))
  let n := (uint32 (copyLen * ar.valueSize)).toNat / ar.valueSize
  let ar ← (if 0 < copyLen then ar.shift index n else .ok ar)
  rarrayDropLast ar

def rarrayRemoveString (index : Nat) (ar : Rarray V) : Except Fault (Rarray V) := rarrayRemovePtr index ar

def RarrayType.setValue : RarrayType → Nat → V → Rarray V → Except Fault (Rarray V)
  | .int => rarraySetInt
  | .string => rarraySetString
  | .ptr => rarraySetPtr

def RarrayType.removeValue : RarrayType → Nat → Rarray V → Except Fault (Rarray V)
  | .int => rarrayRemoveInt
  | .string => rarrayRemoveString
  | .ptr => rarrayRemovePtr

/-! ### Allocation -/

/-- The `float` closest to `n`: 24 bits, ties to even. -/
def floatOfNat (n : Nat) : Nat :=
  let ulp := 2 ^ (Nat.log2 n - 23)
  let q := n / ulp
  let r := n % ulp
  (if ulp < 2 * r ∨ (ulp = 2 * r ∧ q % 2 = 1) then q + 1 else q) * ulp

/-- `(rarray_size_t)(capacity * scale_factor)`, the factor 2; a product beyond 32 bits, which C leaves open, is
cut to them. -/
def rarrayScale (capacity : Nat) : Nat := (uint32 (floatOfNat capacity * 2)).toNat

/-- `_rarray_alloc`. The first allocation finds no items. -/
def rarrayAlloc (capacity : Nat) (ar : Rarray V) : Except Fault (Rarray V) :=
  let dest : List V := List.replicate capacity 0
  let copyLen := int32 ar.size
  let n := (uint32 (copyLen * ar.valueSize)).toNat / ar.valueSize
  if 0 < copyLen then
    if n ≤ ar.items.length ∧ n ≤ dest.length then
      .ok { ar with items := ar.items.take n ++ dest.drop n, capacity := capacity }
    else .error .outOfBounds
  else .ok { ar with items := dest, capacity := capacity }

def rarrayCreate (valueSize initCapacity : Nat) : Rarray V :=
  let capacity := if 0 < initCapacity then initCapacity else 16
  ⟨valueSize, 0, capacity, List.replicate capacity 0, []⟩

/-! ### Operations -/

/-- `v` is what is stored for the value. -/
def rarrayAdd (F : RarrayFuncs V) (v : V) (ar : Rarray V) : Except Fault (Rarray V) := do
  let ar ← (if ar.capacity ≤ ar.size then rarrayAlloc (rarrayScale ar.capacity) ar else .ok ar)
  let ar ← F.type.setValue ar.size v ar
  return { ar with size := (uint32 (ar.size + 1)).toNat }

def rarrayAt (ar : Rarray V) (index : Nat) : Except Fault V :=
  if ar.capacity ≤ index then .ok 0 else ar.slot index

/-- The value and the next index of the iterator. -/
def rarrayNext (ar : Rarray V) (it : Nat) : Except Fault (V × Nat) := do
  let v ← rarrayAt ar it
  return (v, (uint32 (it + 1)).toNat)

def rarrayHasNext (ar : Rarray V) (it : Nat) : Bool := it ≤ ar.size

/-- The rounds of a loop over an array, from an index of the iterator on. -/
def rarrayRounds {σ ρ : Type} (ar : Rarray V) (body : V → σ → Option ρ × σ) :
    Nat → Nat → σ → Except Fault (Option ρ × σ)
  | 0, _, _ => .error .outOfFuel
  | fuel + 1, it, s => do
    let (temp, it) ← rarrayNext ar it
    if rarrayHasNext ar it then
      match body temp s with
      | (some r, s) => return (some r, s)
      | (none, s) => rarrayRounds ar body fuel it s
    else return (none, s)

/-- The loop `for (; temp = rarray_next(&it), rarray_has_next(&it); )`, until the body returns something. It has
a round for each element and one to see the end. -/
def rarrayFor {σ ρ : Type} (ar : Rarray V) (body : V → σ → Option ρ × σ) (s : σ) :
    Except Fault (Option ρ × σ) :=
  rarrayRounds ar body (ar.size + 1) 0 s

/-- The state of the loop is the index. -/
def rarrayRemove (F : RarrayFuncs V) (val : V) (ar : Rarray V) : Except Fault (Int × Rarray V) := do
  let (found, _) ← rarrayFor ar (fun temp index =>
    if F.equal temp val then (some index, index) else (none, index + 1)) (0 : Nat)
  match found with
  | some index => do
    let ar ← F.type.removeValue index ar
    return (0, ar)
  | none => return (4, ar)

def rarrayRemoveAt (F : RarrayFuncs V) (index : Nat) (ar : Rarray V) : Except Fault (Int × Rarray V) :=
  if ar.size ≤ index then .ok (5, ar)
  else do
    let ar ← F.type.removeValue index ar
    return (0, ar)

def rarrayExist (F : RarrayFuncs V) (data : V) (ar : Rarray V) : Except Fault Bool := do
  let (found, _) ← rarrayFor ar (fun temp s => if F.equal temp data then (some (), s) else (none, s)) ()
  return found.isSome

/-- `value_size * capacity` has 32 bits. -/
def rarrayClear (ar : Rarray V) : Except Fault (Rarray V) := do
  let (_, freed) ← rarrayFor ar (fun temp freed => ((none : Option Unit), freed ++ [temp])) ar.freed
  let ar : Rarray V := { ar with freed := freed }
  let ar ← ar.zero ((uint32 (ar.valueSize * ar.capacity)).toNat / ar.valueSize)
  return { ar with size := 0 }

/-- The array with its slots is freed; what is left is what `free_value_func` was called with. -/
def rarrayRelease (ar : Rarray V) : Except Fault (List V) := do
  let ar ← rarrayClear ar
  return ar.freed

end Funra
