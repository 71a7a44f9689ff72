import Mathlib.Logic.Function.Basic
import Funra.Lib.Mem

/-!
# rlist

The doubly linked list. A node is known by its address; `nodes` is the memory they live in, `none` where
no node is allocated. A value is a pointer, `none` is `NULL`.
-/

namespace Funra

open Mem

variable {α : Type}

structure RlistNode (α : Type) where
  prev : Option Nat
  next : Option Nat
  val : Option α
  deriving DecidableEq, Repr

/-- The functions of the list, `none` where they are not set. -/
structure RlistFuncs (α : Type) where
  mallocNodeVal : Option (Option α → Option α)
  freeNodeVal : Bool
  compareNodeVal : Option (Option α → Option α → Int)

/-- `freed` is what `free_node_val` was called with. -/
structure Rlist (α : Type) where
  head : Option Nat
  tail : Option Nat
  len : UInt32
  nodes : Nat → Option (RlistNode α)
  freed : List (Option α)

inductive RlistDirection
  | head
  | tail
  deriving DecidableEq, Repr

structure RlistIterator where
  next : Option Nat
  direction : RlistDirection
  deriving DecidableEq, Repr

namespace Rlist

variable (self : Rlist α)

def node : Option Nat → Except Fault (RlistNode α)
  | none => .error .nullDeref
  | some a =>
    match self.nodes a with
    | none => .error .useAfterFree
    | some node => .ok node

/-- The fields of a new node. -/
def setNode (a : Nat) (node : RlistNode α) : Rlist α :=
  { self with nodes := Function.update self.nodes a (some node) }

/-- An assignment to fields of the node behind a pointer. -/
def modifyNode (f : RlistNode α → RlistNode α) : Option Nat → Except Fault (Rlist α)
  | none => .error .nullDeref
  | some a =>
    match self.nodes a with
    | none => .error .useAfterFree
    | some node => .ok (self.setNode a (f node))

def nextOf (a : Nat) : Option (Option Nat) := (self.nodes a).map RlistNode.next

def prevOf (a : Nat) : Option (Option Nat) := (self.nodes a).map RlistNode.prev

def valOf (a : Nat) : Option (Option α) := (self.nodes a).map RlistNode.val

end Rlist

def rlistCreate (nodes : Nat → Option (RlistNode α)) : Rlist α := ⟨none, none, 0, nodes, []⟩

def rlistFreeNode (F : RlistFuncs α) (self : Rlist α) : Option Nat → Except Fault (Rlist α)
  | none => .ok self
  | some a =>
    match self.nodes a with
    | none => .error .useAfterFree
    | some node => .ok { self with
        nodes := Function.update self.nodes a none
        freed := if F.freeNodeVal then self.freed ++ [node.val] else self.freed }

/-- The loop of `rlist_clear`. -/
def rlistClearLoop (F : RlistFuncs α) : Nat → Option Nat → Rlist α → Except Fault (Rlist α)
  | 0, _, self => .ok self
  | len + 1, curr, self => do
    let node ← self.node curr
    let self ← rlistFreeNode F self curr
    rlistClearLoop F len node.next self

def rlistClear (F : RlistFuncs α) (self : Rlist α) : Except Fault (Rlist α) :=
  if self.len = 0 then .ok self
  else do
    let self ← rlistClearLoop F self.len.toNat self.head self
    return { self with tail := none, head := none, len := 0 }

/-- What a new node holds for a value. -/
def RlistFuncs.newVal (F : RlistFuncs α) (nodeVal : Option α) : Option α :=
  match F.mallocNodeVal with
  | some copy => copy nodeVal
  | none => nodeVal

/-- `m` is what the allocation of the node returns. -/
def rlistRpush (F : RlistFuncs α) (m : Option Nat) (nodeVal : Option α) (self : Rlist α) :
    Except Fault (Option Nat × Rlist α) :=
  if nodeVal = none then .ok (none, self)
  else
    match m with
    | none => .ok (none, self)
    | some a =>
      if 0 < self.len then do
        let self := self.setNode a ⟨self.tail, none, F.newVal nodeVal⟩
        let self ← self.modifyNode (fun x => { x with next := some a }) self.tail
        return (some a, { self with tail := some a, len := self.len + 1 })
      else
        let self := self.setNode a ⟨none, none, F.newVal nodeVal⟩
        .ok (some a, { self with head := some a, tail := some a, len := self.len + 1 })

def rlistLpush (F : RlistFuncs α) (m : Option Nat) (nodeVal : Option α) (self : Rlist α) :
    Except Fault (Option Nat × Rlist α) :=
  if nodeVal = none then .ok (none, self)
  else
    match m with
    | none => .ok (none, self)
    | some a =>
      if 0 < self.len then do
        let self := self.setNode a ⟨none, self.head, F.newVal nodeVal⟩
        let self ← self.modifyNode (fun x => { x with prev := some a }) self.head
        return (some a, { self with head := some a, len := self.len + 1 })
      else
        let self := self.setNode a ⟨none, none, F.newVal nodeVal⟩
        .ok (some a, { self with head := some a, tail := some a, len := self.len + 1 })

def rlistRpop (self : Rlist α) : Except Fault (Option Nat × Rlist α) :=
  if self.len = 0 then .ok (none, self)
  else do
    let node := self.tail
    let self := { self with len := self.len - 1 }
    let self ←
      if self.len ≠ 0 then do
        let last ← self.node node
        let self := { self with tail := last.prev }
        self.modifyNode (fun x => { x with next := none }) self.tail
      else
        pure { self with tail := none, head := none }
    let self ← self.modifyNode (fun x => { x with next := none, prev := none }) node
    return (node, self)

def rlistLpop (self : Rlist α) : Except Fault (Option Nat × Rlist α) :=
  if self.len = 0 then .ok (none, self)
  else do
    let node := self.head
    let self := { self with len := self.len - 1 }
    let self ←
      if self.len ≠ 0 then do
        let first ← self.node node
        let self := { self with head := first.next }
        self.modifyNode (fun x => { x with prev := none }) self.head
      else
        pure { self with head := none, tail := none }
    let self ← self.modifyNode (fun x => { x with next := none, prev := none }) node
    return (node, self)

/-- The node before the removed one, or the head, gets its link. -/
def rlistSetNext (prev next : Option Nat) (self : Rlist α) : Except Fault (Rlist α) :=
  match prev with
  | some p => self.modifyNode (fun x => { x with next := next }) (some p)
  | none => .ok { self with head := next }

/-- The node behind the removed one, or the tail, gets its back link. -/
def rlistSetPrev (next prev : Option Nat) (self : Rlist α) : Except Fault (Rlist α) :=
  match next with
  | some n => self.modifyNode (fun x => { x with prev := prev }) (some n)
  | none => .ok { self with tail := prev }

def rlistRemove (F : RlistFuncs α) (node : Option Nat) (self : Rlist α) : Except Fault (Rlist α) :=
  match node with
  | none => .ok self
  | some a => do
    let x ← self.node (some a)
    let self ← rlistSetNext x.prev x.next self
    let x ← self.node (some a)
    let self ← rlistSetPrev x.next x.prev self
    let self ← rlistFreeNode F self (some a)
    return { self with len := self.len - 1 }

/-! ### Iterators and lookups -/

def rlistIt (self : Rlist α) (direction : RlistDirection) : RlistIterator :=
  ⟨if direction = .tail then self.head else self.tail, direction⟩

def rlistNext (self : Rlist α) (it : RlistIterator) : Except Fault (Option Nat × RlistIterator) :=
  match it.next with
  | none => .ok (none, it)
  | some a => do
    let curr ← self.node (some a)
    return (some a, { it with next := if it.direction = .tail then curr.next else curr.prev })

/-- The nodes seen by the loop `while ((node = rlist_next(&it)))`. -/
def rlistWalk (self : Rlist α) : Nat → RlistIterator → Except Fault (List Nat)
  | 0, _ => .error .outOfFuel
  | fuel + 1, it => do
    let (node, it) ← rlistNext self it
    match node with
    | none => return []
    | some a => do
      let rest ← rlistWalk self fuel it
      return a :: rest

/-- `rcode_eq` is 0. -/
def RlistFuncs.sameVal [DecidableEq α] (F : RlistFuncs α) (val nodeVal : Option α) : Bool :=
  match F.compareNodeVal with
  | some compare => compare val nodeVal == 0
  | none => val == nodeVal

/-- The loop of `rlist_find`. -/
def rlistFindLoop [DecidableEq α] (F : RlistFuncs α) (val : Option α) (self : Rlist α) :
    Nat → RlistIterator → Except Fault (Option Nat)
  | 0, _ => .error .outOfFuel
  | fuel + 1, it => do
    let (node, it) ← rlistNext self it
    match node with
    | none => return none
    | some a => do
      let x ← self.node (some a)
      if F.sameVal val x.val then return some a else rlistFindLoop F val self fuel it

def rlistFind [DecidableEq α] (F : RlistFuncs α) (fuel : Nat) (val : Option α) (self : Rlist α) :
    Except Fault (Option Nat) :=
  rlistFindLoop F val self fuel (rlistIt self .tail)

/-- The loop of `rlist_at`. -/
def rlistAtLoop (self : Rlist α) : Nat → Option Nat → RlistIterator → Except Fault (Option Nat)
  | 0, node, _ => .ok node
  | index + 1, _, it => do
    let (node, it) ← rlistNext self it
    rlistAtLoop self index node it

/-- `index` is an `int`, its complement `-index - 1`. -/
def rlistAt (index : Int) (self : Rlist α) : Except Fault (Option Nat) := do
  let direction : RlistDirection := if index < 0 then .head else .tail
  let index := if index < 0 then -index - 1 else index
  if index.toNat < self.len.toNat then do
    let (node, it) ← rlistNext self (rlistIt self direction)
    rlistAtLoop self index.toNat node it
  else return none

end Funra
