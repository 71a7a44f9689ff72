import Funra.Lib.Except
import Funra.Lib.Mem
import Mathlib.Logic.Function.Basic

/-!
# `repoll`: event masks, the container and what epoll keeps

`repoll.c` and the masks of `repoll.h`. The program numbers the events itself: `IN`, `PRI` and `OUT` as
the kernel does, `ERR` as the kernel's `HUP`. `repollCheckEventErr_rsp` says what is left of the kernel's
mask after the translation and the test.

`Repoll` holds the container, the item objects of the sockets and the table behind `epoll_fd`: for each
descriptor the pointer and the mask registered last. An item is reached through its owner or through a
slot of `dest_items`, which a poll overwrites with copies.
-/

namespace Funra

open Mem

/-! ### Masks -/

/-- An `int16_t` of event bits. -/
abbrev Events := BitVec 16

def EPOLLIN : Events := 0x001
def EPOLLPRI : Events := 0x002
def EPOLLOUT : Events := 0x004
def EPOLLERR : Events := 0x008
def EPOLLHUP : Events := 0x010

def RIO_POLLIN : Events := 0x001
def RIO_POLLPRI : Events := 0x002
def RIO_POLLOUT : Events := 0x004
def RIO_POLLERR : Events := 0x010
def RIO_POLLHUP : Events := 0x020
def RIO_POLLNVAL : Events := 0x040

/-- `((val) & (bits)) != 0`. -/
def hasEvent (val bits : Events) : Bool := val &&& bits != 0

def repollSetEventIn (val : Events) : Events := val ||| (RIO_POLLIN ||| EPOLLHUP ||| RIO_POLLERR)

def repollSetEventOut (val : Events) : Events := val ||| (RIO_POLLOUT ||| EPOLLHUP ||| RIO_POLLERR)

def repollSetEventAll (val : Events) : Events :=
  val ||| (RIO_POLLIN ||| RIO_POLLOUT ||| RIO_POLLPRI ||| EPOLLHUP ||| RIO_POLLERR)

def repollUnsetEventOut (val : Events) : Events := val &&& ~~~RIO_POLLOUT

def repollCheckEventIn (val : Events) : Bool := hasEvent val (RIO_POLLIN ||| RIO_POLLPRI)

def repollCheckEventOut (val : Events) : Bool := hasEvent val RIO_POLLOUT

def repollCheckEventErr (val : Events) : Bool :=
  hasEvent val (RIO_POLLERR ||| RIO_POLLNVAL ||| EPOLLHUP)

/-- `(event & from) ? to : 0`. -/
def mapEvent (event source target : Events) : Events := if hasEvent event source then target else 0

def repollGetEventReq (event : Events) : Events :=
  mapEvent event RIO_POLLIN EPOLLIN ||| mapEvent event RIO_POLLPRI EPOLLPRI |||
    mapEvent event RIO_POLLOUT EPOLLOUT

def repollGetEventRsp (event : Events) : Events :=
  mapEvent event EPOLLIN RIO_POLLIN ||| mapEvent event EPOLLPRI RIO_POLLPRI |||
    mapEvent event EPOLLOUT RIO_POLLOUT ||| mapEvent event EPOLLERR RIO_POLLERR |||
    mapEvent event EPOLLHUP RIO_POLLHUP

/-- A mask of one bit tests that bit. -/
theorem hasEvent_twoPow (val : Events) {i : Nat} (hi : i < 16) :
    hasEvent val (BitVec.twoPow 16 i) = val.getLsbD i := by
  rw [hasEvent, BitVec.and_twoPow]
  by_cases hbit : val.getLsbD i = true
  · have hne : BitVec.twoPow 16 i ≠ 0#16 := fun h => by
      have := congrArg (fun x => x.getLsbD i) h
      simp [hi] at this
    simp [hbit, hne]
  · simp [hbit]

theorem repollCheckEventOut_eq (val : Events) : repollCheckEventOut val = val.getLsbD 2 := by
  rw [repollCheckEventOut, show RIO_POLLOUT = BitVec.twoPow 16 2 by decide]
  exact hasEvent_twoPow val (by decide)

@[simp] theorem repollCheckEventOut_set (val : Events) :
    repollCheckEventOut (repollSetEventOut val) = true := by
  rw [repollCheckEventOut_eq, repollSetEventOut, BitVec.getLsbD_or]
  simp [RIO_POLLOUT, EPOLLHUP, RIO_POLLERR]

@[simp] theorem repollCheckEventOut_unset (val : Events) :
    repollCheckEventOut (repollUnsetEventOut val) = false := by
  rw [repollCheckEventOut_eq, repollUnsetEventOut, BitVec.getLsbD_and]
  simp [RIO_POLLOUT]

section rsp

variable (event : Events)

/-- Of the kernel's errors only `ERR` passes the test: `HUP` becomes a bit the test does not look at. -/
theorem repollCheckEventErr_rsp :
    repollCheckEventErr (repollGetEventRsp event) = hasEvent event EPOLLERR := by
  unfold repollGetEventRsp mapEvent
  cases hasEvent event EPOLLIN <;> cases hasEvent event EPOLLPRI <;>
    cases hasEvent event EPOLLOUT <;> cases hasEvent event EPOLLERR <;>
    cases hasEvent event EPOLLHUP <;> decide

theorem repollCheckEventOut_rsp :
    repollCheckEventOut (repollGetEventRsp event) = hasEvent event EPOLLOUT := by
  unfold repollGetEventRsp mapEvent
  cases hasEvent event EPOLLIN <;> cases hasEvent event EPOLLPRI <;>
    cases hasEvent event EPOLLOUT <;> cases hasEvent event EPOLLERR <;>
    cases hasEvent event EPOLLHUP <;> decide

theorem repollCheckEventIn_rsp : repollCheckEventIn (repollGetEventRsp event) =
    (hasEvent event EPOLLIN || hasEvent event EPOLLPRI) := by
  unfold repollGetEventRsp mapEvent
  cases hasEvent event EPOLLIN <;> cases hasEvent event EPOLLPRI <;>
    cases hasEvent event EPOLLOUT <;> cases hasEvent event EPOLLERR <;>
    cases hasEvent event EPOLLHUP <;> decide

end rsp

/-! ### The container -/

/-- `ds` is the address of the data source. -/
structure RepollItem where
  fd : Int
  eventValReq : Events
  eventValRsp : Events
  ds : Nat
  deriving DecidableEq, Repr

/-- A pointer to an item: the object of a socket (`userdata.data`), or a slot of `dest_items`. -/
inductive ItemPtr
  | owned (a : Nat)
  | slot (i : Nat)
  deriving DecidableEq, Repr

/-- What epoll keeps for a descriptor. -/
structure Registration where
  ptr : ItemPtr
  events : Events
  deriving DecidableEq, Repr

/-- `items` is the memory of the item objects, `kernel` the table of the epoll descriptor; `dest_items` has
`fd_amount` slots. -/
structure Repoll where
  fdDestCount : Nat
  destItems : List RepollItem
  items : Nat → Option RepollItem
  kernel : Int → Option Registration

namespace Repoll

def deref (c : Repoll) : ItemPtr → Except Fault RepollItem
  | .owned a =>
    match c.items a with
    | none => .error .useAfterFree
    | some item => .ok item
  | .slot i =>
    match c.destItems[i]? with
    | none => .error .outOfBounds
    | some item => .ok item

/-- An assignment through a pointer to an item. -/
def assign (c : Repoll) (ptr : ItemPtr) (item : RepollItem) : Except Fault Repoll :=
  match ptr with
  | .owned a =>
    match c.items a with
    | none => .error .useAfterFree
    | some _ => .ok { c with items := Function.update c.items a (some item) }
  | .slot i =>
    if i < c.destItems.length then .ok { c with destItems := c.destItems.set i item }
    else .error .outOfBounds

theorem assign_owned {c : Repoll} {a : Nat} {item item' : RepollItem} (h : c.items a = some item) :
    c.assign (.owned a) item' = .ok { c with items := Function.update c.items a (some item') } := by
  simp only [assign, h]

/-- `rdata_new(repoll_item_t)` at the fresh address `a`. -/
def newItem (c : Repoll) (a : Nat) (item : RepollItem) : Repoll :=
  { c with items := Function.update c.items a (some item) }

def freeItem (c : Repoll) (a : Nat) : Except Fault Repoll :=
  match c.items a with
  | none => .error .useAfterFree
  | some _ => .ok { c with items := Function.update c.items a none }

/-- `close` of a descriptor also takes it out of epoll. -/
def closeFd (c : Repoll) (fd : Int) : Repoll := { c with kernel := Function.update c.kernel fd none }

end Repoll

/-- `EPOLL_CTL_ADD` and `EPOLL_CTL_MOD` with the item behind `ptr`; `ctl` is the error of `epoll_ctl`, 0 when it
succeeds. -/
def repollRegister (ctl : Int) (c : Repoll) (ptr : ItemPtr) : Except Fault (Int × Repoll) := do
  let item ← c.deref ptr
  if ctl ≠ 0 then return (ctl, c)
  let reg : Registration := ⟨ptr, repollGetEventReq item.eventValReq⟩
  return (0, { c with kernel := Function.update c.kernel item.fd (some reg) })

def repollAdd (ctl : Int) (c : Repoll) (ptr : ItemPtr) : Except Fault (Int × Repoll) :=
  repollRegister ctl c ptr

def repollModify (ctl : Int) (c : Repoll) (ptr : ItemPtr) : Except Fault (Int × Repoll) :=
  repollRegister ctl c ptr

/-- The container after the item at `a` has become `item` and has been registered. -/
def Repoll.rearm (c : Repoll) (a : Nat) (item : RepollItem) : Repoll :=
  { c with
    items := Function.update c.items a (some item)
    kernel := Function.update c.kernel item.fd (some ⟨.owned a, repollGetEventReq item.eventValReq⟩) }

theorem repollRegister_owned {c : Repoll} {a : Nat} {item : RepollItem} (h : c.items a = some item) :
    repollRegister 0 c (.owned a) = .ok (0, { c with
      kernel := Function.update c.kernel item.fd
        (some ⟨.owned a, repollGetEventReq item.eventValReq⟩) }) := by
  simp only [repollRegister, Repoll.deref, h, bind, Except.bind]
  rfl

/-- `event_val_req` of the item at `a` is changed and registered. -/
def Repoll.changeInterest (change : Events → Events) (ctl : Int) (c : Repoll) (a : Nat) :
    Except Fault (Int × Repoll) := do
  let item ← c.deref (.owned a)
  let c ← c.assign (.owned a) { item with eventValReq := change item.eventValReq }
  repollModify ctl c (.owned a)

theorem Repoll.changeInterest_ok {c : Repoll} {a : Nat} {item : RepollItem} (h : c.items a = some item)
    (change : Events → Events) : c.changeInterest change 0 a =
      .ok (0, c.rearm a { item with eventValReq := change item.eventValReq }) := by
  simp only [changeInterest, deref, h, assign_owned h, bind, Except.bind]
  exact repollRegister_owned (Function.update_self ..)

/-- Whether the descriptor is among the results of the last poll. -/
def repollCheck (c : Repoll) (fd : Int) : Bool :=
  (c.destItems.take c.fdDestCount).any fun item => item.fd == fd

/-- The loop of `repoll_remove`: the first of the `n` results with this descriptor is marked. -/
def clearFirst (fd : Int) : Nat → List RepollItem → List RepollItem
  | n + 1, item :: items =>
    if item.fd = fd then { item with fd := 0 } :: items else item :: clearFirst fd n items
  | _, items => items

def repollRemove (ctl : Int) (c : Repoll) (ptr : ItemPtr) : Except Fault (Int × Repoll) := do
  let item ← c.deref ptr
  if ctl < 0 then return (ctl, c)
  return (0, { c with
    kernel := Function.update c.kernel item.fd none
    destItems := clearFirst item.fd c.fdDestCount c.destItems })

/-- `dest_items[i] = *fd_ptr` for the results from the `i`-th on; the pointers were stored by `epoll_wait`
before. -/
def copyResults (c : Repoll) : Nat → List (ItemPtr × Events) → Except Fault Repoll
  | _, [] => .ok c
  | i, (ptr, events) :: rest => do
    let item ← c.deref ptr
    let c ← c.assign (.slot i) { item with eventValRsp := repollGetEventRsp events }
    copyResults c (i + 1) rest

/-- What `epoll_wait` yields: an error, or the ready descriptors with their masks. -/
inductive WaitResult
  | error (errno : Int)
  | ready (batch : List (Int × Events))
  deriving DecidableEq

def EINTR : Int := 4

/-- The stored pointers of the ready descriptors. -/
def Repoll.readyPtrs (c : Repoll) (batch : List (Int × Events)) : List (ItemPtr × Events) :=
  batch.filterMap fun (fd, events) => (c.kernel fd).map fun reg => (reg.ptr, events)

def repollPoll (wait : WaitResult) (c : Repoll) : Except Fault (Int × Repoll) :=
  match wait with
  | .error errno => .ok (if errno = EINTR then 0 else errno, { c with fdDestCount := 0 })
  | .ready batch =>
    (copyResults c 0 (c.readyPtrs batch)).map fun c =>
      (0, { c with fdDestCount := (c.readyPtrs batch).length })

end Funra
