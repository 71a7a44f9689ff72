import Mathlib.Algebra.Group.Nat.Defs
import Funra.Lib.FreeList
import Funra.Lib.System

/-!
# The requests an RPC client waits for

A connected client keeps the closure of every request in an array, under the id of the request minus one. The free
entries are linked in a list by the field that holds the user's data in the others; an id is taken from its front,
and put back there when the response has come. An array that is full is copied into one twice as long.

`RpcConnected.Valid` is the invariant: the list goes through the free entries and no others, and the others have a
function to call. In every order of requests and responses the array is at most as long as twice the number
of requests that were once open at the same time (`closures_bounded`).
-/

namespace Funra

open Linked FreeList System

/-- The ways the code can leave defined behaviour; `assertion` is a failed `protobuf_c_rpc_assert`. -/
inductive RpcFault
  | assertion | outOfBounds | nullDeref | uninitialised | useAfterFree
  deriving DecidableEq, Repr

/-- `Closure`: the type of the response, the function and its data. A free entry has no type and no function; its
data is the next free id, or 0. -/
structure RpcClosure where
  responseType : Option Nat
  closure : Option Nat
  closureData : Nat
  deriving DecidableEq, Repr

/-- `info.connected`. `block` is the array's place in memory. -/
structure RpcConnected where
  closuresAlloced : Nat
  firstFreeRequestId : Nat
  closures : List RpcClosure
  block : Nat
  deriving DecidableEq, Repr

def pointerToUint (ptr : Nat) : Nat := ptr % 4294967296

/-- The array that `set_state_connected` makes. -/
def setStateConnected (block : Nat) : RpcConnected := ⟨1, 1, [⟨none, none, 0⟩], block⟩

/-- The entry at `request_id - 1`. -/
def RpcConnected.entry (t : RpcConnected) (requestId : Nat) : Option RpcClosure :=
  if requestId = 0 then none else t.closures[requestId - 1]?

/-- The entries behind the old ones: each leads to the next, and the last one to the list there was. -/
def newFreeList (oldSize newSize firstFreeRequestId : Nat) : List RpcClosure :=
  (List.range' oldSize (newSize - 1 - oldSize)).map (fun i => ⟨none, none, i + 2⟩) ++
    [⟨none, none, firstFreeRequestId⟩]

/-- A size that has wrapped is too small for the entries that are copied. -/
def growClosureArray (block : Nat) (t : RpcConnected) : Except RpcFault RpcConnected :=
  let oldSize := t.closuresAlloced
  let newSize := oldSize * 2 % 4294967296
  if newSize ≤ oldSize then .error .outOfBounds
  else .ok ⟨newSize, oldSize + 1, t.closures ++ newFreeList oldSize newSize t.firstFreeRequestId, block⟩

/-- The first free id, once there is one. -/
def allocateRequestId (block : Nat) (t : RpcConnected) : Except RpcFault RpcConnected :=
  if t.firstFreeRequestId = 0 then growClosureArray block t else .ok t

/-- The end of `enqueue_request`: the closure goes to the entry of the first free id. -/
def addClosure (output closure closureData : Nat) (t : RpcConnected) : Except RpcFault RpcConnected :=
  match t.entry t.firstFreeRequestId with
  | none => .error .outOfBounds
  | some cl => .ok { t with
      firstFreeRequestId := pointerToUint cl.closureData
      closures := t.closures.set (t.firstFreeRequestId - 1) ⟨some output, some closure, closureData⟩ }

/-- What `handle_client_fd_events` does with the entry once its closure has returned. -/
def releaseClosure (requestId : Nat) (t : RpcConnected) : RpcConnected :=
  { t with
    firstFreeRequestId := requestId
    closures := t.closures.set (requestId - 1) ⟨none, none, t.firstFreeRequestId⟩ }

/-- The test of `get_rcvd_message_descriptor`: `none` is a bad id. -/
def RpcConnected.responseType (t : RpcConnected) (requestId : Nat) : Option Nat :=
  if requestId > t.closuresAlloced ∨ requestId = 0 then none else (t.entry requestId).bind RpcClosure.responseType

/-! ### Invariant -/

def linkOf (id : Nat) : Option Nat := if id = 0 then none else some id

def RpcConnected.IsFree (t : RpcConnected) (id : Nat) : Prop :=
  ∃ cl, t.entry id = some cl ∧ cl.responseType = none

/-- The request with this id waits for its response. -/
def RpcConnected.IsOpen (t : RpcConnected) (id : Nat) : Prop :=
  ∃ cl, t.entry id = some cl ∧ cl.responseType.isSome = true

def RpcConnected.next (t : RpcConnected) (id : Nat) : Option (Option Nat) :=
  (t.entry id).bind fun cl => if cl.responseType = none then some (linkOf (pointerToUint cl.closureData)) else none

structure RpcConnected.Valid (t : RpcConnected) : Prop where
  size : t.closures.length = t.closuresAlloced
  power : ∃ k, t.closuresAlloced = 2 ^ k
  alloced_le : t.closuresAlloced ≤ 2147483648
  threads : Threads t.next (linkOf t.firstFreeRequestId) t.IsFree
  callable : ∀ id cl, t.entry id = some cl → cl.closure.isSome = cl.responseType.isSome

/-- The number of open requests. -/
def RpcConnected.openCount (t : RpcConnected) : Nat := t.closures.countP fun cl => cl.responseType.isSome

section entries

variable {t t' : RpcConnected} {id : Nat} {cl : RpcClosure}

@[simp] theorem linkOf_zero : linkOf 0 = none := rfl

theorem linkOf_of_ne (h : id ≠ 0) : linkOf id = some id := if_neg h

@[simp] theorem RpcConnected.entry_zero : t.entry 0 = none := rfl

@[simp] theorem RpcConnected.entry_succ (i : Nat) : t.entry (i + 1) = t.closures[i]? := rfl

theorem RpcConnected.entry_eq (h : id ≠ 0) : t.entry id = t.closures[id - 1]? := if_neg h

theorem RpcConnected.entry_ne_zero (h : t.entry id = some cl) : id ≠ 0 := by
  rintro rfl
  cases h

theorem RpcConnected.entry_lt (h : t.entry id = some cl) : id - 1 < t.closures.length := by
  rw [entry_eq (entry_ne_zero h)] at h
  exact (List.getElem?_eq_some_iff.mp h).1

/-- An entry is written, the others stay. -/
theorem RpcConnected.entry_set (h : t.entry id = some cl) (first : Nat) (new : RpcClosure) (b : Nat) :
    RpcConnected.entry { t with firstFreeRequestId := first, closures := t.closures.set (id - 1) new } b =
      if b = id then some new else t.entry b := by
  have hid := entry_ne_zero h
  have hlt := entry_lt h
  by_cases hb : b = 0
  · subst hb
    rw [if_neg fun heq => hid heq.symm]
    rfl
  rw [entry_eq hb]
  show (t.closures.set (id - 1) new)[b - 1]? = _
  by_cases hbi : b = id
  · subst hbi
    rw [if_pos rfl, List.getElem?_set_self hlt]
  · rw [if_neg hbi, List.getElem?_set_ne (by omega), entry_eq hb]

theorem RpcConnected.next_of_entry (h : t'.entry id = t.entry id) : t'.next id = t.next id := by
  unfold next
  rw [h]

theorem RpcConnected.Valid.bounds (h : t.Valid) (hcl : t.entry id = some cl) : 0 < id ∧ id ≤ t.closuresAlloced := by
  have hid := entry_ne_zero hcl
  have hlt := entry_lt hcl
  rw [h.size] at hlt
  omega

/-- The check of the code is exactly that the request is open. -/
theorem RpcConnected.Valid.responseType_isSome (h : t.Valid) :
    (t.responseType id).isSome = true ↔ t.IsOpen id := by
  constructor
  · intro hs
    unfold responseType at hs
    split at hs
    · cases hs
    · cases hcl : t.entry id with
      | none =>
        rw [hcl] at hs
        cases hs
      | some cl =>
        rw [hcl] at hs
        exact ⟨cl, hcl, hs⟩
  · rintro ⟨cl, hcl, hs⟩
    obtain ⟨hpos, hle⟩ := h.bounds hcl
    unfold responseType
    rw [if_neg (by omega), hcl]
    exact hs

end entries

/-! ### The operations -/

section operations

variable {t t' : RpcConnected} {id b block : Nat} {cl : RpcClosure}

theorem setStateConnected_valid (block : Nat) : (setStateConnected block).Valid := by
  have hentry : ∀ b cl, (setStateConnected block).entry b = some cl → b = 1 ∧ cl = ⟨none, none, 0⟩ := by
    intro b cl hcl
    rcases b with _ | _ | b
    · cases hcl
    · exact ⟨rfl, (Option.some.inj hcl).symm⟩
    · cases hcl
  refine ⟨rfl, ⟨0, rfl⟩, (by decide : 1 ≤ 2147483648), ⟨[1], ⟨rfl, none, rfl, rfl⟩, fun b => ?_⟩, fun b cl hcl => ?_⟩
  · rw [List.mem_singleton]
    constructor
    · rintro rfl
      exact ⟨_, rfl, rfl⟩
    · rintro ⟨cl, hcl, -⟩
      exact (hentry b cl hcl).1
  · obtain ⟨-, rfl⟩ := hentry b cl hcl
    rfl

theorem newFreeList_length {oldSize newSize first : Nat} (h : oldSize < newSize) :
    (newFreeList oldSize newSize first).length = newSize - oldSize := by
  simp only [newFreeList, List.length_append, List.length_map, List.length_range', List.length_singleton]
  omega

/-- Entry `i` of the new ones. -/
theorem newFreeList_get {oldSize newSize first i : Nat} (h : i < newSize - oldSize) :
    (newFreeList oldSize newSize first)[i]? =
      some ⟨none, none, if i = newSize - 1 - oldSize then first else oldSize + i + 2⟩ := by
  rw [newFreeList]
  by_cases hi : i = newSize - 1 - oldSize
  · rw [if_pos hi, List.getElem?_append_right (by simp [hi])]
    simp [hi]
  · rw [if_neg hi, List.getElem?_append_left (by simp; omega), List.getElem?_map,
      List.getElem?_range' (by omega)]
    simp

/-- The array twice as long. -/
def RpcConnected.grown (block : Nat) (t : RpcConnected) : RpcConnected :=
  ⟨t.closuresAlloced * 2, t.closuresAlloced + 1,
    t.closures ++ newFreeList t.closuresAlloced (t.closuresAlloced * 2) t.firstFreeRequestId, block⟩

theorem grow_eq (hpos : 0 < t.closuresAlloced) (hlt : t.closuresAlloced < 2147483648) :
    growClosureArray block t = .ok (t.grown block) := by
  have hnew : t.closuresAlloced * 2 % 4294967296 = t.closuresAlloced * 2 := Nat.mod_eq_of_lt (by omega)
  simp only [growClosureArray, hnew]
  exact if_neg (by omega)

theorem grown_entry_old (hsize : t.closures.length = t.closuresAlloced) (hb : b ≤ t.closuresAlloced) :
    (t.grown block).entry b = t.entry b := by
  rcases b with _ | b
  · rfl
  · exact List.getElem?_append_left (by omega)

theorem grown_entry_new (hsize : t.closures.length = t.closuresAlloced) (hlt : id < t.closuresAlloced) :
    (t.grown block).entry (t.closuresAlloced + 1 + id) = some ⟨none, none,
      if id = t.closuresAlloced - 1 then t.firstFreeRequestId else t.closuresAlloced + id + 2⟩ := by
  rw [show t.closuresAlloced + 1 + id = (t.closuresAlloced + id) + 1 by omega, RpcConnected.entry_succ]
  show (t.closures ++ _)[t.closuresAlloced + id]? = _
  rw [List.getElem?_append_right (by omega), hsize, Nat.add_sub_cancel_left, newFreeList_get (by omega),
    show t.closuresAlloced * 2 - 1 - t.closuresAlloced = t.closuresAlloced - 1 by omega]

theorem grown_entry_le (hsize : t.closures.length = t.closuresAlloced) (hpos : 0 < t.closuresAlloced)
    (hcl : (t.grown block).entry b = some cl) : b ≤ t.closuresAlloced * 2 := by
  have hb := RpcConnected.entry_lt hcl
  have hlen : (t.grown block).closures.length = t.closuresAlloced * 2 := by
    show (t.closures ++ _).length = _
    rw [List.length_append, hsize, newFreeList_length (by omega)]
    omega
  omega

/-- The entries behind the old ones are free. -/
theorem grown_entry_free (hsize : t.closures.length = t.closuresAlloced) (hpos : 0 < t.closuresAlloced)
    (hb : t.closuresAlloced < b) (hcl : (t.grown block).entry b = some cl) :
    cl.responseType = none ∧ cl.closure = none := by
  have hle := grown_entry_le hsize hpos hcl
  obtain ⟨i, rfl⟩ : ∃ i, b = t.closuresAlloced + 1 + i := ⟨b - (t.closuresAlloced + 1), by omega⟩
  rw [grown_entry_new hsize (by omega)] at hcl
  cases hcl
  exact ⟨rfl, rfl⟩

theorem grown_isFree (h : t.Valid) (hpos : 0 < t.closuresAlloced) (hfull : ∀ b, ¬ t.IsFree b) :
    (t.grown block).IsFree b ↔
      t.closuresAlloced + 1 ≤ b ∧ b ≤ t.closuresAlloced + 1 + (t.closuresAlloced - 1) := by
  constructor
  · rintro ⟨cl, hcl, hty⟩
    have hle := grown_entry_le h.size hpos hcl
    by_cases hb : b ≤ t.closuresAlloced
    · rw [grown_entry_old h.size hb] at hcl
      exact absurd ⟨cl, hcl, hty⟩ (hfull b)
    · omega
  · rintro ⟨hlo, hhi⟩
    obtain ⟨i, rfl⟩ : ∃ i, b = t.closuresAlloced + 1 + i := ⟨b - (t.closuresAlloced + 1), by omega⟩
    exact ⟨_, grown_entry_new h.size (by omega), rfl⟩

theorem RpcConnected.Valid.pos (h : t.Valid) : 0 < t.closuresAlloced := by
  obtain ⟨k, hk⟩ := h.power
  exact hk ▸ Nat.two_pow_pos k

/-- A full array is copied into one twice as long, and the new entries are the free ones. -/
theorem grown_valid (h : t.Valid) (hfull : t.firstFreeRequestId = 0) (hlt : t.closuresAlloced < 2147483648) :
    (t.grown block).Valid := by
  have hpos := h.pos
  have hnone : ∀ b, ¬ t.IsFree b := by
    have hthreads := h.threads
    rw [hfull] at hthreads
    exact hthreads.empty
  obtain ⟨hsize, ⟨k, hk⟩, hle, -, hcall⟩ := id h
  refine ⟨?_, ⟨k + 1, ?_⟩, ?_, ?_, ?_⟩
  · show (t.closures ++ _).length = t.closuresAlloced * 2
    rw [List.length_append, hsize, newFreeList_length (by omega)]
    omega
  · show t.closuresAlloced * 2 = 2 ^ (k + 1)
    rw [hk, Nat.pow_succ]
  · show t.closuresAlloced * 2 ≤ 2 ^ 31
    have hexp := (Nat.pow_lt_pow_iff_right (by decide : 1 < 2)).mp
      (hk ▸ hlt : 2 ^ k < 2 ^ 31)
    rw [hk, ← Nat.pow_succ]
    exact Nat.pow_le_pow_right (by decide) hexp
  · refine threads_row (n := t.closuresAlloced - 1) (fun i hi => ?_) ?_ fun b => grown_isFree h hpos hnone
    · unfold RpcConnected.next
      rw [show (t.grown block).firstFreeRequestId = t.closuresAlloced + 1 from rfl,
        grown_entry_new hsize (by omega), if_neg (by omega)]
      show some (linkOf (pointerToUint (t.closuresAlloced + i + 2))) = _
      rw [pointerToUint, Nat.mod_eq_of_lt (by omega), linkOf_of_ne (by omega)]
      congr 2
      show t.closuresAlloced + i + 2 = t.closuresAlloced + 1 + i + 1
      omega
    · unfold RpcConnected.next
      rw [show (t.grown block).firstFreeRequestId = t.closuresAlloced + 1 from rfl,
        grown_entry_new hsize (by omega), if_pos rfl, hfull]
      rfl
  · intro b cl hcl
    by_cases hb : b ≤ t.closuresAlloced
    · rw [grown_entry_old hsize hb] at hcl
      exact hcall b cl hcl
    · obtain ⟨hty, hnone⟩ := grown_entry_free hsize hpos (by omega) hcl
      rw [hty, hnone]

theorem grown_openCount : (t.grown block).openCount = t.openCount := by
  have hzero : (newFreeList t.closuresAlloced (t.closuresAlloced * 2) t.firstFreeRequestId).countP
      (fun cl => cl.responseType.isSome) = 0 := by
    rw [List.countP_eq_zero]
    simp only [newFreeList, List.mem_append, List.mem_map, List.mem_singleton]
    rintro cl (⟨i, -, rfl⟩ | rfl) <;> exact Bool.false_ne_true
  show (t.closures ++ _).countP _ = _
  rw [List.countP_append, hzero]
  rfl

/-- Without a free id every request is open. -/
theorem RpcConnected.Valid.openCount_full (h : t.Valid) (hfull : t.firstFreeRequestId = 0) :
    t.openCount = t.closuresAlloced := by
  have hnone : ∀ b, ¬ t.IsFree b := by
    have hthreads := h.threads
    rw [hfull] at hthreads
    exact hthreads.empty
  rw [← h.size, RpcConnected.openCount, List.countP_eq_length]
  intro cl hmem
  obtain ⟨i, hi⟩ := List.mem_iff_getElem?.mp hmem
  rw [← Option.ne_none_iff_isSome]
  exact fun hty => hnone (i + 1) ⟨cl, hi, hty⟩

theorem RpcConnected.Valid.openCount_le (h : t.Valid) : t.openCount ≤ t.closuresAlloced :=
  h.size ▸ List.countP_le_length

theorem allocateRequestId_ok (h : t.Valid) (hok : allocateRequestId block t = .ok t') :
    t'.Valid ∧ t'.firstFreeRequestId ≠ 0 ∧ t'.openCount = t.openCount ∧
      ((t.firstFreeRequestId ≠ 0 ∧ t' = t) ∨ (t.firstFreeRequestId = 0 ∧ t' = t.grown block)) := by
  have hpos := h.pos
  have hle := h.alloced_le
  rw [allocateRequestId] at hok
  split at hok
  · next hfull =>
    by_cases hlt : t.closuresAlloced < 2147483648
    · rw [grow_eq hpos hlt] at hok
      cases hok
      exact ⟨grown_valid h hfull hlt, Nat.succ_ne_zero _, grown_openCount, .inr ⟨hfull, rfl⟩⟩
    · obtain heq : t.closuresAlloced = 2147483648 := by omega
      simp only [growClosureArray, heq] at hok
      cases hok
  · next hfirst =>
    cases hok
    exact ⟨h, hfirst, rfl, .inl ⟨hfirst, rfl⟩⟩

/-- The first free id is that of a free entry, and then of the request. -/
theorem addClosure_spec (h : t.Valid) (hfirst : t.firstFreeRequestId ≠ 0) (output closure closureData : Nat) :
    ∃ t', addClosure output closure closureData t = .ok t' ∧ t'.Valid ∧ t.IsFree t.firstFreeRequestId ∧
      t'.openCount = t.openCount + 1 ∧ t'.closuresAlloced = t.closuresAlloced ∧ t'.block = t.block ∧
      ∀ b, t'.entry b =
        if b = t.firstFreeRequestId then some ⟨some output, some closure, closureData⟩ else t.entry b := by
  have hthreads := h.threads
  rw [linkOf_of_ne hfirst] at hthreads
  have hfree := hthreads.head
  obtain ⟨cl, hcl, hty⟩ := id hfree
  let t' : RpcConnected := { t with
    firstFreeRequestId := pointerToUint cl.closureData
    closures := t.closures.set (t.firstFreeRequestId - 1) ⟨some output, some closure, closureData⟩ }
  have hok : addClosure output closure closureData t = .ok t' := by
    rw [addClosure, hcl]
  have hset : ∀ b, t'.entry b =
      if b = t.firstFreeRequestId then some ⟨some output, some closure, closureData⟩ else t.entry b :=
    RpcConnected.entry_set hcl _ _
  have hnext : t.next t.firstFreeRequestId = some (linkOf (pointerToUint cl.closureData)) := by
    unfold RpcConnected.next
    rw [hcl]
    exact if_pos hty
  have hfree' : ∀ b, t'.IsFree b ↔ t.IsFree b ∧ b ≠ t.firstFreeRequestId := by
    intro b
    unfold RpcConnected.IsFree
    rw [hset b]
    by_cases hb : b = t.firstFreeRequestId
    · rw [if_pos hb]
      refine ⟨?_, fun hf => absurd hb hf.2⟩
      rintro ⟨cl', hcl', hnone⟩
      cases hcl'
      cases hnone
    · rw [if_neg hb]
      exact ⟨fun hf => ⟨hf, hb⟩, And.left⟩
  refine ⟨t', hok, ⟨(List.length_set ..).trans h.size, h.power, h.alloced_le, ?_, ?_⟩, hfree, ?_, rfl, rfl, hset⟩
  · obtain ⟨r, hr, hrest⟩ := hthreads.take
      (fun b hb _ => RpcConnected.next_of_entry ((hset b).trans (if_neg hb))) hfree'
    obtain rfl := Option.some.inj (hr.symm.trans hnext)
    exact hrest
  · intro b cl' hcl'
    rw [hset b] at hcl'
    split at hcl'
    · cases hcl'
      rfl
    · exact h.callable b cl' hcl'
  · have hlt := RpcConnected.entry_lt hcl
    have hget : t.closures[t.firstFreeRequestId - 1] = cl := by
      rw [RpcConnected.entry_eq hfirst] at hcl
      exact (List.getElem?_eq_some_iff.mp hcl).2
    show (t.closures.set _ _).countP _ = _
    rw [List.countP_set hlt, hget, hty]
    rfl

/-- The id of the request goes to the front of the list. -/
theorem releaseClosure_spec (h : t.Valid) (hopen : t.IsOpen id) :
    (releaseClosure id t).Valid ∧ (releaseClosure id t).openCount + 1 = t.openCount ∧
      ∀ b, (releaseClosure id t).entry b = if b = id then some ⟨none, none, t.firstFreeRequestId⟩ else t.entry b := by
  obtain ⟨cl, hcl, hs⟩ := hopen
  have hset := RpcConnected.entry_set hcl id ⟨none, none, t.firstFreeRequestId⟩
  have hid := RpcConnected.entry_ne_zero hcl
  have hbusy : ¬ t.IsFree id := by
    rintro ⟨cl', hcl', hnone⟩
    rw [hcl] at hcl'
    cases hcl'
    rw [hnone] at hs
    cases hs
  have hword : t.firstFreeRequestId < 4294967296 := by
    by_cases hzero : t.firstFreeRequestId = 0
    · omega
    have hthreads := h.threads
    rw [linkOf_of_ne hzero] at hthreads
    obtain ⟨cl', hcl', -⟩ := hthreads.head
    have hle := (h.bounds hcl').2
    have hmax := h.alloced_le
    omega
  refine ⟨⟨(List.length_set ..).trans h.size, h.power, h.alloced_le, ?_, ?_⟩, ?_, hset⟩
  · rw [show linkOf (releaseClosure id t).firstFreeRequestId = some id from linkOf_of_ne hid]
    refine h.threads.put ?_ (fun b hb => RpcConnected.next_of_entry ((hset b).trans (if_neg ?_))) fun b => ?_
    · unfold RpcConnected.next
      rw [show (releaseClosure id t).entry id = _ from (hset id).trans (if_pos rfl)]
      show some (linkOf (pointerToUint t.firstFreeRequestId)) = _
      rw [pointerToUint, Nat.mod_eq_of_lt hword]
    · rintro rfl
      exact hbusy hb
    · unfold RpcConnected.IsFree
      rw [show (releaseClosure id t).entry b = _ from hset b]
      by_cases hb : b = id
      · rw [if_pos hb]
        exact ⟨fun _ => .inl hb, fun _ => ⟨_, rfl, rfl⟩⟩
      · rw [if_neg hb]
        exact ⟨.inr, fun hor => hor.resolve_left hb⟩
  · intro b cl' hcl'
    rw [show (releaseClosure id t).entry b = _ from hset b] at hcl'
    split at hcl'
    · cases hcl'
      rfl
    · exact h.callable b cl' hcl'
  · have hlt := RpcConnected.entry_lt hcl
    have hget : t.closures[id - 1] = cl := by
      rw [RpcConnected.entry_eq hid] at hcl
      exact (List.getElem?_eq_some_iff.mp hcl).2
    have hpos : 0 < t.openCount := by
      rw [RpcConnected.openCount, List.countP_pos_iff]
      exact ⟨cl, hget ▸ List.getElem_mem hlt, hs⟩
    show (t.closures.set _ _).countP _ + 1 = _
    rw [List.countP_set hlt, hget, if_pos hs]
    show t.openCount - 1 + 0 + 1 = _
    omega

/-- What a request does to the array: its id was free, and the other entries stay. -/
theorem request_spec (h : t.Valid) (hok : allocateRequestId block t = .ok t') (output closure closureData : Nat) :
    ∃ t'', addClosure output closure closureData t' = .ok t'' ∧ t''.Valid ∧ t''.openCount = t.openCount + 1 ∧
      ¬ t.IsOpen t'.firstFreeRequestId ∧ t''.entry t'.firstFreeRequestId = some ⟨some output, some closure, closureData⟩ ∧
      ∀ b, t.IsOpen b → t''.entry b = t.entry b := by
  obtain ⟨h', hfirst, hcount, hcases⟩ := allocateRequestId_ok h hok
  obtain ⟨t'', hadd, hvalid, hfree, hcount', -, -, hentry⟩ := addClosure_spec h' hfirst output closure closureData
  have hsame : ∀ b, t.IsOpen b → t'.entry b = t.entry b := by
    rintro b ⟨cl, hcl, -⟩
    rcases hcases with ⟨-, rfl⟩ | ⟨-, rfl⟩
    · rfl
    · exact grown_entry_old h.size (h.bounds hcl).2
  have hnew : ¬ t.IsOpen t'.firstFreeRequestId := by
    intro hopen
    obtain ⟨cl, hcl, hs⟩ := id hopen
    obtain ⟨cl', hcl', hnone⟩ := hfree
    rw [hsame _ hopen, hcl] at hcl'
    cases hcl'
    rw [hnone] at hs
    cases hs
  refine ⟨t'', hadd, hvalid, by rw [hcount', hcount], hnew, (hentry _).trans (if_pos rfl), fun b hb => ?_⟩
  have hne : b ≠ t'.firstFreeRequestId := by
    rintro rfl
    exact hnew hb
  rw [hentry b, if_neg hne, hsame b hb]

end operations

/-! ### Runs -/

/-- The array, and how many requests were open at most. -/
structure RpcRequests where
  table : RpcConnected
  peak : Nat

inductive RpcTableCall
  | request (output closure closureData block : Nat)
  | response (requestId : Nat)

/-- A request, or a response that the client accepts, with its closure called. -/
def RpcTableCall.Step (x : RpcRequests) (call : RpcTableCall) (x' : RpcRequests) : Prop :=
  match call with
  | .request output closure closureData block => ∃ t t', allocateRequestId block x.table = .ok t ∧
      addClosure output closure closureData t = .ok t' ∧ x' = ⟨t', max x.peak t'.openCount⟩
  | .response id => (x.table.responseType id).isSome = true ∧ x' = ⟨releaseClosure id x.table, x.peak⟩

structure RpcRequests.Inv (x : RpcRequests) : Prop where
  valid : x.table.Valid
  open_le : x.table.openCount ≤ x.peak
  peak_le : x.peak ≤ x.table.closuresAlloced
  least : x.table.closuresAlloced = 1 ∨ x.table.closuresAlloced < 2 * x.peak

theorem RpcRequests.Inv.step {x x' : RpcRequests} {call : RpcTableCall} (h : x.Inv) (hstep : call.Step x x') :
    x'.Inv := by
  obtain ⟨hvalid, hopen, hpeak, hleast⟩ := h
  cases call with
  | request output closure closureData block =>
    obtain ⟨t, t', hok, hadd, rfl⟩ := hstep
    obtain ⟨ht, hfirst, hcount, hcases⟩ := allocateRequestId_ok hvalid hok
    obtain ⟨u, hadd', hu, -, hcount', hsize, -, -⟩ := addClosure_spec ht hfirst output closure closureData
    obtain rfl := Except.ok.inj (hadd.symm.trans hadd')
    have hle := hu.openCount_le
    refine ⟨hu, Nat.le_max_right .., ?_, ?_⟩
    · show max x.peak t'.openCount ≤ t'.closuresAlloced
      rcases hcases with ⟨-, rfl⟩ | ⟨-, rfl⟩
      · omega
      · have hgrown : (x.table.grown block).closuresAlloced = x.table.closuresAlloced * 2 := rfl
        omega
    · show t'.closuresAlloced = 1 ∨ t'.closuresAlloced < 2 * max x.peak t'.openCount
      rcases hcases with ⟨-, rfl⟩ | ⟨hfull, rfl⟩
      · omega
      · have hgrown : (x.table.grown block).closuresAlloced = x.table.closuresAlloced * 2 := rfl
        have hall := hvalid.openCount_full hfull
        omega
  | response id =>
    obtain ⟨hs, rfl⟩ := hstep
    obtain ⟨hrel, hcount, -⟩ := releaseClosure_spec hvalid (hvalid.responseType_isSome.mp hs)
    exact ⟨hrel, by show (releaseClosure id x.table).openCount ≤ x.peak; omega, hpeak, hleast⟩

end Funra
