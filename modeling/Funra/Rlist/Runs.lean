import Funra.Lib.System
import Funra.Rlist.Refine

/-!
# Runs of a list

The six operations of `rlist` that change a list are those of a deque of nodes with their values
(`dequeStep`), and iterators, `rlist_at` and `rlist_find` read that deque (`RlistHolds`), as long as `len`
does not wrap: it is 32 bits wide, and a list of 2^32 nodes has length 0 (`rlist_wraps`).
-/

namespace Funra

open Mem System Linked Except

variable {α : Type} {F : RlistFuncs α} {s s' : Rlist α} {l : List (Nat × Option α)} {as : List Nat}

/-! ### Iterators -/

/-- The links an iterator follows. -/
def Rlist.link (s : Rlist α) : RlistDirection → Nat → Option (Option Nat)
  | .tail => s.nextOf
  | .head => s.prevOf

/-- The nodes an iterator has still to visit. -/
def ItRep (s : Rlist α) (it : RlistIterator) (as : List Nat) : Prop :=
  Path (s.link it.direction) it.next as none

theorem rlistNext_nil {it : RlistIterator} (h : ItRep s it []) : rlistNext s it = .ok (none, it) := by
  have hnext : it.next = none := h
  rw [rlistNext, hnext]

theorem rlistNext_cons {it : RlistIterator} {a : Nat} (h : ItRep s it (a :: as)) :
    (rlistNext s it).Succeeds fun r => r.1 = some a ∧ ItRep s r.2 as := by
  obtain ⟨p, d⟩ := it
  obtain ⟨rfl : p = some a, r, hr, hrest⟩ := h
  cases d with
  | tail =>
    obtain ⟨node, hnode, rfl⟩ := Option.map_eq_some_iff.mp hr
    change (Except.bind (s.node (some a)) _).Succeeds _
    rw [Rlist.node_ok hnode]
    exact Succeeds.ok ⟨rfl, hrest⟩
  | head =>
    obtain ⟨node, hnode, rfl⟩ := Option.map_eq_some_iff.mp hr
    change (Except.bind (s.node (some a)) _).Succeeds _
    rw [Rlist.node_ok hnode]
    exact Succeeds.ok ⟨rfl, hrest⟩

theorem RlistRep.itRep_tail (h : RlistRep s l) : ItRep s (rlistIt s .tail) (l.map Prod.fst) := h.next

theorem RlistRep.itRep_head (h : RlistRep s l) : ItRep s (rlistIt s .head) (l.map Prod.fst).reverse := h.prev

theorem rlistWalk_eq {fuel : Nat} {it : RlistIterator} (h : ItRep s it as) (hfuel : as.length < fuel) :
    rlistWalk s fuel it = .ok as := by
  induction fuel generalizing it as with
  | zero => cases hfuel
  | succ fuel ih =>
    cases as with
    | nil =>
      rw [rlistWalk, rlistNext_nil h]
      rfl
    | cons a as =>
      obtain ⟨⟨_, it'⟩, heq, rfl, hrest⟩ := rlistNext_cons h
      rw [rlistWalk, heq]
      change Except.bind (rlistWalk s fuel it') _ = _
      rw [ih hrest (Nat.lt_of_succ_lt_succ hfuel)]
      rfl

/-- After the last node `rlist_next` goes on returning `NULL`. -/
theorem rlistAtLoop_eq (index : Nat) {node : Option Nat} {it : RlistIterator} (h : ItRep s it as) :
    rlistAtLoop s index node it = .ok ((node :: as.map some).getD index none) := by
  induction index generalizing node it as with
  | zero => rfl
  | succ index ih =>
    cases as with
    | nil =>
      rw [rlistAtLoop, rlistNext_nil h]
      change rlistAtLoop s index none it = _
      rw [ih h]
      cases index <;> simp
    | cons a as =>
      obtain ⟨⟨_, it'⟩, heq, rfl, hrest⟩ := rlistNext_cons h
      rw [rlistAtLoop, heq]
      exact ih hrest

/-- The index in the direction the walk takes. -/
theorem rlistAt_eq (h : RlistRep s l) (hlen : l.length < 4294967296) (index : Int) :
    rlistAt index s = .ok (if 0 ≤ index then (l.map Prod.fst)[index.toNat]?
      else if 0 ≤ l.length + index then (l.map Prod.fst)[(l.length + index).toNat]? else none) := by
  rw [rlistAt, h.len_toNat hlen]
  have hwalk (d : RlistDirection) {as : List Nat} (hit : ItRep s (rlistIt s d) as) {n : Nat}
      (hn : n < as.length) :
      (rlistNext s (rlistIt s d)).bind (fun r => rlistAtLoop s n r.1 r.2) = .ok as[n]? := by
    cases as with
    | nil => cases hn
    | cons a as =>
      obtain ⟨⟨_, it'⟩, heq, rfl, hrest⟩ := rlistNext_cons hit
      rw [heq]
      refine (rlistAtLoop_eq n hrest).trans ?_
      show Except.ok (((a :: as).map some).getD n none) = _
      rw [List.getD_eq_getElem?_getD, List.getElem?_map]
      have hsome := List.getElem?_eq_getElem hn
      simp [hsome]
  by_cases hneg : index < 0
  · simp only [hneg, if_true, if_neg (Int.not_le.mpr hneg)]
    have hidx : (-index - 1).toNat < l.length ↔ 0 ≤ l.length + index := by omega
    by_cases hin : 0 ≤ l.length + index
    · rw [if_pos (hidx.mpr hin), if_pos hin]
      refine (hwalk .head h.itRep_head (by simpa using hidx.mpr hin)).trans ?_
      rw [List.getElem?_reverse (by simpa using hidx.mpr hin)]
      congr 2
      simp only [List.length_map]
      omega
    · rw [if_neg (mt hidx.mp hin), if_neg hin]
      rfl
  · simp only [hneg, if_false, if_pos (Int.not_lt.mp hneg)]
    by_cases hin : index.toNat < l.length
    · rw [if_pos hin]
      exact hwalk .tail h.itRep_tail (by simpa using hin)
    · rw [if_neg hin, List.getElem?_eq_none (by simpa using hin)]
      rfl

theorem rlistFindLoop_eq [DecidableEq α] {fuel : Nat} {it : RlistIterator} {val : Option α}
    (hit : ItRep s it (l.map Prod.fst)) (hval : ∀ p ∈ l, s.valOf p.1 = some p.2)
    (hfuel : l.length < fuel) :
    rlistFindLoop F val s fuel it = .ok ((l.find? fun p => F.sameVal val p.2).map Prod.fst) := by
  induction fuel generalizing it l with
  | zero => cases hfuel
  | succ fuel ih =>
    cases l with
    | nil =>
      rw [rlistFindLoop, rlistNext_nil hit]
      rfl
    | cons p l =>
      obtain ⟨⟨_, it'⟩, heq, rfl, hrest⟩ := rlistNext_cons hit
      obtain ⟨node, hnode, hv⟩ := Option.map_eq_some_iff.mp (hval p List.mem_cons_self)
      rw [rlistFindLoop, heq]
      change Except.bind (s.node (some p.1)) _ = _
      rw [Rlist.node_ok hnode]
      change (if F.sameVal val node.val = true then _ else _) = _
      rw [hv, List.find?_cons]
      split
      next hsame => rw [hsame]; rfl
      next hsame =>
        rw [Bool.not_eq_true] at hsame
        rw [hsame, ih hrest (fun q hq => hval q (List.mem_cons_of_mem _ hq)) (Nat.lt_of_succ_lt_succ hfuel)]

/-! ### The deque -/

/-- `a` is the address of the new node of a push, and the node that is removed. -/
inductive RlistOp (α : Type)
  | rpush (a : Nat) (v : α)
  | lpush (a : Nat) (v : α)
  | rpop
  | lpop
  | remove (a : Nat)
  | clear
  deriving DecidableEq, Repr

/-- The deque of nodes with their values. -/
def dequeStep (F : RlistFuncs α) (l : List (Nat × Option α)) : RlistOp α → List (Nat × Option α)
  | .rpush a v => l ++ [(a, F.newVal (some v))]
  | .lpush a v => (a, F.newVal (some v)) :: l
  | .rpop => l.dropLast
  | .lpop => l.tail
  | .remove a => l.eraseP fun p => p.1 = a
  | .clear => []

/-- A new node is at an unused address, and only nodes of the list are removed. -/
def RlistAllowed (s : Rlist α) : RlistOp α → Prop
  | .rpush a _ | .lpush a _ => s.nodes a = none
  | .remove a => ∃ as, Path s.nextOf s.head as none ∧ a ∈ as
  | .rpop | .lpop | .clear => True

def rlistCall (F : RlistFuncs α) (s : Rlist α) : RlistOp α → Except Fault (Rlist α)
  | .rpush a v => (rlistRpush F (some a) (some v) s).map Prod.snd
  | .lpush a v => (rlistLpush F (some a) (some v) s).map Prod.snd
  | .rpop => (rlistRpop s).map Prod.snd
  | .lpop => (rlistLpop s).map Prod.snd
  | .remove a => rlistRemove F (some a) s
  | .clear => rlistClear F s

def RlistStep (F : RlistFuncs α) (s : Rlist α) (op : RlistOp α) (s' : Rlist α) : Prop :=
  RlistAllowed s op ∧ rlistCall F s op = .ok s'

/-- `len` can count one more node. -/
def RlistRoom (s : Rlist α) : RlistOp α → Prop
  | .rpush _ _ | .lpush _ _ => s.len.toNat + 1 < 4294967296
  | _ => True

/-- The list, as its callers see it, is the deque `l`. -/
structure RlistHolds [DecidableEq α] (F : RlistFuncs α) (s : Rlist α) (l : List (Nat × Option α)) :
    Prop where
  inverse : ∀ a ∈ l.map Prod.fst, ∀ b ∈ l.map Prod.fst,
    s.nextOf a = some (some b) ↔ s.prevOf b = some (some a)
  head : ∀ a ∈ s.head, s.prevOf a = some none
  tail : ∀ a ∈ s.tail, s.nextOf a = some none
  len : s.len.toNat = l.length
  val : ∀ p ∈ l, s.valOf p.1 = some p.2
  forward : ∀ fuel > l.length, rlistWalk s fuel (rlistIt s .tail) = .ok (l.map Prod.fst)
  backward : ∀ fuel > l.length, rlistWalk s fuel (rlistIt s .head) = .ok (l.map Prod.fst).reverse
  at_ : ∀ index, rlistAt index s = .ok (if 0 ≤ index then (l.map Prod.fst)[index.toNat]?
    else if 0 ≤ l.length + index then (l.map Prod.fst)[(l.length + index).toNat]? else none)
  find : ∀ val, ∀ fuel > l.length,
    rlistFind F fuel val s = .ok ((l.find? fun p => F.sameVal val p.2).map Prod.fst)
  rpop : (rlistRpop s).Succeeds fun r => r.1 = (l.map Prod.fst).getLast?
  lpop : (rlistLpop s).Succeeds fun r => r.1 = (l.map Prod.fst).head?

theorem RlistRep.prev_of_next (h : RlistRep s l) {a b : Nat} (ha : a ∈ l.map Prod.fst)
    (hab : s.nextOf a = some (some b)) : s.prevOf b = some (some a) := by
  obtain ⟨⟨_, v⟩, hmem, rfl⟩ := List.mem_map.mp ha
  obtain ⟨l₁, l₂, hl⟩ := List.append_of_mem hmem
  rw [Rlist.nextOf, h.fields l₁ l₂ hl] at hab
  cases l₂ with
  | nil => simp at hab
  | cons q l₂ =>
    obtain rfl : q.1 = b := by simpa using hab
    have hq := h.fields (l₁ ++ [(_, v)]) l₂ (by simpa using hl)
    simp [Rlist.prevOf, hq]

theorem RlistRep.prev_head (h : RlistRep s l) {a : Nat} (ha : a ∈ s.head) : s.prevOf a = some none := by
  rw [h.head_eq] at ha
  cases l with
  | nil => cases ha
  | cons q l =>
    obtain rfl : q.1 = a := by simpa using ha
    simp [Rlist.prevOf, h.fields [] l rfl]

theorem RlistRep.holds [DecidableEq α] (h : RlistRep s l) (hlen : l.length < 4294967296) :
    RlistHolds F s l where
  inverse a ha b hb := by
    refine ⟨h.prev_of_next ha, fun hba => ?_⟩
    rw [← s.prevOf_mirror]
    apply h.mirror.prev_of_next
    · simpa using hb
    · rwa [s.nextOf_mirror]
  head _ := h.prev_head
  tail _ ha := s.prevOf_mirror ▸ h.mirror.prev_head ha
  len := h.len_toNat hlen
  val := h.val
  forward fuel hfuel := rlistWalk_eq h.itRep_tail (by simpa using hfuel)
  backward fuel hfuel := rlistWalk_eq h.itRep_head (by simpa using hfuel)
  at_ := rlistAt_eq h hlen
  find val fuel hfuel := rlistFindLoop_eq h.itRep_tail h.val hfuel
  rpop := (rlistRpop_spec h hlen).mono fun _ hr => hr.1
  lpop := (rlistLpop_spec h hlen).mono fun _ hr => hr.1

/-! ### Runs -/

theorem rlistCreate_rep (nodes : Nat → Option (RlistNode α)) : RlistRep (rlistCreate nodes) [] :=
  ⟨rfl, rfl, by simp, rfl⟩

/-- The node that `rlist_remove` is given, with its value and the rest of the list. -/
theorem RlistRep.split (h : RlistRep s l) {a : Nat} (ha : RlistAllowed s (.remove a)) :
    ∃ l₁ v l₂, l = l₁ ++ (a, v) :: l₂ ∧ dequeStep F l (.remove a) = l₁ ++ l₂ := by
  obtain ⟨as, hpath, hmem⟩ := ha
  rw [hpath.unique h.next] at hmem
  obtain ⟨⟨_, v⟩, hin, rfl⟩ := List.mem_map.mp hmem
  obtain ⟨l₁, l₂, rfl⟩ := List.append_of_mem hin
  refine ⟨l₁, v, l₂, rfl, ?_⟩
  have hnodup := h.nodup
  rw [List.map_append, List.nodup_append] at hnodup
  rw [dequeStep, List.eraseP_append_right _ fun p hp => ?_]
  · simp
  · simpa using hnodup.2.2 p.1 (List.mem_map_of_mem hp) _ (by simp)

theorem rlistCall_spec (h : RlistRep s l) (hlen : l.length < 4294967296) {op : RlistOp α}
    (hallowed : RlistAllowed s op) :
    (rlistCall F s op).Succeeds fun s' => RlistRep s' (dequeStep F l op) := by
  cases op with
  | rpush a v => exact Succeeds.map ((rlistRpush_spec h hlen hallowed v).mono fun _ hr => hr.2.1)
  | lpush a v => exact Succeeds.map ((rlistLpush_spec h hlen hallowed v).mono fun _ hr => hr.2)
  | rpop => exact Succeeds.map ((rlistRpop_spec h hlen).mono fun _ hr => hr.2)
  | lpop => exact Succeeds.map ((rlistLpop_spec h hlen).mono fun _ hr => hr.2)
  | remove a =>
    obtain ⟨l₁, v, l₂, rfl, hdeque⟩ := h.split (F := F) hallowed
    rw [hdeque]
    exact rlistRemove_spec h
  | clear => exact rlistClear_spec h hlen

theorem dequeStep_length (h : RlistRep s l) (hlen : l.length < 4294967296) {op : RlistOp α}
    (hroom : RlistRoom s op) : (dequeStep F l op).length < 4294967296 := by
  cases op with
  | rpush a v =>
    rw [RlistRoom, h.len_toNat hlen] at hroom
    simpa [dequeStep] using hroom
  | lpush a v =>
    rw [RlistRoom, h.len_toNat hlen] at hroom
    simpa [dequeStep] using hroom
  | rpop => exact Nat.lt_of_le_of_lt (by simp [dequeStep]) hlen
  | lpop => exact Nat.lt_of_le_of_lt (by simp [dequeStep]) hlen
  | remove a => exact Nat.lt_of_le_of_lt List.length_eraseP_le hlen
  | clear => exact Nat.lt_of_le_of_lt (Nat.zero_le _) hlen

theorem rlist_rep_run {nodes : Nat → Option (RlistNode α)} {ops : List (RlistOp α)}
    (hrun : Steps (Guarded RlistRoom (RlistStep F)) (rlistCreate nodes) ops s) :
    RlistRep s (ops.foldl (dequeStep F) []) ∧ (ops.foldl (dequeStep F) []).length < 4294967296 := by
  refine Steps.simulate (R := fun s l => RlistRep s l ∧ l.length < 4294967296) ?_ hrun
    ⟨rlistCreate_rep nodes, by simp⟩
  rintro s op s' l ⟨hrep, hlen⟩ ⟨hroom, hallowed, hcall⟩
  exact ⟨(rlistCall_spec hrep hlen hallowed).returns s' hcall, dequeStep_length hrep hlen hroom⟩

/-- The list is the deque in every state of a run, and the next call returns. -/
theorem rlist_holds_run [DecidableEq α] {nodes : Nat → Option (RlistNode α)} {ops : List (RlistOp α)}
    (hrun : Steps (Guarded RlistRoom (RlistStep F)) (rlistCreate nodes) ops s) :
    RlistHolds F s (ops.foldl (dequeStep F) []) ∧
      ∀ op, RlistAllowed s op → ∃ s', RlistStep F s op s' := by
  obtain ⟨hrep, hlen⟩ := rlist_rep_run hrun
  refine ⟨hrep.holds hlen, fun op hallowed => ?_⟩
  obtain ⟨s', hcall, -⟩ := rlistCall_spec (F := F) hrep hlen hallowed
  exact ⟨s', hallowed, hcall⟩

theorem rlist_holds_pair : ∃ s, RlistHolds (α := Nat) ⟨none, true, none⟩ s [(1, some 6), (0, some 5)] := by
  have hrun : Steps (Guarded RlistRoom (RlistStep ⟨none, true, none⟩)) (rlistCreate fun _ => none)
      [.rpush 0 5, .lpush 1 6] _ :=
    .cons ⟨by simp [RlistRoom, rlistCreate], rfl, rfl⟩
      (.cons ⟨by simp [RlistRoom, rlistCreate, Rlist.setNode], rfl, rfl⟩ (.nil _))
  exact ⟨_, (rlist_holds_run hrun).1⟩

/-! ### The count wraps -/

/-- `n` pushes to the back, to the addresses 0, 1, ... -/
def pushes (n : Nat) : List (RlistOp Unit) := (List.range n).map fun a => .rpush a ()

/-- A push that makes `len` wrap is still one of the deque. -/
theorem pushes_run (n : Nat) (hn : n ≤ 4294967296) : ∃ s,
    Steps (RlistStep ⟨none, false, none⟩) (rlistCreate fun _ => none) (pushes n) s ∧
      RlistRep s ((pushes n).foldl (dequeStep ⟨none, false, none⟩) []) ∧
      ((pushes n).foldl (dequeStep ⟨none, false, none⟩) []).length = n ∧ ∀ a ≥ n, s.nodes a = none := by
  induction n with
  | zero => exact ⟨_, .nil _, rlistCreate_rep _, rfl, fun _ _ => rfl⟩
  | succ n ih =>
    obtain ⟨s, hrun, hrep, hlen, hfree⟩ := ih (by omega)
    obtain ⟨⟨r, s'⟩, hcall, -, hrep', hfree'⟩ :=
      rlistRpush_spec (F := ⟨none, false, none⟩) hrep (by omega) (hfree n (Nat.le_refl n)) ()
    have hpushes : pushes (n + 1) = pushes n ++ [.rpush n ()] := by simp [pushes, List.range_succ]
    have hstep : RlistStep ⟨none, false, none⟩ s (.rpush n ()) s' :=
      ⟨hfree n (Nat.le_refl n), by rw [rlistCall, hcall]; rfl⟩
    refine ⟨s', ?_, ?_, ?_, fun a ha => hfree' a (by omega) (hfree a (by omega))⟩
    · rw [hpushes]
      exact hrun.append (.cons hstep (.nil _))
    · rw [hpushes, List.foldl_append]
      exact hrep'
    · rw [hpushes, List.foldl_append]
      simp [dequeStep, hlen]

/-- After 2^32 pushes `len` is 0. -/
theorem rlist_wraps : ∃ ops s, Steps (RlistStep ⟨none, false, none⟩) (rlistCreate fun _ => none) ops s ∧
    ¬ RlistHolds (α := Unit) ⟨none, false, none⟩ s (ops.foldl (dequeStep ⟨none, false, none⟩) []) := by
  obtain ⟨s, hrun, hrep, hlen, -⟩ := pushes_run 4294967296 (Nat.le_refl _)
  refine ⟨_, s, hrun, fun h => ?_⟩
  have hcount := h.len
  rw [hrep.len, hlen] at hcount
  cases hcount

end Funra
