import Funra.Rarray.Runs

/-!
# The two builds of `rarray`

`rassert` is a statement that evaluates its expression in a debug build, and nothing at all in a release build
(`rbuild_as_release`). `rarray_create` and `rarray_add` allocate inside of one: a release build never
allocates, `items` stays `NULL`, and every access to a slot is one outside of the items. The builds agree
exactly on the sequences that access no slot (`buildsAgree_iff`).
-/

namespace Funra

open Mem CInt

inductive Build
  | debug | release
  deriving DecidableEq

/-- `abort`, or another crash. -/
inductive BuildFault
  | aborted
  | fault (f : Fault)
  deriving DecidableEq

/-- `expr` yields the condition, and the state after its evaluation. -/
def rassert {σ : Type} (b : Build) (expr : Except Fault (Bool × σ)) (s : σ) : Except BuildFault σ :=
  match b with
  | .release => .ok s
  | .debug =>
    match expr with
    | .error f => .error (.fault f)
    | .ok (holds, s) => if holds then .ok s else .error .aborted

/-! ## Arrays of which no slot has been accessed -/

variable {V : Type}

/-- The elements of the array. -/
def arrayContent (s : Option (Rarray V)) : Option (List V) := s.map fun ar => ar.items.take ar.size

/-- An array without slots. -/
structure Rarray.Unallocated (ar : Rarray V) (c : Nat) : Prop where
  items : ar.items = []
  size : ar.size = 0
  capacity : ar.capacity = c
  pos : 0 < c

/-- The array of a release build: it has no slots. -/
inductive ReleaseArray : Option Nat → Option (Rarray V) → Prop
  | null : ReleaseArray none none
  | some {c : Nat} {ar : Rarray V} (h : ar.Unallocated c) : ReleaseArray (some c) (some ar)

/-- The array of a debug build while no slot is accessed: it is empty. -/
inductive DebugArray : Option Nat → Option (Rarray V) → Prop
  | null : DebugArray none none
  | some {c : Nat} {ar : Rarray V} (hsize : ar.size = 0) (hcap : ar.capacity = c) : DebugArray (some c) (some ar)

section

variable {ar : Rarray V} {c : Nat} {cap : Option Nat} {s : Option (Rarray V)}

theorem slot_unallocated (h : ar.Unallocated c) (i : Nat) : ar.slot i = .error .outOfBounds := by
  rw [Rarray.slot, h.items]
  rfl

theorem setSlot_unallocated (h : ar.Unallocated c) (i : Nat) (v : V) : ar.setSlot i v = .error .outOfBounds := by
  rw [Rarray.setSlot, h.items, if_neg (by simp)]

theorem ReleaseArray.content (h : ReleaseArray cap s) : arrayContent s = cap.map fun _ => [] := by
  cases h with
  | null => rfl
  | some h => simp [arrayContent, h.size]

theorem DebugArray.content (h : DebugArray cap s) : arrayContent s = cap.map fun _ => [] := by
  cases h with
  | null => rfl
  | some hsize hcap => simp [arrayContent, hsize]

end

/-! ## The functions that assert -/

variable [Zero V]

/-- `_rarray_alloc(ar, capacity) == rcode_ok`; `calloc` says whether the allocation succeeds. -/
def rarrayAllocOk (calloc : Bool) (capacity : Nat) (ar : Rarray V) : Except Fault (Bool × Rarray V) :=
  if calloc then (rarrayAlloc capacity ar).map fun ar => (true, ar) else .ok (false, ar)

def createCapacity (initCapacity : Nat) : Nat := if 0 < initCapacity then initCapacity else 16

def Build.rarrayCreate (b : Build) (calloc : Bool) (valueSize initCapacity : Nat) :
    Except BuildFault (Rarray V) :=
  let ar : Rarray V := ⟨valueSize, 0, createCapacity initCapacity, [], []⟩
  rassert b (rarrayAllocOk calloc ar.capacity ar) ar

theorem createCapacity_pos (n : Nat) : 0 < createCapacity n := by
  unfold createCapacity
  split <;> omega

theorem rarrayCreate_debug (valueSize n : Nat) :
    Build.debug.rarrayCreate true valueSize n = .ok (rarrayCreate valueSize n : Rarray V) := by
  have hcopy : ¬ (0 : Int) < int32 (0 : Nat) := by simp
  simp only [Build.rarrayCreate, rassert, rarrayAllocOk, rarrayAlloc, if_true, if_neg hcopy, Except.map]
  rw [rarrayCreate, createCapacity]

/-- An allocation that succeeds passes its assertion. -/
theorem rassert_alloc (capacity : Nat) (ar : Rarray V) :
    rassert .debug (rarrayAllocOk true capacity ar) ar = (rarrayAlloc capacity ar).mapError .fault := by
  rw [rarrayAllocOk, if_pos rfl]
  cases rarrayAlloc capacity ar <;> rfl

theorem rarrayCreate_release (calloc : Bool) (valueSize n : Nat) :
    Build.release.rarrayCreate calloc valueSize n = .ok (⟨valueSize, 0, createCapacity n, [], []⟩ : Rarray V) := by
  simp only [Build.rarrayCreate, rassert]

theorem create_debug_empty {calloc : Bool} {valueSize n : Nat} {ar : Rarray V}
    (hrun : Build.debug.rarrayCreate calloc valueSize n = .ok ar) :
    ar.size = 0 ∧ ar.capacity = createCapacity n := by
  cases calloc with
  | false => cases hrun
  | true =>
    rw [rarrayCreate_debug] at hrun
    cases hrun
    exact ⟨rfl, rfl⟩

/-- Every loop over the array reads the first slot. -/
theorem rarrayFor_unallocated {σ ρ : Type} {ar : Rarray V} {c : Nat} (h : ar.Unallocated c)
    (body : V → σ → Option ρ × σ) (s : σ) : rarrayFor ar body s = .error .outOfBounds := by
  have hpos := h.pos
  have hat : rarrayAt ar 0 = .error .outOfBounds := by
    rw [rarrayAt, if_neg (by rw [h.capacity]; omega), slot_unallocated h]
  simp only [rarrayFor, rarrayRounds, rarrayNext, hat, bind, Except.bind]

theorem clear_unallocated {ar : Rarray V} {c : Nat} (h : ar.Unallocated c) : rarrayClear ar = .error .outOfBounds := by
  simp only [rarrayClear, rarrayFor_unallocated h, bind, Except.bind]

variable [DecidableEq V]

def Build.rarrayAdd (b : Build) (calloc : Bool) (F : RarrayFuncs V) (v : V) (ar : Rarray V) :
    Except BuildFault (Rarray V) := do
  let ar ← (if ar.capacity ≤ ar.size then rassert b (rarrayAllocOk calloc (rarrayScale ar.capacity) ar) ar
    else .ok ar)
  let ar ← (F.type.setValue ar.size v ar).mapError .fault
  return { ar with size := (uint32 (ar.size + 1)).toNat }

/-! ## Sequences of calls -/

inductive BuildOp (V : Type)
  | create (calloc : Bool) (initCapacity : Nat)
  | add (calloc : Bool) (v : V)
  | remove (val : V)
  | removeAt (index : Nat)
  | at (index : Nat)
  | clear
  deriving DecidableEq

inductive RarrayReturn (V : Type)
  | void
  | code (c : Int)
  | value (v : V)
  deriving DecidableEq

/-- A call with a pointer that is `NULL` until the first `rarray_create`. -/
def BuildOp.call (F : RarrayFuncs V) (b : Build) : BuildOp V → Option (Rarray V) →
    Except BuildFault (RarrayReturn V × Option (Rarray V))
  | .create calloc n, _ => (b.rarrayCreate calloc F.type.size n).map fun ar => (.void, some ar)
  | .add _ _, none | .remove _, none | .removeAt _, none => .ok (.code 0, none)
  | .at _, none => .ok (.value 0, none)
  | .clear, none => .ok (.void, none)
  | .add calloc v, some ar => (b.rarrayAdd calloc F v ar).map fun ar => (.code 0, some ar)
  | .remove val, some ar => ((rarrayRemove F val ar).map fun r => (.code r.1, some r.2)).mapError .fault
  | .removeAt i, some ar => ((rarrayRemoveAt F i ar).map fun r => (.code r.1, some r.2)).mapError .fault
  | .at i, some ar => ((rarrayAt ar i).map fun v => (.value v, some ar)).mapError .fault
  | .clear, some ar => ((rarrayClear ar).map fun ar => (.void, some ar)).mapError .fault

/-- What the calls return, and the array after them. -/
def buildRun (F : RarrayFuncs V) (b : Build) : List (BuildOp V) → Option (Rarray V) →
    Except BuildFault (List (RarrayReturn V) × Option (Rarray V))
  | [], s => .ok ([], s)
  | op :: ops, s => do
    let (r, s) ← op.call F b s
    let (rs, s) ← buildRun F b ops s
    return (r :: rs, s)

/-- The release build returns, without an access outside the items, with the results and the elements of the
debug build. -/
def BuildsAgree (F : RarrayFuncs V) (ops : List (BuildOp V)) : Prop :=
  ∃ rs s, buildRun F .release ops none = .ok (rs, s) ∧
    ∀ rs' s', buildRun F .debug ops none = .ok (rs', s') → rs' = rs ∧ arrayContent s' = arrayContent s

/-! ## The sequences that access no slot -/

/-- `cap` is the capacity of the array, `none` before the first `rarray_create`. -/
def BuildOp.NoSlot (cap : Option Nat) : BuildOp V → Prop
  | .create _ _ | .removeAt _ => True
  | .at i => ∀ c, cap = some c → c ≤ i
  | .add _ _ | .remove _ | .clear => cap = none

def BuildOp.capAfter (cap : Option Nat) : BuildOp V → Option Nat
  | .create _ n => some (createCapacity n)
  | _ => cap

def NoSlots : Option Nat → List (BuildOp V) → Prop
  | _, [] => True
  | cap, op :: ops => op.NoSlot cap ∧ NoSlots (op.capAfter cap) ops

/-! ### The debug build is the array of the other results -/

theorem rarrayAdd_debug (F : RarrayFuncs V) (v : V) (ar : Rarray V) :
    Build.debug.rarrayAdd true F v ar = (rarrayAdd F v ar).mapError .fault := by
  have hprepare : (if ar.capacity ≤ ar.size then
        rassert .debug (rarrayAllocOk true (rarrayScale ar.capacity) ar) ar else .ok ar) =
      (if ar.capacity ≤ ar.size then rarrayAlloc (rarrayScale ar.capacity) ar else .ok ar).mapError .fault := by
    rw [rassert_alloc]
    split <;> rfl
  have hstore (ar : Rarray V) : ((F.type.setValue ar.size v ar).mapError BuildFault.fault).bind (fun ar =>
        .ok { ar with size := (uint32 (ar.size + 1)).toNat }) =
      ((F.type.setValue ar.size v ar).bind fun ar =>
        .ok { ar with size := (uint32 (ar.size + 1)).toNat }).mapError .fault := by
    rw [Except.mapError_bind]
    rfl
  rw [Build.rarrayAdd, hprepare, rarrayAdd]
  refine Eq.trans ?_ (Except.mapError_bind _ _ _).symm
  exact congrArg _ (funext hstore)

/-! ### One call of the release build -/

section unallocated

variable {F : RarrayFuncs V} {ar : Rarray V} {c : Nat}

theorem setValue_unallocated (h : ar.Unallocated c) (v : V) :
    F.type.setValue ar.size v ar = .error .outOfBounds := by
  cases F.type with
  | int => exact setSlot_unallocated h ar.size v
  | string => exact setSlot_unallocated h ar.size v
  | ptr =>
    show rarraySetPtr ar.size v ar = _
    rw [rarraySetPtr, slot_unallocated h]
    rfl

theorem add_unallocated (h : ar.Unallocated c) (calloc : Bool) (v : V) :
    Build.release.rarrayAdd calloc F v ar = .error (.fault .outOfBounds) := by
  simp only [Build.rarrayAdd, rassert, ite_self, bind, Except.bind, setValue_unallocated h, Except.mapError]

theorem remove_unallocated (h : ar.Unallocated c) (val : V) : rarrayRemove F val ar = .error .outOfBounds := by
  simp only [rarrayRemove, rarrayFor_unallocated h, bind, Except.bind]

theorem removeAt_empty (h : ar.size = 0) (i : Nat) : rarrayRemoveAt F i ar = .ok (5, ar) := by
  rw [rarrayRemoveAt, if_pos (by omega)]

end unallocated

/-! ### One call of both builds -/

/-- What a call returns that accesses no slot. -/
def BuildOp.emptyReturn (cap : Option Nat) : BuildOp V → RarrayReturn V
  | .create _ _ | .clear => .void
  | .add _ _ | .remove _ => .code 0
  | .removeAt _ => .code (if cap = none then 0 else 5)
  | .at _ => .value 0

section call

variable {F : RarrayFuncs V} {cap : Option Nat} {s s' : Option (Rarray V)} {op : BuildOp V} {ops : List (BuildOp V)}

theorem release_noSlot (h : ReleaseArray cap s) (hop : op.NoSlot cap) :
    ∃ s', op.call F .release s = .ok (op.emptyReturn cap, s') ∧ ReleaseArray (op.capAfter cap) s' := by
  cases op with
  | create calloc n =>
    exact ⟨_, by rw [BuildOp.call, rarrayCreate_release]; rfl, .some ⟨rfl, rfl, rfl, createCapacity_pos n⟩⟩
  | add | remove | clear =>
    obtain rfl : cap = none := hop
    cases h
    exact ⟨none, rfl, .null⟩
  | removeAt i =>
    cases h with
    | null => exact ⟨none, rfl, .null⟩
    | some h => exact ⟨_, by rw [BuildOp.call, removeAt_empty h.size]; rfl, .some h⟩
  | «at» i =>
    cases h with
    | null => exact ⟨none, rfl, .null⟩
    | @some _ ar h =>
      have hat : rarrayAt ar i = .ok 0 := if_pos (by rw [h.capacity]; exact hop _ rfl)
      exact ⟨_, by rw [BuildOp.call, hat]; rfl, .some h⟩

/-- A call that accesses a slot does so outside the items. -/
theorem release_slot (h : ReleaseArray cap s) (hop : ¬ op.NoSlot cap) :
    op.call F .release s = .error (.fault .outOfBounds) := by
  cases h with
  | null =>
    cases op with
    | «at» i => exact absurd (fun c hc => nomatch hc) hop
    | create | removeAt => exact absurd trivial hop
    | add | remove | clear => exact absurd rfl hop
  | some h =>
    cases op with
    | create | removeAt => exact absurd trivial hop
    | add calloc v => rw [BuildOp.call, add_unallocated h]; rfl
    | remove val => rw [BuildOp.call, remove_unallocated h]; rfl
    | clear => rw [BuildOp.call, clear_unallocated h]; rfl
    | «at» i =>
      have hlt : ¬ _ ≤ i := fun hle => hop fun c hc => (by cases hc; exact hle)
      rw [BuildOp.call, rarrayAt, if_neg (by rw [h.capacity]; exact hlt), slot_unallocated h]
      rfl

/-- A call of the debug build that does not abort. -/
theorem debug_noSlot (h : DebugArray cap s) (hop : op.NoSlot cap) {r : RarrayReturn V}
    (hrun : op.call F .debug s = .ok (r, s')) : r = op.emptyReturn cap ∧ DebugArray (op.capAfter cap) s' := by
  cases op with
  | create calloc n =>
    obtain ⟨ar, hcreate, heq⟩ := Except.of_map_ok hrun
    cases heq
    obtain ⟨hsize, hcap⟩ := create_debug_empty hcreate
    exact ⟨rfl, .some hsize hcap⟩
  | add | remove | clear =>
    obtain rfl : cap = none := hop
    cases h
    cases hrun
    exact ⟨rfl, .null⟩
  | removeAt i =>
    cases h with
    | null =>
      cases hrun
      exact ⟨rfl, .null⟩
    | some hsize hcap =>
      rw [BuildOp.call, removeAt_empty hsize] at hrun
      cases hrun
      exact ⟨rfl, .some hsize hcap⟩
  | «at» i =>
    cases h with
    | null =>
      cases hrun
      exact ⟨rfl, .null⟩
    | @some _ ar hsize hcap =>
      have hat : rarrayAt ar i = .ok 0 := if_pos (by rw [hcap]; exact hop _ rfl)
      rw [BuildOp.call, hat] at hrun
      cases hrun
      exact ⟨rfl, .some hsize hcap⟩

/-! ### Whole sequences -/

def emptyReturns : Option Nat → List (BuildOp V) → List (RarrayReturn V)
  | _, [] => []
  | cap, op :: ops => op.emptyReturn cap :: emptyReturns (op.capAfter cap) ops

theorem release_noSlots (h : ReleaseArray cap s) (hops : NoSlots cap ops) :
    ∃ s', buildRun F .release ops s = .ok (emptyReturns cap ops, s') ∧
      ReleaseArray (ops.foldl BuildOp.capAfter cap) s' := by
  induction ops generalizing cap s with
  | nil => exact ⟨s, rfl, h⟩
  | cons op ops ih =>
    obtain ⟨s₁, hcall, h₁⟩ := release_noSlot (F := F) h hops.1
    obtain ⟨s₂, hrun, h₂⟩ := ih h₁ hops.2
    exact ⟨s₂, by simp only [buildRun, hcall, hrun, bind, Except.bind]; rfl, h₂⟩

theorem release_slots (h : ReleaseArray cap s) (hops : ¬ NoSlots cap ops) :
    buildRun F .release ops s = .error (.fault .outOfBounds) := by
  induction ops generalizing cap s with
  | nil => exact absurd trivial hops
  | cons op ops ih =>
    by_cases hop : op.NoSlot cap
    · obtain ⟨s₁, hcall, h₁⟩ := release_noSlot (F := F) h hop
      have hrun := ih h₁ fun hrest => hops ⟨hop, hrest⟩
      simp only [buildRun, hcall, hrun, bind, Except.bind]
    · simp only [buildRun, release_slot h hop, bind, Except.bind]

theorem debug_noSlots (h : DebugArray cap s) (hops : NoSlots cap ops) {rs : List (RarrayReturn V)}
    (hrun : buildRun F .debug ops s = .ok (rs, s')) :
    rs = emptyReturns cap ops ∧ DebugArray (ops.foldl BuildOp.capAfter cap) s' := by
  induction ops generalizing cap s rs with
  | nil =>
    cases hrun
    exact ⟨rfl, h⟩
  | cons op ops ih =>
    obtain ⟨⟨r, s₁⟩, hcall, hrest⟩ := Except.of_bind_ok hrun
    obtain ⟨⟨rs', s₂⟩, hrun', heq⟩ := Except.of_bind_ok hrest
    cases heq
    obtain ⟨rfl, h₁⟩ := debug_noSlot h hops.1 hcall
    obtain ⟨rfl, h₂⟩ := ih h₁ hops.2 hrun'
    exact ⟨rfl, h₂⟩

end call

/-- The builds agree exactly on the sequences that access no slot. -/
theorem buildsAgree_iff (F : RarrayFuncs V) (ops : List (BuildOp V)) :
    BuildsAgree F ops ↔ NoSlots none ops := by
  constructor
  · rintro ⟨rs, s, hrun, -⟩
    by_contra hops
    rw [release_slots .null hops] at hrun
    cases hrun
  · intro hops
    obtain ⟨s, hrun, hrelease⟩ := release_noSlots (F := F) .null hops
    refine ⟨_, s, hrun, fun rs' s' hrun' => ?_⟩
    obtain ⟨hrs, hdebug⟩ := debug_noSlots .null hops hrun'
    exact ⟨hrs, by rw [hdebug.content, hrelease.content]⟩

/-- Plain numbers. -/
def intFuncs : RarrayFuncs Nat where
  type := .int
  copyValue := false
  copies := fun _ _ => False
  compareValue := fun a b => if a = b then 0 else 1

/-- Create an array and add a value: the debug build returns, the release build writes through `NULL`. -/
theorem builds_disagree : ¬ ∀ ops : List (BuildOp Nat),
    buildRun intFuncs .debug ops none ≠ .error .aborted → BuildsAgree intFuncs ops := by
  intro hall
  obtain ⟨rs, s, hrun, -⟩ := hall [.create true 4, .add true 7] (by decide)
  have hslot : buildRun intFuncs .release [.create true 4, .add true 7] none = .error (.fault .outOfBounds) := by
    decide
  rw [hslot] at hrun
  cases hrun

end Funra
