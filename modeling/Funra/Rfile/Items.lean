import Funra.Lib.Except
import Funra.Lib.Ledger
import Funra.Lib.Mem

/-!
# File items: the handles of `fopen`

`rfile_init_item` to `rfile_uninit_item` on one item. A ledger notes the handles `fopen` yields and those
passed to `fclose`; the use of a handle that is not open is a fault of the call.

`rfile_uninit_item` sets the state to `uninit` before it asks whether the state is `open`, so it never closes.
An item that is open then leaks its handle, and every other handle is closed once (`handlesClosedOnce_iff`).
-/

namespace Funra

open Mem Ownership

inductive RfileState
  | init | create | delete | opened | closed | uninit
  deriving DecidableEq, Repr

/-- `other` is any value that is no constant of the enumeration. -/
inductive RfileOpenMode
  | read | write | readWrite | append | overwrite | appendRw | other
  deriving DecidableEq, Repr

structure RfileItem where
  state : RfileState
  filename : Option Obj
  file : Option Nat
  deriving DecidableEq, Repr

/-- The variable that holds the item. `rfile_uninit_item` gets the pointer by value, and leaves it dangling. -/
inductive RfilePtr
  | null
  | live (item : RfileItem)
  | dangling
  deriving DecidableEq, Repr

structure RfileStore where
  ptr : RfilePtr
  handles : Ledger Nat
  deriving DecidableEq

/-- A crash of the call, or the use of a handle that is not open. -/
inductive RfileFault
  | crash (f : Fault)
  | notOpen (handle : Nat)
  deriving DecidableEq

namespace RfileStore

def start : RfileStore := ⟨.null, .empty⟩

/-- `*file_item`, where the pointer is not `NULL`. -/
def item (s : RfileStore) : Except RfileFault (Option RfileItem) :=
  match s.ptr with
  | .null => .ok none
  | .live item => .ok (some item)
  | .dangling => .error (.crash .useAfterFree)

/-- A library function is given the handle. -/
def use (s : RfileStore) (handle : Nat) : Except RfileFault Unit :=
  if s.handles.Live handle then .ok () else .error (.notOpen handle)

def fclose (s : RfileStore) (handle : Nat) : Except RfileFault RfileStore :=
  (s.use handle).map fun _ => { s with handles := s.handles.free (some handle) }

end RfileStore

/-- What a call returns, and what it stores through `real_size`. -/
structure RfileResult where
  code : Int
  realSize : Option Int
  deriving DecidableEq

def rfileOk : RfileResult := ⟨0, none⟩

def rfileInvalid : RfileResult := ⟨1, none⟩

/-! ## The functions -/

/-- `access` is the result of the system call: 1 when the file is there, which `rfile_init_item` takes for an
error. -/
def rfileExists (access : Int) (path : Option Obj) : Int :=
  match path with
  | none | some [] => -1
  | some _ => if access = 0 then 1 else 0

/-- `item` is false when the allocation of the item fails; a failed copy of the path is the empty string. -/
structure RfileAlloc where
  item : Bool
  filename : Bool

def rfileInitItem (access : Int) (alloc : RfileAlloc) (filepath : Option Obj) (s : RfileStore) :
    Except RfileFault (RfileResult × RfileStore) :=
  if s.ptr ≠ .null then .ok (rfileInvalid, s)
  else if rfileExists access filepath ≠ 0 then .ok (rfileInvalid, s)
  else if alloc.item = false then .error (.crash .nullDeref)
  else
    let filename := if alloc.filename then filepath else some []
    .ok (rfileOk, { s with ptr := .live ⟨.init, filename, none⟩ })

def RfileOpenMode.openOp (mode : RfileOpenMode) (binary : Bool) : String :=
  match mode with
  | .read => if binary then "rb" else "r"
  | .write => if binary then "wb" else "w"
  | .readWrite => if binary then "ab" else "a"
  | .append => if binary then "wb+" else "w+"
  | .overwrite => if binary then "wb+" else "w+"
  | .appendRw => if binary then "ab+" else "a+"
  | .other => if binary then "rb" else "r"

def rfileOpen (fopen : Obj → String → Option Nat) (mode : RfileOpenMode) (binary : Bool) (s : RfileStore) :
    Except RfileFault (RfileResult × RfileStore) := do
  match ← s.item with
  | none => return (rfileInvalid, s)
  | some item =>
    match item.filename with
    | none => return (rfileInvalid, s)
    | some filename =>
      if item.state = .opened then return (rfileInvalid, s)
      let file := fopen filename (mode.openOp binary)
      let s := { s with handles := s.handles.make file }
      let item := { item with file }
      if file = none then return (rfileInvalid, { s with ptr := .live item })
      return (rfileOk, { s with ptr := .live { item with state := .opened } })

/-- The checks that `rfile_flush`, `rfile_close`, `rfile_read` and `rfile_write` begin with. -/
def RfileStore.whenOpen (s : RfileStore)
    (act : RfileItem → Nat → Except RfileFault (RfileResult × RfileStore)) :
    Except RfileFault (RfileResult × RfileStore) := do
  match ← s.item with
  | none => return (rfileInvalid, s)
  | some item =>
    match item.file with
    | none => return (rfileInvalid, s)
    | some file => if item.state ≠ .opened then return (rfileInvalid, s) else act item file

def rfileFlush (s : RfileStore) : Except RfileFault (RfileResult × RfileStore) :=
  s.whenOpen fun _ file => (s.use file).map fun _ => (rfileOk, s)

def rfileClose (s : RfileStore) : Except RfileFault (RfileResult × RfileStore) :=
  s.whenOpen fun item file => do
    s.use file
    let s ← s.fclose file
    return (rfileOk, { s with ptr := .live { item with file := none, state := .closed } })

/-- `fread` is given the destination's size, and yields the number of blocks read. -/
def rfileRead (fread : Int → Int) (cacheSize : Int) (s : RfileStore) :
    Except RfileFault (RfileResult × RfileStore) :=
  s.whenOpen fun _ file => (s.use file).map fun _ => (⟨0, some (fread cacheSize)⟩, s)

/-- A size of 0 or less stands for the length of the string `data`. -/
def writeSize (data : Obj) (bufferSize : Int) : Except RfileFault Int :=
  if bufferSize ≤ 0 then
    match strlen data with
    | none => .error (.crash .outOfBounds)
    | some n => .ok n
  else .ok bufferSize

def rfileWrite (fwrite : Obj → Int → Int) (data : Obj) (bufferSize : Int) (s : RfileStore) :
    Except RfileFault (RfileResult × RfileStore) :=
  s.whenOpen fun _ file => do
    let bufferSize ← writeSize data bufferSize
    s.use file
    return (⟨0, some (fwrite data bufferSize)⟩, s)

/-- The state is `uninit` when it is compared with `open`. -/
def rfileUninitItem (s : RfileStore) : Except RfileFault (RfileResult × RfileStore) := do
  match ← s.item with
  | none => return (rfileInvalid, s)
  | some item =>
    if item.filename = none then return (rfileInvalid, s)
    let item := { item with state := .uninit }
    let s := { s with ptr := .live item }
    let s ← if item.state = .opened then (rfileClose s).map fun r => r.2 else .ok s
    return (rfileOk, { s with ptr := .dangling })

/-! ## Sequences of calls -/

inductive RfileCall
  | init (access : Int) (alloc : RfileAlloc) (filepath : Option Obj)
  | open (fopen : Obj → String → Option Nat) (mode : RfileOpenMode) (binary : Bool)
  | read (fread : Int → Int) (cacheSize : Int)
  | write (fwrite : Obj → Int → Int) (data : Obj) (bufferSize : Int)
  | flush
  | close
  | uninit

def RfileCall.run : RfileCall → RfileStore → Except RfileFault (RfileResult × RfileStore)
  | .init access alloc filepath => rfileInitItem access alloc filepath
  | .open fopen mode binary => rfileOpen fopen mode binary
  | .read fread cacheSize => rfileRead fread cacheSize
  | .write fwrite data bufferSize => rfileWrite fwrite data bufferSize
  | .flush => rfileFlush
  | .close => rfileClose
  | .uninit => rfileUninitItem

/-- The calls one after the other; a crash ends them. -/
def rfileRun (calls : List RfileCall) (s : RfileStore) : Except RfileFault RfileStore :=
  Except.forEach (fun call s => (RfileCall.run call s).map fun r => r.2) calls s

/-- Every handle `fopen` has yielded was passed to `fclose` exactly once, and none was used when not open. A
sequence that crashes elsewhere has no end to speak of. -/
def HandlesClosedOnce (run : Except RfileFault RfileStore) : Prop :=
  match run with
  | .ok s => s.handles.Settled
  | .error (.notOpen _) => False
  | .error (.crash _) => True

/-- The item is open: `rfile_open` has succeeded, and no `rfile_close` since. -/
def RfileStore.IsOpen (s : RfileStore) : Prop := ∃ item, s.ptr = .live item ∧ item.state = .opened

/-! ### One call -/

/-- The handle of a live item is open and nothing else is; the file and the state agree. -/
def RfileStore.Kept (s : RfileStore) : Prop :=
  match s.ptr with
  | .null => s.handles.Balanced []
  | .live item => s.handles.Balanced item.file.toList ∧ (item.file ≠ none ↔ item.state = .opened) ∧
      item.filename ≠ none
  | .dangling => True

/-- The errors other than the use of a handle that is not open. -/
def RfileFault.Crash : RfileFault → Prop
  | .crash _ => True
  | .notOpen _ => False

namespace RfileCall

variable {s : RfileStore}

theorem item_ends (s : RfileStore) : s.item.Ends RfileFault.Crash fun o =>
    (o = none ∧ s.ptr = .null) ∨ ∃ item, o = some item ∧ s.ptr = .live item := by
  unfold RfileStore.item
  cases hptr : s.ptr with
  | null => exact .inl ⟨rfl, rfl⟩
  | live item => exact .inr ⟨item, rfl, rfl⟩
  | dangling => trivial

/-- A handle that is held can be used. -/
theorem use_ok {handle : Nat} (h : s.handles.Balanced [handle]) : s.use handle = .ok () := by
  rw [RfileStore.use, if_pos (h.live List.mem_cons_self)]

/-- An action on an open item has its handle. -/
theorem whenOpen_ends (h : s.Kept) {act : RfileItem → Nat → Except RfileFault (RfileResult × RfileStore)}
    (hact : ∀ item file, s.ptr = .live item → item.file = some file → s.handles.Balanced [file] →
      item.state = .opened → item.filename ≠ none → (act item file).Ends RfileFault.Crash fun r => r.2.Kept) :
    (s.whenOpen act).Ends RfileFault.Crash fun r => r.2.Kept := by
  refine (item_ends s).bind ?_
  rintro o (⟨rfl, -⟩ | ⟨item, rfl, hptr⟩)
  · exact h
  · cases hfile : item.file with
    | none =>
      simp only [hfile]
      exact h
    | some file =>
      simp only [hfile]
      have hkept := h
      rw [RfileStore.Kept, hptr] at hkept
      obtain ⟨hbal, hstate, hname⟩ := hkept
      have hopen : item.state = .opened := hstate.mp (by simp [hfile])
      rw [hfile] at hbal
      rw [if_neg (not_not.mpr hopen)]
      exact hact item file hptr hfile hbal hopen hname

theorem init_ends (h : s.Kept) (access : Int) (alloc : RfileAlloc) (filepath : Option Obj) :
    (rfileInitItem access alloc filepath s).Ends RfileFault.Crash fun r => r.2.Kept := by
  unfold rfileInitItem
  by_cases hptr : s.ptr = .null
  · rw [if_neg (not_not.mpr hptr)]
    by_cases hexists : rfileExists access filepath = 0
    · rw [if_neg (not_not.mpr hexists)]
      by_cases hitem : alloc.item = false
      · rw [if_pos hitem]
        trivial
      · rw [if_neg hitem]
        rw [RfileStore.Kept, hptr] at h
        refine ⟨h, by simp, ?_⟩
        -- `rfile_exists` has refused a path that is `NULL`
        cases filepath with
        | none => exact absurd (show (-1 : Int) = 0 from hexists) (by decide)
        | some path =>
          show (if alloc.filename then some path else some []) ≠ none
          split <;> simp
    · rw [if_pos hexists]
      exact h
  · rw [if_pos hptr]
    exact h

theorem open_ends (h : s.Kept) (fopen : Obj → String → Option Nat) (mode : RfileOpenMode) (binary : Bool) :
    (rfileOpen fopen mode binary s).Ends RfileFault.Crash fun r => r.2.Kept := by
  refine (item_ends s).bind ?_
  rintro o (⟨rfl, -⟩ | ⟨item, rfl, hptr⟩)
  · exact h
  have hkept := h
  rw [RfileStore.Kept, hptr] at hkept
  obtain ⟨hbal, hstate, hname⟩ := hkept
  obtain ⟨filename, hfilename⟩ := Option.ne_none_iff_exists'.mp hname
  simp only [hfilename]
  by_cases hopen : item.state = .opened
  · rw [if_pos hopen]
    exact h
  · rw [if_neg hopen]
    have hfile : item.file = none := by
      by_contra hfile
      exact hopen (hstate.mp hfile)
    rw [hfile] at hbal
    cases hnew : fopen filename (mode.openOp binary) with
    | none => exact ⟨hbal, by simp [hopen], by simp⟩
    | some handle => exact ⟨hbal.make (some handle), by simp, by simp⟩

theorem close_ends (h : s.Kept) : (rfileClose s).Ends RfileFault.Crash fun r => r.2.Kept := by
  refine whenOpen_ends h fun item file hptr hfile hbal hopen hname => ?_
  have huse := use_ok hbal
  simp only [RfileStore.fclose, huse, bind, Except.bind, Except.map]
  have hfreed : (s.handles.free (some file)).Balanced [] := Ledger.Balanced.free (x := some file) hbal
  exact ⟨hfreed, by simp, hname⟩

/-- No call uses a handle that is not open. -/
theorem run_ends (h : s.Kept) (call : RfileCall) : (call.run s).Ends RfileFault.Crash fun r => r.2.Kept := by
  cases call with
  | init access alloc filepath => exact init_ends h access alloc filepath
  | «open» fopen mode binary => exact open_ends h fopen mode binary
  | read fread cacheSize =>
    refine whenOpen_ends h fun item file hptr hfile hbal hopen hname => ?_
    rw [use_ok hbal]
    exact h
  | write fwrite data bufferSize =>
    refine whenOpen_ends h fun item file hptr hfile hbal hopen hname => ?_
    have hsize : (writeSize data bufferSize).Ends RfileFault.Crash fun _ => True := by
      unfold writeSize
      split
      · split <;> trivial
      · trivial
    refine hsize.bind fun size _ => ?_
    rw [use_ok hbal]
    exact h
  | flush =>
    refine whenOpen_ends h fun item file hptr hfile hbal hopen hname => ?_
    rw [use_ok hbal]
    exact h
  | close => exact close_ends h
  | uninit =>
    refine (item_ends s).bind ?_
    rintro o (⟨rfl, -⟩ | ⟨item, rfl, hptr⟩)
    · exact h
    · dsimp only
      split
      · exact h
      · trivial

end RfileCall

/-! ### The whole sequence -/

open RfileCall in
theorem rfileRun_ends (calls : List RfileCall) :
    (rfileRun calls .start).Ends RfileFault.Crash RfileStore.Kept :=
  Except.Ends.forEach (I := fun _ => RfileStore.Kept) (fun call _ _ hs => (run_ends hs call).map)
    Ledger.balanced_empty

/-- A live item is freed, with its handle as it is. -/
theorem uninit_live {s : RfileStore} {item : RfileItem} (hptr : s.ptr = .live item) (hname : item.filename ≠ none) :
    rfileUninitItem s = .ok (rfileOk, ⟨.dangling, s.handles⟩) := by
  simp only [rfileUninitItem, RfileStore.item, hptr, bind, Except.bind]
  rw [if_neg hname, if_neg (by decide)]
  rfl

/-- The last call: the handles are closed then, unless the item is open. -/
theorem uninit_handlesClosedOnce_iff {s : RfileStore} (h : s.Kept) :
    HandlesClosedOnce ((rfileUninitItem s).map fun r => r.2) ↔ ¬ s.IsOpen := by
  unfold RfileStore.IsOpen
  unfold RfileStore.Kept at h
  cases hptr : s.ptr with
  | null =>
    rw [hptr] at h
    simp only [rfileUninitItem, RfileStore.item, hptr]
    exact iff_of_true h.settled fun ⟨item, hlive, _⟩ => nomatch hlive
  | dangling =>
    simp only [rfileUninitItem, RfileStore.item, hptr]
    exact iff_of_true trivial fun ⟨item, hlive, _⟩ => nomatch hlive
  | live item =>
    rw [hptr] at h
    obtain ⟨hbal, hstate, hname⟩ := h
    rw [uninit_live hptr hname]
    simp only [RfilePtr.live.injEq, exists_eq_left', ← hstate, not_not]
    constructor
    · intro hsettled
      by_contra hfile
      exact hbal.not_settled (by simpa using hfile) hsettled
    · intro hfile
      rw [hfile] at hbal
      exact hbal.settled

theorem rfileRun_uninit (calls : List RfileCall) (s : RfileStore) : rfileRun (calls ++ [.uninit]) s =
    (rfileRun calls s).bind fun s => (rfileUninitItem s).map fun r => r.2 := by
  rw [rfileRun, Except.forEach_append]
  congr 1
  funext s
  simp only [Except.forEach, RfileCall.run]
  cases rfileUninitItem s <;> rfl

/-- Every sequence that ends with `rfile_uninit_item` closes each handle exactly once, unless the item is open
then. -/
theorem handlesClosedOnce_iff (calls : List RfileCall) : HandlesClosedOnce (rfileRun (calls ++ [.uninit]) .start) ↔
    ∀ s, rfileRun calls .start = .ok s → ¬ s.IsOpen := by
  have hends := rfileRun_ends calls
  rw [rfileRun_uninit]
  cases hrun : rfileRun calls .start with
  | error f =>
    rw [hrun] at hends
    refine iff_of_true ?_ fun s hs => nomatch hs
    cases f with
    | crash f => trivial
    | notOpen handle => exact hends.elim
  | ok s =>
    rw [hrun] at hends
    simp only [Except.bind, Except.ok.injEq, forall_eq']
    exact uninit_handlesClosedOnce_iff hends

/-- An item that is opened and released. -/
def openAndUninit : List RfileCall :=
  [.init (-1) ⟨true, true⟩ (some [97]), .open (fun _ _ => some 3) .write false, .uninit]

/-- The file is not closed. -/
theorem uninit_leaks_handle : ¬ ∀ calls : List RfileCall, HandlesClosedOnce (rfileRun (calls ++ [.uninit]) .start) := by
  intro hall
  have hrun : rfileRun openAndUninit .start = .ok ⟨.dangling, ⟨[3], []⟩⟩ := by rfl
  have hclosed : HandlesClosedOnce (rfileRun openAndUninit .start) := hall openAndUninit.dropLast
  rw [hrun] at hclosed
  exact absurd hclosed.length_eq (by decide)

end Funra
