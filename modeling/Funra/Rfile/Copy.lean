import Mathlib.Logic.Function.Basic
import Funra.Lib.Ledger
import Funra.Lib.Loop
import Funra.Lib.Mem

/-!
# Copying and moving a file

`rassert_goto` jumps when its condition is false. `rfile_copy_file` writes `sfp == NULL` and `dfp == NULL` where it means
the opposite: it leaves with an error as soon as one of the two files is open, and goes on to read when neither is.
-/

namespace Funra

open Mem Except Ownership

/-- What the calls do: whether the two files can be opened, and the n-th read, write and close. A read or a write that
fails has got so many bytes over before. -/
structure FileCalls where
  readable : Bool
  writable : Bool
  read : Nat → Option Nat
  write : Nat → Option Nat
  close : Nat → Bool
  unlink : Bool

/-- The files by name, the handles, and how many calls there have been. -/
structure FileSys where
  content : Obj → Option Obj
  handles : Ledger Nat
  reads : Nat
  writes : Nat
  closes : Nat

def FileSys.start (content : Obj → Option Obj) : FileSys := ⟨content, .empty, 0, 0, 0⟩

/-- `FILE`. -/
structure Stream where
  handle : Nat
  name : Obj
  pos : Nat
  deriving DecidableEq

namespace FileCalls

/-- The file is there, and can be opened. -/
def Opens (os : FileCalls) (content : Obj → Option Obj) (src : Obj) : Prop := os.readable = true ∧ (content src).isSome

instance (os : FileCalls) (content : Obj → Option Obj) (src : Obj) : Decidable (os.Opens content src) :=
  inferInstanceAs (Decidable (_ ∧ _))

/-- "rb". -/
def fopenRead (os : FileCalls) (name : Obj) (w : FileSys) : Option Stream × FileSys :=
  if os.Opens w.content name then
    (some ⟨w.handles.made.length, name, 0⟩, { w with handles := w.handles.make (some w.handles.made.length) })
  else (none, w)

/-- "wb+". -/
def fopenWrite (os : FileCalls) (name : Obj) (w : FileSys) : Option Stream × FileSys :=
  if os.writable then
    (some ⟨w.handles.made.length, name, 0⟩,
      { w with content := Function.update w.content name (some []), handles := w.handles.make (some w.handles.made.length) })
  else (none, w)

def fread (os : FileCalls) (size : Nat) (fp : Option Stream) (w : FileSys) : Except Fault (Obj × Option Stream × FileSys) :=
  match fp with
  | none => .error .nullDeref
  | some s =>
    let buf := window ((w.content s.name).getD []) s.pos (min size ((os.read w.reads).getD size))
    .ok (buf, some { s with pos := s.pos + buf.length }, { w with reads := w.reads + 1 })

def fwrite (os : FileCalls) (buf : Obj) (fp : Option Stream) (w : FileSys) : Except Fault (Nat × Option Stream × FileSys) :=
  match fp with
  | none => .error .nullDeref
  | some s =>
    let put := buf.take ((os.write w.writes).getD buf.length)
    .ok (put.length, some { s with pos := s.pos + put.length },
      { w with content := Function.update w.content s.name ((w.content s.name).map fun c => overwrite c s.pos put)
               writes := w.writes + 1 })

def fclose (os : FileCalls) (fp : Option Stream) (w : FileSys) : Except Fault (Int × FileSys) :=
  match fp with
  | none => .error .nullDeref
  | some s =>
    if w.handles.Live s.handle then
      .ok (if os.close w.closes then 0 else -1, { w with handles := w.handles.free (some s.handle), closes := w.closes + 1 })
    else .error .useAfterFree

end FileCalls

/-- From `exit1` on. -/
def copyExit (os : FileCalls) (sfp dfp : Option Stream) (w : FileSys) : Except Fault (Int × FileSys) := do
  let w ← if sfp.isSome then (os.fclose sfp w).map Prod.snd else .ok w
  let w ← if dfp.isSome then (os.fclose dfp w).map Prod.snd else .ok w
  return (1, w)

/-- The loop leaves with `true` at the end of the file, with `false` for `exit1`. -/
def copyRound (os : FileCalls) (s : Option Stream × Option Stream × FileSys) :
    Except Fault ((Option Stream × Option Stream × FileSys) ⊕ (Bool × Option Stream × Option Stream × FileSys)) := do
  let (buf, sfp, w) ← os.fread 4096 s.1 s.2.2
  if buf.length = 0 then return .inr (true, sfp, s.2.1, w)
  let (count, dfp, w) ← os.fwrite buf s.2.1 w
  if count ≠ 0 then return .inl (sfp, dfp, w) else return .inr (false, sfp, dfp, w)

/-- Each `rassert_goto` has its condition as it stands in the source. -/
def rfileCopyFile (os : FileCalls) (fuel : Nat) (src dst : Option Obj) (w : FileSys) : Except Fault (Int × FileSys) :=
  match src, dst with
  | some src, some dst => do
    let (sfp, w) := os.fopenRead src w
    if ¬ sfp = none then copyExit os sfp none w
    else
      let (dfp, w) := os.fopenWrite dst w
      if ¬ dfp = none then copyExit os sfp dfp w
      else
        let (whole, sfp, dfp, w) ← loop .outOfFuel (copyRound os) fuel (sfp, dfp, w)
        if ¬ whole then copyExit os sfp dfp w
        else
          let (rv, w) ← os.fclose sfp w
          if ¬ rv = 0 then copyExit os sfp dfp w
          else
            let (rv, w) ← os.fclose dfp w
            if ¬ rv = 0 then copyExit os none dfp w else return (0, w)
  | _, _ => copyExit os none none w

def rfileRemove (os : FileCalls) (file : Option Obj) (w : FileSys) : Int × FileSys :=
  match file with
  | none => (-1, w)
  | some file => if os.unlink ∧ (w.content file).isSome then (0, { w with content := Function.update w.content file none }) else (-1, w)

def rfileMoveFile (os : FileCalls) (fuel : Nat) (src dst : Option Obj) (w : FileSys) : Except Fault (Int × FileSys) := do
  if src = none ∨ dst = none then return (-1, w)
  else
    let (rv, w) ← rfileCopyFile os fuel src dst w
    if ¬ rv = 0 then return (-1, w)
    else
      let (rv, w) := rfileRemove os src w
      if ¬ rv = 0 then return (-1, w) else return (0, w)

variable {os : FileCalls} {content : Obj → Option Obj} {src dst : Obj}

/-! ### The three ways -/

/-- The copy leaves with the error once it has opened the source. -/
theorem copy_opens (h : os.Opens content src) (dst : Obj) (fuel : Nat) :
    rfileCopyFile os fuel (some src) (some dst) (.start content) = .ok (1, ⟨content, ⟨[0], [0]⟩, 0, 0, 1⟩) := by
  have hopen : os.fopenRead src (.start content) = (some ⟨0, src, 0⟩, ⟨content, ⟨[0], []⟩, 0, 0, 0⟩) := if_pos h
  simp only [rfileCopyFile, hopen]
  rfl

/-- It has opened the destination, which is empty now. -/
theorem copy_creates (h : ¬ os.Opens content src) (hdst : os.writable = true) (fuel : Nat) :
    rfileCopyFile os fuel (some src) (some dst) (.start content) =
      .ok (1, ⟨Function.update content dst (some []), ⟨[0], [0]⟩, 0, 0, 1⟩) := by
  have hopen : os.fopenRead src (.start content) = (none, .start content) := if_neg h
  have hcreate : os.fopenWrite dst (.start content) =
      (some ⟨0, dst, 0⟩, ⟨Function.update content dst (some []), ⟨[0], []⟩, 0, 0, 0⟩) := if_pos hdst
  simp only [rfileCopyFile, hopen, hcreate]
  rfl

/-- It reads from NULL. -/
theorem copy_crashes (h : ¬ os.Opens content src) (hdst : os.writable = false) (fuel : Nat) :
    (rfileCopyFile os fuel (some src) (some dst) (.start content)).Returns fun _ => False := by
  have hopen : os.fopenRead src (.start content) = (none, .start content) := if_neg h
  have hcreate : os.fopenWrite dst (.start content) = (none, .start content) := if_neg (by simp [hdst])
  simp only [rfileCopyFile, hopen, hcreate]
  rcases fuel with _ | fuel <;> exact Returns.error

theorem move_of_copy {rv : Int} {w : FileSys} {fuel : Nat}
    (h : rfileCopyFile os fuel (some src) (some dst) (.start content) = .ok (rv, w))
    (hrv : rv ≠ 0) : rfileMoveFile os fuel (some src) (some dst) (.start content) = .ok (-1, w) := by
  simp only [rfileMoveFile, h, bind, ok_bind, if_pos hrv]
  rfl

/-! ### The law -/

/-- Every read and write of a copy of `size` bytes gets all bytes over; behind the last block there is one more read. -/
def FileCalls.Complete (os : FileCalls) (size : Nat) : Prop :=
  (∀ n, n * 4096 < size + 4096 → os.read n = none) ∧ ∀ n, n * 4096 < size → os.write n = none

/-- Every read and write of a copy of the source. -/
def FileCalls.Copies (os : FileCalls) (content : Obj → Option Obj) (src : Obj) : Prop :=
  os.Complete ((content src).getD []).length

/-- A copy that returns ok is one; a source that cannot be opened costs nothing; a copy without a failure returns ok; and
every handle is closed once. -/
def CopyLaw (os : FileCalls) (content : Obj → Option Obj) (src dst : Obj) : Prop :=
  Halts (fun fuel => rfileCopyFile os fuel (some src) (some dst) (.start content)) fun (rv, w) =>
    (rv = 0 → w.content dst = content src ∧ w.content src = content src) ∧
    (¬ os.Opens content src → rv ≠ 0 ∧ w.content dst = content dst) ∧
    (os.Opens content src → os.writable = true → os.Copies content src → rv = 0) ∧ w.handles.Settled

/-- The source is removed only when the destination has its content. -/
def MoveLaw (os : FileCalls) (content : Obj → Option Obj) (src dst : Obj) : Prop :=
  Halts (fun fuel => rfileMoveFile os fuel (some src) (some dst) (.start content)) fun (_, w) =>
    (w.content src = none → content src = none ∨ w.content dst = content src) ∧ w.handles.Settled

theorem settled_zero : (⟨[0], [0]⟩ : Ledger Nat).Settled := List.Perm.refl _

theorem copyLaw_opens (h : os.Opens content src) (dst : Obj) :
    CopyLaw os content src dst ↔ ¬ (os.writable = true ∧ os.Copies content src) := by
  rw [CopyLaw, halts_iff (copy_opens h dst)]
  simp [h, settled_zero]

theorem copyLaw_creates (h : ¬ os.Opens content src) (hdst : os.writable = true) :
    CopyLaw os content src dst ↔ content dst = some [] := by
  rw [CopyLaw, halts_iff (copy_creates h hdst)]
  simp only [h, not_false_iff, forall_const, false_imp_iff, Function.update_self, settled_zero, and_true]
  simp [eq_comm (a := content dst)]

theorem moveLaw_opens (h : os.Opens content src) (dst : Obj) : MoveLaw os content src dst := by
  rw [MoveLaw, halts_iff fun fuel => move_of_copy (copy_opens h dst fuel) (by decide)]
  exact ⟨Or.inl, settled_zero⟩

theorem moveLaw_creates (h : ¬ os.Opens content src) (hdst : os.writable = true) : MoveLaw os content src dst := by
  rw [MoveLaw, halts_iff fun fuel => move_of_copy (copy_creates h hdst fuel) (by decide)]
  refine ⟨fun hnone : Function.update content dst (some []) src = none => Or.inl ?_, settled_zero⟩
  by_cases hsame : src = dst
  · rw [hsame, Function.update_self] at hnone
    exact absurd hnone (Option.some_ne_none [])
  · rwa [Function.update_of_ne hsame] at hnone

/-- Copying and moving do what they should when the source can be opened and a later call fails, or when it cannot and the
destination is empty as it is. -/
theorem copyLaw_iff (os : FileCalls) (content : Obj → Option Obj) (src dst : Obj) :
    CopyLaw os content src dst ∧ MoveLaw os content src dst ↔
      os.Opens content src ∧ ¬ (os.writable = true ∧ os.Copies content src) ∨
      ¬ os.Opens content src ∧ os.writable = true ∧ content dst = some [] := by
  by_cases hsrc : os.Opens content src
  · rw [copyLaw_opens hsrc, and_iff_left (moveLaw_opens hsrc dst)]
    simp [hsrc]
  · by_cases hdst : os.writable = true
    · rw [copyLaw_creates hsrc hdst, and_iff_left (moveLaw_creates hsrc hdst)]
      simp [hsrc, hdst]
    · have hcrash : ¬ CopyLaw os content src dst := not_halts (copy_crashes hsrc (Bool.eq_false_iff.mpr hdst))
      simp [hsrc, hdst, hcrash]

/-- "a" holds a byte, "b" is not there, and every call succeeds. -/
theorem copy_good_file : ¬ ∀ os content src dst, src ≠ dst → CopyLaw os content src dst ∧ MoveLaw os content src dst := by
  intro h
  have hlaw := h ⟨true, true, fun _ => none, fun _ => none, fun _ => true, true⟩
    (fun name => if name = [97] then some [120] else none)
    [97] [98] (by decide)
  rw [copyLaw_opens ⟨rfl, rfl⟩] at hlaw
  exact hlaw.1 ⟨rfl, fun _ _ => rfl, fun _ _ => rfl⟩

end Funra
