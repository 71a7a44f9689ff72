import Funra.Lib.Except
import Funra.Rbuffer.Basic
import Mathlib.Logic.Function.Basic

/-!
# The memory of the buffers

`read_cache` and `write_buff` are pointers. An access through one, and its release, is a fault where nothing
is allocated.
-/

namespace Funra

open Mem Except

/-- `read_cache_size`, `write_buff_size`. -/
def cacheSize : Int := 65536

abbrev BufferMemory := Nat → Option Rbuffer

/-- What `malloc` yields for a buffer: the address, and the block of its data. -/
abbrev BufferAlloc := Option (Nat × Obj)

/-- What a `process` makes of its buffer, with its code; `none` where there is no handler. -/
abbrev HandlerResult := Option (Int × Rbuffer)

namespace BufferMemory

def get (mem : BufferMemory) (p : Option Nat) : Except Fault Rbuffer :=
  match p with
  | none => .error .nullDeref
  | some a =>
    match mem a with
    | none => .error .useAfterFree
    | some d => .ok d

def set (mem : BufferMemory) (p : Option Nat) (d : Rbuffer) : Except Fault BufferMemory :=
  match p with
  | none => .error .nullDeref
  | some a =>
    match mem a with
    | none => .error .useAfterFree
    | some _ => .ok (Function.update mem a (some d))

/-- `rbuffer_release`, which takes `NULL`. -/
def release (mem : BufferMemory) (p : Option Nat) : Except Fault BufferMemory :=
  match p with
  | none => .ok mem
  | some a =>
    match mem a with
    | none => .error .useAfterFree
    | some _ => .ok (Function.update mem a none)

/-- `rbuffer_init` of a pointer that is `NULL`. -/
def create (mem : BufferMemory) (alloc : BufferAlloc) : Except Fault (Nat × BufferMemory) :=
  match alloc with
  | none => .error .nullDeref
  | some (a, block) => .ok (a, Function.update mem a (some (Rbuffer.create cacheSize block)))

/-- `handler->process` on the buffer behind `p`. -/
def process (mem : BufferMemory) (result : HandlerResult) (p : Option Nat) :
    Except Fault (Int × BufferMemory) :=
  match result with
  | none => .ok (0, mem)
  | some (code, d) => (mem.set p d).map fun mem => (code, mem)

variable {mem : BufferMemory} {a c d : Nat} {data : Rbuffer}

theorem get_live (h : mem a ≠ none) : ∃ data, mem.get (some a) = .ok data := by
  obtain ⟨data, hdata⟩ := Option.ne_none_iff_exists'.mp h
  exact ⟨data, by simp only [get, hdata]⟩

theorem set_live (h : mem a ≠ none) (data : Rbuffer) :
    mem.set (some a) data = .ok (Function.update mem a (some data)) := by
  obtain ⟨old, hold⟩ := Option.ne_none_iff_exists'.mp h
  simp only [set, hold]

theorem release_live (h : mem a ≠ none) : mem.release (some a) = .ok (Function.update mem a none) := by
  obtain ⟨old, hold⟩ := Option.ne_none_iff_exists'.mp h
  simp only [release, hold]

/-- A buffer that is assigned stays the only one at its address. -/
theorem update_live (h : mem a ≠ none) (data : Rbuffer) (x : Nat) :
    Function.update mem a (some data) x ≠ none ↔ mem x ≠ none := by
  by_cases hx : x = a
  · subst hx
    exact iff_of_true (by simp) h
  · rw [Function.update_of_ne hx]

/-- What a handler leaves: the same buffers, live. -/
theorem process_live (result : HandlerResult) (h : mem a ≠ none) :
    (mem.process result (some a)).Succeeds fun r => ∀ x, r.2 x ≠ none ↔ mem x ≠ none := by
  rcases result with _ | ⟨code, data⟩
  · exact .ok fun x => Iff.rfl
  · rw [process, set_live h]
    exact .ok (update_live h data)

/-- Two buffers are released one after the other. -/
theorem release_two (hc : mem c ≠ none) (hd : mem d ≠ none) (hne : c ≠ d) :
    (mem.release (some c)).bind (fun mem => mem.release (some d)) =
      .ok (Function.update (Function.update mem c none) d none) := by
  rw [release_live hc]
  apply release_live
  rw [Function.update_of_ne hne.symm]
  exact hd

theorem release_dead {mem' : BufferMemory} {p : Option Nat} (hrun : mem.release p = .ok mem') (h : mem a = none) :
    mem' a = none := by
  rcases p with _ | c
  · cases hrun
    exact h
  · simp only [release] at hrun
    split at hrun
    · simp at hrun
    · cases hrun
      by_cases hac : a = c
      · simp [hac]
      · rw [Function.update_of_ne hac, h]

/-- Two releases leave the memory as it was just when both pointers are `NULL`. -/
theorem release_self_iff {p q : Option Nat} :
    ((mem.release p).bind fun mem' => mem'.release q) = .ok mem ↔ p = none ∧ q = none := by
  constructor
  · intro h
    obtain ⟨mem', hrun, hrun'⟩ := Except.of_bind_ok h
    have hdead : ∀ c, mem c ≠ none → mem' c ≠ none := fun c hc hnone => hc (release_dead hrun' hnone)
    rcases p with _ | c
    · cases hrun
      rcases q with _ | d
      · exact ⟨rfl, rfl⟩
      · simp only [release] at hrun'
        split at hrun'
        · simp at hrun'
        · rename_i hsome
          have heq := congrFun (Except.ok.inj hrun') d
          simp [hsome] at heq
    · simp only [release] at hrun
      split at hrun
      · simp at hrun
      · rename_i hsome
        cases hrun
        exact absurd (Function.update_self ..) (hdead c (by simp [hsome]))
  · rintro ⟨rfl, rfl⟩
    rfl

end BufferMemory

end Funra
