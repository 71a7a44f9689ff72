import Funra.Lib.Mem
import Funra.Lib.Except

/-!
# Blocks

The heap is the list of the blocks there ever were; a freed one is `none`. An address is a place in it. A block that is
not there cannot be read, changed or freed. A heap that begins with an earlier one has all its blocks, unchanged.
-/

namespace Mem

abbrev Heap := List (Option Obj)

namespace Heap

variable {h h' t : Heap} {o : Obj} {a : Nat}

/-- The new block is behind the others. -/
def alloc (h : Heap) (o : Obj) : Nat × Heap := (h.length, h ++ [some o])

def read (h : Heap) (a : Nat) : Except Fault Obj :=
  match h[a]? with
  | some (some o) => .ok o
  | _ => .error .useAfterFree

def modify (h : Heap) (a : Nat) (f : Obj → Except Fault Obj) : Except Fault Heap := do
  return h.set a (some (← f (← read h a)))

def free (h : Heap) (a : Nat) : Except Fault Heap := do
  let _ ← read h a
  return h.set a none

theorem read_behind (h : Heap) (o : Obj) (t : Heap) : read (h ++ some o :: t) h.length = .ok o := by
  simp [read]

theorem modify_behind (h : Heap) (o : Obj) (t : Heap) (f : Obj → Except Fault Obj) :
    modify (h ++ some o :: t) h.length f = (f o).map fun o' => h ++ some o' :: t := by
  unfold modify
  rw [read_behind]
  simp only [bind, Except.ok_bind]
  cases f o with
  | error e => rfl
  | ok o' => simp [Except.bind, Except.map, pure, Except.pure]

theorem free_behind (h : Heap) (o : Obj) (t : Heap) : free (h ++ some o :: t) h.length = .ok (h ++ none :: t) := by
  unfold free
  rw [read_behind]
  simp [bind, Except.bind, pure, Except.pure]

theorem read_of_prefix (hread : read h a = .ok o) (hpre : h <+: h') : read h' a = .ok o := by
  obtain ⟨t, rfl⟩ := hpre
  have hlt : a < h.length := by
    by_contra hge
    rw [read, List.getElem?_eq_none (Nat.not_lt.mp hge)] at hread
    cases hread
  rw [read, List.getElem?_append_left hlt]
  exact hread

end Heap

end Mem
