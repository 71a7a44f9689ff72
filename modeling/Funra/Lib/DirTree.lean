import Mathlib.Data.List.Perm.Basic

/-!
# Directory trees

The entries of a directory come one after the other, each a file or a directory with its own tree. A directory is found
from the root by the names on the way. `follow` goes along the components of a path, of which two, `here` and `up`, are
no names.
-/

inductive DirTree (ν : Type*) where
  | empty
  | file (name : ν) (rest : DirTree ν)
  | dir (name : ν) (inside rest : DirTree ν)
  deriving DecidableEq

namespace DirTree

variable {ν : Type*} {P : ν → Prop} {t d : DirTree ν} {name here up c : ν} {pos cs : List ν}

/-- The name of an entry, and if it is a directory. -/
def entries : DirTree ν → List (ν × Bool)
  | empty => []
  | file name rest => (name, false) :: rest.entries
  | dir name _ rest => (name, true) :: rest.entries

def names (t : DirTree ν) : List ν := t.entries.map Prod.fst

/-- The names are good ones, each only once in a directory. -/
def Valid (P : ν → Prop) : DirTree ν → Prop
  | empty => True
  | file name rest => P name ∧ name ∉ rest.names ∧ rest.Valid P
  | dir name inside rest => P name ∧ name ∉ rest.names ∧ inside.Valid P ∧ rest.Valid P

def children (onlyFile : Bool) (t : DirTree ν) : List ν :=
  (t.entries.filter fun e => !(onlyFile && e.2)).map Prod.fst

/-- At any depth. -/
def descendants (onlyFile : Bool) : DirTree ν → List ν
  | empty => []
  | file name rest => name :: rest.descendants onlyFile
  | dir name inside rest => (if onlyFile then [] else [name]) ++ inside.descendants onlyFile ++ rest.descendants onlyFile

theorem descendants_eq_children (h : ∀ e ∈ t.entries, e.2 = false) (onlyFile : Bool) :
    t.descendants onlyFile = t.children onlyFile := by
  induction t with
  | empty => rfl
  | file name rest ih =>
    rw [entries, List.forall_mem_cons] at h
    simp [descendants, children, entries, ih h.2]
  | dir name inside rest ihInside ih => exact absurd (h (name, true) List.mem_cons_self) Bool.noConfusion

theorem Valid.mem (h : t.Valid P) : ∀ e ∈ t.entries, P e.1 := by
  induction t with
  | empty => simp [entries]
  | file name rest ih => exact List.forall_mem_cons.mpr ⟨h.1, ih h.2.2⟩
  | dir name inside rest ihInside ih => exact List.forall_mem_cons.mpr ⟨h.1, ih h.2.2.2⟩

variable [DecidableEq ν]

def find (name : ν) : DirTree ν → Option (DirTree ν)
  | empty => none
  | file _ rest => rest.find name
  | dir n inside rest => if n = name then some inside else rest.find name

theorem find_eq_none (h : name ∉ t.names) : t.find name = none := by
  induction t with
  | empty => rfl
  | file n rest ih => exact ih fun hmem => h (List.mem_cons_of_mem n hmem)
  | dir n inside rest ihInside ih =>
    rw [find, if_neg]
    · exact ih fun hmem => h (List.mem_cons_of_mem n hmem)
    · rintro rfl
      exact h List.mem_cons_self

/-- The directory at a position. -/
def walk (t : DirTree ν) (pos : List ν) : Option (DirTree ν) := pos.foldlM (fun d name => d.find name) t

def step (t : DirTree ν) (here up : ν) (pos : List ν) (c : ν) : Option (List ν) :=
  if c = here then some pos
  else if c = up then some pos.dropLast
  else if (t.walk (pos ++ [c])).isSome then some (pos ++ [c])
  else none

def follow (t : DirTree ν) (here up : ν) (pos cs : List ν) : Option (List ν) := cs.foldlM (t.step here up) pos

@[simp] theorem walk_nil (t : DirTree ν) : t.walk [] = some t := rfl

@[simp] theorem walk_singleton (t : DirTree ν) (name : ν) : t.walk [name] = t.find name := by
  simp [walk]

theorem walk_concat (t : DirTree ν) (pos : List ν) (name : ν) :
    t.walk (pos ++ [name]) = (t.walk pos).bind fun d => d.find name := by
  simp [walk, List.foldlM_append]

theorem Valid.find (h : t.Valid P) (hfind : t.find name = some d) : d.Valid P := by
  induction t with
  | empty => exact absurd hfind.symm (Option.some_ne_none d)
  | file n rest ih => exact ih h.2.2 hfind
  | dir n inside rest ihInside ih =>
    rw [DirTree.find] at hfind
    split at hfind
    · exact Option.some.inj hfind ▸ h.2.2.1
    · exact ih h.2.2.2 hfind

theorem Valid.walk (h : t.Valid P) (hwalk : t.walk pos = some d) : d.Valid P := by
  induction pos generalizing t with
  | nil => exact Option.some.inj hwalk ▸ h
  | cons name pos ih =>
    rw [DirTree.walk, List.foldlM_cons] at hwalk
    obtain ⟨s, hfind, hrest⟩ := Option.bind_eq_some_iff.mp hwalk
    exact ih (h.find hfind) hrest

/-- From the root, a path without a name that is found there only ever leads back to it. -/
theorem follow_root (h : ∀ c ∈ cs, t.find c = none) : t.follow here up [] cs = none ∨ t.follow here up [] cs = some [] := by
  induction cs with
  | nil => exact Or.inr rfl
  | cons c cs ih =>
    rw [List.forall_mem_cons] at h
    rw [follow, List.foldlM_cons, step, List.nil_append, walk_singleton, h.1]
    split
    · exact ih h.2
    · split
      · exact ih h.2
      · exact Or.inl rfl

theorem follow_name (hhere : name ≠ here) (hup : name ≠ up) (hfind : t.find name = some d) :
    t.follow here up [] [name] = some [name] := by
  simp [follow, step, hhere, hup, hfind]

end DirTree
