import Mathlib.Data.List.Basic

/-!
# The mutexes a thread holds

`lock` and `unlock` act on the list of mutexes held, the last taken first. A normal mutex cannot be taken
again by its owner, a recursive one is held as often as it was taken; and a mutex is given back only while it
is held.
-/

namespace Locks

variable {μ : Type*} [DecidableEq μ]

inductive Kind
  | normal | recursive
  deriving DecidableEq

inductive Fault
  /-- It waits for itself. -/
  | deadlock
  | notHeld
  deriving DecidableEq

def lock (kind : Kind) (m : μ) (held : List μ) : Except Fault (List μ) :=
  if m ∈ held ∧ kind = .normal then .error .deadlock else .ok (m :: held)

def unlock (m : μ) (held : List μ) : Except Fault (List μ) :=
  if m ∈ held then .ok (held.erase m) else .error .notHeld

variable {kind : Kind} {m : μ} {held held' : List μ}

theorem lock_ok (h : m ∉ held) : lock kind m held = .ok (m :: held) := if_neg fun hor => h hor.1

theorem lock_held (h : m ∈ held) : lock .normal m held = .error .deadlock := if_pos ⟨h, rfl⟩

theorem lock_eq_ok (h : lock kind m held = .ok held') : held' = m :: held := by
  unfold lock at h
  split at h
  · cases h
  · exact (Except.ok.inj h).symm

/-- The last mutex taken. -/
theorem unlock_head (m : μ) (held : List μ) : unlock m (m :: held) = .ok held := by
  rw [unlock, if_pos List.mem_cons_self, List.erase_cons_head]

theorem unlock_not_held (h : m ∉ held) : unlock m held = .error .notHeld := if_neg h

end Locks
