import Mathlib.Data.List.Basic

/-!
# Bounded queues

A queue of at most `capacity` elements. `push` takes the longest prefix of a block that fits, `pop` takes
elements off the front. A `Ledger` is a queue with everything it has accepted and delivered so far:
nothing is lost, invented or reordered (`Ledger.foldl_conserved`).
-/

structure BoundedQueue (α : Type*) where
  capacity : Nat
  items : List α
  fits : items.length ≤ capacity

namespace BoundedQueue

variable {α : Type*}

def empty (capacity : Nat) : BoundedQueue α := ⟨capacity, [], Nat.zero_le _⟩

def room (q : BoundedQueue α) : Nat := q.capacity - q.items.length

def push (q : BoundedQueue α) (xs : List α) : BoundedQueue α where
  capacity := q.capacity
  items := q.items ++ xs.take q.room
  fits := by
    have := q.fits
    simp only [List.length_append, List.length_take, room]
    omega

def pop (q : BoundedQueue α) (n : Nat) : BoundedQueue α where
  capacity := q.capacity
  items := q.items.drop n
  fits := by
    have := q.fits
    rw [List.length_drop]
    omega

inductive Action (α : Type*)
  | push (xs : List α)
  | pop (n : Nat)
  | idle

/-- A queue beside the elements it has accepted and those it has delivered. -/
structure Ledger (α : Type*) where
  queue : BoundedQueue α
  accepted : List α
  delivered : List α

namespace Ledger

def start (capacity : Nat) : Ledger α := ⟨BoundedQueue.empty capacity, [], []⟩

def next (l : Ledger α) : Action α → Ledger α
  | .push xs => ⟨l.queue.push xs, l.accepted ++ xs.take l.queue.room, l.delivered⟩
  | .pop n => ⟨l.queue.pop n, l.accepted, l.delivered ++ l.queue.items.take n⟩
  | .idle => l

/-- What went in is what came out and what is still held, in this order. -/
def Conserved (l : Ledger α) : Prop := l.delivered ++ l.queue.items = l.accepted

theorem start_conserved (capacity : Nat) : (start capacity : Ledger α).Conserved := rfl

theorem next_conserved {l : Ledger α} (h : l.Conserved) (a : Action α) : (l.next a).Conserved := by
  unfold Conserved at *
  rcases a with xs | n | _
  · simp only [next, push, ← h, List.append_assoc]
  · simp only [next, pop, List.append_assoc, List.take_append_drop, h]
  · exact h

theorem foldl_conserved {l : Ledger α} (h : l.Conserved) (as : List (Action α)) :
    (as.foldl next l).Conserved := by
  induction as generalizing l with
  | nil => exact h
  | cons a as ih => exact ih (next_conserved h a)

end Ledger

end BoundedQueue
