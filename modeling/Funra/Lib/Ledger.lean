import Mathlib.Data.List.Perm.Basic

/-!
# What was made and what was freed

A ledger lists the objects that were made and the ones that were freed. For an owner that holds some of
them it is `Balanced` when the objects freed and the objects held are together the objects made, each as
often as it was made. So nothing is freed that was not made, nothing twice, and nothing that is held
(`Balanced.live`); an owner that holds nothing has freed everything (`Balanced.settled`).

An object may be made again after it was freed, as an allocator does with an address.
-/

namespace Ownership

structure Ledger (α : Type*) where
  made : List α
  freed : List α
  deriving DecidableEq, Repr

namespace Ledger

variable {α : Type*} {L : Ledger α} {held held' : List α} {a : α} {x : Option α}

def empty : Ledger α := ⟨[], []⟩

/-- `none` is no object. -/
def make (L : Ledger α) (x : Option α) : Ledger α := { L with made := x.toList ++ L.made }

def free (L : Ledger α) (x : Option α) : Ledger α := { L with freed := x.toList ++ L.freed }

def Balanced (L : Ledger α) (held : List α) : Prop := (L.freed ++ held).Perm L.made

/-- Everything made has been freed, and nothing else. -/
def Settled (L : Ledger α) : Prop := L.freed.Perm L.made

/-- It has been freed less often than it was made. -/
def Live [DecidableEq α] (L : Ledger α) (a : α) : Prop := L.freed.count a < L.made.count a

theorem balanced_empty : (empty : Ledger α).Balanced [] := List.Perm.refl _

theorem Balanced.perm (h : L.Balanced held) (hp : held.Perm held') : L.Balanced held' :=
  (hp.symm.append_left L.freed).trans h

theorem Balanced.make (h : L.Balanced held) (x : Option α) : (L.make x).Balanced (x.toList ++ held) := by
  show (L.freed ++ (x.toList ++ held)).Perm (x.toList ++ L.made)
  calc (L.freed ++ (x.toList ++ held)).Perm (x.toList ++ (L.freed ++ held)) := List.perm_append_comm_assoc ..
    List.Perm _ (x.toList ++ L.made) := h.append_left x.toList

theorem Balanced.free (h : L.Balanced (x.toList ++ held)) : (L.free x).Balanced held := by
  show (x.toList ++ L.freed ++ held).Perm L.made
  rw [List.append_assoc]
  exact (List.perm_append_comm_assoc ..).trans h

theorem Balanced.live [DecidableEq α] (h : L.Balanced held) (ha : a ∈ held) : L.Live a := by
  have hcount := List.Perm.count_eq h a
  rw [List.count_append] at hcount
  have hpos : 0 < held.count a := List.count_pos_iff.mpr ha
  show L.freed.count a < L.made.count a
  omega

theorem Balanced.live_iff [DecidableEq α] (h : L.Balanced held) : L.Live a ↔ a ∈ held := by
  refine ⟨fun hlive => ?_, h.live⟩
  have hcount := List.Perm.count_eq h a
  rw [List.count_append] at hcount
  have hlt : L.freed.count a < L.made.count a := hlive
  exact List.count_pos_iff.mp (by omega)

theorem Balanced.settled (h : L.Balanced []) : L.Settled := by
  unfold Balanced at h
  rwa [List.append_nil] at h

/-- What is still held has not been freed. -/
theorem Balanced.not_settled (h : L.Balanced held) (hheld : held ≠ []) : ¬ L.Settled := by
  intro hsettled
  have hlen := List.Perm.length_eq h
  have hlen' := List.Perm.length_eq hsettled
  have hpos := List.length_pos_iff.mpr hheld
  rw [List.length_append] at hlen
  omega

instance [DecidableEq α] (L : Ledger α) (a : α) : Decidable (L.Live a) := Nat.decLt _ _

instance [DecidableEq α] (L : Ledger α) : Decidable L.Settled :=
  inferInstanceAs (Decidable (List.Perm _ _))

end Ledger

end Ownership
