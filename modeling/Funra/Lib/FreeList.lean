import Funra.Lib.Linked

/-!
# Free lists

The free cells of a store linked in a list: `Threads next first free` says that the links lead from `first`
through the free cells, all of them and no others. A cell is taken at the front and put back there (`Threads.take`,
`Threads.put`); a row of new cells is linked one to the next (`threads_row`).
-/

namespace FreeList

open Linked

section threads

variable {α : Type*} {next next' : α → Option (Option α)} {first : Option α} {free free' : α → Prop} {a : α}

def Threads (next : α → Option (Option α)) (first : Option α) (free : α → Prop) : Prop :=
  ∃ l, Path next first l none ∧ ∀ a, a ∈ l ↔ free a

theorem Threads.empty (h : Threads next none free) (a : α) : ¬ free a := by
  obtain ⟨l, hpath, hmem⟩ := h
  cases l with
  | nil => exact fun hfree => List.not_mem_nil ((hmem a).mpr hfree)
  | cons b l => cases hpath.1

theorem Threads.head (h : Threads next (some a) free) : free a := by
  obtain ⟨l, hpath, hmem⟩ := h
  cases l with
  | nil => cases hpath
  | cons b l =>
    obtain rfl := Option.some.inj hpath.1
    exact (hmem a).mp List.mem_cons_self

/-- The first cell is taken; the others keep their links. -/
theorem Threads.take (h : Threads next (some a) free) (hkeep : ∀ b, b ≠ a → free b → next' b = next b)
    (hfree : ∀ b, free' b ↔ free b ∧ b ≠ a) : ∃ r, next a = some r ∧ Threads next' r free' := by
  obtain ⟨l, hpath, hmem⟩ := h
  cases l with
  | nil => cases hpath
  | cons b l =>
    have hnodup := hpath.nodup
    obtain ⟨hhead, r, hr, hrest⟩ := hpath
    obtain rfl := Option.some.inj hhead
    have hout : a ∉ l := (List.nodup_cons.mp hnodup).1
    have hne : ∀ b ∈ l, b ≠ a := fun b hb heq => hout (heq ▸ hb)
    refine ⟨r, hr, l, hrest.congr fun b hb => hkeep b (hne b hb) ((hmem b).mp (List.mem_cons_of_mem _ hb)), fun b => ?_⟩
    rw [hfree, ← hmem, List.mem_cons]
    constructor
    · intro hb
      exact ⟨.inr hb, hne b hb⟩
    · rintro ⟨rfl | hb, hba⟩
      · exact absurd rfl hba
      · exact hb

/-- A cell that was in use is put in front. -/
theorem Threads.put (h : Threads next first free) (hlink : next' a = some first)
    (hkeep : ∀ b, free b → next' b = next b) (hfree : ∀ b, free' b ↔ b = a ∨ free b) :
    Threads next' (some a) free' := by
  obtain ⟨l, hpath, hmem⟩ := h
  refine ⟨a :: l, ⟨rfl, first, hlink, hpath.congr fun b hb => hkeep b ((hmem b).mp hb)⟩, fun b => ?_⟩
  rw [hfree, ← hmem, List.mem_cons]

end threads

/-- The cells `a`, …, `a + n` in this order. -/
theorem threads_row {next : Nat → Option (Option Nat)} {a n : Nat} {free : Nat → Prop}
    (hnext : ∀ i, i < n → next (a + i) = some (some (a + i + 1))) (hlast : next (a + n) = some none)
    (hfree : ∀ b, free b ↔ a ≤ b ∧ b ≤ a + n) : Threads next (some a) free := by
  refine ⟨List.range' a (n + 1), ?_, fun b => ?_⟩
  · induction n generalizing a free with
    | zero => exact ⟨rfl, none, hlast, rfl⟩
    | succ n ih =>
      rw [List.range'_succ]
      refine ⟨rfl, some (a + 1), hnext 0 (Nat.succ_pos n), ih (a := a + 1) (fun i hi => ?_) ?_ fun b => Iff.rfl⟩
      · have h := hnext (i + 1) (by omega)
        rwa [show a + (i + 1) = a + 1 + i by omega] at h
      · rwa [show a + (n + 1) = a + 1 + n by omega] at hlast
  · rw [hfree, List.mem_range'_1]
    omega

end FreeList
