import Mathlib.Data.Set.Function
import Mathlib.Logic.Function.Basic

/-!
# Stores whose values move

A store has a value at some of its keys. Nothing is lost from one store to another when every value of the first is in the
second, under its own key or another, and no two of them are at the same.
-/

namespace Moves

open Function

variable {κ ι : Type*} {s s' s'' : κ → Option ι} {k new : κ}

def NoneLost (s s' : κ → Option ι) : Prop :=
  ∃ move : κ → κ, Set.InjOn move {k | (s k).isSome} ∧ ∀ k, (s k).isSome → s' (move k) = s k

theorem NoneLost.refl (s : κ → Option ι) : NoneLost s s := ⟨id, Set.injOn_id _, fun _ _ => rfl⟩

theorem NoneLost.trans (h : NoneLost s s') (h' : NoneLost s' s'') : NoneLost s s'' := by
  obtain ⟨move, hinj, hkeep⟩ := h
  obtain ⟨move', hinj', hkeep'⟩ := h'
  have hmaps : Set.MapsTo move {k | (s k).isSome} {k | (s' k).isSome} := by
    intro k hk
    show (s' (move k)).isSome
    rwa [hkeep k hk]
  refine ⟨move' ∘ move, hinj'.comp hinj hmaps, fun k hk => ?_⟩
  rw [comp_apply, hkeep' _ (hmaps hk), hkeep k hk]

theorem ne_of_isSome (hk : (s k).isSome) (hnew : s new = none) : k ≠ new := by
  rintro rfl
  rw [hnew] at hk
  exact Bool.noConfusion hk

variable [DecidableEq κ]

theorem noneLost_put (h : s new = none) (v : ι) : NoneLost s (update s new (some v)) :=
  ⟨id, Set.injOn_id _, fun _ hk => update_of_ne (ne_of_isSome hk h) _ _⟩

/-- A value is moved to a key that has none. -/
theorem noneLost_move (old : κ) (hnew : s new = none) : NoneLost s (update (update s old none) new (s old)) := by
  refine ⟨update id old new, ?_, fun k hk => ?_⟩
  · intro j hj k hk heq
    by_cases hjold : j = old <;> by_cases hkold : k = old
    · exact hjold.trans hkold.symm
    · rw [hjold, update_self, update_of_ne hkold] at heq
      exact absurd heq.symm (ne_of_isSome hk hnew)
    · rw [hkold, update_self, update_of_ne hjold] at heq
      exact absurd heq (ne_of_isSome hj hnew)
    · rwa [update_of_ne hjold, update_of_ne hkold] at heq
  · by_cases hkold : k = old
    · rw [hkold, update_self, update_self]
    · rw [update_of_ne hkold, id, update_of_ne (ne_of_isSome hk hnew), update_of_ne hkold]

end Moves
