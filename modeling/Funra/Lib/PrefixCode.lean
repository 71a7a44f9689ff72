import Mathlib.Data.List.Basic

/-!
# Prefix codes

In a prefix code no codeword begins with another one (`IsPrefixCode`), so a word has one longest front made of
codewords: `Split enc w xs tail` says that `w` begins with the codewords of `xs`, and that no codeword begins the
rest (`Split.unique`).
-/

namespace PrefixCode

variable {α β : Type*} {enc : α → List β} {w tail tail' : List β} {x : α} {xs ys : List α}

/-- What follows a codeword does not change which one it is. -/
structure IsPrefixCode (enc : α → List β) : Prop where
  inj : ∀ {x y r s}, enc x ++ r = enc y ++ s → x = y

/-- Some codeword is at the front. -/
def Begins (enc : α → List β) (w : List β) : Prop := ∃ x rest, w = enc x ++ rest

structure Split (enc : α → List β) (w : List β) (xs : List α) (tail : List β) : Prop where
  eq : w = (xs.map enc).flatten ++ tail
  maximal : ¬ Begins enc tail

theorem Split.nil (h : ¬ Begins enc w) : Split enc w [] w := ⟨rfl, h⟩

theorem Split.cons (h : Split enc w xs tail) (x : α) : Split enc (enc x ++ w) (x :: xs) tail :=
  ⟨by rw [h.eq]; simp, h.maximal⟩

theorem Split.unique (h : IsPrefixCode enc) (h₁ : Split enc w xs tail) (h₂ : Split enc w ys tail') :
    xs = ys ∧ tail = tail' := by
  induction xs generalizing w ys with
  | nil =>
    obtain rfl : w = tail := h₁.eq
    cases ys with
    | nil => exact ⟨rfl, h₂.eq⟩
    | cons y ys => exact absurd ⟨y, _, by rw [h₂.eq]; simp; rfl⟩ h₁.maximal
  | cons x xs ih =>
    have hw := h₁.eq
    rw [List.map_cons, List.flatten_cons, List.append_assoc] at hw
    cases ys with
    | nil =>
      obtain rfl : w = tail' := h₂.eq
      exact absurd ⟨x, _, hw⟩ h₂.maximal
    | cons y ys =>
      have hw' := h₂.eq
      rw [List.map_cons, List.flatten_cons, List.append_assoc] at hw'
      obtain rfl := h.inj (hw.symm.trans hw')
      have hrest := List.append_cancel_left (hw.symm.trans hw')
      obtain ⟨rfl, rfl⟩ := ih (w := _) ⟨rfl, h₁.maximal⟩ ⟨hrest, h₂.maximal⟩
      exact ⟨rfl, rfl⟩

end PrefixCode
