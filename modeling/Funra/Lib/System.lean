import Mathlib.Tactic.TypeStar

/-!
# Runs of a labelled transition system

`Steps step s ls s'`: the labels `ls` take `s` to `s'`. `Guarded P step` allows only the steps whose
source state and label satisfy `P`. `Steps.invariant` is induction over a run, `Steps.simulate` the
same for a relation to a deterministic abstract system.
-/

namespace System

variable {σ ι α : Type*}

inductive Steps (step : σ → ι → σ → Prop) : σ → List ι → σ → Prop
  | nil (s : σ) : Steps step s [] s
  | cons {s s' s'' : σ} {l : ι} {ls : List ι} :
      step s l s' → Steps step s' ls s'' → Steps step s (l :: ls) s''

/-- The steps taken from a state and with a label satisfying `P`. -/
def Guarded (P : σ → ι → Prop) (step : σ → ι → σ → Prop) (s : σ) (l : ι) (s' : σ) : Prop :=
  P s l ∧ step s l s'

variable {step : σ → ι → σ → Prop}

theorem Steps.invariant {I : σ → Prop} (hstep : ∀ {s l s'}, I s → step s l s' → I s')
    {s s' : σ} {ls : List ι} (hrun : Steps step s ls s') (h : I s) : I s' := by
  induction hrun with
  | nil s => exact h
  | cons hfirst _ ih => exact ih (hstep h hfirst)

theorem Steps.append {s s' s'' : σ} {ls ls' : List ι} (hrun : Steps step s ls s')
    (hrun' : Steps step s' ls' s'') : Steps step s (ls ++ ls') s'' := by
  induction hrun with
  | nil s => exact hrun'
  | cons hfirst _ ih => exact .cons hfirst (ih hrun')

theorem Steps.of_append {s s'' : σ} {ls ls' : List ι} (hrun : Steps step s (ls ++ ls') s'') :
    ∃ s', Steps step s ls s' ∧ Steps step s' ls' s'' := by
  induction ls generalizing s with
  | nil => exact ⟨s, .nil s, hrun⟩
  | cons l ls ih =>
    cases hrun with
    | cons hfirst hrest =>
      obtain ⟨s', hrun, hrun'⟩ := ih hrest
      exact ⟨s', .cons hfirst hrun, hrun'⟩

/-- Deterministic steps lead to one state. -/
theorem Steps.unique (hdet : ∀ {s l s₁ s₂}, step s l s₁ → step s l s₂ → s₁ = s₂) {s s₁ s₂ : σ} {ls : List ι}
    (h₁ : Steps step s ls s₁) (h₂ : Steps step s ls s₂) : s₁ = s₂ := by
  induction h₁ with
  | nil s =>
    cases h₂
    rfl
  | cons hfirst _ ih =>
    cases h₂ with
    | cons hfirst' hrest =>
      cases hdet hfirst hfirst'
      exact ih hrest

/-- A run whose labels satisfy the guard in every state. -/
theorem Steps.guarded {P : σ → ι → Prop} {s s' : σ} {ls : List ι} (hrun : Steps step s ls s')
    (hP : ∀ l ∈ ls, ∀ s, P s l) : Steps (Guarded P step) s ls s' := by
  induction hrun with
  | nil s => exact .nil s
  | cons hfirst _ ih =>
    have hrest := ih fun l hl => hP l (List.mem_cons_of_mem _ hl)
    exact .cons ⟨hP _ List.mem_cons_self _, hfirst⟩ hrest

/-- Under an invariant a guard may be replaced by one that it implies. -/
theorem Steps.weaken {P Q : σ → ι → Prop} {I : σ → Prop} (hPQ : ∀ {s l}, I s → P s l → Q s l)
    (hstep : ∀ {s l s'}, I s → P s l → step s l s' → I s') {s s' : σ} {ls : List ι}
    (hrun : Steps (Guarded P step) s ls s') (h : I s) : Steps (Guarded Q step) s ls s' ∧ I s' := by
  induction hrun with
  | nil s => exact ⟨.nil s, h⟩
  | cons hfirst _ ih =>
    obtain ⟨hP, hfirst⟩ := hfirst
    obtain ⟨hrest, hI⟩ := ih (hstep h hP hfirst)
    exact ⟨.cons ⟨hPQ h hP, hfirst⟩ hrest, hI⟩

theorem Steps.simulate {R : σ → α → Prop} {next : α → ι → α}
    (hstep : ∀ {s l s' a}, R s a → step s l s' → R s' (next a l))
    {s s' : σ} {ls : List ι} (hrun : Steps step s ls s') {a : α} (h : R s a) :
    R s' (ls.foldl next a) := by
  induction hrun generalizing a with
  | nil s => exact h
  | cons hfirst _ ih => exact ih (hstep h hfirst)

end System
