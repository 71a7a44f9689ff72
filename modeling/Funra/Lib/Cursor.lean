import Mathlib.Data.List.Basic

/-!
# Cursors

A cursor is a state and a step that may fail; a step gives the next element, or nothing at the end.
`Yields` says what a cursor gives however often it is asked, and `yields_of_rest` proves it from a relation
between the state and what is left. A list that is yielded is determined by the results (`Yields.unique`).
`collect` is a loop over a cursor.
-/

namespace Cursor

variable {σ ε α : Type*} {next : σ → Except ε (Option α × σ)} {s : σ} {l : List α}

/-- The results of `m` steps. -/
def results (next : σ → Except ε (Option α × σ)) : Nat → σ → Except ε (List (Option α))
  | 0, _ => .ok []
  | m + 1, s => (next s).bind fun (r, s) => (results next m s).map (r :: ·)

/-- The elements of `l` one by one, then nothing, on this and every later step. -/
def Yields (next : σ → Except ε (Option α × σ)) (s : σ) (l : List α) : Prop :=
  ∀ m, results next m s = .ok ((List.range m).map fun i => l[i]?)

theorem map_range_succ (l : List α) (m : Nat) :
    ((List.range (m + 1)).map fun i => l[i]?) = l.head? :: (List.range m).map fun i => l.tail[i]? := by
  rw [List.range_succ_eq_map, List.map_cons, List.map_map, List.head?_eq_getElem?]
  congr 1
  apply List.map_congr_left
  intro i _
  simp

/-- A relation between the state and what is left, which a step keeps. -/
theorem yields_of_rest {Rest : σ → List α → Prop}
    (hstep : ∀ s l, Rest s l → ∃ s', next s = .ok (l.head?, s') ∧ Rest s' l.tail) (h : Rest s l) :
    Yields next s l := by
  intro m
  induction m generalizing s l with
  | zero => rfl
  | succ m ih =>
    obtain ⟨s', hnext, hrest⟩ := hstep s l h
    simp only [results, hnext, Except.bind]
    rw [ih hrest, map_range_succ]
    rfl

theorem Yields.unique {l' : List α} (h : Yields next s l) (h' : Yields next s l') : l = l' := by
  apply List.ext_getElem?
  intro i
  have heq := Except.ok.inj ((h (i + 1)).symm.trans (h' (i + 1)))
  have hi := congrArg (fun rs => rs[i]?) heq
  simpa using hi

/-! ### Loops -/

section loops

variable {β γ τ : Type*} {step : σ → Except ε (β × σ)} {more : β → σ → Bool}
  {step' : τ → Except ε (γ × τ)} {more' : γ → τ → Bool}

/-- The loop `for (; b = step(&s), more(b, s); )`: what it has seen when it ends, `none` when `n` rounds are not
enough. -/
def collect (step : σ → Except ε (β × σ)) (more : β → σ → Bool) : Nat → σ → Except ε (Option (List β))
  | 0, _ => .ok none
  | n + 1, s => (step s).bind fun (b, s) =>
    if more b s then (collect step more n s).map (Option.map (b :: ·)) else .ok (some [])

/-- Two loops whose steps correspond see corresponding elements. -/
theorem collect_map {f : σ → τ} {g : β → γ}
    (hstep : ∀ s, step' (f s) = (step s).map fun r => (g r.1, f r.2))
    (hmore : ∀ b s, more' (g b) (f s) = more b s) (n : Nat) (s : σ) :
    collect step' more' n (f s) = (collect step more n s).map (Option.map (List.map g)) := by
  induction n generalizing s with
  | zero => rfl
  | succ n ih =>
    simp only [collect, hstep]
    cases step s with
    | error e => rfl
    | ok r =>
      obtain ⟨b, s⟩ := r
      simp only [Except.map, Except.bind, hmore, ih]
      by_cases hm : more b s = true
      · rw [if_pos hm, if_pos hm]
        cases collect step more n s with
        | error e => rfl
        | ok found => cases found <;> rfl
      · rw [if_neg hm, if_neg hm]
        rfl

end loops

end Cursor
