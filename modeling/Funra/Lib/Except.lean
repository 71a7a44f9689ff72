import Mathlib.Tactic.TypeStar

/-!
# Computations that may fail

A sequence of steps returns when each step does (`Except.of_bind_ok`, `Except.of_map_ok`).

`x.Ends E Q`: `x` returns a value that satisfies `Q` or ends with an error that satisfies `E`. Every error
is allowed in `x.Returns Q` (partial correctness), none in `x.Succeeds Q` (total). `forUntil` is a loop that a
round can leave, `forEach` one that visits every element; an invariant of them is a property of the state and
of what is left to visit.
-/

namespace Except

variable {ε α β σ ι ρ : Type*}

theorem of_bind_ok {x : Except ε α} {f : α → Except ε β} {b : β} (h : x.bind f = .ok b) :
    ∃ a, x = .ok a ∧ f a = .ok b := by
  rcases x with e | a
  · cases h
  · exact ⟨a, rfl, h⟩

theorem of_map_ok {x : Except ε α} {f : α → β} {b : β} (h : x.map f = .ok b) :
    ∃ a, x = .ok a ∧ f a = b := by
  rcases x with e | a
  · cases h
  · exact ⟨a, rfl, Except.ok.inj h⟩

theorem ok_bind (a : α) (f : α → Except ε β) : (Except.ok a).bind f = f a := rfl

theorem mapError_bind {φ : Type*} (g : ε → φ) (x : Except ε α) (f : α → Except ε β) :
    (x.bind f).mapError g = (x.mapError g).bind fun a => (f a).mapError g := by
  cases x <;> rfl

/-! ### What a computation ends with -/

/-- A value satisfies `Q`, an error `E`. -/
def Ends (x : Except ε α) (E : ε → Prop) (Q : α → Prop) : Prop :=
  match x with
  | .error e => E e
  | .ok a => Q a

def Returns (x : Except ε α) (Q : α → Prop) : Prop := ∀ a, x = .ok a → Q a

def Succeeds (x : Except ε α) (Q : α → Prop) : Prop := ∃ a, x = .ok a ∧ Q a

section rules

variable {x : Except ε α} {f : α → Except ε β} {E : ε → Prop} {P Q : α → Prop} {R : β → Prop} {a : α} {e : ε}

theorem returns_iff : x.Returns Q ↔ x.Ends (fun _ => True) Q := by
  cases x with
  | error e => exact ⟨fun _ => trivial, fun _ a heq => (by cases heq)⟩
  | ok a =>
    refine ⟨fun h => h a rfl, fun h a' heq => ?_⟩
    cases heq
    exact h

theorem succeeds_iff : x.Succeeds Q ↔ x.Ends (fun _ => False) Q := by
  cases x with
  | error e =>
    refine ⟨?_, False.elim⟩
    rintro ⟨a, heq, -⟩
    cases heq
  | ok a =>
    refine ⟨?_, fun h => ⟨a, rfl, h⟩⟩
    rintro ⟨a', heq, h⟩
    cases heq
    exact h

theorem Ends.mono (h : x.Ends E P) (himp : ∀ a, P a → Q a) : x.Ends E Q := by
  cases x with
  | error e => exact h
  | ok a => exact himp a h

theorem Ends.mono_error {F : ε → Prop} (h : x.Ends E Q) (himp : ∀ e, E e → F e) : x.Ends F Q := by
  cases x with
  | error e => exact himp e h
  | ok a => exact h

theorem Ends.bind (h : x.Ends E P) (hf : ∀ a, P a → (f a).Ends E R) : (x.bind f).Ends E R := by
  cases x with
  | error e => exact h
  | ok a => exact hf a h

theorem Ends.map {g : α → β} (h : x.Ends E fun a => R (g a)) : (x.map g).Ends E R := by
  cases x with
  | error e => exact h
  | ok a => exact h

theorem Ends.returns (h : x.Ends E Q) : x.Returns Q := by
  rintro a rfl
  exact h

theorem Succeeds.ends (h : x.Succeeds Q) : x.Ends E Q := by
  obtain ⟨a, rfl, hq⟩ := h
  exact hq

theorem Returns.ok (h : Q a) : Returns (.ok a : Except ε α) Q := returns_iff.mpr h

theorem Returns.error : Returns (.error e) Q := returns_iff.mpr trivial

theorem Returns.mono (h : x.Returns P) (himp : ∀ a, P a → Q a) : x.Returns Q :=
  returns_iff.mpr ((returns_iff.mp h).mono himp)

theorem Returns.bind (h : x.Returns P) (hf : ∀ a, P a → (f a).Returns R) : (x.bind f).Returns R :=
  returns_iff.mpr ((returns_iff.mp h).bind fun a ha => returns_iff.mp (hf a ha))

theorem Returns.bind_of_forall (hf : ∀ a, (f a).Returns R) : (x.bind f).Returns R :=
  Returns.bind (P := fun _ => True) (fun _ _ => trivial) fun a _ => hf a

theorem Returns.map {g : α → β} (h : x.Returns fun a => R (g a)) : (x.map g).Returns R :=
  returns_iff.mpr (returns_iff.mp h).map

theorem Succeeds.ok (h : Q a) : Succeeds (.ok a : Except ε α) Q := ⟨a, rfl, h⟩

theorem Succeeds.returns (h : x.Succeeds Q) : x.Returns Q := (succeeds_iff.mp h).returns

theorem Succeeds.mono (h : x.Succeeds P) (himp : ∀ a, P a → Q a) : x.Succeeds Q :=
  succeeds_iff.mpr ((succeeds_iff.mp h).mono himp)

theorem Succeeds.bind (h : x.Succeeds P) (hf : ∀ a, P a → (f a).Succeeds R) : (x.bind f).Succeeds R :=
  succeeds_iff.mpr ((succeeds_iff.mp h).bind fun a ha => succeeds_iff.mp (hf a ha))

theorem Succeeds.map {g : α → β} (h : x.Succeeds fun a => R (g a)) : (x.map g).Succeeds R :=
  succeeds_iff.mpr (succeeds_iff.mp h).map

end rules

/-! ### Loops -/

/-- A loop over the elements of a list, until a round returns something. -/
def forUntil (body : ι → σ → Except ε (Option ρ × σ)) : List ι → σ → Except ε (Option ρ × σ)
  | [], s => .ok (none, s)
  | i :: rest, s => do
    match ← body i s with
    | (some r, s) => return (some r, s)
    | (none, s) => forUntil body rest s

/-- A loop over all elements of a list. -/
def forEach (body : ι → σ → Except ε σ) : List ι → σ → Except ε σ
  | [], s => .ok s
  | i :: rest, s => do
    let s ← body i s
    forEach body rest s

theorem forEach_append (body : ι → σ → Except ε σ) (is js : List ι) (s : σ) :
    forEach body (is ++ js) s = (forEach body is s).bind (forEach body js) := by
  induction is generalizing s with
  | nil => rfl
  | cons i rest ih =>
    simp only [List.cons_append, forEach, bind]
    cases body i s with
    | error e => rfl
    | ok s' => exact ih s'

section loops

variable {body : ι → σ → Except ε (Option ρ × σ)} {round : ι → σ → Except ε σ} {E : ε → Prop}
  {I : List ι → σ → Prop} {J : σ → Prop} {Q : Option ρ × σ → Prop} {is : List ι} {s : σ}

theorem Ends.forUntil (hbody : ∀ i rest s, I (i :: rest) s → (body i s).Ends E fun r =>
      (r.1 = none → I rest r.2) ∧ (r.1 ≠ none → Q r))
    (hend : ∀ s, I [] s → Q (none, s)) (h : I is s) : (Except.forUntil body is s).Ends E Q := by
  induction is generalizing s with
  | nil => exact hend s h
  | cons i rest ih =>
    refine Ends.bind (hbody i rest s h) ?_
    rintro ⟨_ | r, s'⟩ ⟨hgo, hstop⟩
    · exact ih (hgo rfl)
    · exact hstop (by simp)

theorem Returns.forUntil (hbody : ∀ i rest s, I (i :: rest) s → (body i s).Returns fun r =>
      (r.1 = none → I rest r.2) ∧ (r.1 ≠ none → Q r))
    (hend : ∀ s, I [] s → Q (none, s)) (h : I is s) : (Except.forUntil body is s).Returns Q :=
  returns_iff.mpr (Ends.forUntil (fun i rest s hs => returns_iff.mp (hbody i rest s hs)) hend h)

theorem Succeeds.forUntil (hbody : ∀ i rest s, I (i :: rest) s → (body i s).Succeeds fun r =>
      (r.1 = none → I rest r.2) ∧ (r.1 ≠ none → Q r))
    (hend : ∀ s, I [] s → Q (none, s)) (h : I is s) : (Except.forUntil body is s).Succeeds Q :=
  succeeds_iff.mpr (Ends.forUntil (fun i rest s hs => succeeds_iff.mp (hbody i rest s hs)) hend h)

/-- A property of the state alone, that every round keeps. -/
theorem Returns.forUntil_inv (hbody : ∀ i s, J s → (body i s).Returns fun r => J r.2)
    (h : J s) : (Except.forUntil body is s).Returns fun r => J r.2 := by
  refine Returns.forUntil (I := fun _ => J) (Q := fun r => J r.2) (fun i rest s hs => ?_) (fun s hs => hs) h
  exact (hbody i s hs).mono fun r hr => ⟨fun _ => hr, fun _ => hr⟩

theorem Ends.forEach (hround : ∀ i rest s, I (i :: rest) s → (round i s).Ends E (I rest)) (h : I is s) :
    (Except.forEach round is s).Ends E (I []) := by
  induction is generalizing s with
  | nil => exact h
  | cons i rest ih => exact Ends.bind (hround i rest s h) fun s' hs' => ih hs'

theorem Returns.forEach_inv (hround : ∀ i s, J s → (round i s).Returns J) (h : J s) :
    (Except.forEach round is s).Returns J :=
  (Ends.forEach (I := fun _ => J) (fun i _ s hs => returns_iff.mp (hround i s hs)) h).returns

end loops

end Except
