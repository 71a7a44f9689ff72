import Funra.Lib.Except

/-!
# Loops that need not end

`loop` runs a round until it leaves with a result, for a given number of rounds. `Halts f Q`: with enough
rounds `f` returns, always the same value, and the value satisfies `Q`. A loop halts when an invariant of the
state comes with a measure that every round makes smaller (`Halts.loop`); an invariant alone says what holds if
it returns (`Returns.loop`), and one under which no round leaves, that it never does.
-/

namespace Except

variable {ε α β σ ρ : Type*}

/-- A round goes on with a new state or leaves with a result. `out` is the error when the rounds run out. -/
def loop (out : ε) (round : σ → Except ε (σ ⊕ ρ)) : Nat → σ → Except ε ρ
  | 0, _ => .error out
  | fuel + 1, s => (round s).bind fun
    | .inl s => loop out round fuel s
    | .inr r => .ok r

def Halts (f : Nat → Except ε α) (Q : α → Prop) : Prop :=
  ∃ a, (∃ n, ∀ fuel, n ≤ fuel → f fuel = .ok a) ∧ Q a

section rules

variable {f : Nat → Except ε α} {g : Nat → α → Except ε β} {P Q : α → Prop} {R : β → Prop} {x : Except ε α}

theorem Halts.mono (h : Halts f P) (himp : ∀ a, P a → Q a) : Halts f Q := by
  obtain ⟨a, hrun, ha⟩ := h
  exact ⟨a, hrun, himp a ha⟩

theorem Succeeds.halts (h : x.Succeeds Q) : Halts (fun _ => x) Q := by
  obtain ⟨a, rfl, ha⟩ := h
  exact ⟨a, ⟨0, fun _ _ => rfl⟩, ha⟩

theorem Halts.ok {a : α} (h : Q a) : Halts (fun _ => (.ok a : Except ε α)) Q := (Succeeds.ok h).halts

theorem Halts.bind (h : Halts f P) (hg : ∀ a, P a → Halts (fun n => g n a) R) :
    Halts (fun n => (f n).bind (g n)) R := by
  obtain ⟨a, ⟨n, hf⟩, ha⟩ := h
  obtain ⟨b, ⟨m, hb⟩, hr⟩ := hg a ha
  refine ⟨b, ⟨max n m, fun fuel hfuel => ?_⟩, hr⟩
  dsimp only
  rw [hf fuel (by omega)]
  exact hb fuel (by omega)

theorem Halts.map {g : α → β} (h : Halts f fun a => R (g a)) : Halts (fun n => (f n).map g) R := by
  obtain ⟨a, ⟨n, hf⟩, hr⟩ := h
  refine ⟨g a, ⟨n, fun fuel hfuel => ?_⟩, hr⟩
  dsimp only
  rw [hf fuel hfuel]
  rfl

theorem halts_iff {a : α} (h : ∀ n, f n = .ok a) : Halts f Q ↔ Q a := by
  constructor
  · rintro ⟨b, ⟨n, hrun⟩, hb⟩
    exact Except.ok.inj ((hrun n (Nat.le_refl n)).symm.trans (h n)) ▸ hb
  · exact fun ha => ⟨a, ⟨0, fun n _ => h n⟩, ha⟩

theorem not_halts (h : ∀ n, (f n).Returns fun _ => False) : ¬ Halts f Q := by
  rintro ⟨a, ⟨n, hrun⟩, -⟩
  exact h n a (hrun n (Nat.le_refl n))

theorem Halts.of_succ (h : Halts (fun n => f (n + 1)) Q) : Halts f Q := by
  obtain ⟨a, ⟨n, hrun⟩, ha⟩ := h
  refine ⟨a, ⟨n + 1, fun fuel hfuel => ?_⟩, ha⟩
  obtain ⟨m, rfl⟩ := Nat.exists_eq_add_of_le' (Nat.lt_of_lt_of_le (Nat.succ_pos n) hfuel)
  exact hrun m (by omega)

/-- What every run that returns returns. -/
theorem Halts.returns (h : Halts f P) (hf : ∀ n, (f n).Returns Q) : Halts f fun a => P a ∧ Q a := by
  obtain ⟨a, ⟨n, hrun⟩, ha⟩ := h
  exact ⟨a, ⟨n, hrun⟩, ha, hf n a (hrun n (Nat.le_refl n))⟩

theorem Halts.and (h : Halts f P) (h' : Halts f Q) : Halts f fun a => P a ∧ Q a := by
  obtain ⟨a, ⟨n, hrun⟩, ha⟩ := h
  obtain ⟨b, ⟨m, hrun'⟩, hb⟩ := h'
  have heq : a = b := Except.ok.inj ((hrun _ (Nat.le_max_left n m)).symm.trans (hrun' _ (Nat.le_max_right n m)))
  exact ⟨a, ⟨n, hrun⟩, ha, heq ▸ hb⟩

/-- More rounds never change a result. -/
theorem Halts.returns_of_mono (h : Halts f Q) (hf : ∀ n m a, f n = .ok a → n ≤ m → f m = .ok a) (n : Nat) : (f n).Returns Q := by
  intro a ha
  obtain ⟨b, ⟨m, hrun⟩, hq⟩ := h
  have heq : a = b := Except.ok.inj ((hf n _ a ha (Nat.le_max_left n m)).symm.trans (hrun _ (Nat.le_max_right n m)))
  exact heq ▸ hq

theorem Halts.exists (h : Halts f P) : ∃ a, P a := by
  obtain ⟨a, -, ha⟩ := h
  exact ⟨a, ha⟩

theorem Halts.eq {a b : α} (ha : Halts f (· = a)) (hb : Halts f (· = b)) : a = b := by
  obtain ⟨c, hc, hc'⟩ := (ha.and hb).exists
  exact hc.symm.trans hc'

/-- The first of two steps halts when both do. -/
theorem Halts.of_bind (h : Halts (fun n => (f n).bind (g n)) R) (hf : ∀ n m a, f n = .ok a → n ≤ m → f m = .ok a) :
    Halts f fun a => Halts (fun n => g n a) R := by
  obtain ⟨b, ⟨n, hrun⟩, hb⟩ := h
  obtain ⟨a, hfa, -⟩ := of_bind_ok (hrun n (Nat.le_refl n))
  refine ⟨a, ⟨n, fun m hm => hf n m a hfa hm⟩, b, ⟨n, fun m hm => ?_⟩, hb⟩
  have hm' := hrun m hm
  dsimp only at hm'
  rw [hf n m a hfa hm] at hm'
  exact hm'

end rules

section loops

variable {out : ε} {round : σ → Except ε (σ ⊕ ρ)} {I : σ → Prop} {Q : ρ → Prop} {s s' : σ} {r : ρ}

theorem loop_again (h : round s = .ok (.inl s')) (n : Nat) : loop out round (n + 1) s = loop out round n s' := by
  rw [loop, h]
  rfl

theorem loop_leave (h : round s = .ok (.inr r)) (n : Nat) : loop out round (n + 1) s = .ok r := by
  rw [loop, h]
  rfl

/-- More rounds never change a result. -/
theorem loop_mono {n m : Nat} (h : loop out round n s = .ok r) (hle : n ≤ m) : loop out round m s = .ok r := by
  induction n generalizing s m with
  | zero => cases h
  | succ n ih =>
    obtain ⟨m, rfl⟩ := Nat.exists_eq_add_of_le' (Nat.lt_of_lt_of_le (Nat.succ_pos n) hle)
    obtain ⟨next, hround, hrest⟩ := of_bind_ok h
    rcases next with s' | r'
    · rw [loop_again hround]
      exact ih hrest (by omega)
    · rw [loop_leave hround]
      exact hrest

theorem Returns.loop (hround : ∀ s, I s → (round s).Returns (Sum.elim I Q)) (h : I s) (n : Nat) :
    (Except.loop out round n s).Returns Q := by
  induction n generalizing s with
  | zero => exact Returns.error
  | succ n ih =>
    refine Returns.bind (hround s h) ?_
    rintro (s' | r) hnext
    · exact ih hnext
    · exact Returns.ok hnext

theorem Halts.again (h : round s = .ok (.inl s')) (hrest : Halts (fun n => Except.loop out round n s') Q) :
    Halts (fun n => Except.loop out round n s) Q := by
  obtain ⟨r, ⟨n, hloop⟩, hr⟩ := hrest
  refine ⟨r, ⟨n + 1, fun fuel hfuel => ?_⟩, hr⟩
  obtain ⟨m, rfl⟩ := Nat.exists_eq_add_of_le' (Nat.lt_of_lt_of_le (Nat.succ_pos n) hfuel)
  exact (loop_again h m).trans (hloop m (by omega))

theorem Halts.leave (h : round s = .ok (.inr r)) (hr : Q r) : Halts (fun n => Except.loop out round n s) Q := by
  refine ⟨r, ⟨1, fun fuel hfuel => ?_⟩, hr⟩
  obtain ⟨m, rfl⟩ := Nat.exists_eq_add_of_le' hfuel
  exact loop_leave h m

theorem Halts.loop {μ : σ → Nat} (hround : ∀ s, I s → (round s).Succeeds (Sum.elim (fun s' => I s' ∧ μ s' < μ s) Q))
    (h : I s) : Halts (fun n => Except.loop out round n s) Q := by
  induction hn : μ s using Nat.strongRecOn generalizing s with
  | ind k ih =>
    obtain ⟨next, hrun, hnext⟩ := hround s h
    rcases next with s' | r
    · exact Halts.again hrun (ih (μ s') (hn ▸ hnext.2) hnext.1 rfl)
    · exact Halts.leave hrun hnext

/-- A run that returns is one with enough rounds. -/
theorem Halts.loop_returns (h : Halts (fun n => Except.loop out round n s) Q) (n : Nat) :
    (Except.loop out round n s).Returns Q := h.returns_of_mono (fun _ _ _ hn hle => loop_mono hn hle) n

/-- No round leaves. -/
theorem not_halts_loop (hround : ∀ s, I s → (round s).Returns (Sum.elim I fun _ => False)) (h : I s) :
    ¬ Halts (fun n => Except.loop out round n s) Q := fun hhalts =>
  (hhalts.returns (Returns.loop hround h)).exists.elim fun _ ha => ha.2

end loops

end Except
