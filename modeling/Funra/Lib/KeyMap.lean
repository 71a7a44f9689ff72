import Mathlib.Data.List.Perm.Basic

/-!
# Maps with keys up to an equivalence

A map from keys to values in which the keys of one class (`same`) have one value, and a list of bindings
that represents it: `has k` tells the bindings of the class of `k`, `carries` their value. `Put` and
`Taken` say, up to a permutation, that a binding has been set or removed; they represent the updated map
(`Represents.put`, `Represents.taken`).
-/

namespace KeyMap

variable {κ β ν : Type*} {same : κ → κ → Bool} {has : κ → β → Prop} {carries : β → ν → Prop}
  {m : κ → Option ν} {k : κ} {v : ν} {l l' : List β}

/-- `v` for the keys of the class of `k`. -/
def set (same : κ → κ → Bool) (k : κ) (v : ν) (m : κ → Option ν) (k' : κ) : Option ν :=
  if same k k' then some v else m k'

/-- Nothing for the keys of the class of `k`. -/
def unset (same : κ → κ → Bool) (k : κ) (m : κ → Option ν) (k' : κ) : Option ν :=
  if same k k' then none else m k'

/-- `n` classes of keys have a value. -/
def Counts (same : κ → κ → Bool) (m : κ → Option ν) (n : Nat) : Prop :=
  ∃ keys : List κ, keys.length = n ∧ keys.Pairwise (fun a b => same a b = false) ∧
    ∀ k, (m k).isSome = true ↔ ∃ a ∈ keys, same a k = true

/-- Where the classes are single keys, their number is determined. -/
theorem Counts.unique {n n' : Nat} (hsame : ∀ a b, same a b = true ↔ a = b) (h : Counts same m n)
    (h' : Counts same m n') : n = n' := by
  obtain ⟨keys, rfl, hpair, hkeys⟩ := h
  obtain ⟨keys', rfl, hpair', hkeys'⟩ := h'
  have hne : ∀ {a b}, same a b = false → a ≠ b := by
    rintro a b hab rfl
    rw [(hsame a a).mpr rfl] at hab
    cases hab
  have hmem : ∀ k, k ∈ keys ↔ k ∈ keys' := by
    intro k
    have hiff := (hkeys k).symm.trans (hkeys' k)
    simpa [hsame] using hiff
  exact ((List.perm_ext_iff_of_nodup (hpair.imp hne) (hpair'.imp hne)).mpr hmem).length_eq

/-- The bindings of `l` represent the map. -/
structure Represents (has : κ → β → Prop) (carries : β → ν → Prop) (l : List β)
    (m : κ → Option ν) : Prop where
  absent : ∀ k, m k = none → ∀ x ∈ l, ¬ has k x
  present : ∀ k v, m k = some v → ∃ x ∈ l, has k x ∧ carries x v

/-- `l'` is `l` with one binding of a class, a new one. -/
def Put (has new : β → Prop) (l l' : List β) : Prop :=
  ∃ rest x', l'.Perm (x' :: rest) ∧ has x' ∧ new x' ∧ (∀ x ∈ rest, ¬ has x) ∧
    (l.Perm rest ∨ ∃ x, has x ∧ l.Perm (x :: rest))

/-- `l'` is `l` without a binding of a class. -/
def Taken (has : β → Prop) (l l' : List β) : Prop :=
  (∀ x ∈ l', ¬ has x) ∧ (l.Perm l' ∨ ∃ x, has x ∧ l.Perm (x :: l'))

theorem Represents.perm (h : Represents has carries l m) (hp : l.Perm l') :
    Represents has carries l' m := by
  refine ⟨fun k hk x hx => h.absent k hk x (hp.mem_iff.mpr hx), fun k v hk => ?_⟩
  obtain ⟨x, hx, hcarries⟩ := h.present k v hk
  exact ⟨x, hp.mem_iff.mp hx, hcarries⟩

theorem represents_nil (h : ∀ k, m k = none) : Represents has carries [] m := by
  refine ⟨fun _ _ x hx => absurd hx List.not_mem_nil, fun k v hk => ?_⟩
  rw [h k] at hk
  cases hk

theorem Put.perm_left {has new : β → Prop} {l l₁ l' : List β} (hp : l.Perm l₁)
    (h : Put has new l₁ l') : Put has new l l' := by
  obtain ⟨rest, x', hperm, hk, hv, hrest, hold⟩ := h
  refine ⟨rest, x', hperm, hk, hv, hrest, ?_⟩
  rcases hold with h₁ | ⟨x, hx, h₂⟩
  · exact .inl (hp.trans h₁)
  · exact .inr ⟨x, hx, hp.trans h₂⟩

/-- The keys of a binding are a class. -/
structure Separates (same : κ → κ → Bool) (has : κ → β → Prop) : Prop where
  same_of_has : ∀ {k k' : κ} {x : β}, has k x → has k' x → same k k' = true
  has_iff : ∀ {k k' : κ} {x : β}, same k k' = true → (has k x ↔ has k' x)

theorem rest_subset {has : β → Prop} {rest : List β} {x : β}
    (hold : l.Perm rest ∨ ∃ y, has y ∧ l.Perm (y :: rest)) (hx : x ∈ rest) : x ∈ l := by
  rcases hold with h₁ | ⟨y, -, h₂⟩
  · exact h₁.mem_iff.mpr hx
  · exact h₂.mem_iff.mpr (List.mem_cons_of_mem y hx)

/-- The bindings of the other classes stay. -/
theorem Separates.mem_rest (hsep : Separates same has) {rest : List β} {x : β} {k k' : κ}
    (hold : l.Perm rest ∨ ∃ y, has k y ∧ l.Perm (y :: rest)) (hx : x ∈ l) (hk' : has k' x)
    (hne : ¬ same k k' = true) : x ∈ rest := by
  rcases hold with h₁ | ⟨y, hy, h₂⟩
  · exact h₁.mem_iff.mp hx
  · rcases List.mem_cons.mp (h₂.mem_iff.mp hx) with rfl | hrest
    · exact absurd (hsep.same_of_has hy hk') hne
    · exact hrest

theorem Represents.put (hsep : Separates same has) {new : β → Prop}
    (hnew : ∀ x, new x → carries x v) (h : Represents has carries l m)
    (hput : Put (has k) new l l') : Represents has carries l' (set same k v m) := by
  obtain ⟨rest, x', hperm, hk, hv, hrest, hold⟩ := hput
  refine ⟨fun k' hnone x hx hk' => ?_, fun k' v' hsome => ?_⟩
  · unfold set at hnone
    split at hnone
    · cases hnone
    · rename_i hne
      rcases List.mem_cons.mp (hperm.mem_iff.mp hx) with rfl | hx
      · exact hne (hsep.same_of_has hk hk')
      · exact h.absent k' hnone x (rest_subset hold hx) hk'
  · unfold set at hsome
    split at hsome
    · rename_i heq
      cases hsome
      exact ⟨x', hperm.mem_iff.mpr List.mem_cons_self, (hsep.has_iff heq).mp hk, hnew x' hv⟩
    · rename_i hne
      obtain ⟨x, hx, hk', hcarries⟩ := h.present k' v' hsome
      have hmem := hsep.mem_rest hold hx hk' hne
      exact ⟨x, hperm.mem_iff.mpr (List.mem_cons_of_mem x' hmem), hk', hcarries⟩

theorem Represents.taken (hsep : Separates same has) (h : Represents has carries l m)
    (htaken : Taken (has k) l l') : Represents has carries l' (unset same k m) := by
  obtain ⟨hrest, hold⟩ := htaken
  refine ⟨fun k' hnone x hx hk' => ?_, fun k' v' hsome => ?_⟩
  · unfold unset at hnone
    split at hnone
    · rename_i heq
      exact hrest x hx ((hsep.has_iff heq).mpr hk')
    · exact h.absent k' hnone x (rest_subset hold hx) hk'
  · unfold unset at hsome
    split at hsome
    · cases hsome
    · rename_i hne
      obtain ⟨x, hx, hk', hcarries⟩ := h.present k' v' hsome
      exact ⟨x, hsep.mem_rest hold hx hk' hne, hk', hcarries⟩

end KeyMap
