import Mathlib.Data.List.Perm.Basic
import Mathlib.Tactic.Ring

/-!
# Flat tables of rows

A list read as rows of `w` slots, some of them occupied (`p`). `Compact` says that the occupied slots of
a row come first. In a compact table a search that meets a free slot may go on with the next row
(`filter_drop_of_free`), and how many slots of a row are occupied says which ones are
(`occupied_iff_lt_count`). `split_at` turns an update of one slot into an equation between lists.
-/

namespace Table

variable {α : Type*} {p : α → Bool} {l : List α} {w : Nat}

/-- Slot `i` holds an element with `p`. -/
def Occupied (p : α → Bool) (l : List α) (i : Nat) : Prop := ∃ x, l[i]? = some x ∧ p x = true

/-- In every row of `w` slots, the occupied ones come first. -/
def Compact (w : Nat) (p : α → Bool) (l : List α) : Prop :=
  ∀ i j, i ≤ j → i / w = j / w → Occupied p l j → Occupied p l i

theorem Occupied.lt {i : Nat} (h : Occupied p l i) : i < l.length := by
  obtain ⟨x, hx, -⟩ := h
  exact (List.getElem?_eq_some_iff.mp hx).1

theorem occupied_set {i j : Nat} (x : α) (hi : i < l.length) :
    Occupied p (l.set i x) j ↔ if j = i then p x = true else Occupied p l j := by
  unfold Occupied
  rw [List.getElem?_set]
  by_cases hij : i = j
  · subst hij
    simp [hi]
  · rw [if_neg hij, if_neg (Ne.symm hij)]

/-- A list around one of its slots. -/
theorem split_at {i : Nat} {y : α} (h : l[i]? = some y) :
    ∃ a b, l = a ++ y :: b ∧ a.length = i ∧ ∀ x, l.set i x = a ++ x :: b := by
  obtain ⟨hi, rfl⟩ := List.getElem?_eq_some_iff.mp h
  refine ⟨l.take i, l.drop (i + 1), ?_, ?_, ?_⟩
  · rw [List.getElem_cons_drop, List.take_append_drop]
  · rw [List.length_take]
    omega
  · intro x
    rw [List.set_eq_take_append_cons_drop, if_pos hi]

/-- Occupying a free slot adds its element. -/
theorem filter_set_perm {i : Nat} {x y : α} (h : l[i]? = some y) (hy : p y = false)
    (hx : p x = true) : ((l.set i x).filter p).Perm (x :: l.filter p) := by
  obtain ⟨a, b, rfl, -, hset⟩ := split_at h
  rw [hset, List.filter_append, List.filter_append, List.filter_cons_of_pos hx,
    List.filter_cons_of_neg (by simp [hy])]
  exact List.perm_middle

/-- Freeing an occupied slot takes its element away. -/
theorem filter_unset_perm {i : Nat} {x y : α} (h : l[i]? = some y) (hy : p y = true)
    (hx : p x = false) : (l.filter p).Perm (y :: (l.set i x).filter p) := by
  obtain ⟨a, b, rfl, -, hset⟩ := split_at h
  rw [hset, List.filter_append, List.filter_append, List.filter_cons_of_pos hy,
    List.filter_cons_of_neg (by simp [hx])]
  exact List.perm_middle

/-- An element that moves over another one: that one is gone. -/
theorem filter_move_perm {i j : Nat} {x y z : α} (hij : i ≠ j) (hi : l[i]? = some y)
    (hj : l[j]? = some x) (hy : p y = true) (hx : p x = true) (hz : p z = false) :
    (l.filter p).Perm (y :: ((l.set i x).set j z).filter p) := by
  have hlt := (List.getElem?_eq_some_iff.mp hi).1
  have hset : ((l.set i x).filter p).Perm (x :: (l.set i z).filter p) := by
    have h := filter_set_perm (l := l.set i z) (List.getElem?_set_self hlt) hz hx
    rwa [List.set_set] at h
  have hxset : (l.set i x)[j]? = some x := by
    rw [List.getElem?_set_ne hij]
    exact hj
  have hrest := (hset.symm.trans (filter_unset_perm hxset hx hz)).cons_inv
  exact (filter_unset_perm hi hy hz).trans (hrest.cons y)

/-- Replacing an element keeps its place among the occupied ones. -/
theorem filter_reset {i : Nat} {x y : α} (h : l[i]? = some y) (hy : p y = true) (hx : p x = true) :
    ∃ a b, l.filter p = a ++ y :: b ∧ (l.set i x).filter p = a ++ x :: b := by
  obtain ⟨a, b, rfl, -, hset⟩ := split_at h
  refine ⟨a.filter p, b.filter p, ?_, ?_⟩
  · rw [List.filter_append, List.filter_cons_of_pos hy]
  · rw [hset, List.filter_append, List.filter_cons_of_pos hx]

/-! ### Compact tables -/

theorem compact_of_free (h : ∀ x ∈ l, p x = false) : Compact w p l := by
  rintro i j - - ⟨x, hx, hpx⟩
  rw [h x (List.mem_of_getElem? hx)] at hpx
  cases hpx

/-- The first free slot of a row may be occupied. -/
theorem Compact.set {i : Nat} (h : Compact w p l) {x : α} (hi : i < l.length) (hx : p x = true)
    (hbefore : ∀ k, k < i → k / w = i / w → Occupied p l k) : Compact w p (l.set i x) := by
  intro j k hjk hrow hk
  rw [occupied_set x hi] at hk ⊢
  split
  · exact hx
  · rename_i hji
    split at hk
    · rename_i hki
      subst hki
      exact hbefore j (by omega) hrow
    · exact h j k hjk hrow hk

/-- The last occupied slot of a row may be freed. -/
theorem Compact.unset {i : Nat} (h : Compact w p l) {x : α} (hi : i < l.length) (hx : p x = false)
    (hbehind : ∀ k, i < k → k / w = i / w → ¬ Occupied p l k) : Compact w p (l.set i x) := by
  intro j k hjk hrow hk
  rw [occupied_set x hi] at hk ⊢
  split at hk
  · rw [hx] at hk
    cases hk
  · rename_i hki
    split
    · rename_i hji
      subst hji
      exact absurd hk (hbehind k (by omega) hrow.symm)
    · exact h j k hjk hrow hk

theorem Compact.reset {i : Nat} (h : Compact w p l) {x : α} (hx : p x = true)
    (hi : Occupied p l i) : Compact w p (l.set i x) := by
  intro j k hjk hrow hk
  rw [occupied_set x hi.lt] at hk ⊢
  split
  · exact hx
  · split at hk
    · rename_i hki
      subst hki
      exact h j k hjk hrow hi
    · exact h j k hjk hrow hk

theorem filter_eq_nil_of_free {m : List α} (h : ∀ i, ¬ Occupied p m i) : m.filter p = [] := by
  rw [List.filter_eq_nil_iff]
  intro x hx hpx
  obtain ⟨i, hi⟩ := List.mem_iff_getElem?.mp hx
  exact h i ⟨x, hi, hpx⟩

theorem drop_filter_cons {i : Nat} {x : α} (hi : l[i]? = some x) (hx : p x = true) :
    (l.drop i).filter p = x :: (l.drop (i + 1)).filter p := by
  obtain ⟨hlt, rfl⟩ := List.getElem?_eq_some_iff.mp hi
  rw [← List.getElem_cons_drop hlt, List.filter_cons_of_pos hx]

/-- Free slots add nothing. -/
theorem filter_drop_skip {i j : Nat} (hle : i ≤ j) (hfree : ∀ k, i ≤ k → k < j → ¬ Occupied p l k) :
    (l.drop i).filter p = (l.drop j).filter p := by
  have hsplit : l.drop i = (l.drop i).take (j - i) ++ l.drop j := by
    conv_lhs => rw [← List.take_append_drop (j - i) (l.drop i)]
    rw [List.drop_drop]
    congr 2
    omega
  have hnil : ((l.drop i).take (j - i)).filter p = [] := by
    apply filter_eq_nil_of_free
    rintro k ⟨x, hx, hpx⟩
    rw [List.getElem?_take] at hx
    split at hx
    · rw [List.getElem?_drop] at hx
      exact hfree (i + k) (by omega) (by omega) ⟨x, hx, hpx⟩
    · cases hx
  rw [hsplit, List.filter_append, hnil, List.nil_append]

/-- Behind a free slot, the rest of its row is free. -/
theorem filter_drop_of_free {i : Nat} (h : Compact w p l) (hi : ¬ Occupied p l i) (hw : 0 < w) :
    (l.drop i).filter p = (l.drop ((i / w + 1) * w)).filter p := by
  have hdiv := Nat.div_add_mod i w
  have hmod := Nat.mod_lt i hw
  have hmul : (i / w + 1) * w = w * (i / w) + w := by ring
  refine filter_drop_skip (by omega) fun k hik hk hocc => hi ?_
  refine h i k hik ?_ hocc
  symm
  rw [Nat.div_eq_iff hw, Nat.mul_comm (i / w) w]
  omega

/-! ### Counting a row -/

/-- A list whose occupied slots come first: the count says which they are. -/
theorem occupied_iff_lt_countP {r : List α} (h : ∀ i j, i ≤ j → Occupied p r j → Occupied p r i)
    (j : Nat) : Occupied p r j ↔ j < r.countP p := by
  induction r generalizing j with
  | nil => simp [Occupied]
  | cons x r ih =>
    have htail : ∀ i j, i ≤ j → Occupied p r j → Occupied p r i :=
      fun i j hij hj => h (i + 1) (j + 1) (by omega) hj
    by_cases hx : p x = true
    · rw [List.countP_cons_of_pos hx]
      cases j with
      | zero => simp [Occupied, hx]
      | succ j =>
        rw [Nat.add_lt_add_iff_right, ← ih htail j]
        rfl
    · rw [List.countP_cons_of_neg hx]
      have hnone : ∀ j, ¬ Occupied p (x :: r) j := by
        intro j hj
        obtain ⟨y, hy, hpy⟩ := h 0 j (by omega) hj
        cases hy
        exact hx hpy
      have hzero : r.countP p = 0 := by
        have hfree := filter_eq_nil_of_free (p := p) (m := r) fun i hi => hnone (i + 1) hi
        rw [List.countP_eq_length_filter, hfree, List.length_nil]
      rw [hzero]
      exact iff_of_false (hnone j) (by omega)

theorem div_row {b k : Nat} (hk : k < w) : (b * w + k) / w = b := by
  rw [Nat.mul_comm, Nat.mul_add_div (by omega), Nat.div_eq_of_lt hk, Nat.add_zero]

/-- Where `q` tells the elements of row `b`, counting them is counting that row. -/
theorem countP_row {q : α → Bool} {b : Nat} (hw : 0 < w)
    (hq : ∀ i x, l[i]? = some x → p x = true → (q x = true ↔ i / w = b)) :
    (l.filter p).countP q = ((l.drop (b * w)).take w).countP p := by
  have hsplit : l = l.take (b * w) ++ ((l.drop (b * w)).take w ++ l.drop (b * w + w)) := by
    conv_lhs => rw [← List.take_append_drop (b * w) l, ← List.take_append_drop w (l.drop (b * w)),
      List.drop_drop]
  have hout : ∀ m : List α, (∀ x ∈ m, p x = true → ∃ i, l[i]? = some x ∧ i / w ≠ b) →
      (m.filter p).countP q = 0 := by
    intro m hm
    rw [List.countP_eq_zero]
    intro x hx hqx
    obtain ⟨hmem, hpx⟩ := List.mem_filter.mp hx
    obtain ⟨i, hi, hne⟩ := hm x hmem hpx
    exact hne ((hq i x hi hpx).mp hqx)
  have hfront : ((l.take (b * w)).filter p).countP q = 0 := by
    apply hout
    intro x hx _
    obtain ⟨i, hi⟩ := List.mem_iff_getElem?.mp hx
    rw [List.getElem?_take] at hi
    split at hi
    · rename_i hlt
      refine ⟨i, hi, fun he => ?_⟩
      have := Nat.div_mul_le_self i w
      rw [he] at this
      omega
    · cases hi
  have hback : ((l.drop (b * w + w)).filter p).countP q = 0 := by
    apply hout
    intro x hx _
    obtain ⟨i, hi⟩ := List.mem_iff_getElem?.mp hx
    rw [List.getElem?_drop] at hi
    refine ⟨_, hi, fun he => ?_⟩
    have hge : b + 1 ≤ (b * w + w + i) / w := by
      rw [Nat.le_div_iff_mul_le hw, Nat.succ_mul]
      omega
    omega
  have hmid : (((l.drop (b * w)).take w).filter p).countP q =
      ((l.drop (b * w)).take w).countP p := by
    rw [List.countP_eq_length_filter, List.countP_eq_length_filter, List.filter_eq_self.mpr]
    intro x hx
    obtain ⟨hmem, hpx⟩ := List.mem_filter.mp hx
    obtain ⟨i, hi⟩ := List.mem_iff_getElem?.mp hmem
    rw [List.getElem?_take] at hi
    split at hi
    · rename_i hlt
      rw [List.getElem?_drop] at hi
      exact (hq _ x hi hpx).mpr (div_row hlt)
    · cases hi
  conv_lhs => rw [hsplit]
  rw [List.filter_append, List.filter_append, List.countP_append, List.countP_append, hfront, hback,
    hmid]
  omega

/-- In a compact table where `q` tells the elements of row `b`, their number is how many of the first
slots of that row are occupied. -/
theorem occupied_iff_lt_count {q : α → Bool} {b j : Nat} (h : Compact w p l) (hw : 0 < w) (hj : j < w)
    (hq : ∀ i x, l[i]? = some x → p x = true → (q x = true ↔ i / w = b)) :
    Occupied p l (b * w + j) ↔ j < (l.filter p).countP q := by
  have hrow : ∀ k, k < w → (Occupied p l (b * w + k) ↔ Occupied p ((l.drop (b * w)).take w) k) := by
    intro k hk
    unfold Occupied
    rw [List.getElem?_take, if_pos hk, List.getElem?_drop]
  rw [hrow j hj, countP_row hw hq]
  refine occupied_iff_lt_countP (fun i k hik hk => ?_) j
  have hkw : k < w := by
    have hlt := hk.lt
    rw [List.length_take] at hlt
    omega
  rw [← hrow i (by omega)]
  rw [← hrow k hkw] at hk
  exact h _ _ (by omega) (by rw [div_row (by omega), div_row hkw]) hk

end Table
