import Mathlib.Data.List.Infix
import Mathlib.Data.List.PeriodicityLemma
import Mathlib.Data.List.Sort
import Mathlib.Data.Nat.Find

/-!
# Words in a text

`occurrences w s` lists the positions at which `w` begins in `s`, `leftmost w s` those that are left when each
one that overlaps an earlier choice is dropped. `pieces` is what lies between them; `w` put between the pieces
gives `s` again (`intercalate_pieces`), `replaceAll` puts another word there.

A border of a word is a shorter prefix that is a suffix too, `border` the longest one. Two occurrences that
overlap give a border (`Agree.border`), so that a search can skip what no border allows.
-/

namespace Words

variable {α : Type*}

/-! ### Agreement -/

/-- The first `j` characters of `w` are those of `s` from `p` on. -/
def Agree (w s : List α) (p j : Nat) : Prop := ∀ t < j, s[p + t]? = w[t]?

theorem agree_zero (w s : List α) (p : Nat) : Agree w s p 0 := fun t ht => absurd ht (Nat.not_lt_zero t)

theorem Agree.mono {w s : List α} {p j k : Nat} (h : Agree w s p j) (hle : k ≤ j) : Agree w s p k :=
  fun t ht => h t (Nat.lt_of_lt_of_le ht hle)

theorem Agree.succ {w s : List α} {p j : Nat} (h : Agree w s p j) (heq : s[p + j]? = w[j]?) :
    Agree w s p (j + 1) := by
  intro t ht
  rcases Nat.lt_succ_iff_lt_or_eq.mp ht with hlt | rfl
  · exact h t hlt
  · exact heq

/-- What agrees behind and inside an agreement agrees with the word itself. -/
theorem Agree.shift {w s : List α} {p j q k : Nat} (h : Agree w s p j) (h' : Agree w s q k) (hpq : p ≤ q)
    (hk : q + k ≤ p + j) : Agree w w (q - p) k := by
  intro t ht
  rw [← h (q - p + t) (by omega), ← h' t ht]
  congr 1
  omega

/-- The other way round: where the word agrees with itself, so does the text. -/
theorem Agree.unshift {w s : List α} {p j d k : Nat} (h : Agree w s p j) (h' : Agree w w d k) (hk : d + k ≤ j) :
    Agree w s (p + d) k := by
  intro t ht
  rw [← h' t ht, ← h (d + t) (by omega), Nat.add_assoc]

theorem agree_iff_isPrefix {w s : List α} {p : Nat} : Agree w s p w.length ↔ w <+: s.drop p := by
  rw [List.prefix_iff_getElem?]
  constructor
  · intro h t ht
    rw [List.getElem?_drop, h t ht, List.getElem?_eq_getElem ht]
  · intro h t ht
    rw [← List.getElem?_drop, h t ht, List.getElem?_eq_getElem ht]

/-- The first characters of a word agree with a text when the word without the others does. -/
theorem agree_take {w s : List α} {p j n : Nat} (hle : j ≤ n) : Agree (w.take n) s p j ↔ Agree w s p j := by
  have heq : ∀ t < j, (w.take n)[t]? = w[t]? := fun t ht => List.getElem?_take_of_lt (by omega)
  exact ⟨fun h t ht => (h t ht).trans (heq t ht), fun h t ht => (h t ht).trans (heq t ht).symm⟩

/-! ### Occurrences -/

section occurrences

variable [DecidableEq α] {w s : List α} {p q i : Nat}

def occurrences (w s : List α) : List Nat := (List.range s.length).filter fun p => w <+: s.drop p

theorem mem_occurrences (hw : w ≠ []) : p ∈ occurrences w s ↔ Agree w s p w.length := by
  rw [occurrences, List.mem_filter, List.mem_range, decide_eq_true_iff, agree_iff_isPrefix, and_iff_right_iff_imp]
  intro h
  by_contra hle
  rw [List.drop_eq_nil_of_le (Nat.le_of_not_lt hle), List.prefix_nil] at h
  exact hw h

theorem occurrences_singleton_nil {c : α} (h : c ∉ s) : occurrences [c] s = [] := by
  refine List.filter_eq_nil_iff.mpr fun p _ hpre => h ?_
  simp only [decide_eq_true_iff] at hpre
  exact List.mem_of_mem_drop (hpre.subset List.mem_cons_self)

/-- The places of a letter are as many as the letter is there. -/
theorem occurrences_singleton_length (c : α) (s : List α) : (occurrences [c] s).length = s.count c := by
  rw [occurrences, ← List.countP_eq_length_filter]
  induction s with
  | nil => rfl
  | cons a s ih =>
    rw [List.length_cons, List.range_succ_eq_map, List.countP_cons, List.countP_map, List.count_cons, ← ih]
    have hfront : [c] <+: List.drop 0 (a :: s) ↔ a = c := by
      rw [List.drop_zero, List.cons_prefix_cons, and_iff_left (List.nil_prefix), eq_comm]
    congr 1
    simp only [hfront, decide_eq_true_iff, beq_iff_eq]

/-- The last place of a letter. -/
theorem occurrences_singleton_last {c : α} {v : List α} (h : c ∉ v) (u : List α) :
    (occurrences [c] (u ++ c :: v)).getLast? = some u.length := by
  have hbehind : (List.map (fun p => u.length + 1 + p) (List.range v.length)).filter
      (fun p => [c] <+: (u ++ c :: v).drop p) = [] := by
    refine List.filter_eq_nil_iff.mpr fun p hp hpre => h ?_
    obtain ⟨q, -, rfl⟩ := List.mem_map.mp hp
    simp only [decide_eq_true_iff] at hpre
    rw [List.drop_append, List.drop_eq_nil_of_le (by omega), List.nil_append,
      show u.length + 1 + q - u.length = q + 1 by omega, List.drop_succ_cons] at hpre
    exact List.mem_of_mem_drop (hpre.subset List.mem_cons_self)
  rw [occurrences, List.length_append, List.length_cons, show u.length + (v.length + 1) = u.length + 1 + v.length by omega,
    List.range_add, List.filter_append, hbehind, List.append_nil, List.range_succ, List.filter_append,
    List.filter_cons_of_pos (by simp), List.getLast?_append_cons]
  rfl

theorem occurrences_sorted (w s : List α) : (occurrences w s).Pairwise (· < ·) :=
  List.pairwise_lt_range.filter _

/-- An occurrence lies in the text. -/
theorem occurrence_le (hw : w ≠ []) (h : p ∈ occurrences w s) : p + w.length ≤ s.length := by
  have hlen := (agree_iff_isPrefix.mp ((mem_occurrences hw).mp h)).length_le
  have hpos := List.length_pos_iff.mpr hw
  rw [List.length_drop] at hlen
  omega

theorem occurrences_take (hw : w ≠ []) (n : Nat) :
    occurrences w (s.take n) = (occurrences w s).filter fun p => p + w.length ≤ n := by
  apply (occurrences_sorted _ _).eq_of_mem_iff ((occurrences_sorted _ _).filter _)
  intro p
  rw [List.mem_filter, mem_occurrences hw, mem_occurrences hw, decide_eq_true_iff]
  constructor
  · intro h
    have hle := occurrence_le hw ((mem_occurrences hw).mpr h)
    rw [List.length_take] at hle
    refine ⟨fun t ht => ?_, by omega⟩
    rw [← h t ht, List.getElem?_take_of_lt (by omega)]
  · rintro ⟨h, hle⟩ t ht
    rw [List.getElem?_take_of_lt (by omega), h t ht]

theorem mem_occurrences_drop (hw : w ≠ []) (n : Nat) :
    p ∈ occurrences w (s.drop n) ↔ n + p ∈ occurrences w s := by
  rw [mem_occurrences hw, mem_occurrences hw]
  simp only [Agree, List.getElem?_drop, Nat.add_assoc]

theorem contains_iff (hw : w ≠ []) : w <:+: s ↔ occurrences w s ≠ [] := by
  rw [List.infix_iff_prefix_suffix]
  constructor
  · rintro ⟨t, hpre, hsuf⟩
    rw [List.suffix_iff_eq_drop] at hsuf
    rw [hsuf, ← agree_iff_isPrefix, ← mem_occurrences hw] at hpre
    exact List.ne_nil_of_mem hpre
  · intro hne
    obtain ⟨p, hp⟩ := List.exists_mem_of_ne_nil _ hne
    exact ⟨s.drop p, agree_iff_isPrefix.mp ((mem_occurrences hw).mp hp), List.drop_suffix p s⟩

omit [DecidableEq α] in
/-- A word without `c` occurs on one side of a `c`. -/
theorem infix_append_cons_iff {c : α} {u v : List α} (h : c ∉ w) : w <:+: u ++ c :: v ↔ w <:+: u ∨ w <:+: v := by
  constructor
  · rintro ⟨front, back, heq⟩
    rw [List.append_assoc] at heq
    rcases List.append_eq_append_iff.mp heq with ⟨a, rfl, hrest⟩ | ⟨a, rfl, hrest⟩
    · rcases List.append_eq_append_iff.mp hrest with ⟨b, rfl, -⟩ | ⟨b, rfl, hback⟩
      · exact Or.inl ⟨front, b, List.append_assoc _ _ _⟩
      · rcases b with _ | ⟨d, b⟩
        · exact Or.inl ⟨front, [], by simp⟩
        · rw [List.cons_append, List.cons.injEq] at hback
          exact absurd (by simp [hback.1]) h
    · rcases a with _ | ⟨d, a⟩
      · rcases w with _ | ⟨d, w⟩
        · exact Or.inl List.nil_infix
        · rw [List.nil_append, List.cons_append, List.cons.injEq] at hrest
          exact absurd (by simp [hrest.1]) h
      · rw [List.cons_append, List.cons.injEq] at hrest
        exact Or.inr ⟨a, back, by rw [hrest.2, List.append_assoc]⟩
  · rintro (⟨front, back, rfl⟩ | ⟨front, back, rfl⟩)
    · exact ⟨front, back ++ c :: v, by simp⟩
    · exact ⟨u ++ c :: front, back, by simp⟩

/-- The occurrences that begin before `p`. -/
def before (w s : List α) (p : Nat) : List Nat := (occurrences w s).filter (· < p)

theorem mem_before (hw : w ≠ []) : q ∈ before w s p ↔ Agree w s q w.length ∧ q < p := by
  rw [before, List.mem_filter, mem_occurrences hw, decide_eq_true_iff]

theorem before_length_le (hw : w ≠ []) (s : List α) (p : Nat) : (before w s p).length ≤ p := by
  have hnodup : (before w s p).Nodup := ((occurrences_sorted w s).filter _).imp Nat.ne_of_lt
  have hsub : before w s p ⊆ List.range p := fun q hq => List.mem_range.mpr ((mem_before hw).mp hq).2
  simpa using (List.subperm_of_subset hnodup hsub).length_le

theorem before_zero (w s : List α) : before w s 0 = [] := by
  simp [before]

theorem before_skip (hw : w ≠ []) (hle : p ≤ q) (h : ∀ k, p ≤ k → k < q → ¬ Agree w s k w.length) :
    before w s p = before w s q := by
  apply List.filter_congr
  intro k hk
  have hocc := (mem_occurrences hw).mp hk
  by_cases hkp : k < p
  · simp [hkp, Nat.lt_of_lt_of_le hkp hle]
  · have hkq : ¬ k < q := fun hlt => h k (Nat.le_of_not_lt hkp) hlt hocc
    simp [hkp, hkq]

theorem before_succ (hw : w ≠ []) (h : Agree w s p w.length) : before w s (p + 1) = before w s p ++ [p] := by
  apply ((occurrences_sorted w s).filter _).eq_of_mem_iff
  · rw [List.pairwise_append]
    refine ⟨(occurrences_sorted w s).filter _, List.pairwise_singleton _ _, ?_⟩
    intro a ha b hb
    rw [List.mem_singleton.mp hb]
    exact ((mem_before hw).mp ha).2
  · intro k
    change k ∈ before w s (p + 1) ↔ _
    rw [List.mem_append, List.mem_singleton, mem_before hw, mem_before hw, Nat.lt_succ_iff_lt_or_eq]
    constructor
    · rintro ⟨hk, hlt | rfl⟩
      · exact Or.inl ⟨hk, hlt⟩
      · exact Or.inr rfl
    · rintro (⟨hk, hlt⟩ | rfl)
      · exact ⟨hk, Or.inl hlt⟩
      · exact ⟨h, Or.inr rfl⟩

theorem before_end (hw : w ≠ []) (h : s.length < p + w.length) : before w s p = occurrences w s := by
  apply List.filter_eq_self.mpr
  intro k hk
  have hle := occurrence_le hw hk
  simp only [decide_eq_true_iff]
  omega

/-- The first position at which `w` begins. -/
def search (w : List α) : List α → Option Nat
  | [] => if w = [] then some 0 else none
  | c :: s => if w <+: c :: s then some 0 else (search w s).map (· + 1)

theorem search_nil (s : List α) : search [] s = some 0 := by
  cases s with
  | nil => rfl
  | cons c s => exact if_pos List.nil_prefix

theorem search_eq_zero_iff : search w s = some 0 ↔ w <+: s := by
  rcases s with _ | ⟨c, s⟩
  · simp [search]
  · rw [search]
    split
    next hfront => exact iff_of_true rfl hfront
    next hno => simp [hno]

theorem search_le (h : search w s = some p) : p ≤ s.length := by
  induction s generalizing p with
  | nil =>
    rw [search] at h
    split at h
    · exact Nat.le_of_eq (Option.some.inj h).symm
    · cases h
  | cons c s ih =>
    rw [search] at h
    split at h
    · rw [← Option.some.inj h]
      exact Nat.zero_le _
    · obtain ⟨q, hq, rfl⟩ := Option.map_eq_some_iff.mp h
      exact Nat.succ_le_succ (ih hq)

theorem search_singleton_none {c : α} (h : c ∉ s) : search [c] s = none := by
  induction s with
  | nil => rfl
  | cons d s ih =>
    rw [List.mem_cons, not_or] at h
    rw [search, if_neg (by simp [h.1]), ih h.2, Option.map_none]

/-- The first place of a letter. -/
theorem search_singleton {c : α} {a : List α} (h : c ∉ a) (t : List α) : search [c] (a ++ c :: t) = some a.length := by
  induction a with
  | nil => simp [search]
  | cons d a ih =>
    rw [List.mem_cons, not_or] at h
    rw [List.cons_append, search, if_neg (by simp [h.1]), ih h.2, Option.map_some, List.length_cons]

theorem search_eq_head (hw : w ≠ []) (s : List α) : search w s = (occurrences w s).head? := by
  induction s with
  | nil => exact if_neg hw
  | cons c s ih =>
    have hcons : occurrences w (c :: s) = (0 :: (List.range s.length).map Nat.succ).filter fun p =>
        w <+: (c :: s).drop p := by
      rw [occurrences, List.length_cons, List.range_succ_eq_map]
    rw [search, ih, hcons, occurrences, List.filter_cons, List.filter_map]
    by_cases hpre : w <+: c :: s
    · simp [hpre]
    · simp only [List.drop_zero, hpre, if_false, decide_false, Bool.false_eq_true, List.head?_map]
      rfl

/-- The first occurrence from `n` on. -/
theorem search_drop (hw : w ≠ []) (s : List α) (n : Nat) :
    search w (s.drop n) = ((occurrences w s).find? (n ≤ ·)).map (· - n) := by
  have hdrop : occurrences w (s.drop n) = ((occurrences w s).filter (n ≤ ·)).map (· - n) := by
    apply (occurrences_sorted _ _).eq_of_mem_iff
    · rw [List.pairwise_map, List.pairwise_filter]
      exact (occurrences_sorted w s).imp fun h hx hy => by
        simp only [decide_eq_true_iff] at hx hy
        omega
    · intro p
      rw [mem_occurrences_drop hw]
      simp only [List.mem_map, List.mem_filter, decide_eq_true_iff]
      constructor
      · intro h
        exact ⟨n + p, ⟨h, Nat.le_add_right n p⟩, Nat.add_sub_cancel_left n p⟩
      · rintro ⟨q, ⟨hq, hle⟩, rfl⟩
        rwa [Nat.add_sub_cancel' hle]
  rw [search_eq_head hw, hdrop, List.head?_map, List.head?_filter]

end occurrences

/-! ### The leftmost occurrences -/

section leftmost

variable {m n p : Nat} {ps : List Nat}

/-- From `n` on, each position that is not covered by the `m` characters at the one chosen before it. -/
def greedy (m : Nat) : Nat → List Nat → List Nat
  | _, [] => []
  | n, p :: ps => if n ≤ p then p :: greedy m (p + m) ps else greedy m n ps

/-- Words of length `m` at these positions lie side by side, from `n` on. -/
def Spaced (m : Nat) : Nat → List Nat → Prop
  | _, [] => True
  | n, p :: ps => n ≤ p ∧ Spaced m (p + m) ps

theorem greedy_none (h : ps.find? (n ≤ ·) = none) : greedy m n ps = [] := by
  induction ps with
  | nil => rfl
  | cons q ps ih =>
    by_cases hq : n ≤ q
    · simp [hq] at h
    · rw [greedy, if_neg hq]
      exact ih (by simpa [hq] using h)

theorem greedy_some (hm : 0 < m) (h : ps.find? (n ≤ ·) = some p) :
    greedy m n ps = p :: greedy m (p + m) ps := by
  induction ps with
  | nil => cases h
  | cons q ps ih =>
    have hnp : n ≤ p := by simpa using List.find?_some h
    by_cases hq : n ≤ q
    · obtain rfl : q = p := by simpa [hq] using h
      rw [greedy, greedy, if_pos hq, if_neg (by omega)]
    · rw [greedy, if_neg hq, ih (by simpa [hq] using h), greedy, if_neg (by omega)]

theorem greedy_filter {m n k : Nat} (hle : k ≤ n) (ps : List Nat) : greedy m n (ps.filter (k ≤ ·)) = greedy m n ps := by
  induction ps generalizing n with
  | nil => rfl
  | cons p ps ih =>
    by_cases hk : k ≤ p
    · rw [List.filter_cons_of_pos (by simpa using hk), greedy, greedy]
      split
      · rw [ih (by omega)]
      · exact ih hle
    · rw [List.filter_cons_of_neg (by simpa using hk), ih hle, greedy, if_neg (by omega)]

theorem greedy_map_add (m n k : Nat) (ps : List Nat) : greedy m (k + n) (ps.map (k + ·)) = (greedy m n ps).map (k + ·) := by
  induction ps generalizing n with
  | nil => rfl
  | cons p ps ih =>
    rw [List.map_cons, greedy, greedy]
    by_cases hle : n ≤ p
    · rw [if_pos (by omega), if_pos hle, List.map_cons, Nat.add_assoc, ih]
    · rw [if_neg (by omega), if_neg hle, ih]

theorem greedy_spaced (m n : Nat) (ps : List Nat) : Spaced m n (greedy m n ps) := by
  induction ps generalizing n with
  | nil => trivial
  | cons p ps ih =>
    rw [greedy]
    split
    next hle => exact ⟨hle, ih (p + m)⟩
    next => exact ih n

theorem greedy_sublist (m n : Nat) (ps : List Nat) : (greedy m n ps).Sublist ps := by
  induction ps generalizing n with
  | nil => exact List.Sublist.refl []
  | cons p ps ih =>
    rw [greedy]
    split
    · exact (ih (p + m)).cons_cons p
    · exact (ih n).cons p

theorem Spaced.greedy_eq (h : Spaced m n ps) : greedy m n ps = ps := by
  induction ps generalizing n with
  | nil => rfl
  | cons p ps ih => rw [greedy, if_pos h.1, ih h.2]

theorem Spaced.le (h : Spaced m n ps) : ∀ p ∈ ps, n ≤ p := by
  induction ps generalizing n with
  | nil => simp
  | cons q ps ih =>
    intro p hp
    rcases List.mem_cons.mp hp with rfl | hp
    · exact h.1
    · exact (Nat.le_add_right_of_le h.1).trans (ih h.2 p hp)

theorem spaced_iff_pairwise (hle : ∀ p ∈ ps, n ≤ p) : Spaced m n ps ↔ ps.Pairwise fun p q => p + m ≤ q := by
  induction ps generalizing n with
  | nil => exact ⟨fun _ => List.Pairwise.nil, fun _ => trivial⟩
  | cons p ps ih =>
    rw [Spaced, List.pairwise_cons, and_iff_right (hle p List.mem_cons_self)]
    constructor
    · intro h
      exact ⟨h.le, (ih h.le).mp h⟩
    · rintro ⟨hfirst, hrest⟩
      exact (ih hfirst).mpr hrest

theorem find?_sorted (hsorted : ps.Pairwise (· < ·)) {f : Nat → Bool} (hp : p ∈ ps) (hf : f p = true)
    (hfirst : ∀ q ∈ ps, f q = true → p ≤ q) : ps.find? f = some p := by
  induction ps with
  | nil => exact absurd hp List.not_mem_nil
  | cons q ps ih =>
    obtain ⟨hq, hsorted⟩ := List.pairwise_cons.mp hsorted
    by_cases hfq : f q = true
    · have hle := hfirst q List.mem_cons_self hfq
      rcases List.mem_cons.mp hp with rfl | hmem
      · exact List.find?_cons_of_pos hf
      · have hlt := hq p hmem
        omega
    · rw [List.find?_cons_of_neg hfq]
      rcases List.mem_cons.mp hp with rfl | hmem
      · exact absurd hf hfq
      · exact ih hsorted hmem fun r hr => hfirst r (List.mem_cons_of_mem q hr)

theorem Spaced.sorted (hm : 0 < m) (h : Spaced m n ps) : ps.Pairwise (· < ·) := by
  induction ps generalizing n with
  | nil => exact List.Pairwise.nil
  | cons p ps ih =>
    refine List.pairwise_cons.mpr ⟨fun q hq => ?_, ih h.2⟩
    have hle := h.2.le q hq
    omega

/-- Positions that lie side by side, are taken from `ps` and leave none of `ps` out before their end, are chosen. -/
theorem greedy_eq_of_spaced (hm : 0 < m) (hsorted : ps.Pairwise (· < ·)) {qs : List Nat} (hspaced : Spaced m n qs)
    (hsub : ∀ q ∈ qs, q ∈ ps) (hall : ∀ p ∈ ps, (∃ q ∈ qs, p ≤ q) → n ≤ p → p ∈ qs)
    (hend : ∀ p ∈ ps, n ≤ p → ∃ q ∈ qs, p < q + m) : greedy m n ps = qs := by
  induction qs generalizing n with
  | nil =>
    apply greedy_none
    rw [List.find?_eq_none]
    intro p hp hle
    obtain ⟨q, hq, -⟩ := hend p hp (by simpa using hle)
    exact absurd hq List.not_mem_nil
  | cons q qs ih =>
    obtain ⟨hle, hrest⟩ := hspaced
    have hqs : ∀ r ∈ qs, q + m ≤ r := hrest.le
    have hfirst : ps.find? (n ≤ ·) = some q := by
      apply find?_sorted hsorted (hsub q List.mem_cons_self) (by simpa using hle)
      intro p hp hnp
      by_contra hlt
      rcases List.mem_cons.mp (hall p hp ⟨q, List.mem_cons_self, by omega⟩ (by simpa using hnp)) with rfl | hmem
      · omega
      · have hge := hqs p hmem
        omega
    rw [greedy_some hm hfirst, ih hrest (fun r hr => hsub r (List.mem_cons_of_mem q hr))]
    · rintro p hp ⟨r, hr, hpr⟩ hqp
      refine (List.mem_cons.mp (hall p hp ⟨r, List.mem_cons_of_mem q hr, hpr⟩ (by omega))).resolve_left ?_
      omega
    · intro p hp hqp
      obtain ⟨r, hr, hpr⟩ := hend p hp (by omega)
      rcases List.mem_cons.mp hr with rfl | hr
      · omega
      · exact ⟨r, hr, hpr⟩

end leftmost

section pieces

variable {w s : List α} {n : Nat} {ps : List Nat}

/-- What lies from `n` on between words of length `m` at these positions. -/
def cuts (m : Nat) (s : List α) : Nat → List Nat → List (List α)
  | n, [] => [s.drop n]
  | n, p :: ps => (s.drop n).take (p - n) :: cuts m s (p + m) ps

theorem cuts_ne_nil (m : Nat) (s : List α) (n : Nat) (ps : List Nat) : cuts m s n ps ≠ [] := by
  cases ps with
  | nil => exact List.cons_ne_nil _ _
  | cons p ps => exact List.cons_ne_nil _ _

theorem cuts_length (m : Nat) (s : List α) (n : Nat) (ps : List Nat) : (cuts m s n ps).length = ps.length + 1 := by
  induction ps generalizing n with
  | nil => rfl
  | cons p ps ih => rw [cuts, List.length_cons, ih, List.length_cons]

theorem cuts_drop (m : Nat) (s : List α) (k n : Nat) (ps : List Nat) :
    cuts m (s.drop k) n ps = cuts m s (k + n) (ps.map (k + ·)) := by
  induction ps generalizing n with
  | nil => rw [cuts, List.map_nil, cuts, List.drop_drop]
  | cons p ps ih => rw [cuts, List.map_cons, cuts, List.drop_drop, Nat.add_sub_add_left, ih, Nat.add_assoc]

theorem intercalate_cuts (hps : ∀ p ∈ ps, Agree w s p w.length) (hspaced : Spaced w.length n ps) :
    w.intercalate (cuts w.length s n ps) = s.drop n := by
  induction ps generalizing n with
  | nil => exact List.intercalate_singleton
  | cons p ps ih =>
    obtain ⟨hle, hrest⟩ := hspaced
    have hword := List.prefix_iff_eq_append.mp (agree_iff_isPrefix.mp (hps p List.mem_cons_self))
    rw [List.drop_drop] at hword
    have hsplit : (s.drop n).take (p - n) ++ s.drop p = s.drop n := by
      rw [← Nat.add_sub_cancel' hle, ← List.drop_drop, Nat.add_sub_cancel' hle, List.take_append_drop]
    rw [cuts, List.intercalate_cons_of_ne_nil (cuts_ne_nil _ _ _ _),
      ih (fun q hq => hps q (List.mem_cons_of_mem p hq)) hrest, List.append_assoc, hword, hsplit]

theorem isPrefix_of_append_cons {c : α} {a b : List α} (hc : c ∉ w) (h : w <+: a ++ c :: b) : w <+: a := by
  rw [List.append_cons] at h
  rcases List.prefix_or_prefix_of_prefix h (List.prefix_append (a ++ [c]) b) with hin | hout
  · rcases List.prefix_concat_iff.mp hin with rfl | hin
    · exact absurd (List.mem_append_right a (List.mem_singleton_self c)) hc
    · exact hin
  · exact absurd (hout.subset (List.mem_append_right a (List.mem_singleton_self c))) hc

/-- With a delimiter at most `k` times as long. -/
theorem intercalate_length_le_mul {v : List α} {k : Nat} (hk : 1 ≤ k) (h : v.length ≤ k * w.length) (ts : List (List α)) :
    (v.intercalate ts).length ≤ k * (w.intercalate ts).length := by
  induction ts with
  | nil => exact Nat.zero_le _
  | cons t ts ih =>
    have ht := Nat.mul_le_mul_right t.length hk
    rw [Nat.one_mul] at ht
    rcases ts with _ | ⟨u, ts⟩
    · rw [List.intercalate_singleton, List.intercalate_singleton]
      exact ht
    · rw [List.intercalate_cons_cons, List.intercalate_cons_cons]
      simp only [List.length_append, Nat.mul_add]
      omega

theorem intercalate_length_le {v : List α} (h : v.length ≤ w.length) (ts : List (List α)) :
    (v.intercalate ts).length ≤ (w.intercalate ts).length := by
  have hle := intercalate_length_le_mul (Nat.le_refl 1) (h.trans_eq (Nat.one_mul _).symm) ts
  rwa [Nat.one_mul] at hle

theorem infix_intercalate {t : List α} {ts : List (List α)} (h : t ∈ ts) (w : List α) : t <:+: w.intercalate ts := by
  induction ts with
  | nil => exact absurd h List.not_mem_nil
  | cons u us ih =>
    rcases us with _ | ⟨v, vs⟩
    · rw [List.mem_singleton.mp h, List.intercalate_singleton]
    · rw [List.intercalate_cons_cons]
      rcases List.mem_cons.mp h with rfl | hmem
      · exact ((List.prefix_append t w).trans (List.prefix_append _ _)).isInfix
      · exact (ih hmem).trans (List.suffix_append _ _).isInfix

theorem mem_intercalate {c : α} {v : List α} {ts : List (List α)} (h : c ∈ v.intercalate ts) : c ∈ v ∨ ∃ t ∈ ts, c ∈ t := by
  induction ts with
  | nil => exact absurd h List.not_mem_nil
  | cons t ts ih =>
    rcases ts with _ | ⟨u, ts⟩
    · rw [List.intercalate_singleton] at h
      exact Or.inr ⟨t, List.mem_cons_self, h⟩
    · rw [List.intercalate_cons_cons, List.mem_append, List.mem_append] at h
      rcases h with (h | h) | h
      · exact Or.inr ⟨t, List.mem_cons_self, h⟩
      · exact Or.inl h
      · exact (ih h).imp_right fun ⟨x, hx, hc⟩ => ⟨x, List.mem_cons_of_mem t hx, hc⟩

theorem agree_of_intercalate (hspaced : Spaced w.length n ps) (h : w.intercalate (cuts w.length s n ps) = s.drop n) :
    ∀ p ∈ ps, Agree w s p w.length := by
  induction ps generalizing n with
  | nil => simp
  | cons p ps ih =>
    obtain ⟨hle, hrest⟩ := hspaced
    have hsplit : (s.drop n).take (p - n) ++ s.drop p = s.drop n := by
      rw [← Nat.add_sub_cancel' hle, ← List.drop_drop, Nat.add_sub_cancel' hle, List.take_append_drop]
    rw [cuts, List.intercalate_cons_of_ne_nil (cuts_ne_nil _ _ _ _), List.append_assoc] at h
    have h := List.append_cancel_left (h.trans hsplit.symm)
    have hafter : w.intercalate (cuts w.length s (p + w.length) ps) = s.drop (p + w.length) := by
      rw [← List.drop_drop, ← h, List.drop_left]
    intro q hq
    rcases List.mem_cons.mp hq with rfl | hq
    · exact agree_iff_isPrefix.mpr ⟨_, h⟩
    · exact ih hrest hafter q hq

variable [DecidableEq α]

def leftmost (w s : List α) : List Nat := greedy w.length 0 (occurrences w s)

def pieces (w s : List α) : List (List α) := cuts w.length s 0 (leftmost w s)

def replaceAll (w v s : List α) : List α := v.intercalate (pieces w s)

theorem leftmost_agree (hw : w ≠ []) : ∀ p ∈ leftmost w s, Agree w s p w.length := fun _ hp =>
  (mem_occurrences hw).mp ((greedy_sublist _ _ _).subset hp)

theorem intercalate_pieces (hw : w ≠ []) (s : List α) : w.intercalate (pieces w s) = s := by
  have h := intercalate_cuts (leftmost_agree (s := s) hw) (greedy_spaced w.length 0 (occurrences w s))
  rwa [List.drop_zero] at h

/-- A piece before the first of all occurrences from `n` on. -/
theorem cuts_greedy_not_contains (hw : w ≠ []) (hsorted : ps.Pairwise (· < ·))
    (hall : ∀ q, n ≤ q → q ∈ occurrences w s → q ∈ ps) :
    ∀ t ∈ cuts w.length s n (greedy w.length n ps), ¬ w <:+: t := by
  have hpos := List.length_pos_iff.mpr hw
  induction ps generalizing n with
  | nil =>
    intro t ht hin
    obtain rfl := List.mem_singleton.mp ht
    obtain ⟨q, hq⟩ := List.exists_mem_of_ne_nil _ ((contains_iff hw).mp hin)
    exact absurd (hall (n + q) (Nat.le_add_right n q) ((mem_occurrences_drop hw n).mp hq)) List.not_mem_nil
  | cons p ps ih =>
    obtain ⟨hfirst, hsorted⟩ := List.pairwise_cons.mp hsorted
    have hlater : ∀ k, (n ≤ k → k ≠ p → k ∈ occurrences w s → k ∈ ps) := fun k hk hne hocc =>
      (List.mem_cons.mp (hall k hk hocc)).resolve_left hne
    rw [greedy]
    split
    next hle =>
      intro t ht
      rcases List.mem_cons.mp ht with rfl | ht
      · intro hin
        obtain ⟨q, hq⟩ := List.exists_mem_of_ne_nil _ ((contains_iff hw).mp hin)
        rw [occurrences_take hw, List.mem_filter, decide_eq_true_iff, mem_occurrences_drop hw] at hq
        have hlt := hfirst (n + q) (hlater (n + q) (Nat.le_add_right n q) (by omega) hq.1)
        omega
      · exact ih hsorted (fun q hq hocc => hlater q (by omega) (by omega) hocc) t ht
    next hlt =>
      exact ih hsorted fun q hq hocc => hlater q hq (by omega) hocc

theorem leftmost_eq_nil (hw : w ≠ []) : leftmost w s = [] ↔ ¬ w <:+: s := by
  rw [contains_iff hw, not_not, leftmost]
  constructor
  · intro h
    by_contra hne
    obtain ⟨p, ps, hcons⟩ := List.exists_cons_of_ne_nil hne
    rw [hcons, greedy, if_pos (Nat.zero_le p)] at h
    cases h
  · intro h
    rw [h]
    rfl

/-- Nothing is dropped when no two occurrences overlap. -/
theorem leftmost_eq_occurrences :
    occurrences w s = leftmost w s ↔ (occurrences w s).Pairwise fun p q => p + w.length ≤ q := by
  rw [leftmost, ← spaced_iff_pairwise (n := 0) fun p _ => Nat.zero_le p]
  constructor
  · intro h
    rw [h]
    exact greedy_spaced _ _ _
  · exact fun h => h.greedy_eq.symm

theorem pieces_not_contains (hw : w ≠ []) (s : List α) : ∀ t ∈ pieces w s, ¬ w <:+: t :=
  cuts_greedy_not_contains hw (occurrences_sorted w s) fun _ _ h => h

/-! ### Replacing from the front -/

/-- The occurrences from `n` on. -/
theorem occurrences_filter (hw : w ≠ []) (s : List α) (n : Nat) :
    (occurrences w s).filter (n ≤ ·) = (occurrences w (s.drop n)).map (n + ·) := by
  apply ((occurrences_sorted w s).filter _).eq_of_mem_iff
  · rw [List.pairwise_map]
    exact (occurrences_sorted _ _).imp fun h => Nat.add_lt_add_left h n
  · intro p
    simp only [List.mem_filter, decide_eq_true_iff, List.mem_map, mem_occurrences_drop hw]
    constructor
    · rintro ⟨hp, hle⟩
      exact ⟨p - n, by rwa [Nat.add_sub_cancel' hle], Nat.add_sub_cancel' hle⟩
    · rintro ⟨q, hq, rfl⟩
      exact ⟨hq, Nat.le_add_right n q⟩

/-- A letter with which no occurrence begins. -/
theorem replaceAll_cons (hw : w ≠ []) {c : α} {t : List α} (h : ¬ w <+: c :: t) (v : List α) :
    replaceAll w v (c :: t) = c :: replaceAll w v t := by
  have hocc : occurrences w (c :: t) = (occurrences w t).map (1 + ·) := by
    rw [show t = (c :: t).drop 1 from rfl, ← occurrences_filter hw]
    refine (List.filter_eq_self.mpr fun p hp => ?_).symm
    have hp := (mem_occurrences hw).mp hp
    rw [agree_iff_isPrefix] at hp
    simp only [decide_eq_true_iff]
    exact Nat.pos_of_ne_zero fun hzero => h (by rwa [hzero] at hp)
  have hleft : leftmost w (c :: t) = (leftmost w t).map (1 + ·) := by
    have hfirst : ∀ ps : List Nat, greedy w.length 0 (ps.map (1 + ·)) = greedy w.length 1 (ps.map (1 + ·)) := by
      intro ps
      cases ps with
      | nil => rfl
      | cons p ps => rw [List.map_cons, greedy, greedy, if_pos (Nat.zero_le _), if_pos (Nat.le_add_right 1 p)]
    rw [leftmost, hocc, leftmost, hfirst]
    exact greedy_map_add w.length 0 1 _
  rw [replaceAll, pieces, hleft, replaceAll, pieces, show t = (c :: t).drop 1 from rfl, cuts_drop]
  rw [show (c :: t).drop 1 = t from rfl]
  cases leftmost w t with
  | nil => simp [cuts]
  | cons p ps =>
    simp only [List.map_cons, cuts, List.drop_zero, Nat.sub_zero, Nat.add_zero]
    rw [List.intercalate_cons_of_ne_nil (cuts_ne_nil _ _ _ _), List.intercalate_cons_of_ne_nil (cuts_ne_nil _ _ _ _)]
    simp [Nat.add_comm 1 p]

/-- An occurrence at the front. -/
theorem replaceAll_append (hw : w ≠ []) (v t : List α) : replaceAll w v (w ++ t) = v ++ replaceAll w v t := by
  have hzero : 0 ∈ occurrences w (w ++ t) := by
    rw [mem_occurrences hw, agree_iff_isPrefix]
    exact List.prefix_append w t
  have hleft : leftmost w (w ++ t) = 0 :: (leftmost w t).map (w.length + ·) := by
    obtain ⟨rest, hrest⟩ : ∃ rest, occurrences w (w ++ t) = 0 :: rest := by
      have hsorted := occurrences_sorted w (w ++ t)
      generalize occurrences w (w ++ t) = ps at hzero hsorted
      rcases ps with _ | ⟨p, ps⟩
      · exact absurd hzero List.not_mem_nil
      · rcases List.mem_cons.mp hzero with rfl | hmem
        · exact ⟨ps, rfl⟩
        · exact absurd ((List.pairwise_cons.mp hsorted).1 0 hmem) (Nat.not_lt_zero p)
    have hmap := greedy_map_add w.length 0 w.length (occurrences w t)
    have hfilter := occurrences_filter hw (w ++ t) w.length
    rw [List.drop_left, hrest, List.filter_cons_of_neg (by simpa using hw)] at hfilter
    rw [leftmost, hrest, greedy, if_pos (Nat.le_refl 0), Nat.zero_add, ← greedy_filter (Nat.le_refl _), hfilter, leftmost]
    exact congrArg _ hmap
  rw [replaceAll, pieces, hleft, cuts, List.intercalate_cons_of_ne_nil (cuts_ne_nil _ _ _ _), Nat.zero_add, Nat.sub_zero,
    List.take_zero, List.nil_append, replaceAll, pieces]
  have hdrop := cuts_drop w.length (w ++ t) w.length 0 (leftmost w t)
  rw [List.drop_left] at hdrop
  rw [hdrop]
  rfl

theorem replaceAll_eq_self (hw : w ≠ []) (h : ¬ w <:+: s) (v : List α) : replaceAll w v s = s := by
  rw [replaceAll, pieces, (leftmost_eq_nil hw).mpr h, cuts, List.intercalate_singleton, List.drop_zero]

theorem replaceAll_length_le (hw : w ≠ []) {v : List α} (h : v.length ≤ w.length) (s : List α) :
    (replaceAll w v s).length ≤ s.length := by
  have hle := intercalate_length_le h (pieces w s)
  rwa [intercalate_pieces hw] at hle

/-- A result for a new word at most `k` times as long. -/
theorem replaceAll_length_le_mul (hw : w ≠ []) {v : List α} {k : Nat} (hk : 1 ≤ k) (h : v.length ≤ k * w.length) (s : List α) :
    (replaceAll w v s).length ≤ k * s.length := by
  have hle := intercalate_length_le_mul hk h (pieces w s)
  rwa [intercalate_pieces hw] at hle

theorem mem_replaceAll {c : α} {v : List α} (h : c ∈ replaceAll w v s) : c ∈ v ∨ c ∈ replaceAll w [] s :=
  (mem_intercalate h).imp_right fun ⟨_, ht, hc⟩ => (infix_intercalate ht []).subset hc

theorem mem_of_mem_replaceAll (hw : w ≠ []) {c : α} {v : List α} (h : c ∈ replaceAll w v s) : c ∈ v ∨ c ∈ s := by
  refine (mem_intercalate h).imp_right fun ⟨t, ht, hc⟩ => ?_
  rw [← intercalate_pieces hw s]
  exact (infix_intercalate ht w).subset hc

/-- The new word is there if the old one was. -/
theorem infix_replaceAll (hw : w ≠ []) (h : w <:+: s) (v : List α) : v <:+: replaceAll w v s := by
  have hne : leftmost w s ≠ [] := fun hnil => (leftmost_eq_nil hw).mp hnil h
  obtain ⟨p, ps, hcons⟩ := List.exists_cons_of_ne_nil hne
  rw [replaceAll, pieces, hcons, cuts, List.intercalate_cons_of_ne_nil (cuts_ne_nil _ _ _ _)]
  exact ⟨_, _, rfl⟩

/-- The parts around a letter that the word does not have are replaced each on its own. -/
theorem replaceAll_append_cons (hw : w ≠ []) {c : α} (hc : c ∉ w) (v a b : List α) :
    replaceAll w v (a ++ c :: b) = replaceAll w v a ++ c :: replaceAll w v b := by
  obtain ⟨n, hn⟩ : ∃ n, a.length ≤ n := ⟨_, Nat.le_refl _⟩
  induction n generalizing a with
  | zero =>
    obtain rfl := List.eq_nil_of_length_eq_zero (Nat.le_zero.mp hn)
    have hno : ¬ w <+: c :: b := fun hfront => hw (List.prefix_nil.mp (isPrefix_of_append_cons hc hfront))
    rw [List.nil_append, replaceAll_cons hw hno, replaceAll_eq_self hw (fun h => hw (List.infix_nil.mp h)), List.nil_append]
  | succ n ih =>
    by_cases hfront : w <+: a
    · obtain ⟨t, rfl⟩ := hfront
      have hpos := List.length_pos_iff.mpr hw
      rw [List.length_append] at hn
      rw [List.append_assoc, replaceAll_append hw, replaceAll_append hw, ih t (by omega), List.append_assoc]
    · rcases a with _ | ⟨d, a⟩
      · exact ih [] (Nat.zero_le n)
      · rw [List.length_cons] at hn
        have hno : ¬ w <+: d :: (a ++ c :: b) := fun h => hfront (isPrefix_of_append_cons hc h)
        rw [List.cons_append, replaceAll_cons hw hno, replaceAll_cons hw hfront, ih a (by omega), List.cons_append]

theorem pieces_singleton (c : α) (s : List α) : pieces [c] s = s.splitOn c := by
  have hpieces := intercalate_pieces (List.cons_ne_nil c []) s
  have hclean : ∀ t ∈ pieces [c] s, c ∉ t := by
    intro t ht hmem
    obtain ⟨a, b, rfl⟩ := List.append_of_mem hmem
    exact pieces_not_contains (List.cons_ne_nil c []) s _ ht ⟨a, b, by simp⟩
  rw [← List.splitOn_intercalate c hclean (cuts_ne_nil _ _ _ _), hpieces]

end pieces

end Words
