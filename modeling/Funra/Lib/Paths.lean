import Mathlib.Data.List.DropRight
import Funra.Lib.Words

/-!
# Paths with two separators

A path is a word over an alphabet with a separator `sep` and another one, `back`, that stands for it; two `back` side by
side count as one. `unslash` writes `sep` for them, `norm` drops the separators at the end, too.
-/

namespace Paths

variable {α : Type*} [DecidableEq α] {sep back c : α} {a l : List α}

def unslash (sep back : α) : List α → List α
  | [] => []
  | [c] => [if c = back then sep else c]
  | c :: d :: l =>
    if c = back ∧ d = back then sep :: unslash sep back l
    else (if c = back then sep else c) :: unslash sep back (d :: l)

def norm (sep back : α) (l : List α) : List α := (unslash sep back l).rdropWhile (· = sep)

@[simp] theorem unslash_nil (sep back : α) : unslash sep back [] = [] := rfl

@[simp] theorem unslash_single (sep back c : α) : unslash sep back [c] = [if c = back then sep else c] := rfl

theorem unslash_pair (sep back : α) (l : List α) :
    unslash sep back (back :: back :: l) = sep :: unslash sep back l := if_pos ⟨rfl, rfl⟩

theorem unslash_step {d : α} (h : ¬ (c = back ∧ d = back)) (l : List α) :
    unslash sep back (c :: d :: l) = (if c = back then sep else c) :: unslash sep back (d :: l) := if_neg h

/-- Induction along `unslash`, which takes two `back` at once. -/
@[elab_as_elim]
theorem unslash_induction (back : α) {motive : List α → Prop} (nil : motive []) (single : ∀ c, motive [c])
    (pair : ∀ l, motive l → motive (back :: back :: l))
    (step : ∀ c d l, ¬ (c = back ∧ d = back) → motive (d :: l) → motive (c :: d :: l)) (l : List α) : motive l := by
  have hall : motive l ∧ ∀ c, motive (c :: l) := by
    induction l with
    | nil => exact ⟨nil, single⟩
    | cons d l ih =>
      refine ⟨ih.2 d, fun c => ?_⟩
      by_cases hboth : c = back ∧ d = back
      · rw [hboth.1, hboth.2]
        exact pair l ih.1
      · exact step c d l hboth (ih.2 d)
  exact hall.1

theorem unslash_cons (h : c ≠ back) (l : List α) : unslash sep back (c :: l) = c :: unslash sep back l := by
  cases l with
  | nil => simp [h]
  | cons d l => rw [unslash_step fun hboth => h hboth.1, if_neg h]

theorem unslash_append (h : back ∉ a) (l : List α) : unslash sep back (a ++ l) = a ++ unslash sep back l := by
  induction a with
  | nil => rfl
  | cons c a ih =>
    rw [List.mem_cons, not_or] at h
    rw [List.cons_append, unslash_cons (Ne.symm h.1), ih h.2, List.cons_append]

theorem unslash_back (h : l.head? ≠ some back) : unslash sep back (back :: l) = sep :: unslash sep back l := by
  cases l with
  | nil => simp
  | cons d l =>
    rw [unslash_step, if_pos rfl]
    rintro ⟨-, rfl⟩
    exact h rfl

theorem unslash_of_not_mem (h : back ∉ l) : unslash sep back l = l := by
  have happend : unslash sep back (l ++ []) = l ++ unslash sep back [] := unslash_append h []
  rwa [List.append_nil, unslash_nil, List.append_nil] at happend

theorem back_not_mem_unslash (h : sep ≠ back) (l : List α) : back ∉ unslash sep back l := by
  induction l using unslash_induction back with
  | nil => exact List.not_mem_nil
  | single c =>
    rw [unslash_single, List.mem_singleton]
    split
    · exact Ne.symm h
    · exact fun heq => absurd heq.symm ‹_›
  | pair l ih =>
    rw [unslash_pair, List.mem_cons, not_or]
    exact ⟨Ne.symm h, ih⟩
  | step c d l hboth ih =>
    rw [unslash_step hboth, List.mem_cons, not_or]
    refine ⟨?_, ih⟩
    split
    · exact Ne.symm h
    · exact fun heq => absurd heq.symm ‹_›

theorem mem_unslash (h : c ∈ unslash sep back l) : c = sep ∨ c ∈ l := by
  induction l using unslash_induction back with
  | nil => exact absurd h List.not_mem_nil
  | single d =>
    rw [unslash_single, List.mem_singleton] at h
    split at h
    · exact .inl h
    · exact .inr (h ▸ List.mem_cons_self)
  | pair l ih =>
    rw [unslash_pair] at h
    rcases List.mem_cons.mp h with hsep | hmem
    · exact .inl hsep
    · exact (ih hmem).imp_right fun hl => by simp [hl]
  | step d e l hboth ih =>
    rw [unslash_step hboth] at h
    rcases List.mem_cons.mp h with heq | hmem
    · split at heq
      · exact .inl heq
      · exact .inr (heq ▸ List.mem_cons_self)
    · exact (ih hmem).imp_right (List.mem_cons_of_mem d)

theorem unslash_head (sep back : α) (l : List α) :
    (unslash sep back l).head? = l.head?.map fun c => if c = back then sep else c := by
  induction l using unslash_induction back with
  | nil => rfl
  | single c => rfl
  | pair l ih => simp [unslash_pair]
  | step c d l hboth ih =>
    rw [unslash_step hboth]
    rfl

theorem sep_mem_unslash_iff : sep ∈ unslash sep back l ↔ sep ∈ l ∨ back ∈ l := by
  induction l using unslash_induction back with
  | nil => simp
  | single c =>
    by_cases hc : c = back
    · simp [hc]
    · simp [hc, Ne.symm hc]
  | pair l ih => simp [unslash_pair]
  | step c d l hboth ih =>
    rw [unslash_step hboth, List.mem_cons, ih, List.mem_cons (b := c), List.mem_cons (b := c)]
    by_cases hc : c = back
    · simp [hc]
    · simp [hc, Ne.symm hc, or_assoc]

theorem unslash_length_le (sep back : α) (l : List α) : (unslash sep back l).length ≤ l.length := by
  induction l using unslash_induction back with
  | nil => exact Nat.le_refl _
  | single c => exact Nat.le_refl _
  | pair l ih =>
    rw [unslash_pair]
    simp only [List.length_cons]
    omega
  | step c d l hboth ih =>
    rw [unslash_step hboth]
    exact Nat.succ_le_succ ih

theorem unslash_all_sep_iff : (∀ c ∈ unslash sep back l, c = sep) ↔ ∀ c ∈ l, c = sep ∨ c = back := by
  induction l using unslash_induction back with
  | nil => simp
  | single c => by_cases hc : c = back <;> simp [hc]
  | pair l ih => simp [unslash_pair, ih]
  | step c d l hboth ih =>
    rw [unslash_step hboth, List.forall_mem_cons, ih, List.forall_mem_cons (l := d :: l)]
    refine and_congr_left fun _ => ?_
    by_cases hc : c = back <;> simp [hc]

/-- First the pairs are replaced, then the single ones. -/
theorem unslash_eq_replaceAll (h : sep ≠ back) (l : List α) :
    Words.replaceAll [back] [sep] (Words.replaceAll [back, back] [sep] l) = unslash sep back l := by
  have hone : [back] ≠ [] := List.cons_ne_nil back []
  have htwo : [back, back] ≠ [] := List.cons_ne_nil back [back]
  have hsep : ∀ t, Words.replaceAll [back] [sep] (sep :: t) = sep :: Words.replaceAll [back] [sep] t := fun t =>
    Words.replaceAll_cons hone (by simp [h.symm]) [sep]
  have hnil : ∀ w : List α, w ≠ [] → Words.replaceAll w [sep] [] = [] := fun w hw =>
    Words.replaceAll_eq_self hw (by simp [hw]) [sep]
  have hfirst : ∀ c t, Words.replaceAll [back] [sep] (c :: t) = (if c = back then sep else c) :: Words.replaceAll [back] [sep] t := by
    intro c t
    split
    next hc => exact hc ▸ Words.replaceAll_append hone [sep] t
    next hc => exact Words.replaceAll_cons hone (by simp [Ne.symm hc]) [sep]
  induction l using unslash_induction back with
  | nil => rw [hnil _ htwo, hnil _ hone, unslash_nil]
  | single c => rw [Words.replaceAll_cons htwo (by simp) [sep], hnil _ htwo, hfirst, hnil _ hone, unslash_single]
  | pair l ih =>
    rw [unslash_pair, ← ih]
    rw [show back :: back :: l = [back, back] ++ l from rfl, Words.replaceAll_append htwo]
    exact hsep _
  | step c d l hboth ih =>
    rw [unslash_step hboth, Words.replaceAll_cons htwo _ [sep], hfirst, ih]
    rintro ⟨t, ht⟩
    simp only [List.cons_append, List.nil_append, List.cons.injEq] at ht
    exact hboth ⟨ht.1.symm, ht.2.1.symm⟩

/-! ### Separators at the end -/

theorem rdropWhile_append_replicate (l : List α) : ∃ k, l = l.rdropWhile (· = sep) ++ List.replicate k sep := by
  refine ⟨(l.rtakeWhile (· = sep)).length, ?_⟩
  have hall : ∀ c ∈ l.rtakeWhile (· = sep), c = sep := by
    intro c hc
    simpa using List.mem_rtakeWhile_imp hc
  rw [← List.eq_replicate_of_mem hall, List.rdropWhile_append_rtakeWhile]

theorem rdropWhile_replicate (l : List α) (k : Nat) :
    (l ++ List.replicate k sep).rdropWhile (· = sep) = l.rdropWhile (· = sep) := by
  induction k with
  | zero => simp
  | succ k ih => rw [List.replicate_succ', ← List.append_assoc, List.rdropWhile_concat_pos _ _ _ (by simp), ih]

theorem rdropWhile_eq_self_iff : l.rdropWhile (· = sep) = l ↔ l.getLast? ≠ some sep := by
  induction l using List.reverseRecOn with
  | nil => simp
  | append_singleton l c ih =>
    rw [List.rdropWhile_eq_self_iff]
    simp

/-- A word is the normal form when it is `unslash` up to separators at the end, and ends in none. -/
theorem eq_norm_iff {t : List α} (h : t.getLast? ≠ some sep) :
    (∃ k, unslash sep back l = t ++ List.replicate k sep) ↔ t = norm sep back l := by
  constructor
  · rintro ⟨k, hk⟩
    rw [norm, hk, rdropWhile_replicate, rdropWhile_eq_self_iff.mpr h]
  · rintro rfl
    exact rdropWhile_append_replicate _

theorem norm_getLast (l : List α) : (norm sep back l).getLast? ≠ some sep :=
  rdropWhile_eq_self_iff.mp (List.rdropWhile_idempotent _ _)

theorem norm_length_le (sep back : α) (l : List α) : (norm sep back l).length ≤ l.length :=
  Nat.le_trans (List.rdropWhile_prefix _ _).length_le (unslash_length_le sep back l)

theorem back_not_mem_norm (h : sep ≠ back) (l : List α) : back ∉ norm sep back l := fun hmem =>
  back_not_mem_unslash h l ((List.rdropWhile_prefix _ _).subset hmem)

theorem norm_eq_nil_iff : norm sep back l = [] ↔ ∀ c ∈ l, c = sep ∨ c = back := by
  rw [norm, List.rdropWhile_eq_nil_iff, ← unslash_all_sep_iff]
  simp

theorem norm_of_normal (hback : back ∉ l) (hlast : l.getLast? ≠ some sep) : norm sep back l = l := by
  rw [norm, unslash_of_not_mem hback, rdropWhile_eq_self_iff.mpr hlast]

theorem norm_norm (h : sep ≠ back) (l : List α) : norm sep back (norm sep back l) = norm sep back l :=
  norm_of_normal (back_not_mem_norm h l) (norm_getLast l)

/-! ### The last separator -/

/-- What stands before the last separator. -/
def dirOf (sep : α) (l : List α) : List α := (l.rdropWhile (· ≠ sep)).dropLast

/-- What stands behind it. -/
def nameOf (sep : α) (l : List α) : List α := l.rtakeWhile (· ≠ sep)

theorem sep_not_mem_nameOf (sep : α) (l : List α) : sep ∉ nameOf sep l := fun hmem => by
  simpa using List.mem_rtakeWhile_imp hmem

theorem dirOf_append_nameOf (h : sep ∈ l) : dirOf sep l ++ sep :: nameOf sep l = l := by
  have hne : l.rdropWhile (· ≠ sep) ≠ [] := fun hnil => by simpa using List.rdropWhile_eq_nil_iff.mp hnil sep h
  have hlast : (l.rdropWhile (· ≠ sep)).getLast hne = sep := by simpa using List.rdropWhile_last_not _ l hne
  have hdir := List.dropLast_append_getLast hne
  rw [hlast] at hdir
  rw [← List.singleton_append, ← List.append_assoc, dirOf, hdir, nameOf, List.rdropWhile_append_rtakeWhile]

theorem dirOf_append {v : List α} (h : sep ∉ v) (u : List α) : dirOf sep (u ++ sep :: v) = u := by
  have hv : ∀ c ∈ v.reverse, decide (c ≠ sep) = true := fun c hc => by
    simp only [decide_eq_true_iff]
    rintro rfl
    exact h (List.mem_reverse.mp hc)
  rw [dirOf, List.rdropWhile, List.reverse_append, List.reverse_cons, List.append_assoc, List.dropWhile_append_of_pos hv,
    List.singleton_append, List.dropWhile_cons_of_neg (by simp), List.reverse_cons, List.reverse_reverse,
    List.dropLast_concat]

theorem nameOf_append {v : List α} (h : sep ∉ v) (u : List α) : nameOf sep (u ++ sep :: v) = v := by
  have heq : dirOf sep (u ++ sep :: v) ++ sep :: nameOf sep (u ++ sep :: v) = u ++ sep :: v := dirOf_append_nameOf (by simp)
  rw [dirOf_append h] at heq
  exact List.cons.inj (List.append_cancel_left heq) |>.2

theorem dirOf_of_not_mem (h : sep ∉ l) : dirOf sep l = [] := by
  have hnil : l.rdropWhile (· ≠ sep) = [] := List.rdropWhile_eq_nil_iff.mpr fun c hc => by
    simp only [decide_eq_true_iff]
    rintro rfl
    exact h hc
  rw [dirOf, hnil, List.dropLast_nil]

theorem nameOf_of_not_mem (h : sep ∉ l) : nameOf sep l = l := by
  refine List.rtakeWhile_eq_self_iff.mpr fun c hc => ?_
  simp only [decide_eq_true_iff]
  rintro rfl
  exact h hc

/-- A path up to the last separator, which belongs to it. -/
def dirPart (sep : α) (l : List α) : List α := l.rdropWhile (· ≠ sep)

theorem dirPart_append_nameOf (sep : α) (l : List α) : dirPart sep l ++ nameOf sep l = l := List.rdropWhile_append_rtakeWhile

theorem dirPart_eq (h : sep ∈ l) : dirPart sep l = dirOf sep l ++ [sep] := by
  have hcut := dirOf_append_nameOf h
  rw [List.append_cons] at hcut
  exact List.append_cancel_right ((dirPart_append_nameOf sep l).trans hcut.symm)

theorem dirPart_of_not_mem (h : sep ∉ l) : dirPart sep l = [] := by
  have hparts := dirPart_append_nameOf sep l
  rwa [nameOf_of_not_mem h, List.append_left_eq_self] at hparts

theorem dirPart_last (sep : α) (l : List α) : dirPart sep l = [] ∨ (dirPart sep l).getLast? = some sep := by
  refine or_iff_not_imp_left.mpr fun hne => ?_
  have hlast : (l.rdropWhile (· ≠ sep)).getLast hne = sep := by simpa using List.rdropWhile_last_not _ l hne
  exact (List.getLast?_eq_some_getLast hne).trans (congrArg some hlast)

theorem nameOf_behind {u v : List α} (hu : u = [] ∨ u.getLast? = some sep) (hv : sep ∉ v) : nameOf sep (u ++ v) = v := by
  rcases hu with rfl | hlast
  · exact nameOf_of_not_mem hv
  · obtain ⟨t, rfl⟩ := List.getLast?_eq_some_iff.mp hlast
    rw [List.append_assoc, List.singleton_append, nameOf_append hv]

theorem dirPart_before {u v : List α} (hu : u = [] ∨ u.getLast? = some sep) (hv : sep ∉ v) : dirPart sep (u ++ v) = u := by
  have heq := dirPart_append_nameOf sep (u ++ v)
  rw [nameOf_behind hu hv] at heq
  exact List.append_cancel_right heq

/-- A word without the separator occurs before the last separator or behind it. -/
theorem infix_parts_iff {w : List α} (h : sep ∉ w) : w <:+: l ↔ w <:+: dirPart sep l ∨ w <:+: nameOf sep l := by
  have heq := dirPart_append_nameOf sep l
  rcases dirPart_last sep l with hnil | hlast
  · rw [hnil, List.nil_append] at heq
    rw [hnil, heq]
    refine ⟨Or.inr, fun hor => hor.elim (fun hw => ?_) id⟩
    rw [List.infix_nil.mp hw]
    exact List.nil_infix
  · obtain ⟨t, ht⟩ := List.getLast?_eq_some_iff.mp hlast
    have hdir : w <:+: t ++ [sep] ↔ w <:+: t ∨ w <:+: [] := Words.infix_append_cons_iff h
    have hnil : w <:+: [] → w <:+: t := fun hw => by
      rw [List.infix_nil.mp hw]
      exact List.nil_infix
    rw [ht, hdir, or_iff_left_of_imp hnil, ← Words.infix_append_cons_iff h]
    nth_rewrite 1 [← heq]
    rw [ht, List.append_assoc, List.singleton_append]

/-! ### Components -/

def components (sep : α) (l : List α) : List (List α) := (l.splitOn sep).filter (· ≠ [])

/-- The separator in front of a path from the root. -/
def root (sep : α) (l : List α) : List α := if l.head? = some sep then [sep] else []

/-- The directories on the way, from the first. -/
def prefixes (sep : α) (l : List α) : List (List α) :=
  (components sep l).inits.tail.map fun cs => root sep l ++ [sep].intercalate cs

theorem components_cons (c : α) (l : List α) : components sep (c :: l) = [] ↔ c = sep ∧ components sep l = [] := by
  rw [components, List.splitOn_cons_eq_if_modifyHead]
  by_cases hc : c = sep
  · simp [hc, components]
  · obtain ⟨t, ts, hts⟩ := List.exists_cons_of_ne_nil (List.splitOn_ne_nil sep l)
    simp [hc, hts]

theorem components_eq_nil_iff : components sep l = [] ↔ ∀ c ∈ l, c = sep := by
  induction l with
  | nil => simp [components]
  | cons c l ih => rw [components_cons, ih, List.forall_mem_cons]

theorem components_of_not_mem (h : sep ∉ l) (hne : l ≠ []) : components sep l = [l] := by
  rw [components, List.splitOn_eq_singleton h, List.filter_cons_of_pos (by simpa using hne), List.filter_nil]

theorem mem_splitOn {t : List α} (h : t ∈ l.splitOn sep) : sep ∉ t ∧ t ⊆ l := by
  induction l generalizing t with
  | nil =>
    rw [List.splitOn_nil, List.mem_singleton] at h
    simp [h]
  | cons c l ih =>
    rw [List.splitOn_cons_eq_if_modifyHead] at h
    by_cases hc : c = sep
    · rw [if_pos (by simpa using hc), List.mem_cons] at h
      rcases h with rfl | h
      · simp
      · exact ⟨(ih h).1, fun d hd => List.mem_cons_of_mem c ((ih h).2 hd)⟩
    · obtain ⟨u, us, hus⟩ := List.exists_cons_of_ne_nil (List.splitOn_ne_nil sep l)
      rw [if_neg (by simpa using hc), hus, List.modifyHead_cons, List.mem_cons] at h
      rw [hus] at ih
      rcases h with rfl | h
      · obtain ⟨hsep, hsub⟩ := ih List.mem_cons_self
        exact ⟨by simp [Ne.symm hc, hsep], List.cons_subset_cons c hsub⟩
      · obtain ⟨hsep, hsub⟩ := ih (List.mem_cons_of_mem u h)
        exact ⟨hsep, fun d hd => List.mem_cons_of_mem c (hsub hd)⟩

theorem infix_of_mem_components {t : List α} (h : t ∈ components sep l) : t <:+: l := by
  have hinfix := Words.infix_intercalate (List.mem_filter.mp h).1 [sep]
  rwa [List.intercalate_splitOn] at hinfix

theorem components_append_replicate (l : List α) (k : Nat) : components sep (l ++ List.replicate k sep) = components sep l := by
  induction k with
  | zero => rw [List.replicate_zero, List.append_nil]
  | succ k ih =>
    rw [List.replicate_succ', ← List.append_assoc, ← ih, components, List.splitOn_append_cons_self]
    simp [components]

theorem mem_components {t : List α} (h : t ∈ components sep l) : sep ∉ t ∧ t ≠ [] := by
  obtain ⟨hmem, hne⟩ := List.mem_filter.mp h
  exact ⟨(mem_splitOn hmem).1, by simpa using hne⟩

/-- Without the separator in front, these are the prefixes of a path that is not from the root, or has no component. -/
theorem prefixes_eq_iff : ((components sep l).inits.tail.map fun cs => [sep].intercalate cs) = prefixes sep l ↔
    l.head? ≠ some sep ∨ ∀ c ∈ l, c = sep := by
  rw [prefixes, ← components_eq_nil_iff, root]
  by_cases hhead : l.head? = some sep
  · rw [if_pos hhead]
    cases components sep l with
    | nil => simp
    | cons c cs =>
      refine iff_of_false (fun heq => ?_) (by simp [hhead])
      have hmem : [c] ∈ (c :: cs).inits.tail := by simp
      have hsame := List.map_inj_left.mp heq [c] hmem
      exact absurd (congrArg List.length hsame) (by simp)
  · rw [if_neg hhead]
    simp [hhead]

end Paths
