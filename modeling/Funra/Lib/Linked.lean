import Mathlib.Data.List.Nodup

/-!
# Linked lists in a store

`next a` is the link stored at `a`, `none` where the store has no node. `Path next p l q` says that
following the links from `p` visits the nodes `l` and arrives at `q`; a list that ends is a path to the
null link. It is determined by the links (`Path.unique`), visits no node twice (`Path.nodup`) and depends
on the links of its own nodes only (`Path.congr`). `Backed prev p l` says that the back links run along
`l` the other way.
-/

namespace Linked

variable {α : Type*} {next next' prev prev' : α → Option (Option α)} {p q r : Option α} {a b : α}
  {l l' l₁ l₂ : List α}

def Path (next : α → Option (Option α)) : Option α → List α → Option α → Prop
  | p, [], q => p = q
  | p, a :: l, q => p = some a ∧ ∃ r, next a = some r ∧ Path next r l q

/-- The back link of the first node is `p`, that of every other node the node before it. -/
def Backed (prev : α → Option (Option α)) : Option α → List α → Prop
  | _, [] => True
  | p, a :: l => prev a = some p ∧ Backed prev (some a) l

/-! ### Paths -/

theorem path_cons : Path next p (a :: l) q ↔ p = some a ∧ ∃ r, next a = some r ∧ Path next r l q :=
  Iff.rfl

theorem path_append :
    Path next p (l₁ ++ l₂) q ↔ ∃ r, Path next p l₁ r ∧ Path next r l₂ q := by
  induction l₁ generalizing p with
  | nil => simp [Path]
  | cons a l ih =>
    simp only [List.cons_append, Path, ih]
    constructor
    · rintro ⟨hp, s, hs, r, hr, hq⟩
      exact ⟨r, ⟨hp, s, hs, hr⟩, hq⟩
    · rintro ⟨r, ⟨hp, s, hs, hr⟩, hq⟩
      exact ⟨hp, s, hs, r, hr, hq⟩

theorem Path.congr (h : Path next p l q) (heq : ∀ a ∈ l, next' a = next a) : Path next' p l q := by
  induction l generalizing p with
  | nil => exact h
  | cons a l ih =>
    obtain ⟨hp, r, hr, hrest⟩ := h
    exact ⟨hp, r, (heq a List.mem_cons_self).trans hr,
      ih hrest fun b hb => heq b (List.mem_cons_of_mem _ hb)⟩

/-- The path starts at its first node. -/
theorem Path.head (h : Path next p l none) : p = l.head? := by
  cases l with
  | nil => exact h
  | cons a l => exact h.1

theorem Path.unique (h : Path next p l none) (h' : Path next p l' none) : l = l' := by
  induction l generalizing p l' with
  | nil =>
    obtain rfl : p = none := h
    cases l' with
    | nil => rfl
    | cons a l' => cases h'.1
  | cons a l ih =>
    obtain ⟨rfl, r, hr, hrest⟩ := h
    cases l' with
    | nil => cases h'
    | cons b l' =>
      obtain ⟨hb, r', hr', hrest'⟩ := h'
      obtain rfl : a = b := Option.some.inj hb
      obtain rfl : r = r' := Option.some.inj (hr.symm.trans hr')
      rw [ih hrest hrest']

theorem Path.nodup (h : Path next p l none) : l.Nodup := by
  induction l generalizing p with
  | nil => exact List.nodup_nil
  | cons a l ih =>
    obtain ⟨rfl, r, hr, hrest⟩ := h
    refine List.nodup_cons.mpr ⟨fun hmem => ?_, ih hrest⟩
    -- from the second visit on, the path would be a shorter copy of itself
    obtain ⟨l₁, l₂, rfl⟩ := List.append_of_mem hmem
    obtain ⟨s, -, hs⟩ := path_append.mp hrest
    obtain ⟨rfl, -⟩ := path_cons.mp hs
    have hsame := hs.unique (path_cons.mpr ⟨rfl, r, hr, hrest⟩)
    have hlen := congrArg List.length hsame
    simp only [List.length_cons, List.length_append] at hlen
    omega

/-- The nodes of a path have links. -/
theorem Path.isSome (h : Path next p l q) (ha : a ∈ l) : (next a).isSome = true := by
  obtain ⟨l₁, l₂, rfl⟩ := List.append_of_mem ha
  obtain ⟨r, -, hr⟩ := path_append.mp h
  obtain ⟨-, s, hs, -⟩ := hr
  rw [hs]
  rfl

/-! ### Back links -/

theorem backed_append :
    Backed prev p (l₁ ++ a :: l₂) ↔ Backed prev p (l₁ ++ [a]) ∧ Backed prev (some a) l₂ := by
  induction l₁ generalizing p with
  | nil => simp [Backed]
  | cons b l ih => simp only [List.cons_append, Backed, ih, and_assoc]

theorem Backed.congr (h : Backed prev p l) (heq : ∀ a ∈ l, prev' a = prev a) : Backed prev' p l := by
  induction l generalizing p with
  | nil => exact trivial
  | cons a l ih =>
    exact ⟨(heq a List.mem_cons_self).trans h.1,
      ih h.2 fun b hb => heq b (List.mem_cons_of_mem _ hb)⟩

/-! ### Inserting and unlinking a node -/

/-- `b` goes behind `a`. -/
theorem Path.insertAfter (h : Path next p (l₁ ++ a :: l₂) none) (ha : next' a = some (some b))
    (hb : next' b = some l₂.head?) (hkeep : ∀ c ∈ l₁ ++ l₂, next' c = next c) :
    Path next' p (l₁ ++ a :: b :: l₂) none := by
  obtain ⟨r, hfront, rfl, s, -, hrest⟩ := path_append.mp h
  refine path_append.mpr ⟨some a, hfront.congr fun c hc => hkeep c (List.mem_append_left _ hc), rfl,
    some b, ha, rfl, s, ?_, hrest.congr fun c hc => hkeep c (List.mem_append_right _ hc)⟩
  rw [hb, hrest.head]

/-- The node behind `a` goes. -/
theorem Path.unlink (h : Path next p (l₁ ++ a :: b :: l₂) none) (ha : next' a = some l₂.head?)
    (hkeep : ∀ c ∈ l₁ ++ l₂, next' c = next c) : Path next' p (l₁ ++ a :: l₂) none := by
  obtain ⟨r, hfront, rfl, s, -, rfl, t, -, hrest⟩ := path_append.mp h
  refine path_append.mpr ⟨some a, hfront.congr fun c hc => hkeep c (List.mem_append_left _ hc), rfl, t, ?_,
    hrest.congr fun c hc => hkeep c (List.mem_append_right _ hc)⟩
  rw [ha, hrest.head]

/-- `b` goes to the end. -/
theorem Path.snoc (h : Path next p l none) (hb : next' b = some none)
    (hlast : ∀ c ∈ l.getLast?, next' c = some (some b)) (hkeep : ∀ c ∈ l.dropLast, next' c = next c) :
    Path next' (l ++ [b]).head? (l ++ [b]) none := by
  rcases List.eq_nil_or_concat l with rfl | ⟨front, a, rfl⟩
  · exact ⟨rfl, none, hb, rfl⟩
  · rw [List.concat_eq_append] at h hlast hkeep ⊢
    have hends : next' b = some ([] : List α).head? := hb
    have hpath := h.insertAfter (hlast a (by simp)) hends fun c hc => hkeep c (by simpa using hc)
    rw [List.append_assoc]
    exact hpath.head ▸ hpath

/-- `a` goes, wherever it is. -/
theorem Path.remove (h : Path next p (l₁ ++ a :: l₂) none)
    (hlast : ∀ c ∈ l₁.getLast?, next' c = some l₂.head?)
    (hkeep : ∀ c ∈ l₁.dropLast ++ l₂, next' c = next c) :
    Path next' (l₁ ++ l₂).head? (l₁ ++ l₂) none := by
  rcases List.eq_nil_or_concat l₁ with rfl | ⟨front, b, rfl⟩
  · obtain ⟨-, r, -, hrest⟩ := h
    have hpath := hrest.congr hkeep
    exact hpath.head ▸ hpath
  · have hpath : Path next' p (front ++ b :: l₂) none := by
      rw [List.concat_eq_append, List.append_assoc] at h
      apply h.unlink (hlast b (by simp))
      intro c hc
      exact hkeep c (by simpa using hc)
    rw [List.concat_eq_append, List.append_assoc]
    exact hpath.head ▸ hpath

/-- Only the first element gets another predecessor. -/
theorem Backed.relink {q q' : Option α} {l : List α} (h : Backed prev q l)
    (hhead : ∀ c ∈ l.head?, prev' c = some q') (hkeep : ∀ c ∈ l.tail, prev' c = prev c) : Backed prev' q' l := by
  cases l with
  | nil => exact trivial
  | cons c l => exact ⟨hhead c rfl, h.2.congr hkeep⟩

theorem Backed.insertAfter (h : Backed prev p (l₁ ++ a :: l₂)) (hb : prev' b = some (some a))
    (hhead : ∀ c ∈ l₂.head?, prev' c = some (some b))
    (hkeep : ∀ c ∈ l₁ ++ a :: l₂.tail, prev' c = prev c) : Backed prev' p (l₁ ++ a :: b :: l₂) := by
  obtain ⟨hfront, hrest⟩ := backed_append.mp h
  refine backed_append.mpr ⟨hfront.congr fun c hc => hkeep c ?_, hb, ?_⟩
  · rw [List.mem_append] at hc ⊢
    exact hc.imp_right fun hc => by simp [List.mem_singleton.mp hc]
  · exact hrest.relink hhead fun d hd => hkeep d (List.mem_append_right _ (List.mem_cons_of_mem _ hd))

theorem Backed.unlink (h : Backed prev p (l₁ ++ a :: b :: l₂))
    (hhead : ∀ c ∈ l₂.head?, prev' c = some (some a))
    (hkeep : ∀ c ∈ l₁ ++ a :: l₂.tail, prev' c = prev c) : Backed prev' p (l₁ ++ a :: l₂) := by
  obtain ⟨hfront, -, hrest⟩ := backed_append.mp h
  refine backed_append.mpr ⟨hfront.congr fun c hc => hkeep c ?_, ?_⟩
  · rw [List.mem_append] at hc ⊢
    exact hc.imp_right fun hc => by simp [List.mem_singleton.mp hc]
  · exact hrest.relink hhead fun d hd => hkeep d (List.mem_append_right _ (List.mem_cons_of_mem _ hd))

end Linked
