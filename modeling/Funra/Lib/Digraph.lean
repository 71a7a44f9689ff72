import Mathlib.Algebra.BigOperators.Group.List.Basic
import Mathlib.Algebra.GroupWithZero.Nat
import Mathlib.Data.Finset.Union
import Mathlib.Order.Lattice.Nat

/-!
# Directed graphs

A graph is a list of successors for each node, in which one may stand several times. `ball n` has the nodes at most `n` steps
from the root, `spread n` those at most `n` steps from a set; `depth` is the number of steps to a node.

`unfold` walks through everything that can be reached, in preorder, without a mark where it has been: it ends when there is
no cycle, and a node is in the list as often as there are ways to it. Every node in the list but the first is there as a
successor of one in it (`sum_unfold`).
-/

namespace Digraph

/-! ### Steps from the root -/

section balls

variable {τ : Type*} [DecidableEq τ] {next : τ → List τ} {root u v : τ} {n m : Nat}

def ball (next : τ → List τ) (root : τ) : Nat → Finset τ
  | 0 => {root}
  | n + 1 => ball next root n ∪ (ball next root n).biUnion fun u => (next u).toFinset

theorem mem_ball_succ : v ∈ ball next root (n + 1) ↔ v ∈ ball next root n ∨ ∃ u ∈ ball next root n, v ∈ next u := by
  simp [ball]

theorem ball_mono (h : n ≤ m) : ball next root n ⊆ ball next root m := by
  induction h with
  | refl => exact Finset.Subset.refl _
  | step _ ih => exact ih.trans Finset.subset_union_left

theorem root_mem_ball (n : Nat) : root ∈ ball next root n := ball_mono (Nat.zero_le n) (Finset.mem_singleton_self root)

/-- Nothing new is found after a round that found nothing. -/
theorem ball_closed (h : ∀ u ∈ ball next root n, ∀ v ∈ next u, v ∈ ball next root n) (m : Nat) :
    ball next root m ⊆ ball next root n := by
  induction m with
  | zero => exact ball_mono (Nat.zero_le n)
  | succ m ih =>
    intro v hv
    rcases mem_ball_succ.mp hv with hv | ⟨u, hu, hv⟩
    · exact ih hv
    · exact h u (ih hu) v hv

def Reachable (next : τ → List τ) (root v : τ) : Prop := ∃ n, v ∈ ball next root n

noncomputable def depth (next : τ → List τ) (root v : τ) : Nat := sInf {n | v ∈ ball next root n}

theorem Reachable.depth_le_iff (h : Reachable next root v) : depth next root v ≤ n ↔ v ∈ ball next root n :=
  ⟨fun hle => ball_mono hle (Nat.sInf_mem h), fun hv => Nat.sInf_le hv⟩

theorem mem_ball_iff : v ∈ ball next root n ↔ Reachable next root v ∧ depth next root v ≤ n := by
  constructor
  · intro h
    exact ⟨⟨n, h⟩, Nat.sInf_le h⟩
  · rintro ⟨h, hle⟩
    exact h.depth_le_iff.mp hle

theorem depth_le (h : v ∈ ball next root n) : depth next root v ≤ n := Nat.sInf_le h

theorem depth_root (next : τ → List τ) (root : τ) : depth next root root = 0 := Nat.le_zero.mp (depth_le (root_mem_ball 0))

theorem depth_eq_zero_iff (h : Reachable next root v) : depth next root v = 0 ↔ v = root := by
  rw [← Nat.le_zero, h.depth_le_iff]
  exact Finset.mem_singleton

theorem depth_eq (h : v ∈ ball next root (n + 1)) (hnew : v ∉ ball next root n) : depth next root v = n + 1 := by
  have hreach : Reachable next root v := ⟨n + 1, h⟩
  have hle := hreach.depth_le_iff.mpr h
  have hlt := mt hreach.depth_le_iff.mp hnew
  omega

theorem Reachable.step (h : Reachable next root u) (hv : v ∈ next u) : Reachable next root v := by
  obtain ⟨n, hn⟩ := h
  exact ⟨n + 1, mem_ball_succ.mpr (Or.inr ⟨u, hn, hv⟩)⟩

theorem Reachable.depth_step (h : Reachable next root u) (hv : v ∈ next u) : depth next root v ≤ depth next root u + 1 :=
  depth_le (mem_ball_succ.mpr (Or.inr ⟨u, h.depth_le_iff.mp (Nat.le_refl _), hv⟩))

/-- The last step of a shortest way. -/
theorem Reachable.exists_pred (h : Reachable next root v) (hd : depth next root v = n + 1) :
    ∃ u, Reachable next root u ∧ depth next root u = n ∧ v ∈ next u := by
  have hv := h.depth_le_iff.mp hd.le
  have hnew : v ∉ ball next root n := fun hmem => absurd (depth_le hmem) (by omega)
  obtain ⟨u, hu, hvu⟩ := (mem_ball_succ.mp hv).resolve_left hnew
  have hreach : Reachable next root u := ⟨n, hu⟩
  have hle := depth_le hu
  have hstep := hreach.depth_step hvu
  exact ⟨u, hreach, by omega, hvu⟩

end balls

/-! ### Steps from a set -/

section spreads

variable {τ : Type*} [DecidableEq τ] {next : τ → List τ} {s : Finset τ} {v : τ} {n m : Nat}

/-- The nodes at most `n` steps from one of `s`. -/
def spread (next : τ → List τ) (s : Finset τ) : Nat → Finset τ
  | 0 => s
  | n + 1 => spread next s n ∪ (spread next s n).biUnion fun u => (next u).toFinset

theorem mem_spread_succ : v ∈ spread next s (n + 1) ↔ v ∈ spread next s n ∨ ∃ u ∈ spread next s n, v ∈ next u := by
  simp [spread]

end spreads

/-! ### The unfolding -/

section unfolding

variable {ν : Type*} {next : ν → List ν} {n m : Nat} {r u v : ν} {l : List ν} {f g : ν → Option (List ν)}

def concat (f : ν → Option (List ν)) : List ν → Option (List ν)
  | [] => some []
  | v :: vs => (f v).bind fun l => (concat f vs).map fun rest => l ++ rest

def unfold (next : ν → List ν) : Nat → ν → Option (List ν)
  | 0, _ => none
  | n + 1, v => (concat (unfold next n) (next v)).map fun l => v :: l

theorem concat_cons_eq_some {vs : List ν} (h : concat f (v :: vs) = some l) :
    ∃ front rest, f v = some front ∧ concat f vs = some rest ∧ l = front ++ rest := by
  obtain ⟨front, hfront, hmap⟩ := Option.bind_eq_some_iff.mp h
  obtain ⟨rest, hrest, rfl⟩ := Option.map_eq_some_iff.mp hmap
  exact ⟨front, rest, hfront, hrest, rfl⟩

theorem unfold_eq_some (h : unfold next (n + 1) r = some l) :
    ∃ rest, concat (unfold next n) (next r) = some rest ∧ l = r :: rest := by
  obtain ⟨rest, hrest, rfl⟩ := Option.map_eq_some_iff.mp h
  exact ⟨rest, hrest, rfl⟩

theorem concat_mono {vs : List ν} (hfg : ∀ v l, f v = some l → g v = some l) (h : concat f vs = some l) :
    concat g vs = some l := by
  induction vs generalizing l with
  | nil => exact h
  | cons v vs ih =>
    obtain ⟨front, rest, hfront, hrest, rfl⟩ := concat_cons_eq_some h
    rw [concat, hfg v front hfront, ih hrest]
    rfl

theorem unfold_mono (h : unfold next n r = some l) (hle : n ≤ m) : unfold next m r = some l := by
  induction n generalizing m r l with
  | zero => exact absurd h.symm (Option.some_ne_none l)
  | succ n ih =>
    obtain ⟨m, rfl⟩ := Nat.exists_eq_add_of_le' (Nat.lt_of_lt_of_le (Nat.succ_pos n) hle)
    obtain ⟨rest, hrest, rfl⟩ := unfold_eq_some h
    rw [unfold, concat_mono (fun v l hv => ih hv (Nat.le_of_succ_le_succ hle)) hrest]
    rfl

theorem forall_mem_concat {G : ν → Prop} {vs : List ν} (hf : ∀ v ∈ vs, ∀ l, f v = some l → ∀ x ∈ l, G x)
    (h : concat f vs = some l) :
    ∀ x ∈ l, G x := by
  induction vs generalizing l with
  | nil =>
    obtain rfl := Option.some.inj h
    exact List.forall_mem_nil _
  | cons v vs ih =>
    obtain ⟨front, rest, hfront, hrest, rfl⟩ := concat_cons_eq_some h
    rw [List.forall_mem_cons] at hf
    exact List.forall_mem_append.mpr ⟨hf.1 front hfront, ih hf.2 hrest⟩

/-- A predicate that is kept by steps holds for everything in the list. -/
theorem forall_mem_unfold {G : ν → Prop} (hstep : ∀ u, G u → ∀ v ∈ next u, G v) (hr : G r) (h : unfold next n r = some l) :
    ∀ v ∈ l, G v := by
  induction n generalizing r l with
  | zero => exact absurd h.symm (Option.some_ne_none l)
  | succ n ih =>
    obtain ⟨rest, hrest, rfl⟩ := unfold_eq_some h
    exact List.forall_mem_cons.mpr ⟨hr, forall_mem_concat (fun v hv l hl => ih (hstep r hr v hv) hl) hrest⟩

section sums

variable {M : Type*} [AddCommMonoid M] {weight : ν → M}

theorem sum_concat {vs : List ν} {below : ν → M} (hf : ∀ v l, f v = some l → (l.map weight).sum = weight v + (l.map below).sum)
    (h : concat f vs = some l) : (l.map weight).sum = (vs.map weight).sum + (l.map below).sum := by
  induction vs generalizing l with
  | nil =>
    obtain rfl := Option.some.inj h
    simp
  | cons v vs ih =>
    obtain ⟨front, rest, hfront, hrest, rfl⟩ := concat_cons_eq_some h
    simp only [List.map_append, List.sum_append, List.map_cons, List.sum_cons, hf v front hfront, ih hrest]
    exact add_add_add_comm _ _ _ _

/-- Every node of the list but the first is a successor of one. -/
theorem sum_unfold (weight : ν → M) (h : unfold next n r = some l) :
    (l.map weight).sum = weight r + (l.map fun u => ((next u).map weight).sum).sum := by
  induction n generalizing r l with
  | zero => exact absurd h.symm (Option.some_ne_none l)
  | succ n ih =>
    obtain ⟨rest, hrest, rfl⟩ := unfold_eq_some h
    simp only [List.map_cons, List.sum_cons]
    rw [sum_concat (fun v l hl => ih hl) hrest]

/-- How many of the list are of a kind. -/
theorem countP_unfold (p : ν → Bool) (h : unfold next n r = some l) :
    l.countP p = (if p r then 1 else 0) + (l.map fun u => (next u).countP p).sum := by
  have hcount : ∀ l : List ν, (l.map fun v => if p v then 1 else 0).sum = l.countP p := by
    intro l
    induction l with
    | nil => rfl
    | cons v l ih => rw [List.map_cons, List.sum_cons, ih, List.countP_cons, Nat.add_comm]
  have hsum := sum_unfold (fun v => if p v then 1 else 0) h
  simpa only [hcount] using hsum

end sums

theorem exists_concat {vs : List ν} (hf : ∀ v ∈ vs, ∃ l, f v = some l) : ∃ l, concat f vs = some l := by
  induction vs with
  | nil => exact ⟨[], rfl⟩
  | cons v vs ih =>
    rw [List.forall_mem_cons] at hf
    obtain ⟨front, hfront⟩ := hf.1
    obtain ⟨rest, hrest⟩ := ih hf.2
    exact ⟨front ++ rest, by rw [concat, hfront, hrest]; rfl⟩

/-- A walk ends when every step goes down. -/
theorem exists_unfold {G : ν → Prop} {rank : ν → Nat} (hstep : ∀ u, G u → ∀ v ∈ next u, G v ∧ rank v < rank u) (hr : G r)
    (hn : rank r < n) : ∃ l, unfold next n r = some l := by
  induction n generalizing r with
  | zero => exact absurd hn (Nat.not_lt_zero _)
  | succ n ih =>
    obtain ⟨rest, hrest⟩ := exists_concat fun v hv =>
      ih (hstep r hr v hv).1 (Nat.lt_of_lt_of_le (hstep r hr v hv).2 (Nat.le_of_lt_succ hn))
    exact ⟨r :: rest, by rw [unfold, hrest]; rfl⟩

end unfolding

end Digraph
