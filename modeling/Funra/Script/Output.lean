import Mathlib.Algebra.BigOperators.Ring.Finset
import Mathlib.Algebra.Order.BigOperators.Group.Finset
import Funra.Script.Travel

/-!
# What the profiler writes

`write_json_item` goes down from the root to every child whose level is not below that of the table it is in. Tables of one
level may lie in each other, and a table may lie in several, so that this need not end, and need not count a table once. It
does where every table is found in one other only (`profilerLaw_iff`).
-/

namespace Funra

open CInt Mem Except Digraph

variable {τ : Type} {s : Profiler τ} {r : DataRef τ} {n : Nat}

/-! ### The recursion -/

def Profiler.levelOf (s : Profiler τ) (r : DataRef τ) : Int := (s.deref r).elim 0 MemData.level

def Profiler.sizeOf (s : Profiler τ) (r : DataRef τ) : Int := (s.deref r).elim 0 MemData.size

/-- The children that are written. -/
def Profiler.followed (s : Profiler τ) (r : DataRef τ) : List (DataRef τ) :=
  (s.deref r).elim [] fun data => data.children.filter fun child => data.level ≤ s.levelOf child

/-- Every child has its notes. -/
def Profiler.Closed (s : Profiler τ) : Prop := ∀ r data, s.deref r = some data → ∀ child ∈ data.children, (s.deref child).isSome

theorem int32_add_int32 (x y : Int) : int32 (int32 x + int32 y) = int32 (x + y) := by
  unfold int32
  omega

/-- The children of a table, when each of them is written as a list `f` of what is below it says. -/
theorem writeChildren_eq {write : DataRef τ → Except Fault (Int × List (DataRef τ))} {f : DataRef τ → Option (List (DataRef τ))}
    (hwrite : ∀ r, (s.deref r).isSome → write r = (f r).elim (.error .outOfFuel) fun l => .ok (int32 (l.map s.sizeOf).sum, l))
    (level : Int) {cs : List (DataRef τ)} (hcs : ∀ c ∈ cs, (s.deref c).isSome) (x : Int) (written : List (DataRef τ)) :
    forEach (writeChild s write level) cs (int32 x, written) =
      (concat f (cs.filter fun c => level ≤ s.levelOf c)).elim (.error .outOfFuel) fun l =>
        .ok (int32 (x + (l.map s.sizeOf).sum), written ++ l) := by
  induction cs generalizing x written with
  | nil => simp [forEach, concat]
  | cons c cs ih =>
    rw [List.forall_mem_cons] at hcs
    obtain ⟨data, hdata⟩ := Option.isSome_iff_exists.mp hcs.1
    have hlevel : s.levelOf c = data.level := by rw [Profiler.levelOf, hdata, Option.elim_some]
    rw [forEach, writeChild, hdata]
    dsimp only
    by_cases hle : level ≤ data.level
    · rw [if_pos hle, List.filter_cons_of_pos (by rw [hlevel]; exact decide_eq_true hle), hwrite c hcs.1, concat]
      rcases f c with _ | l
      · rfl
      · simp only [Option.elim_some, bind, Except.bind, pure, Except.pure, Option.bind_some]
        rw [int32_add_int32, ih hcs.2]
        rcases concat f (cs.filter fun c => level ≤ s.levelOf c) with _ | l'
        · rfl
        · simp only [Option.map_some, Option.elim_some, List.map_append, List.sum_append, List.append_assoc, add_assoc]
    · rw [if_neg hle, List.filter_cons_of_neg (by rw [hlevel]; simpa using hle)]
      exact ih hcs.2 x written

theorem writeJsonItem_eq (hclosed : s.Closed) (n : Nat) (r : DataRef τ) (hr : (s.deref r).isSome) :
    writeJsonItem s n r = (unfold s.followed n r).elim (.error .outOfFuel) fun l => .ok (int32 (l.map s.sizeOf).sum, l) := by
  induction n generalizing r with
  | zero => rfl
  | succ n ih =>
    obtain ⟨data, hdata⟩ := Option.isSome_iff_exists.mp hr
    have hfollowed : s.followed r = data.children.filter fun c => data.level ≤ s.levelOf c := by
      rw [Profiler.followed, hdata, Option.elim_some]
    have hsize : s.sizeOf r = data.size := by rw [Profiler.sizeOf, hdata, Option.elim_some]
    rw [writeJsonItem, hdata, unfold, hfollowed]
    dsimp only
    rw [writeChildren_eq ih data.level (hclosed r data hdata)]
    rcases concat (unfold s.followed n) (data.children.filter fun c => data.level ≤ s.levelOf c) with _ | l
    · rfl
    · simp only [Option.elim_some, Option.map_some, List.map_cons, List.sum_cons, hsize, List.singleton_append]

theorem writeJsonItem_halts_iff {Q : Int × List (DataRef τ) → Prop} (hclosed : s.Closed) (hr : (s.deref r).isSome) :
    Halts (fun n => writeJsonItem s n r) Q ↔ ∃ n l, unfold s.followed n r = some l ∧ Q (int32 (l.map s.sizeOf).sum, l) := by
  constructor
  · rintro ⟨a, ⟨n, hrun⟩, ha⟩
    have hn := hrun n (Nat.le_refl n)
    dsimp only at hn
    rw [writeJsonItem_eq hclosed n r hr] at hn
    rcases hunfold : unfold s.followed n r with _ | l
    · rw [hunfold] at hn
      exact nomatch hn
    · rw [hunfold] at hn
      exact ⟨n, l, hunfold, Except.ok.inj hn ▸ ha⟩
  · rintro ⟨n, l, hunfold, hq⟩
    refine ⟨_, ⟨n, fun m hm => ?_⟩, hq⟩
    dsimp only
    rw [writeJsonItem_eq hclosed m r hr, unfold_mono hunfold hm]
    rfl

/-! ### The tables and the values in a list -/

section lists

variable [Fintype τ] [DecidableEq τ] {M : Type*} [AddCommMonoid M]

theorem sum_map_refs {f : DataRef τ → M} {c : M} {l : List (DataRef τ)} (hvalue : ∀ r ∈ l, r.isValue → f r = c) :
    (l.map f).sum = (∑ t, l.count (.table t) • f (.table t)) + l.countP DataRef.isValue • c := by
  induction l with
  | nil => simp
  | cons r l ih =>
    rw [List.forall_mem_cons] at hvalue
    rw [List.map_cons, List.sum_cons, ih hvalue.2]
    cases r with
    | table u =>
      have hcount : ∀ t, (DataRef.table u :: l).count (.table t) • f (.table t) =
          l.count (.table t) • f (.table t) + if t = u then f (.table t) else 0 := by
        intro t
        rw [List.count_cons, add_nsmul]
        by_cases ht : t = u
        · rw [ht, if_pos (beq_self_eq_true _), if_pos rfl, one_nsmul]
        · simp [ht, Ne.symm ht]
      rw [Finset.sum_congr rfl fun t _ => hcount t, Finset.sum_add_distrib, Finset.sum_ite_eq' Finset.univ u,
        if_pos (Finset.mem_univ u), List.countP_cons_of_neg Bool.false_ne_true, add_right_comm, add_comm]
    | value level size =>
      have hcount : ∀ t, (DataRef.value level size :: l).count (.table t) = l.count (.table t) := fun t => by
        simp
      rw [hvalue.1 rfl, List.countP_cons_of_pos rfl, succ_nsmul', add_left_comm]
      simp only [hcount]

end lists

/-! ### What is written below a table -/

variable {heap : τ → LuaTable τ} {root t u v : τ} {max : Int}

theorem levelOf_le_succ (max : Int) (d : Nat) : levelOf max d ≤ levelOf max (d + 1) := by
  cases d with
  | zero => exact Int.le_refl 0
  | succ d =>
    rw [levelOf, levelOf, travelLevel, travelLevel]
    split <;> split <;> omega

section traversed

variable [DecidableEq τ]

theorem Reached.reachable (h : Reached heap root max t) : Reachable (fun t => (heap t).refs) root t := (reached_iff.mp h).1

theorem Travelled.reached (h : Travelled heap root max t) : Reached heap root max t := by
  obtain ⟨hreach, hdepth⟩ := travelled_iff.mp h
  exact reached_iff.mpr ⟨hreach, fun hpos => (hdepth hpos).trans (Nat.le_succ _)⟩

theorem Travelled.reached_of_mem (h : Travelled heap root max t) (hv : v ∈ (heap t).refs) : Reached heap root max v := by
  obtain ⟨hreach, hdepth⟩ := travelled_iff.mp h
  exact reached_iff.mpr ⟨hreach.step hv, fun hpos => (hreach.depth_step hv).trans (Nat.succ_le_succ (hdepth hpos))⟩

theorem reached_root (heap : τ → LuaTable τ) (root : τ) (max : Int) : Reached heap root max root := by
  have hzero : tableDepth heap root root = 0 := depth_root _ _
  exact reached_iff.mpr ⟨⟨0, root_mem_ball 0⟩, fun _ => hzero.le.trans (Nat.zero_le _)⟩

/-- The table in which another one is found is travelled. -/
theorem Reached.exists_travelled (h : Reached heap root max v) {d : Nat} (hd : tableDepth heap root v = d + 1) :
    ∃ u, Travelled heap root max u ∧ tableDepth heap root u = d ∧ v ∈ (heap u).refs := by
  obtain ⟨hreach, hdepth⟩ := reached_iff.mp h
  obtain ⟨u, hu, hud, hv⟩ := hreach.exists_pred hd
  refine ⟨u, travelled_iff.mpr ⟨hu, fun hpos => ?_⟩, hud, hv⟩
  have hle := hdepth hpos
  exact hud.le.trans (by omega)

open Classical in
/-- How many of the references from `t` to `v` are followed. -/
noncomputable def follows (heap : τ → LuaTable τ) (root : τ) (tableLevelMax : Int) (t v : τ) : Nat :=
  if Travelled heap root tableLevelMax t ∧
      levelOf tableLevelMax (tableDepth heap root t) ≤ levelOf tableLevelMax (tableDepth heap root v) then
    (heap t).refs.count v
  else 0

open Classical in
/-- The values in `t` that are written. -/
noncomputable def valuesOf (heap : τ → LuaTable τ) (root : τ) (tableLevelMax : Int) (t : τ) : Nat :=
  if Travelled heap root tableLevelMax t then (heap t).values else 0

theorem Traversed.data (h : Traversed heap root max s) (ht : Reached heap root max t) :
    s.deref (.table t) = some (dataOf heap root max t (Travelled heap root max t)) :=
  (h t).trans (if_pos ht)

theorem Traversed.reached (h : Traversed heap root max s) {data : MemData τ} (hdata : s.deref (.table t) = some data) :
    Reached heap root max t := by
  by_contra hno
  exact absurd (((h t).trans (if_neg hno)).symm.trans hdata) nofun

/-- What is written is one of the tables in reach, or a value. -/
def Noted (heap : τ → LuaTable τ) (root : τ) (max : Int) : DataRef τ → Prop
  | .table t => Reached heap root max t
  | .value _ size => size = 1

theorem Travelled.noted (h : Travelled heap root max t) {r : DataRef τ} {level : Int} (hr : r ∈ (heap t).children level) :
    Noted heap root max r := by
  cases r with
  | table v => exact h.reached_of_mem (mem_children.mp hr)
  | value level size => exact (children_value hr).2

theorem Traversed.mem_children (h : Traversed heap root max s) (ht : Reached heap root max t) {r : DataRef τ} {data : MemData τ}
    (hdata : s.deref (.table t) = some data) (hr : r ∈ data.children) :
    Travelled heap root max t ∧ r ∈ (heap t).children (travelLevel max (tableDepth heap root t)) := by
  rw [h.data ht] at hdata
  obtain rfl := Option.some.inj hdata
  simp only [dataOf] at hr
  split at hr
  next htravelled => exact ⟨htravelled, hr⟩
  next => exact absurd hr List.not_mem_nil

theorem Traversed.closed (h : Traversed heap root max s) : s.Closed := by
  intro r data hdata child hchild
  cases r with
  | table t =>
    obtain ⟨htravelled, hmem⟩ := h.mem_children (h.reached hdata) hdata hchild
    have hnoted := htravelled.noted hmem
    cases child with
    | table v =>
      rw [h.data hnoted]
      rfl
    | value => rfl
  | value =>
    obtain rfl := Option.some.inj hdata
    exact absurd hchild List.not_mem_nil

theorem Traversed.levelOf_table (h : Traversed heap root max s) (ht : Reached heap root max t) :
    s.levelOf (.table t) = levelOf max (tableDepth heap root t) := by
  rw [Profiler.levelOf, h.data ht]
  rfl

theorem Traversed.sizeOf_table (h : Traversed heap root max s) (ht : Reached heap root max t) :
    s.sizeOf (.table t) = (getTableSize (heap t)).size := by
  rw [Profiler.sizeOf, h.data ht, Option.elim_some]
  simp only [dataOf, newTableData, initNodeData]

theorem Traversed.followed_table (h : Traversed heap root max s) (ht : Travelled heap root max t) :
    s.followed (.table t) = ((heap t).children (travelLevel max (tableDepth heap root t))).filter fun child =>
      levelOf max (tableDepth heap root t) ≤ s.levelOf child := by
  rw [Profiler.followed, h.data ht.reached]
  simp only [dataOf, if_pos ht, Option.elim_some]
  rfl

theorem Traversed.followed_last (h : Traversed heap root max s) (ht : Reached heap root max t)
    (hlast : ¬ Travelled heap root max t) :
    s.followed (.table t) = [] := by
  rw [Profiler.followed, h.data ht]
  simp [dataOf, hlast]

theorem Traversed.count_followed (h : Traversed heap root max s) (ht : Reached heap root max t) (v : τ) :
    (s.followed (.table t)).count (.table v) = follows heap root max t v := by
  unfold follows
  by_cases htravelled : Travelled heap root max t
  · rw [h.followed_table htravelled]
    by_cases hv : v ∈ (heap t).refs
    · have hlevel := h.levelOf_table (htravelled.reached_of_mem hv)
      split
      next hle => rw [List.count_filter (by simpa [hlevel] using hle.2), children_count]
      next hno =>
        refine List.count_eq_zero.mpr fun hmem => hno ⟨htravelled, ?_⟩
        rw [← hlevel]
        exact of_decide_eq_true (List.mem_filter.mp hmem).2
    · rw [List.count_eq_zero.mpr fun hmem => hv (Funra.mem_children.mp (List.mem_of_mem_filter hmem)),
        List.count_eq_zero.mpr hv, ite_self]
  · rw [h.followed_last ht htravelled, if_neg fun hboth => htravelled hboth.1, List.count_nil]

theorem Traversed.countP_followed (h : Traversed heap root max s) (ht : Reached heap root max t) :
    (s.followed (.table t)).countP DataRef.isValue = valuesOf heap root max t := by
  unfold valuesOf
  split
  next htravelled =>
    rw [h.followed_table htravelled, List.countP_filter, ← children_countP (heap t) (travelLevel max (tableDepth heap root t))]
    refine List.countP_congr fun r hr => ?_
    cases r with
    | table => simp [DataRef.isValue]
    | value level size =>
      obtain ⟨rfl, -⟩ := children_value hr
      have hle : levelOf max (tableDepth heap root t) ≤ s.levelOf (.value (travelLevel max (tableDepth heap root t)) size) :=
        levelOf_le_succ max (tableDepth heap root t)
      simp [DataRef.isValue, hle]
  next hlast =>
    rw [h.followed_last ht hlast]
    rfl

theorem Traversed.noted_of_followed (h : Traversed heap root max s) {r child : DataRef τ} (hr : Noted heap root max r)
    (hchild : child ∈ s.followed r) : Noted heap root max child := by
  cases r with
  | table t =>
    by_cases htravelled : Travelled heap root max t
    · rw [h.followed_table htravelled] at hchild
      exact htravelled.noted (List.mem_of_mem_filter hchild)
    · rw [h.followed_last hr htravelled] at hchild
      exact absurd hchild List.not_mem_nil
  | value level size => exact absurd hchild List.not_mem_nil

theorem Traversed.noted (h : Traversed heap root max s) {l : List (DataRef τ)}
    (hunfold : unfold s.followed n (.table root) = some l) :
    ∀ r ∈ l, Noted heap root max r := by
  have hroot : Noted heap root max (.table root) := reached_root heap root max
  exact forall_mem_unfold (fun r hr child hchild => h.noted_of_followed hr hchild) hroot hunfold

/-! ### Once each -/

variable [Fintype τ]

/-- What is counted below the tables of a list is counted for each table as often as it is in the list. -/
theorem sum_noted {l : List (DataRef τ)} (hnoted : ∀ r ∈ l, Noted heap root max r)
    {f : DataRef τ → Nat} {g : τ → Nat} (htable : ∀ t, Reached heap root max t → f (.table t) = g t)
    (hvalue : ∀ level size, f (.value level size) = 0) : (l.map f).sum = ∑ t, l.count (.table t) * g t := by
  have hzero : ∀ r ∈ l, r.isValue → f r = 0 := by
    intro r _ hr
    cases r with
    | table => exact absurd hr Bool.false_ne_true
    | value level size => exact hvalue level size
  rw [sum_map_refs hzero, nsmul_zero, add_zero]
  refine Finset.sum_congr rfl fun t _ => ?_
  by_cases ht : .table t ∈ l
  · rw [htable t (hnoted _ ht), nsmul_eq_mul, Nat.cast_id]
  · rw [List.count_eq_zero.mpr ht, zero_nsmul, Nat.zero_mul]

/-- A table but the root is written wherever it is followed from a table that is. -/
theorem Traversed.count_eq (h : Traversed heap root max s) {l : List (DataRef τ)}
    (hunfold : unfold s.followed n (.table root) = some l) (v : τ) :
    l.count (.table v) = (if v = root then 1 else 0) + ∑ t, l.count (.table t) * follows heap root max t v := by
  have hcount := countP_unfold (fun r => r == .table v) hunfold
  rw [sum_noted (h.noted hunfold) (fun t ht => h.count_followed ht v) fun _ _ => rfl] at hcount
  have hroot : (DataRef.table root == .table v) = true ↔ v = root := by
    rw [beq_iff_eq, DataRef.table.injEq, eq_comm]
  rwa [if_congr hroot rfl rfl] at hcount

theorem Traversed.values_eq (h : Traversed heap root max s) {l : List (DataRef τ)}
    (hunfold : unfold s.followed n (.table root) = some l) :
    l.countP DataRef.isValue = ∑ t, l.count (.table t) * valuesOf heap root max t := by
  have hcount := countP_unfold DataRef.isValue hunfold
  rw [sum_noted (h.noted hunfold) (fun t ht => h.countP_followed ht) fun _ _ => rfl] at hcount
  exact hcount.trans (Nat.zero_add _)

open Classical in
/-- The size of the tables in reach, each once. A value that is no table adds 1 to the size of the table it is in. -/
noncomputable def totalSize (heap : τ → LuaTable τ) (root : τ) (tableLevelMax : Int) : Int :=
  ∑ t, if Reached heap root tableLevelMax t then (getTableSize (heap t)).size + valuesOf heap root tableLevelMax t else 0

theorem Traversed.sum_sizeOf (h : Traversed heap root max s) {l : List (DataRef τ)}
    (hunfold : unfold s.followed n (.table root) = some l)
    (hone : ∀ t, Reached heap root max t → l.count (.table t) = 1) : (l.map s.sizeOf).sum = totalSize heap root max := by
  have hnoted := h.noted hunfold
  have hvalue : ∀ r ∈ l, r.isValue → s.sizeOf r = 1 := by
    intro r hr hval
    cases r with
    | table => exact absurd hval Bool.false_ne_true
    | value level size => exact hnoted _ hr
  rw [sum_map_refs hvalue, h.values_eq hunfold, totalSize, nsmul_one, Nat.cast_sum, ← Finset.sum_add_distrib]
  refine Finset.sum_congr rfl fun t _ => ?_
  split
  next ht => rw [hone t ht, one_nsmul, Nat.one_mul, h.sizeOf_table ht]
  next hno =>
    rw [List.count_eq_zero.mpr fun hmem => hno (hnoted (.table t) hmem), zero_nsmul, Nat.zero_mul, Nat.cast_zero, add_zero]

/-- Every table in reach but the root is followed from one table, and once. -/
def ReferredOnce (heap : τ → LuaTable τ) (root : τ) (tableLevelMax : Int) : Prop :=
  ∀ v, Reached heap root tableLevelMax v → ∑ t, follows heap root tableLevelMax t v = if v = root then 0 else 1

/-- A table is found from one of the depth above it, so that no other one is left to follow it. -/
theorem ReferredOnce.depth (honce : ReferredOnce heap root max) (hv : Reached heap root max v)
    (hfollows : follows heap root max t v ≠ 0) :
    tableDepth heap root v = tableDepth heap root t + 1 := by
  have hsum := honce v hv
  have hne : v ≠ root := by
    intro hroot
    rw [if_pos hroot] at hsum
    exact hfollows (Finset.sum_eq_zero_iff.mp hsum t (Finset.mem_univ t))
  rw [if_neg hne] at hsum
  obtain ⟨d, hd⟩ : ∃ d, tableDepth heap root v = d + 1 :=
    Nat.exists_eq_succ_of_ne_zero (mt (depth_eq_zero_iff hv.reachable).mp hne)
  obtain ⟨u, hu, hud, href⟩ := hv.exists_travelled hd
  have hup : follows heap root max u v ≠ 0 := by
    have hle : levelOf max (tableDepth heap root u) ≤ levelOf max (tableDepth heap root v) := by
      rw [hud, hd]
      exact levelOf_le_succ max d
    rw [follows, if_pos ⟨hu, hle⟩]
    exact (List.count_pos_iff.mpr href).ne'
  by_cases heq : t = u
  · rw [heq, hud, hd]
  · have hpair := Finset.sum_le_sum_of_subset (f := fun t => follows heap root max t v) (Finset.subset_univ {t, u})
    rw [Finset.sum_pair heq, hsum] at hpair
    omega

theorem ReferredOnce.count (honce : ReferredOnce heap root max) (h : Traversed heap root max s) {l : List (DataRef τ)}
    (hunfold : unfold s.followed n (.table root) = some l) (hv : Reached heap root max v) : l.count (.table v) = 1 := by
  induction hd : tableDepth heap root v using Nat.strongRecOn generalizing v with
  | ind d ih =>
    have hsum : ∑ t, l.count (.table t) * follows heap root max t v = ∑ t, follows heap root max t v := by
      refine Finset.sum_congr rfl fun t _ => ?_
      by_cases hfollows : follows heap root max t v = 0
      · rw [hfollows, Nat.mul_zero]
      · have hdepth := honce.depth hv hfollows
        have ht : Reached heap root max t := by
          by_contra hno
          exact hfollows (if_neg fun hboth => hno hboth.1.reached)
        rw [ih _ (by omega) ht rfl, Nat.one_mul]
    rw [h.count_eq hunfold, hsum, honce v hv]
    split <;> rfl

/-- Every step goes down to a greater depth, or to a value. -/
theorem ReferredOnce.exists_unfold (honce : ReferredOnce heap root max) (h : Traversed heap root max s) :
    ∃ n l, unfold s.followed n (.table root) = some l := by
  let rank : DataRef τ → Nat
    | .table t => Finset.univ.sup (tableDepth heap root) - tableDepth heap root t + 1
    | .value _ _ => 0
  have hroot : Noted heap root max (.table root) := reached_root heap root max
  have hdown : ∀ r, Noted heap root max r → ∀ child ∈ s.followed r, Noted heap root max child ∧ rank child < rank r := by
    intro r hr child hchild
    have hnoted := h.noted_of_followed hr hchild
    refine ⟨hnoted, ?_⟩
    cases r with
    | value level size => exact absurd hchild List.not_mem_nil
    | table t =>
      cases child with
      | value level size => exact Nat.succ_pos _
      | table v =>
        have hfollows : follows heap root max t v ≠ 0 := by
          rw [← h.count_followed hr]
          exact (List.count_pos_iff.mpr hchild).ne'
        have hdepth := honce.depth hnoted hfollows
        have hle : tableDepth heap root v ≤ Finset.univ.sup (tableDepth heap root) := Finset.le_sup (Finset.mem_univ v)
        show _ - _ + 1 < _ - _ + 1
        omega
  exact ⟨rank (.table root) + 1, Digraph.exists_unfold hdown hroot (Nat.lt_succ_self _)⟩

/-- The profiler's output ends, has each table in reach once, and gives back their size. -/
def ProfilerLaw (heap : τ → LuaTable τ) (root : τ) (tableLevelMax : Int) : Prop :=
  Halts (rprofiler heap root tableLevelMax) fun r =>
    (∀ t, Reached heap root tableLevelMax t → r.2.count (.table t) = 1) ∧ r.1 = totalSize heap root tableLevelMax

theorem exists_traversed (heap : τ → LuaTable τ) (root : τ) (max : Int) : ∃ s, Traversed heap root max s ∧
    ∀ Q, Halts (rprofiler heap root max) Q ↔
      ∃ n l, unfold s.followed n (.table root) = some l ∧ Q (int32 (l.map s.sizeOf).sum, l) := by
  obtain ⟨s, hrun, htraversed⟩ := travel_halts heap root max
  have htravel : Halts (travel heap root max) (· = s) := ⟨s, hrun, rfl⟩
  have hroot : (s.deref (.table root)).isSome := by
    rw [htraversed.data (reached_root heap root max)]
    rfl
  refine ⟨s, htraversed, fun Q => ?_⟩
  rw [← writeJsonItem_halts_iff htraversed.closed hroot]
  constructor
  · intro hlaw
    have hparts : Halts (travel heap root max) fun s => Halts (fun n => writeJsonItem s n (.table root)) Q :=
      Halts.of_bind hlaw fun n m a hn hle => loop_mono hn hle
    obtain ⟨_, rfl, hwrite⟩ := (htravel.and hparts).exists
    exact hwrite
  · intro hwrite
    refine Halts.bind htravel fun s' hs' => ?_
    rw [hs']
    exact hwrite

theorem ProfilerLaw.once (h : ProfilerLaw heap root max) :
    ReferredOnce heap root max ∧ -2147483648 ≤ totalSize heap root max ∧ totalSize heap root max < 2147483648 := by
  obtain ⟨s, htraversed, hiff⟩ := exists_traversed heap root max
  obtain ⟨n, l, hunfold, hone, hsize⟩ := (hiff _).mp h
  constructor
  · intro v hv
    have hcount := htraversed.count_eq hunfold v
    have hsum : ∑ t, l.count (.table t) * follows heap root max t v = ∑ t, follows heap root max t v := by
      refine Finset.sum_congr rfl fun t _ => ?_
      by_cases ht : Reached heap root max t
      · rw [hone t ht, Nat.one_mul]
      · have hno : follows heap root max t v = 0 := if_neg fun hboth => ht hboth.1.reached
        rw [hno, Nat.mul_zero]
    rw [hone v hv, hsum] at hcount
    by_cases hroot : v = root
    · rw [if_pos hroot] at hcount ⊢
      omega
    · rw [if_neg hroot] at hcount ⊢
      omega
  · rw [← hsize]
    exact int32_range _

theorem ReferredOnce.law (honce : ReferredOnce heap root max)
    (hsize : -2147483648 ≤ totalSize heap root max ∧ totalSize heap root max < 2147483648) : ProfilerLaw heap root max := by
  obtain ⟨s, htraversed, hiff⟩ := exists_traversed heap root max
  obtain ⟨n, l, hunfold⟩ := honce.exists_unfold htraversed
  have hone : ∀ t, Reached heap root max t → l.count (.table t) = 1 := fun t ht => honce.count htraversed hunfold ht
  refine (hiff _).mpr ⟨n, l, hunfold, hone, ?_⟩
  rw [htraversed.sum_sizeOf hunfold hone]
  exact int32_of_range hsize.1 hsize.2

/-- The output is right exactly where every table in reach is referred to once, from a table that is not deeper, and the total
is an `int`. -/
theorem profilerLaw_iff (heap : τ → LuaTable τ) (root : τ) (max : Int) : ProfilerLaw heap root max ↔
    ReferredOnce heap root max ∧ -2147483648 ≤ totalSize heap root max ∧ totalSize heap root max < 2147483648 :=
  ⟨ProfilerLaw.once, fun h => h.1.law h.2⟩

end traversed

/-- `t = {}; t.t = t`. -/
theorem rprofiler_self : ¬ Halts (rprofiler (fun _ : Unit => ⟨none, [(.other, .table ())], 0, 0⟩) () 1) fun _ => True := by
  intro h
  obtain ⟨s, htraversed, hiff⟩ := exists_traversed (fun _ : Unit => ⟨none, [(.other, .table ())], 0, 0⟩) () 1
  obtain ⟨n, l, hunfold, -⟩ := (hiff _).mp h
  have hcount := htraversed.count_eq hunfold ()
  have hfollows : follows (fun _ : Unit => ⟨none, [(.other, .table ())], 0, 0⟩) () 1 () () = 1 :=
    if_pos ⟨root_mem_ball 1, Int.le_refl _⟩
  simp [hfollows] at hcount

end Funra
