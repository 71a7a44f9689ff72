import Funra.Lib.Digraph
import Funra.Script.Profiler

/-!
# What the profiler finds

The traversal finds the tables by the number of steps from the root: `travelTable` notes what is in a table, in order, and puts
the tables that are new at the end of the list (`travelTable_spec`). At the end, what is noted of a table is a matter of its
depth alone (`travel_halts`): its level is the depth less one, or at most one where there is no maximum.
-/

namespace Funra

open CInt Mem Except Digraph

variable {τ : Type}

/-! ### What is in a table -/

def LuaValue.tables : LuaValue τ → List τ
  | .table t => [t]
  | .other => []

/-- The tables in a table, as metatable, key or value. -/
def LuaTable.refs (h : LuaTable τ) : List τ :=
  h.metatable.toList ++ h.entries.flatMap fun entry => entry.1.tables ++ entry.2.tables

/-- The number of values that are no tables. -/
def LuaTable.values (h : LuaTable τ) : Nat := h.entries.countP fun entry => entry.2.tables.isEmpty

def LuaValue.child (level : Int) : LuaValue τ → DataRef τ
  | .table t => .table t
  | .other => .value level 1

/-- What is noted below a table that is travelled at a level. -/
def LuaTable.children (h : LuaTable τ) (level : Int) : List (DataRef τ) :=
  h.metatable.toList.map .table ++ h.entries.flatMap fun entry => entry.1.tables.map .table ++ [entry.2.child level]

def DataRef.isValue : DataRef τ → Bool
  | .table _ => false
  | .value _ _ => true

theorem children_value {h : LuaTable τ} {level level' size : Int} (hmem : .value level' size ∈ h.children level) :
    level' = level ∧ size = 1 := by
  simp only [LuaTable.children, List.mem_append, List.mem_map, List.mem_flatMap, List.mem_singleton] at hmem
  rcases hmem with ⟨t, -, ht⟩ | ⟨⟨key, value⟩, -, ⟨t, -, ht⟩ | hvalue⟩
  · exact nomatch ht
  · exact nomatch ht
  · cases value with
    | table t => exact nomatch hvalue
    | other =>
      rw [LuaValue.child, DataRef.value.injEq] at hvalue
      exact hvalue

theorem children_countP (h : LuaTable τ) (level : Int) : (h.children level).countP DataRef.isValue = h.values := by
  have hno : ∀ ts : List τ, (ts.map DataRef.table).countP DataRef.isValue = 0 := fun ts => by
    rw [List.countP_map]
    exact List.countP_eq_zero.mpr fun t _ => Bool.false_ne_true
  rw [LuaTable.children, LuaTable.values, List.countP_append, hno, Nat.zero_add]
  induction h.entries with
  | nil => rfl
  | cons entry entries ih =>
    have hvalue : ∀ value : LuaValue τ, [value.child level].countP DataRef.isValue = if value.tables.isEmpty then 1 else 0 := by
      rintro (t | _)
      · rfl
      · rfl
    rw [List.flatMap_cons, List.countP_append, ih, List.countP_append, hno, hvalue, List.countP_cons, Nat.zero_add, Nat.add_comm]

variable [DecidableEq τ]

theorem children_count (h : LuaTable τ) (level : Int) (t : τ) : (h.children level).count (.table t) = h.refs.count t := by
  have hinj : ∀ ts : List τ, (ts.map DataRef.table).count (.table t) = ts.count t := fun ts =>
    List.count_map_of_injective ts DataRef.table (fun _ _ heq => DataRef.table.inj heq) t
  have hvalue : ∀ value : LuaValue τ, [value.child level].count (.table t) = value.tables.count t := by
    rintro (u | _)
    · exact hinj [u]
    · exact List.count_singleton
  rw [LuaTable.children, LuaTable.refs, List.count_append, List.count_append, hinj]
  congr 1
  induction h.entries with
  | nil => rfl
  | cons entry entries ih =>
    rw [List.flatMap_cons, List.flatMap_cons, List.count_append, List.count_append, ih, List.count_append, List.count_append,
      hinj, hvalue]

theorem mem_children {h : LuaTable τ} {level : Int} {t : τ} : .table t ∈ h.children level ↔ t ∈ h.refs := by
  rw [← List.count_pos_iff, children_count, List.count_pos_iff]

/-! ### One table -/

/-- One more thing in the table `t`. -/
def attach (heap : τ → LuaTable τ) (t : τ) (level : Int) (s : Profiler τ) : DataRef τ → Profiler τ
  | .table p => readObject heap s t p level
  | .value valueLevel size => addNodeChildData s t (.value valueLevel size)

variable {heap : τ → LuaTable τ} {s s' s'' : Profiler τ} {t p : τ} {level : Int} {d : MemData τ} {cs cs' : List (DataRef τ)}
  {fresh fresh' : List τ}

theorem travelTable_eq (heap : τ → LuaTable τ) (s : Profiler τ) (t : τ) (level : Int) :
    travelTable heap s t level = ((heap t).children level).foldl (attach heap t level) s := by
  have hentry : ∀ (s : Profiler τ) (entry : LuaValue τ × LuaValue τ), travelEntry heap t level s entry =
      (entry.1.tables.map DataRef.table ++ [entry.2.child level]).foldl (attach heap t level) s := by
    rintro s ⟨_ | _, _ | _⟩ <;> rfl
  have hentries : ∀ (entries : List (LuaValue τ × LuaValue τ)) (s : Profiler τ), entries.foldl (travelEntry heap t level) s =
      (entries.flatMap fun entry => entry.1.tables.map .table ++ [entry.2.child level]).foldl (attach heap t level) s := by
    intro entries
    induction entries with
    | nil => exact fun s => rfl
    | cons entry entries ih =>
      intro s
      rw [List.foldl_cons, ih, List.flatMap_cons, List.foldl_append, hentry]
  rw [travelTable, LuaTable.children, List.foldl_append, ← hentries]
  cases (heap t).metatable with
  | none => rfl
  | some metatable => rfl

/-- From `s` to `s'`, `cs` have been noted below the table `t`, whose notes were `d`; `fresh` are new. -/
structure Attached (heap : τ → LuaTable τ) (t : τ) (level : Int) (d : MemData τ) (cs : List (DataRef τ)) (fresh : List τ)
    (s s' : Profiler τ) : Prop where
  self : s'.allData t = some { d with children := d.children ++ cs }
  others : ∀ p, p ≠ t → s'.allData p = if p ∈ fresh then some (newTableData (heap p) level) else s.allData p
  list : s'.travelList = s.travelList ++ fresh
  nodup : fresh.Nodup
  mem_fresh : ∀ p, p ∈ fresh ↔ s.allData p = none ∧ .table p ∈ cs

theorem Attached.nil (hd : s.allData t = some d) : Attached heap t level d [] [] s s where
  self := by rw [List.append_nil]; exact hd
  others p _ := by rw [if_neg List.not_mem_nil]
  list := (List.append_nil _).symm
  nodup := List.nodup_nil
  mem_fresh p := by simp

/-- What is known stays known, and what is new is in `fresh`. -/
theorem Attached.eq_none_iff (h : Attached heap t level d cs fresh s s') (hd : s.allData t = some d) :
    s'.allData p = none ↔ s.allData p = none ∧ p ∉ fresh := by
  by_cases hp : p = t
  · rw [hp, h.self, hd]
    simp
  · rw [h.others p hp]
    split
    next hfresh => simp [hfresh]
    next hold => simp [hold]

theorem Attached.append (hd : s.allData t = some d) (h : Attached heap t level d cs fresh s s')
    (h' : Attached heap t level { d with children := d.children ++ cs } cs' fresh' s' s'') :
    Attached heap t level d (cs ++ cs') (fresh ++ fresh') s s'' where
  self := by rw [h'.self, List.append_assoc]
  others p hp := by
    rw [h'.others p hp, h.others p hp]
    by_cases hnew : p ∈ fresh'
    · rw [if_pos hnew, if_pos (List.mem_append_right _ hnew)]
    · rw [if_neg hnew]
      exact if_congr (by simp [hnew]) rfl rfl
  list := by rw [h'.list, h.list, List.append_assoc]
  nodup := by
    refine List.nodup_append.mpr ⟨h.nodup, h'.nodup, ?_⟩
    rintro p hp _ hp' rfl
    exact ((h.eq_none_iff hd).mp ((h'.mem_fresh p).mp hp').1).2 hp
  mem_fresh p := by
    rw [List.mem_append, h'.mem_fresh, h.eq_none_iff hd, List.mem_append]
    by_cases hp : p ∈ fresh
    · simp [hp, (h.mem_fresh p).mp hp]
    · have hno := mt (h.mem_fresh p).mpr hp
      simp only [hp, false_or, not_false_iff, and_true]
      tauto

theorem addNodeChildData_attached (hd : s.allData t = some d) (c : DataRef τ) (hc : ∀ p, c = .table p → (s.allData p).isSome) :
    Attached heap t level d [c] [] s (addNodeChildData s t c) where
  self := by
    simp [addNodeChildData, hd]
  others p hp := by
    rw [if_neg List.not_mem_nil]
    exact Function.update_of_ne hp _ _
  list := (List.append_nil _).symm
  nodup := List.nodup_nil
  mem_fresh p := by
    rw [List.mem_singleton]
    refine ⟨fun hmem => absurd hmem List.not_mem_nil, ?_⟩
    rintro ⟨hnone, heq⟩
    have hsome := hc p heq.symm
    rw [hnone] at hsome
    exact nomatch hsome

theorem readObject_attached (hd : s.allData t = some d) (p : τ) :
    ∃ fresh, Attached heap t level d [.table p] fresh s (readObject heap s t p level) := by
  unfold readObject
  split
  next data hp =>
    refine ⟨[], addNodeChildData_attached hd _ ?_⟩
    rintro _ ⟨⟩
    rw [hp]
    rfl
  next hp =>
    have hne : t ≠ p := by
      rintro rfl
      exact nomatch hp.symm.trans hd
    refine ⟨[p], ?_, ?_, rfl, List.nodup_singleton p, ?_⟩
    · simp [addNodeChildData, Function.update_of_ne hne, hd]
    · intro q hq
      simp only [addNodeChildData, Function.update_of_ne hq, List.mem_singleton]
      by_cases heq : q = p
      · rw [if_pos heq, heq, Function.update_self]
      · rw [if_neg heq, Function.update_of_ne heq]
    · intro q
      rw [List.mem_singleton, List.mem_singleton, DataRef.table.injEq]
      refine ⟨?_, And.right⟩
      rintro rfl
      exact ⟨hp, rfl⟩

theorem attach_attached (hd : s.allData t = some d) (c : DataRef τ) :
    ∃ fresh, Attached heap t level d [c] fresh s (attach heap t level s c) := by
  cases c with
  | table p => exact readObject_attached hd p
  | value valueLevel size => exact ⟨[], addNodeChildData_attached hd _ fun p heq => nomatch heq⟩

theorem attachAll_attached (hd : s.allData t = some d) (cs : List (DataRef τ)) :
    ∃ fresh, Attached heap t level d cs fresh s (cs.foldl (attach heap t level) s) := by
  induction cs generalizing s d with
  | nil => exact ⟨[], .nil hd⟩
  | cons c cs ih =>
    obtain ⟨fresh, hfirst⟩ : ∃ fresh, Attached heap t level d [c] fresh s (attach heap t level s c) := attach_attached hd c
    obtain ⟨fresh', hrest⟩ := ih hfirst.self
    exact ⟨fresh ++ fresh', hfirst.append hd hrest⟩

theorem travelTable_spec (heap : τ → LuaTable τ) (level : Int) (hd : s.allData t = some d) :
    ∃ fresh, Attached heap t level d ((heap t).children level) fresh s (travelTable heap s t level) := by
  rw [travelTable_eq]
  exact attachAll_attached hd _

/-! ### Level by level -/

/-- The level at which the tables of a depth are travelled. -/
def travelLevel (tableLevelMax : Int) (depth : Nat) : Int := if depth = 0 then 0 else if 0 < tableLevelMax then depth else 1

/-- The level the tables of a depth get, which is that of the table they are found in. -/
def levelOf (tableLevelMax : Int) : Nat → Int
  | 0 => 0
  | depth + 1 => travelLevel tableLevelMax depth

/-- The tables at most `n` steps from the root. -/
abbrev near (heap : τ → LuaTable τ) (root : τ) (n : Nat) : Finset τ := ball (fun t => (heap t).refs) root n

noncomputable abbrev tableDepth (heap : τ → LuaTable τ) (root t : τ) : Nat := depth (fun t => (heap t).refs) root t

open Classical in
/-- What is noted of a table. -/
noncomputable def dataOf (heap : τ → LuaTable τ) (root : τ) (tableLevelMax : Int) (t : τ) (travelled : Prop) : MemData τ :=
  { newTableData (heap t) (levelOf tableLevelMax (tableDepth heap root t)) with
    children := if travelled then (heap t).children (travelLevel tableLevelMax (tableDepth heap root t)) else [] }

variable {root : τ} {max : Int} {k : Nat} {todo new rest : List τ}

/-- Of the tables `k` steps away those of `todo` have not been travelled yet, and `new` are those the others have led to. -/
structure Known (heap : τ → LuaTable τ) (root : τ) (max : Int) (k : Nat) (todo new : List τ)
    (allData : τ → Option (MemData τ)) : Prop where
  todo_nodup : todo.Nodup
  new_nodup : new.Nodup
  layer : ∀ t ∈ todo, t ∈ near heap root k ∧ tableDepth heap root t = k
  mem_new : ∀ t, t ∈ new ↔ t ∉ near heap root k ∧ ∃ u ∈ near heap root k, u ∉ todo ∧ t ∈ (heap u).refs
  data : ∀ t, allData t = if t ∈ near heap root k ∨ t ∈ new then
    some (dataOf heap root max t (t ∈ near heap root k ∧ t ∉ todo)) else none

theorem Known.start (heap : τ → LuaTable τ) (root : τ) (max : Int) :
    Known heap root max 0 [root] [] (Function.update (fun _ => none) root (some (newTableData (heap root) 0))) where
  todo_nodup := List.nodup_singleton root
  new_nodup := List.nodup_nil
  layer t ht := by
    obtain rfl := List.mem_singleton.mp ht
    exact ⟨root_mem_ball 0, depth_root _ _⟩
  mem_new t := by
    refine ⟨fun h => absurd h List.not_mem_nil, ?_⟩
    rintro ⟨-, u, hu, hno, -⟩
    exact absurd (List.mem_singleton.mpr (Finset.mem_singleton.mp hu)) hno
  data t := by
    have hzero : tableDepth heap root root = 0 := depth_root _ _
    by_cases ht : t = root
    · rw [ht, Function.update_self, if_pos (Or.inl (root_mem_ball 0)), dataOf, hzero,
        if_neg fun h => h.2 (List.mem_singleton_self root)]
      rfl
    · rw [Function.update_of_ne ht, if_neg]
      rintro (hmem | hmem)
      · exact ht (Finset.mem_singleton.mp hmem)
      · exact absurd hmem List.not_mem_nil

theorem Known.travelled (h : Known heap root max k (t :: rest) new s.allData) :
    s.allData t = some (dataOf heap root max t False) := by
  obtain ⟨hnear, -⟩ := h.layer t List.mem_cons_self
  rw [h.data, if_pos (Or.inl hnear)]
  simp

theorem Known.eq_none_iff (h : Known heap root max k todo new s.allData) :
    s.allData p = none ↔ p ∉ near heap root k ∧ p ∉ new := by
  rw [h.data, ← not_or]
  split
  next hin => simp [hin]
  next hout => simp [hout]

/-- After the next table of the level. -/
theorem Known.step (h : Known heap root max k (t :: rest) new s.allData)
    (hatt : Attached heap t (travelLevel max k) (dataOf heap root max t False) ((heap t).children (travelLevel max k)) fresh s s') :
    Known heap root max k rest (new ++ fresh) s'.allData := by
  have hfresh : ∀ p, p ∈ fresh ↔ (p ∉ near heap root k ∧ p ∉ new) ∧ p ∈ (heap t).refs := fun p => by
    rw [hatt.mem_fresh, h.eq_none_iff, mem_children]
  obtain ⟨hnear, hdepth⟩ := h.layer t List.mem_cons_self
  obtain ⟨hhead, hrest⟩ := List.nodup_cons.mp h.todo_nodup
  refine ⟨hrest, ?_, fun p hp => h.layer p (List.mem_cons_of_mem t hp), fun p => ?_, fun p => ?_⟩
  · refine List.nodup_append.mpr ⟨h.new_nodup, hatt.nodup, ?_⟩
    rintro p hp _ hp' rfl
    exact ((hfresh p).mp hp').1.2 hp
  · rw [List.mem_append, h.mem_new, hfresh]
    constructor
    · rintro (⟨hno, u, hu, hout, hp⟩ | ⟨⟨hno, -⟩, hp⟩)
      · exact ⟨hno, u, hu, fun hmem => hout (List.mem_cons_of_mem t hmem), hp⟩
      · exact ⟨hno, t, hnear, hhead, hp⟩
    · rintro ⟨hno, u, hu, hout, hp⟩
      by_cases hold : p ∈ new
      · exact Or.inl ((h.mem_new p).mp hold)
      · refine Or.inr ⟨⟨hno, hold⟩, ?_⟩
        by_cases heq : u = t
        · exact heq ▸ hp
        · exact absurd ((h.mem_new p).mpr ⟨hno, u, hu, fun hmem => (List.mem_cons.mp hmem).elim heq hout, hp⟩) hold
  · by_cases heq : p = t
    · rw [heq, hatt.self, if_pos (Or.inl hnear)]
      simp [dataOf, hdepth, hnear, hhead, newTableData, initNodeData]
    · rw [hatt.others p heq]
      by_cases hp : p ∈ fresh
      · obtain ⟨⟨hno, -⟩, href⟩ := (hfresh p).mp hp
        have hdeep : tableDepth heap root p = k + 1 := depth_eq (mem_ball_succ.mpr (Or.inr ⟨t, hnear, href⟩)) hno
        rw [if_pos hp, if_pos (Or.inr (List.mem_append_right new hp))]
        simp [dataOf, hdeep, levelOf, hno, newTableData, initNodeData]
      · rw [if_neg hp, h.data]
        simp [hp, heq]

/-- On to the next level. -/
theorem Known.next (h : Known heap root max k [] new s.allData) : Known heap root max (k + 1) new [] s.allData := by
  have hlevel : ∀ t, t ∈ near heap root (k + 1) ↔ t ∈ near heap root k ∨ t ∈ new := by
    intro t
    rw [h.mem_new, mem_ball_succ]
    simp only [List.not_mem_nil, not_false_iff, true_and]
    tauto
  refine ⟨h.new_nodup, List.nodup_nil, fun t ht => ?_, fun t => ?_, fun t => ?_⟩
  · have hmem := (hlevel t).mpr (Or.inr ht)
    exact ⟨hmem, depth_eq hmem ((h.mem_new t).mp ht).1⟩
  · refine ⟨fun hmem => absurd hmem List.not_mem_nil, ?_⟩
    rintro ⟨hno, u, hu, hout, ht⟩
    exact absurd (mem_ball_succ.mpr (Or.inr ⟨u, ((hlevel u).mp hu).resolve_right hout, ht⟩)) hno
  · rw [h.data]
    simp only [hlevel, List.not_mem_nil, or_false, not_false_iff, and_true]
    split
    next hin =>
      refine congrArg (fun travelled => some (dataOf heap root max t travelled)) (propext ?_)
      have hdisjoint := fun ht => ((h.mem_new t).mp ht).1
      tauto
    next => rfl

/-! ### The whole traversal -/

def Reached (heap : τ → LuaTable τ) (root : τ) (tableLevelMax : Int) (t : τ) : Prop :=
  if 0 < tableLevelMax then t ∈ near heap root (tableLevelMax.toNat + 1) else Reachable (fun t => (heap t).refs) root t

/-- The tables in which others are looked for. -/
def Travelled (heap : τ → LuaTable τ) (root : τ) (tableLevelMax : Int) (t : τ) : Prop :=
  if 0 < tableLevelMax then t ∈ near heap root tableLevelMax.toNat else Reachable (fun t => (heap t).refs) root t

theorem reached_iff : Reached heap root max t ↔
    Reachable (fun t => (heap t).refs) root t ∧ (0 < max → tableDepth heap root t ≤ max.toNat + 1) := by
  unfold Reached
  split
  next hpos => simp only [mem_ball_iff, hpos, true_implies]
  next hall => simp only [hall, false_implies, and_true]

theorem travelled_iff : Travelled heap root max t ↔
    Reachable (fun t => (heap t).refs) root t ∧ (0 < max → tableDepth heap root t ≤ max.toNat) := by
  unfold Travelled
  split
  next hpos => simp only [mem_ball_iff, hpos, true_implies]
  next hall => simp only [hall, false_implies, and_true]

open Classical in
def Traversed (heap : τ → LuaTable τ) (root : τ) (max : Int) (s : Profiler τ) : Prop :=
  ∀ t, s.allData t = if Reached heap root max t then some (dataOf heap root max t (Travelled heap root max t)) else none

theorem traversed_of_iff (hreached : ∀ t, s.allData t = none ↔ ¬ Reached heap root max t)
    (hdata : ∀ t, Reached heap root max t → s.allData t = some (dataOf heap root max t (Travelled heap root max t))) :
    Traversed heap root max s := by
  intro t
  split
  next hin => exact hdata t hin
  next hout => exact (hreached t).mpr hout

/-- Nothing is left to travel. -/
theorem Known.traversed_of_nil (h : Known heap root max k [] [] s.allData) (hk : 0 < max → (k : Int) ≤ max) :
    Traversed heap root max s := by
  have hclosed : ∀ m, near heap root m ⊆ near heap root k := by
    refine ball_closed fun u hu v hv => ?_
    by_contra hno
    exact absurd ((h.mem_new v).mpr ⟨hno, u, hu, List.not_mem_nil, hv⟩) List.not_mem_nil
  have hreach : ∀ t, Reachable (fun t => (heap t).refs) root t ↔ t ∈ near heap root k :=
    fun t => ⟨fun ⟨m, hm⟩ => hclosed m hm, fun ht => ⟨k, ht⟩⟩
  have hshort : ∀ t, Reachable (fun t => (heap t).refs) root t → 0 < max → tableDepth heap root t ≤ max.toNat := fun t ht hpos => by
    have hdepth : tableDepth heap root t ≤ k := depth_le ((hreach t).mp ht)
    have hle := hk hpos
    omega
  have hreached : ∀ t, Reached heap root max t ↔ t ∈ near heap root k := fun t => by
    rw [reached_iff, ← hreach]
    exact and_iff_left_of_imp fun ht hpos => (hshort t ht hpos).trans (Nat.le_succ _)
  have htravelled : ∀ t, Travelled heap root max t ↔ t ∈ near heap root k := fun t => by
    rw [travelled_iff, ← hreach]
    exact and_iff_left_of_imp (hshort t)
  refine traversed_of_iff (fun t => ?_) fun t ht => ?_
  · rw [h.eq_none_iff, hreached]
    simp
  · rw [h.data, if_pos (Or.inl ((hreached t).mp ht)), propext (htravelled t)]
    simp

/-- The last level has been travelled. -/
theorem Known.traversed_of_max (h : Known heap root max k [] new s.allData) (hpos : 0 < max) (hk : (k : Int) = max) :
    Traversed heap root max s := by
  have hnat : max.toNat = k := by omega
  have hlast : ∀ t, Reached heap root max t ↔ t ∈ near heap root k ∨ t ∈ new := by
    intro t
    rw [Reached, if_pos hpos, hnat, mem_ball_succ, h.mem_new]
    simp only [List.not_mem_nil, not_false_iff, true_and]
    tauto
  refine traversed_of_iff (fun t => ?_) fun t ht => ?_
  · rw [h.eq_none_iff, hlast, not_or]
  · rw [h.data, if_pos ((hlast t).mp ht), Travelled, if_pos hpos, hnat]
    simp

/-- Between two rounds of the loop. -/
def TravelInv (heap : τ → LuaTable τ) (root : τ) (max : Int) (x : Travel τ) : Prop :=
  ∃ k todo new, Known heap root max k todo new x.state.allData ∧ x.state.travelList = todo ++ new ∧ (todo = [] → new = []) ∧
    x.levelSize = todo.length ∧ x.levelCur = travelLevel max k ∧ 1 ≤ k ∧ (0 < max → (k : Int) ≤ max)

/-- A level is done. -/
theorem TravelInv.next (h : Known heap root max k [] new s.allData) (hlist : s.travelList = new)
    (hmax : 0 < max → (k : Int) + 1 ≤ max)
    {levelCur : Int} (hcur : levelCur = travelLevel max (k + 1)) :
    TravelInv heap root max ⟨s, s.travelList.length, levelCur⟩ := by
  refine ⟨k + 1, new, [], h.next, ?_, fun _ => rfl, ?_, hcur, Nat.le_add_left 1 k, fun hpos => ?_⟩
  · rw [List.append_nil]
    exact hlist
  · rw [hlist]
  · rw [Nat.cast_add_one]
    exact hmax hpos

variable [Fintype τ]

/-- The tables that are not in `all_data`. -/
def unknown (allData : τ → Option (MemData τ)) : Finset τ := Finset.univ.filter fun t => (allData t).isNone

omit [DecidableEq τ] in
theorem mem_unknown {allData : τ → Option (MemData τ)} : p ∈ unknown allData ↔ allData p = none := by
  simp [unknown]

/-- What the loop has still to do. -/
def travelMeasure (x : Travel τ) : Nat := (unknown x.state.allData).card + x.state.travelList.length

theorem Attached.unknown_card (hd : s.allData t = some d) (h : Attached heap t level d cs fresh s s') :
    (unknown s'.allData).card + fresh.length = (unknown s.allData).card := by
  have hunknown : unknown s'.allData = unknown s.allData \ fresh.toFinset := by
    ext p
    rw [Finset.mem_sdiff, List.mem_toFinset, mem_unknown, mem_unknown]
    exact h.eq_none_iff hd
  have hsub : fresh.toFinset ⊆ unknown s.allData := fun p hp => mem_unknown.mpr ((h.mem_fresh p).mp (List.mem_toFinset.mp hp)).1
  have hcard := Finset.card_sdiff_add_card_eq_card hsub
  rwa [← hunknown, List.toFinset_card_of_nodup h.nodup] at hcard

theorem travelLevel_next (max : Int) (hk : 1 ≤ k) :
    travelLevel max (k + 1) = if 0 < max then travelLevel max k + 1 else travelLevel max k := by
  have hne : k ≠ 0 := Nat.one_le_iff_ne_zero.mp hk
  simp only [travelLevel, if_neg hne, if_neg (Nat.succ_ne_zero k)]
  split
  · push_cast
    rfl
  · rfl

theorem travelRound_spec (x : Travel τ) (hx : TravelInv heap root max x) :
    (travelRound heap max x).Succeeds (Sum.elim (fun x' => TravelInv heap root max x' ∧ travelMeasure x' < travelMeasure x)
      (Traversed heap root max)) := by
  obtain ⟨k, todo, new, hknown, hlist, hempty, hsize, hcur, hk, hmax⟩ := hx
  unfold travelRound
  rcases todo with _ | ⟨t, rest⟩
  · obtain rfl := hempty rfl
    rw [hlist]
    exact Succeeds.ok (hknown.traversed_of_nil hmax)
  have hlevel : Known heap root max k (t :: rest) new (Profiler.mk x.state.allData (rest ++ new)).allData := hknown
  obtain ⟨fresh, hatt⟩ := travelTable_spec heap (travelLevel max k) hlevel.travelled
  have hcard := hatt.unknown_card hlevel.travelled
  have hstep := hlevel.step hatt
  have hrest := hatt.list
  rw [hlist, List.cons_append]
  dsimp only at hcard hrest ⊢
  rw [hcur]
  generalize travelTable heap ⟨x.state.allData, rest ++ new⟩ t (travelLevel max k) = s at hcard hstep hrest ⊢
  have hless : ∀ levelSize levelCur, travelMeasure ⟨s, levelSize, levelCur⟩ < travelMeasure x := by
    intro levelSize levelCur
    simp only [travelMeasure, hlist, hrest, List.length_append, List.length_cons]
    omega
  rw [List.append_assoc] at hrest
  rw [List.length_cons] at hsize
  rcases rest with _ | ⟨u, rest⟩
  · -- the last table of its level
    have hcount := travelLevel_next max hk
    rw [if_pos (by rw [hsize]; rfl)]
    split
    next hpos =>
      rw [if_pos hpos] at hcount
      have hle := hmax hpos
      have hkcur : travelLevel max k = k := by rw [travelLevel, if_neg (Nat.one_le_iff_ne_zero.mp hk), if_pos hpos]
      split
      next hover => exact Succeeds.ok (hstep.traversed_of_max hpos (by omega))
      next hunder => exact Succeeds.ok ⟨.next hstep hrest (fun _ => by omega) hcount.symm, hless _ _⟩
    next hall =>
      rw [if_neg hall] at hcount
      exact Succeeds.ok ⟨.next hstep hrest (fun hpos => absurd hpos hall) hcount.symm, hless _ _⟩
  · rw [if_neg (by rw [hsize, List.length_cons]; omega)]
    have hnonempty : u :: rest = [] → new ++ fresh = [] := fun hnil => absurd hnil (List.cons_ne_nil u rest)
    refine Succeeds.ok ⟨⟨k, u :: rest, new ++ fresh, hstep, hrest, hnonempty, ?_, rfl, hk, hmax⟩, hless _ _⟩
    rw [hsize]
    push_cast
    ring

/-- The traversal ends, and every table in reach has its notes. -/
theorem travel_halts (heap : τ → LuaTable τ) (root : τ) (max : Int) : Halts (travel heap root max) (Traversed heap root max) := by
  have hstart := Known.start heap root max
  obtain ⟨fresh, hatt⟩ := travelTable_spec (s := ⟨_, []⟩) heap (travelLevel max 0) hstart.travelled
  have hfirst := hstart.step hatt
  have hone : travelLevel max 1 = 1 := by simp [travelLevel]
  have hinv : TravelInv heap root max ⟨readRoot heap root, (readRoot heap root).travelList.length, 1⟩ := by
    refine ⟨1, fresh, [], hfirst.next, ?_, fun _ => rfl, ?_, hone.symm, Nat.le_refl 1, fun hpos => hpos⟩
    · rw [List.append_nil]
      exact hatt.list
    · exact congrArg (fun l : List τ => (l.length : Int)) hatt.list
  exact Halts.loop travelRound_spec hinv

end Funra
