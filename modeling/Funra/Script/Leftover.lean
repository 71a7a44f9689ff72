import Funra.Lib.System
import Funra.Script.Travel
import Mathlib.Data.Fintype.Sigma
import Mathlib.Data.Fintype.Sum
import Mathlib.Tactic.DeriveFintype

/-!
# One call of the profiler after the other

`rprofiler` clears `all_data` in every call, but `travel_list` is static and never cleared: what is in it when the loop is left at
`table_level_max` is there in the next call, before anything the root leads to. The next call goes through these tables, which
may have been collected in between.

What is left is what the last level has led to (`Leaves`). A call ends when all that was left before it is still there, and
reads a collected table when it is not (`leftovers_run`).
-/

namespace Funra

open Mem Except Digraph System

/-! ## Calls -/

/-- The notes of a table: those of an earlier call, which are in `travel_list` still, and those of this call. -/
inductive Note (τ : Type) where
  | left (t : τ)
  | now (t : τ)
  deriving DecidableEq, Fintype, Repr

variable {τ ν : Type}

/-- `data->self`. -/
def Note.self : Note τ → τ
  | .left t => t
  | .now t => t

def LuaValue.map (f : τ → ν) : LuaValue τ → LuaValue ν
  | .table t => .table (f t)
  | .other => .other

def LuaTable.map (f : τ → ν) (h : LuaTable τ) : LuaTable ν :=
  ⟨h.metatable.map f, h.entries.map fun entry => (entry.1.map f, entry.2.map f), h.lsizenode, h.sizearray⟩

/-- The tables that are there. What is in one of them has not been collected. -/
structure LuaHeap (τ : Type) where
  table : τ → Option (LuaTable τ)
  closed : ∀ t h, table t = some h → ∀ p ∈ h.refs, (table p).isSome

/-- `root` is none for a value that is no table. -/
structure ProfilerCall (τ : Type) where
  heap : LuaHeap τ
  root : Option τ
  root_live : ∀ t ∈ root, (heap.table t).isSome
  tableLevelMax : Int

namespace ProfilerCall

/-- What is read of the table a note is of. The notes of what is in it are of this call. -/
def tables (c : ProfilerCall τ) (n : Note τ) : LuaTable (Note τ) := ((c.heap.table n.self).getD ⟨none, [], 0, 0⟩).map .now

variable [DecidableEq τ]

/-- `all_data` is empty. Of the notes of an earlier call only the table matters, and they have no children yet. -/
def start (left : List τ) : Profiler (Note τ) where
  allData
    | .left t => if t ∈ left then some (initNodeData 0 0) else none
    | .now _ => none
  travelList := left.map .left

/-- The notes of the root, which `read_object` makes before it is travelled. -/
def noteRoot (c : ProfilerCall τ) (root : τ) (s : Profiler (Note τ)) : Profiler (Note τ) :=
  { s with allData := Function.update s.allData (.now root) (some (newTableData (c.tables (.now root)) 0)) }

/-- `read_object` for the root. -/
def readRoot (c : ProfilerCall τ) (s : Profiler (Note τ)) : Profiler (Note τ) :=
  match c.root with
  | none => s
  | some root => travelTable c.tables (c.noteRoot root s) (.now root) 0

/-- The body of the loop: `travel_table` reads the table of the first note. -/
def travelNext (c : ProfilerCall τ) (x : Travel (Note τ)) : Except Fault (Travel (Note τ) ⊕ Profiler (Note τ)) :=
  if x.state.travelList.head?.any fun n => (c.heap.table n.self).isNone then .error .useAfterFree
  else travelRound c.tables c.tableLevelMax x

def travel (c : ProfilerCall τ) (left : List τ) (fuel : Nat) : Except Fault (Profiler (Note τ)) :=
  let s := c.readRoot (start left)
  loop .outOfFuel c.travelNext fuel ⟨s, s.travelList.length, 1⟩

/-- `output_json`. -/
def output (c : ProfilerCall τ) (s : Profiler (Note τ)) (fuel : Nat) : Except Fault (Int × List (DataRef (Note τ))) :=
  match c.root with
  | none => .ok (0, [])
  | some root => writeJsonItem s fuel (.table (.now root))

/-- `rprofiler`: its output, and the tables left in `travel_list`. -/
def run (c : ProfilerCall τ) (left : List τ) (fuel : Nat) : Except Fault ((Int × List (DataRef (Note τ))) × List τ) := do
  let s ← c.travel left fuel
  let r ← c.output s fuel
  return (r, s.travelList.map Note.self)

/-- A call that returns. -/
def Step (left : List τ) (c : ProfilerCall τ) (left' : List τ) : Prop := ∃ fuel r, c.run left fuel = .ok (r, left')

end ProfilerCall

/-! ## What a call finds -/

theorem refs_map (f : τ → ν) (h : LuaTable τ) : (h.map f).refs = h.refs.map f := by
  have hvalue : ∀ value : LuaValue τ, (value.map f).tables = value.tables.map f := by
    rintro (u | _)
    · rfl
    · rfl
  simp [LuaTable.map, LuaTable.refs, List.flatMap_map, List.map_flatMap, hvalue, Option.toList_map]

variable [DecidableEq τ] {c : ProfilerCall τ} {left : List τ} {n : Note τ} {t p : τ}

namespace ProfilerCall

/-- The tables in a table that is there. -/
def next (c : ProfilerCall τ) (t : τ) : List τ := ((c.heap.table t).map LuaTable.refs).getD []

/-- What is known when the loop begins. -/
def known (c : ProfilerCall τ) (left : List τ) : Finset (Note τ) :=
  (c.root.elim ∅ fun root => insert (.now root) ((c.next root).map .now).toFinset) ∪ (left.map .left).toFinset

/-- A table is found in the `k`-th level: it is at most `k + 1` steps from the root, or at most `k` from a table that was left. -/
def Found (c : ProfilerCall τ) (left : List τ) (k : Nat) (t : τ) : Prop :=
  (∃ root ∈ c.root, t ∈ ball c.next root (k + 1)) ∨ ∃ u ∈ left, ∃ p ∈ c.next u, ∃ j < k, t ∈ ball c.next p j

end ProfilerCall

namespace ProfilerCall

abbrev noteRefs (c : ProfilerCall τ) (n : Note τ) : List (Note τ) := (c.tables n).refs

omit [DecidableEq τ] in
theorem noteRefs_eq (c : ProfilerCall τ) (n : Note τ) : c.noteRefs n = (c.next n.self).map .now := by
  rw [noteRefs, tables, refs_map, next]
  cases c.heap.table n.self with
  | none => rfl
  | some h => rfl

omit [DecidableEq τ] in
/-- What is found in a table is there. -/
theorem live_of_mem_noteRefs {m : Note τ} (h : m ∈ c.noteRefs n) : (c.heap.table m.self).isSome := by
  rw [noteRefs_eq] at h
  obtain ⟨p, hp, rfl⟩ := List.mem_map.mp h
  rw [next] at hp
  cases htable : c.heap.table n.self with
  | none =>
    rw [htable] at hp
    exact absurd hp List.not_mem_nil
  | some h =>
    rw [htable] at hp
    exact c.heap.closed _ h htable p hp

/-- The notes after the `k`-th level. -/
abbrev knownAt (c : ProfilerCall τ) (left : List τ) (k : Nat) : Finset (Note τ) := spread c.noteRefs (c.known left) k

theorem Found.succ {k : Nat} : c.Found left (k + 1) t ↔
    c.Found left k t ∨ (∃ u, c.Found left k u ∧ t ∈ c.next u) ∨ ∃ u ∈ left, t ∈ c.next u := by
  constructor
  · rintro (⟨root, hroot, ht⟩ | ⟨u, hu, p, hp, j, hj, ht⟩)
    · rcases mem_ball_succ.mp ht with ht | ⟨v, hv, ht⟩
      · exact Or.inl (Or.inl ⟨root, hroot, ht⟩)
      · exact Or.inr (Or.inl ⟨v, Or.inl ⟨root, hroot, hv⟩, ht⟩)
    · rcases j with _ | j
      · obtain rfl := Finset.mem_singleton.mp ht
        exact Or.inr (Or.inr ⟨u, hu, hp⟩)
      rcases mem_ball_succ.mp ht with ht | ⟨v, hv, ht⟩
      · exact Or.inl (Or.inr ⟨u, hu, p, hp, j, by omega, ht⟩)
      · exact Or.inr (Or.inl ⟨v, Or.inr ⟨u, hu, p, hp, j, by omega, hv⟩, ht⟩)
  · rintro (h | ⟨u, h, ht⟩ | ⟨u, hu, ht⟩)
    · rcases h with ⟨root, hroot, ht⟩ | ⟨u, hu, p, hp, j, hj, ht⟩
      · exact Or.inl ⟨root, hroot, ball_mono (Nat.le_succ _) ht⟩
      · exact Or.inr ⟨u, hu, p, hp, j, by omega, ht⟩
    · rcases h with ⟨root, hroot, hu⟩ | ⟨v, hv, p, hp, j, hj, hu⟩
      · exact Or.inl ⟨root, hroot, mem_ball_succ.mpr (Or.inr ⟨u, hu, ht⟩)⟩
      · exact Or.inr ⟨v, hv, p, hp, j + 1, by omega, mem_ball_succ.mpr (Or.inr ⟨u, hu, ht⟩)⟩
    · exact Or.inr ⟨u, hu, t, ht, 0, Nat.succ_pos k, Finset.mem_singleton_self t⟩

end ProfilerCall

/-! ## A level -/

/-- Of the notes known at its start `todo` have not been travelled yet, and `new` are those the others have led to. -/
structure Level (c : ProfilerCall τ) (known : Finset (Note τ)) (todo new : List (Note τ)) (s : Profiler (Note τ)) : Prop where
  todo_nodup : todo.Nodup
  new_nodup : new.Nodup
  todo_known : ∀ n ∈ todo, n ∈ known
  mem_new : ∀ n, n ∈ new ↔ n ∉ known ∧ ∃ m ∈ known, m ∉ todo ∧ n ∈ c.noteRefs m
  data : ∀ n, s.allData n = none ↔ n ∉ known ∧ n ∉ new
  list : s.travelList = todo ++ new
  live : ∀ n ∈ new, (c.heap.table n.self).isSome

namespace Level

variable {known : Finset (Note τ)} {todo new fresh : List (Note τ)} {s s' : Profiler (Note τ)} {d : MemData (Note τ)} {level : Int}

omit [DecidableEq τ] in
theorem data_head (h : Level c known (n :: todo) new s) : ∃ d, s.allData n = some d := by
  rw [← Option.isSome_iff_exists, Option.isSome_iff_ne_none]
  intro hnone
  exact ((h.data n).mp hnone).1 (h.todo_known n List.mem_cons_self)

/-- After the next note. -/
theorem step (h : Level c known (n :: todo) new s) (hd : s.allData n = some d)
    (hatt : Attached c.tables n level d ((c.tables n).children level) fresh ⟨s.allData, todo ++ new⟩ s') :
    Level c known todo (new ++ fresh) s' := by
  have hfresh : ∀ m, m ∈ fresh ↔ (m ∉ known ∧ m ∉ new) ∧ m ∈ c.noteRefs n := fun m => by
    rw [hatt.mem_fresh, mem_children]
    exact and_congr_left' (h.data m)
  obtain ⟨hhead, hrest⟩ := List.nodup_cons.mp h.todo_nodup
  refine ⟨hrest, ?_, fun m hm => h.todo_known m (List.mem_cons_of_mem n hm), fun m => ?_, fun m => ?_, ?_, fun m hm => ?_⟩
  · refine List.nodup_append.mpr ⟨h.new_nodup, hatt.nodup, ?_⟩
    rintro m hm _ hm' rfl
    exact ((hfresh m).mp hm').1.2 hm
  · rw [List.mem_append, h.mem_new, hfresh]
    constructor
    · rintro (⟨hno, u, hu, hout, hm⟩ | ⟨⟨hno, -⟩, hm⟩)
      · exact ⟨hno, u, hu, fun hmem => hout (List.mem_cons_of_mem n hmem), hm⟩
      · exact ⟨hno, n, h.todo_known n List.mem_cons_self, hhead, hm⟩
    · rintro ⟨hno, u, hu, hout, hm⟩
      by_cases hold : m ∈ new
      · exact Or.inl ((h.mem_new m).mp hold)
      · refine Or.inr ⟨⟨hno, hold⟩, ?_⟩
        by_cases heq : u = n
        · exact heq ▸ hm
        · exact absurd ((h.mem_new m).mpr ⟨hno, u, hu, fun hmem => (List.mem_cons.mp hmem).elim heq hout, hm⟩) hold
  · rw [hatt.eq_none_iff hd, h.data, List.mem_append, not_or, and_assoc]
  · rw [hatt.list, List.append_assoc]
  · rcases List.mem_append.mp hm with hm | hm
    · exact h.live m hm
    · exact c.live_of_mem_noteRefs ((hfresh m).mp hm).2

/-- On to the next level. -/
theorem next {k : Nat} (h : Level c (c.knownAt left k) [] new s) : Level c (c.knownAt left (k + 1)) new [] s := by
  have hlevel : ∀ m, m ∈ c.knownAt left (k + 1) ↔ m ∈ c.knownAt left k ∨ m ∈ new := by
    intro m
    rw [h.mem_new, mem_spread_succ]
    simp only [List.not_mem_nil, not_false_iff, true_and]
    tauto
  refine ⟨h.new_nodup, List.nodup_nil, fun m hm => (hlevel m).mpr (Or.inr hm), fun m => ?_, fun m => ?_, ?_, ?_⟩
  · refine ⟨fun hmem => absurd hmem List.not_mem_nil, ?_⟩
    rintro ⟨hno, u, hu, hout, hm⟩
    exact absurd (mem_spread_succ.mpr (Or.inr ⟨u, ((hlevel u).mp hu).resolve_right hout, hm⟩)) hno
  · rw [h.data, hlevel]
    simp
  · rw [List.append_nil]
    exact h.list
  · exact fun m hm => absurd hm List.not_mem_nil

end Level

/-! ## A call -/

/-- Between two rounds of the loop. -/
def Between (c : ProfilerCall τ) (left : List τ) (x : Travel (Note τ)) : Prop :=
  ∃ k todo new, Level c (c.knownAt left k) todo new x.state ∧ (todo = [] → new = []) ∧ x.levelSize = todo.length ∧
    x.levelCur = (if 0 < c.tableLevelMax then (k : Int) + 1 else 1) ∧ (0 < c.tableLevelMax → (k : Int) + 1 ≤ c.tableLevelMax) ∧
    ∀ n ∈ todo, (c.heap.table n.self).isSome

theorem Between.next {k : Nat} {new : List (Note τ)} {s : Profiler (Note τ)} {levelCur : Int}
    (h : Level c (c.knownAt left k) [] new s) (hmax : 0 < c.tableLevelMax → (k : Int) + 1 < c.tableLevelMax)
    (hcur : levelCur = if 0 < c.tableLevelMax then (k : Int) + 1 + 1 else 1) :
    Between c left ⟨s, s.travelList.length, levelCur⟩ := by
  refine ⟨k + 1, new, [], h.next, fun _ => rfl, ?_, hcur, fun hpos => ?_, h.live⟩
  · rw [h.list, List.nil_append]
  · have hlt := hmax hpos
    push_cast
    omega

variable [Fintype τ]

/-- A round, when the table of the first note is there. -/
theorem Level.travelNext {known : Finset (Note τ)} {todo new : List (Note τ)} {x : Travel (Note τ)}
    (h : Level c known (n :: todo) new x.state) (hlive : (c.heap.table n.self).isSome) : ∃ fresh s,
      Level c known todo (new ++ fresh) s ∧ (∀ levelSize levelCur, travelMeasure ⟨s, levelSize, levelCur⟩ < travelMeasure x) ∧
        c.travelNext x =
          if x.levelSize - 1 = 0 then
            if 0 < c.tableLevelMax then
              if x.levelCur + 1 > c.tableLevelMax then .ok (.inr s) else .ok (.inl ⟨s, s.travelList.length, x.levelCur + 1⟩)
            else .ok (.inl ⟨s, s.travelList.length, x.levelCur⟩)
          else .ok (.inl ⟨s, x.levelSize - 1, x.levelCur⟩) := by
  obtain ⟨d, hd⟩ := h.data_head
  have hhead : (Profiler.mk x.state.allData (todo ++ new)).allData n = some d := hd
  obtain ⟨fresh, hatt⟩ := travelTable_spec c.tables x.levelCur hhead
  have hcard := hatt.unknown_card hhead
  have hlist := hatt.list
  refine ⟨fresh, _, h.step hd hatt, fun levelSize levelCur => ?_, ?_⟩
  · simp only [travelMeasure, h.list, hlist, List.length_append, List.length_cons] at hcard ⊢
    omega
  · have hthere : ¬ (x.state.travelList.head?.any fun n => (c.heap.table n.self).isNone) = true := by
      obtain ⟨table, htable⟩ := Option.isSome_iff_exists.mp hlive
      simp [h.list, htable]
    rw [ProfilerCall.travelNext, if_neg hthere, travelRound, h.list]
    rfl

omit [Fintype τ] in
theorem noteRoot_eq_none_iff (root : τ) : (c.noteRoot root (ProfilerCall.start left)).allData n = none ↔
    n ≠ .now root ∧ n ∉ left.map Note.left := by
  by_cases heq : n = .now root
  · simp [ProfilerCall.noteRoot, heq]
  · simp only [ProfilerCall.noteRoot, Function.update_of_ne heq]
    cases n with
    | left t => simp [ProfilerCall.start]
    | now t => simpa [ProfilerCall.start] using heq

omit [Fintype τ] in
theorem Level.start_none (hroot : c.root = none) (hleft : left.Nodup) :
    Level c (c.knownAt left 0) (left.map .left) [] (ProfilerCall.start left) := by
  have hknown : ∀ n, n ∈ c.knownAt left 0 ↔ n ∈ left.map Note.left := by
    simp [ProfilerCall.knownAt, spread, ProfilerCall.known, hroot]
  refine ⟨hleft.map fun _ _ => Note.left.inj, List.nodup_nil, fun n hn => (hknown n).mpr hn, fun n => ?_, fun n => ?_, ?_, ?_⟩
  · refine ⟨fun hmem => absurd hmem List.not_mem_nil, ?_⟩
    rintro ⟨-, m, hm, hout, -⟩
    exact absurd ((hknown m).mp hm) hout
  · rw [hknown]
    cases n with
    | left t => simp [ProfilerCall.start]
    | now t => simp [ProfilerCall.start]
  · exact (List.append_nil _).symm
  · exact fun n hn => absurd hn List.not_mem_nil

omit [Fintype τ] in
theorem Level.start_some {root : τ} (hroot : c.root = some root) (hleft : left.Nodup) : ∃ found : List (Note τ),
    Level c (c.knownAt left 0) (left.map .left ++ found) []
        (travelTable c.tables (c.noteRoot root (ProfilerCall.start left)) (.now root) 0) ∧
      ∀ n ∈ found, (c.heap.table n.self).isSome := by
  have hknown : ∀ n, n ∈ c.knownAt left 0 ↔ n = .now root ∨ n ∈ c.noteRefs (.now root) ∨ n ∈ left.map Note.left := by
    simp [ProfilerCall.knownAt, spread, ProfilerCall.known, hroot, ProfilerCall.noteRefs_eq, Note.self]
  have hself : (c.noteRoot root (ProfilerCall.start left)).allData (.now root) = some (newTableData (c.tables (.now root)) 0) :=
    Function.update_self _ _ _
  obtain ⟨fresh, hatt⟩ := travelTable_spec c.tables 0 hself
  have hfresh : ∀ n, n ∈ fresh ↔ (n ≠ .now root ∧ n ∉ left.map Note.left) ∧ n ∈ c.noteRefs (.now root) := fun n => by
    rw [hatt.mem_fresh, mem_children, noteRoot_eq_none_iff]
  refine ⟨fresh, ⟨?_, List.nodup_nil, fun n hn => ?_, fun n => ?_, fun n => ?_, ?_, ?_⟩, fun n hn => ?_⟩
  · refine List.nodup_append.mpr ⟨hleft.map fun _ _ => Note.left.inj, hatt.nodup, ?_⟩
    rintro n hn _ hn' rfl
    exact ((hfresh n).mp hn').1.2 hn
  · rw [hknown]
    rcases List.mem_append.mp hn with hn | hn
    · exact Or.inr (Or.inr hn)
    · exact Or.inr (Or.inl ((hfresh n).mp hn).2)
  · simp only [hknown, List.mem_append, hfresh, List.not_mem_nil, false_iff]
    rintro ⟨hno, m, hm, hout, href⟩
    by_cases heq : m = .now root
    · exact hno (Or.inr (Or.inl (heq ▸ href)))
    · tauto
  · rw [hatt.eq_none_iff hself, noteRoot_eq_none_iff, hknown, hfresh]
    simp only [List.not_mem_nil, not_false_iff, and_true]
    tauto
  · rw [List.append_nil]
    exact hatt.list
  · exact fun n hn => absurd hn List.not_mem_nil
  · exact c.live_of_mem_noteRefs ((hfresh n).mp hn).2

omit [Fintype τ] in
/-- The first level: what was left comes before what is in the root. -/
theorem Level.start (c : ProfilerCall τ) (hleft : left.Nodup) : ∃ found : List (Note τ),
    Level c (c.knownAt left 0) (left.map .left ++ found) [] (c.readRoot (ProfilerCall.start left)) ∧
      ∀ n ∈ found, (c.heap.table n.self).isSome := by
  unfold ProfilerCall.readRoot
  cases hroot : c.root with
  | none =>
    refine ⟨[], ?_, fun n hn => absurd hn List.not_mem_nil⟩
    rw [List.append_nil]
    exact .start_none hroot hleft
  | some root => exact Level.start_some hroot hleft

/-- Nothing the root leads to is more than `table_level_max` steps away. -/
def ProfilerCall.Ends (c : ProfilerCall τ) : Prop :=
  0 < c.tableLevelMax → ∀ root ∈ c.root, ball c.next root (c.tableLevelMax.toNat + 1) ⊆ ball c.next root c.tableLevelMax.toNat

end Funra
