import Mathlib.Data.List.Nodup
import Funra.Rarray.Runs

/-!
# The systems of a context

`recs_sys_add`, `recs_sys_remove` and `recs_sys_find` on the array of systems. A system is known by its
address (0 is `NULL`), `type` is its `type` field. `recs_sys_add` looks whether the same object is registered,
not whether its type is: two objects of a type are both registered (`two_of_a_type`). `recs_sys_find` ends
with the value that the iterator yields one past the last element, and is right because that is zero.
-/

namespace Funra

open Mem System Except

/-- `compare_func_default`, `rsystem_copy_value_func` and the rest of what `recs_init` sets. -/
def systemFuncs : RarrayFuncs Nat := ⟨.ptr, true, fun obj v => v = obj, fun a b => if a = b then 0 else 2⟩

theorem systemFuncs_equal (a b : Nat) : systemFuncs.equal a b = (a == b) := by
  by_cases h : a = b <;> simp [RarrayFuncs.equal, systemFuncs, h]

/-- `inits` and `uninits` are the calls of the functions of the systems. -/
structure RecsSystems where
  systems : Rarray Nat
  inits : List Nat
  uninits : List Nat
  deriving DecidableEq, Repr

/-- As `recs_init` leaves them: room for `recs_sys_init_size` systems. -/
def recsSystemsNew : RecsSystems := ⟨rarrayCreate 8 30, [], []⟩

def recsSysAdd (sysItem : Nat) (ctx : RecsSystems) : Except Fault (Int × RecsSystems) :=
  if sysItem = 0 then .ok (1, ctx)
  else do
    if ← rarrayExist systemFuncs sysItem ctx.systems then return (1, ctx)
    else do
      let ctx := { ctx with inits := ctx.inits ++ [sysItem] }
      let systems ← rarrayAdd systemFuncs sysItem ctx.systems
      return (0, { ctx with systems := systems })

def recsSysRemove (sysItem : Nat) (ctx : RecsSystems) : Except Fault (Int × RecsSystems) :=
  if sysItem = 0 then .ok (0, ctx)
  else do
    if ← rarrayExist systemFuncs sysItem ctx.systems then do
      let (_, systems) ← rarrayRemove systemFuncs sysItem ctx.systems
      return (0, { ctx with systems := systems, uninits := ctx.uninits ++ [sysItem] })
    else return (1, ctx)

/-- The loop of `recs_sys_find`: what was read last is returned. -/
def recsSysFindRounds (type : Nat → Int) (sysType : Int) (systems : Rarray Nat) :
    Nat → Nat → Except Fault Nat
  | 0, _ => .error .outOfFuel
  | fuel + 1, it => do
    let (sysItem, it) ← rarrayNext systems it
    if rarrayHasNext systems it then
      if sysItem = 0 then .error .nullDeref
      else if type sysItem = sysType then return sysItem
      else recsSysFindRounds type sysType systems fuel it
    else return sysItem

def recsSysFind (type : Nat → Int) (sysType : Int) (ctx : RecsSystems) : Except Fault Nat :=
  recsSysFindRounds type sysType ctx.systems (ctx.systems.size + 1) 0

/-! ### Runs -/

inductive RecsSysOp
  | add (sysItem : Nat)
  | remove (sysItem : Nat)
  deriving DecidableEq, Repr

def RecsSysStep (ctx : RecsSystems) (op : RecsSysOp) (ctx' : RecsSystems) : Prop :=
  match op with
  | .add s => ∃ code, recsSysAdd s ctx = .ok (code, ctx')
  | .remove s => ∃ code, recsSysRemove s ctx = .ok (code, ctx')

/-- The systems in the slots below `size`. -/
def RecsSystems.registered (ctx : RecsSystems) : List Nat := ctx.systems.items.take ctx.systems.size

/-- One system of a type, which `recs_sys_find` finds, and the calls that belong to it. -/
structure OneSystemPerType (type : Nat → Int) (ctx : RecsSystems) : Prop where
  unique : (ctx.registered.map type).Nodup
  find : ∀ t, recsSysFind type t ctx = .ok ((ctx.registered.find? fun s => type s = t).getD 0)
  calls : ∀ s, ctx.inits.count s = ctx.uninits.count s + if s ∈ ctx.registered then 1 else 0

/-- A new system has a type of its own, and the array counts its bytes without loss. -/
def FreshType (type : Nat → Int) (ctx : RecsSystems) : RecsSysOp → Prop
  | .add s => s ≠ 0 → s ∉ ctx.registered →
      (∀ r ∈ ctx.registered, type r ≠ type s) ∧ RarrayGuard systemFuncs ctx.systems (.add s s)
  | .remove s => s ≠ 0 → s ∈ ctx.registered → RarrayFits systemFuncs ctx.systems (.remove s)

section

variable {type : Nat → Int} {ctx ctx' : RecsSystems} {l : List Nat}

/-- The registered systems are the list `l`. -/
structure SystemsRep (type : Nat → Int) (ctx : RecsSystems) (l : List Nat) : Prop where
  rep : RarrayRep systemFuncs ctx.systems l
  ne_zero : ∀ s ∈ l, s ≠ 0
  unique : (l.map type).Nodup
  calls : ∀ s, ctx.inits.count s = ctx.uninits.count s + if s ∈ l then 1 else 0

theorem SystemsRep.registered (h : SystemsRep type ctx l) : ctx.registered = l := h.rep.elems

/-- Past the last element the iterator yields 0. -/
theorem recsSysFindRounds_eq {systems : Rarray Nat} (h : RarrayRep systemFuncs systems l)
    (hne : ∀ s ∈ l, s ≠ 0) (t : Int) {fuel it : Nat} (hit : it ≤ l.length) (hfuel : l.length - it < fuel) :
    recsSysFindRounds type t systems fuel it = .ok (((l.drop it).find? fun s => type s = t).getD 0) := by
  induction fuel generalizing it with
  | zero => cases hfuel
  | succ fuel ih =>
    rw [recsSysFindRounds, rarrayNext_eq h hit]
    change (if rarrayHasNext systems (it + 1) = true then _ else _) = _
    rw [rarrayHasNext_eq h]
    by_cases hin : it < l.length
    · rw [if_pos (decide_eq_true hin), List.getD_eq_getElem _ _ hin, if_neg (hne _ (List.getElem_mem hin)),
        List.drop_eq_getElem_cons hin, List.find?_cons]
      by_cases htype : type l[it] = t
      · rw [if_pos htype, decide_eq_true htype]
        rfl
      · rw [if_neg htype, decide_eq_false htype]
        exact ih hin (by omega)
    · rw [if_neg (by simpa using hin), List.drop_eq_nil_of_le (Nat.le_of_not_lt hin),
        List.getD_eq_default _ _ (Nat.le_of_not_lt hin)]
      rfl

theorem SystemsRep.holds (h : SystemsRep type ctx l) : OneSystemPerType type ctx where
  unique := by
    rw [h.registered]
    exact h.unique
  find t := by
    rw [h.registered]
    exact recsSysFindRounds_eq h.rep h.ne_zero t (Nat.zero_le _) (by rw [h.rep.size]; omega)
  calls s := by
    rw [h.registered]
    exact h.calls s

theorem SystemsRep.exist (h : SystemsRep type ctx l) (s : Nat) :
    rarrayExist systemFuncs s ctx.systems = .ok (decide (s ∈ l)) := by
  rw [rarrayExist_eq h.rep]
  congr 1
  rw [Bool.eq_iff_iff, List.any_eq_true, decide_eq_true_eq]
  simp only [systemFuncs_equal, beq_iff_eq, exists_eq_right]

/-- `recs_sys_add` changes nothing, or puts the system behind the others. -/
theorem recsSysAdd_ok (h : SystemsRep type ctx l) (s : Nat) (hfresh : FreshType type ctx (.add s)) :
    (recsSysAdd s ctx).Succeeds fun r => r.2 = ctx ∨ (s ≠ 0 ∧ s ∉ l ∧ (∀ r ∈ l, type r ≠ type s) ∧
      RarrayRep systemFuncs r.2.systems (l ++ [s]) ∧ r.2.inits = ctx.inits ++ [s] ∧ r.2.uninits = ctx.uninits) := by
  unfold recsSysAdd
  split
  next => exact Succeeds.ok (.inl rfl)
  next hs =>
    rw [h.exist]
    cases hmem : decide (s ∈ l) with
    | true => exact Succeeds.ok (.inl rfl)
    | false =>
      have hmem := of_decide_eq_false hmem
      simp only [FreshType, h.registered, RarrayGuard, RarrayBounded, RarrayFits, h.rep.size,
        h.rep.valueSize] at hfresh
      obtain ⟨htype, hbounded, hfits⟩ := hfresh hs hmem
      change (Except.bind (rarrayAdd systemFuncs s ctx.systems) _).Succeeds _
      refine Succeeds.bind (rarrayAdd_spec h.rep hbounded hfits s) ?_
      rintro systems ⟨hrep, -⟩
      exact Succeeds.ok (.inr ⟨hs, hmem, htype, hrep, rfl, rfl⟩)

theorem recsSysAdd_spec (h : SystemsRep type ctx l) (s : Nat) (hfresh : FreshType type ctx (.add s)) :
    (recsSysAdd s ctx).Succeeds fun r => ∃ l', SystemsRep type r.2 l' := by
  refine (recsSysAdd_ok h s hfresh).mono ?_
  rintro ⟨_, ctx'⟩ (rfl | ⟨hs, hmem, htype, hrep, hinits, huninits⟩)
  · exact ⟨l, h⟩
  dsimp only at hrep hinits huninits ⊢
  refine ⟨l ++ [s], hrep, ?_, ?_, fun r => ?_⟩
  · intro r hr
    rcases List.mem_append.mp hr with hr | hr
    · exact h.ne_zero r hr
    · rwa [List.mem_singleton.mp hr]
  · rw [List.map_append, List.map_singleton, List.nodup_append]
    refine ⟨h.unique, by simp, fun t ht t' ht' => ?_⟩
    obtain ⟨r, hr, rfl⟩ := List.mem_map.mp ht
    rw [List.mem_singleton.mp ht']
    exact htype r hr
  · have hcalls := h.calls r
    rw [hinits, huninits]
    simp only [List.count_append, List.mem_append, List.mem_singleton, List.count_singleton]
    by_cases hrs : r = s
    · subst hrs
      rw [if_neg hmem] at hcalls
      simp [hcalls]
    · have hsr : ¬ s = r := fun heq => hrs heq.symm
      simp [hcalls, hrs, hsr]

/-- `recs_sys_remove` changes nothing, or takes the system out. -/
theorem recsSysRemove_ok (h : SystemsRep type ctx l) (s : Nat) (hfits : FreshType type ctx (.remove s)) :
    (recsSysRemove s ctx).Succeeds fun r => r.2 = ctx ∨ (s ∈ l ∧
      RarrayRep systemFuncs r.2.systems (l.erase s) ∧ r.2.inits = ctx.inits ∧ r.2.uninits = ctx.uninits ++ [s]) := by
  unfold recsSysRemove
  split
  next => exact Succeeds.ok (.inl rfl)
  next hs =>
    rw [h.exist]
    cases hmem : decide (s ∈ l) with
    | false => exact Succeeds.ok (.inl rfl)
    | true =>
      have hmem := of_decide_eq_true hmem
      have hfits := hfits hs (by rwa [h.registered])
      simp only [RarrayFits, RarrayMovable, h.rep.elems] at hfits
      simp only [h.rep.size, h.rep.valueSize] at hfits
      have hremove := rarrayRemove_spec h.rep s hfits
      have herase : l.eraseP (systemFuncs.equal · s) = l.erase s := by
        simp only [systemFuncs_equal]
        exact (List.erase_eq_eraseP' s l).symm
      rw [herase] at hremove
      change (Except.bind (rarrayRemove systemFuncs s ctx.systems) _).Succeeds _
      refine Succeeds.bind hremove ?_
      rintro ⟨_, systems⟩ ⟨hrep, -⟩
      exact Succeeds.ok (.inr ⟨hmem, hrep, rfl, rfl⟩)

theorem recsSysRemove_spec (h : SystemsRep type ctx l) (s : Nat) (hfits : FreshType type ctx (.remove s)) :
    (recsSysRemove s ctx).Succeeds fun r => ∃ l', SystemsRep type r.2 l' := by
  refine (recsSysRemove_ok h s hfits).mono ?_
  rintro ⟨_, ctx'⟩ (rfl | ⟨hmem, hrep, hinits, huninits⟩)
  · exact ⟨l, h⟩
  dsimp only at hrep hinits huninits ⊢
  have hnodup : l.Nodup := List.Nodup.of_map type h.unique
  refine ⟨l.erase s, hrep, fun r hr => h.ne_zero r (List.mem_of_mem_erase hr), ?_, fun r => ?_⟩
  · exact h.unique.sublist (List.erase_sublist.map type)
  · have hcalls := h.calls r
    rw [hinits, huninits]
    simp only [List.count_append, List.count_singleton, hnodup.mem_erase_iff]
    by_cases hrs : r = s
    · subst hrs
      rw [if_pos hmem] at hcalls
      simp [hcalls]
    · have hsr : ¬ s = r := fun heq => hrs heq.symm
      simp [hcalls, hrs, hsr]

theorem recsSystemsNew_rep : SystemsRep type recsSystemsNew [] :=
  ⟨rarrayCreate_rep systemFuncs 30, by simp, by simp, by simp [recsSystemsNew]⟩

theorem recsSysStep_spec (h : SystemsRep type ctx l) {op : RecsSysOp} (hfresh : FreshType type ctx op) :
    (∃ ctx', RecsSysStep ctx op ctx') ∧ ∀ ctx', RecsSysStep ctx op ctx' → ∃ l', SystemsRep type ctx' l' := by
  cases op with
  | add s =>
    obtain ⟨⟨code, ctx₁⟩, hrun, hrep⟩ := recsSysAdd_spec h s hfresh
    refine ⟨⟨ctx₁, code, hrun⟩, ?_⟩
    rintro ctx' ⟨code', hrun'⟩
    rw [hrun] at hrun'
    cases hrun'
    exact hrep
  | remove s =>
    obtain ⟨⟨code, ctx₁⟩, hrun, hrep⟩ := recsSysRemove_spec h s hfresh
    refine ⟨⟨ctx₁, code, hrun⟩, ?_⟩
    rintro ctx' ⟨code', hrun'⟩
    rw [hrun] at hrun'
    cases hrun'
    exact hrep

/-- In every run in which each new system has a type of its own; the next call returns. -/
theorem oneSystemPerType_run {ops : List RecsSysOp}
    (hrun : Steps (Guarded (FreshType type) RecsSysStep) recsSystemsNew ops ctx) :
    OneSystemPerType type ctx ∧ ∀ op, FreshType type ctx op → ∃ ctx', RecsSysStep ctx op ctx' := by
  obtain ⟨l, h⟩ := Steps.invariant (I := fun ctx => ∃ l, SystemsRep type ctx l)
    (fun hI hstep => hI.elim fun l h => (recsSysStep_spec h hstep.1).2 _ hstep.2) hrun ⟨[], recsSystemsNew_rep⟩
  exact ⟨h.holds, fun op hfresh => (recsSysStep_spec h hfresh).1⟩

end

/-- The context with the systems 1 and 2, the number of slots taken and the calls so far. -/
def twoSystems (n : Nat) (inits : List Nat) : RecsSystems :=
  ⟨⟨8, n, 30, inits ++ List.replicate (30 - inits.length) 0, []⟩, inits, []⟩

theorem twoSystems_steps : RecsSysStep recsSystemsNew (.add 1) (twoSystems 1 [1]) ∧
    RecsSysStep (twoSystems 1 [1]) (.add 2) (twoSystems 2 [1, 2]) :=
  ⟨⟨0, rfl⟩, ⟨0, rfl⟩⟩

theorem oneSystemPerType_two : OneSystemPerType (fun s => s) (twoSystems 2 [1, 2]) := by
  obtain ⟨h₁, h₂⟩ := twoSystems_steps
  have hrun : Steps (Guarded (FreshType fun s => s) RecsSysStep) recsSystemsNew [.add 1, .add 2]
      (twoSystems 2 [1, 2]) :=
    .cons ⟨fun _ _ => ⟨by decide, by decide, by decide⟩, h₁⟩
      (.cons ⟨fun _ _ => ⟨by decide, by decide, by decide⟩, h₂⟩ (.nil _))
  exact (oneSystemPerType_run hrun).1

/-- Two objects of one type are both registered. -/
theorem two_of_a_type : ∃ ops ctx, Steps RecsSysStep recsSystemsNew ops ctx ∧
    ¬ OneSystemPerType (fun _ => 20300) ctx := by
  obtain ⟨h₁, h₂⟩ := twoSystems_steps
  exact ⟨_, _, .cons h₁ (.cons h₂ (.nil _)), fun h => absurd h.unique (by decide)⟩

end Funra
