import Mathlib.Data.List.Nodup
import Funra.Ecs.Ids

/-!
# Runs of a context

Any sequence of calls that create, delete, attach and detach. `liveEntities` and `liveCmps` are the objects that
a creation has returned and no deletion has got, `given` the ids that were given out, `attached` the pairs for
which `recs_cmp_add` has returned ok and that no call has removed since.

Ids are in the range and unique as long as every creation finds a free id ahead of the counter (`ids_run`). When
the counter is at `sid_max` the next id is `sid_max + 1` (`id_beyond_range`).
-/

namespace Funra

open Mem System Except

inductive RecsOp
  | entityNew (fuel a : Nat) (added : Bool) (onNew : Option NewEntityHook) (onDelete : Option Int)
  | entityDelete (onDelete : Option Int) (a : Nat) (destroy : Bool)
  | cmpNew (fuel : Nat) (m : Option Nat) (added : Bool) (onNew onDelete : Option Int)
  | cmpDelete (onDelete : Option Int) (c : Nat) (destroy : Bool)
  | cmpAdd (e c : Nat)
  | cmpGet (e id : Nat)
  | cmpRemove (e id : Nat)
  | cmpRemoveAll (e : Nat)
  deriving DecidableEq, Repr

structure RecsRun where
  ctx : RecsContext
  liveEntities : List Nat
  liveCmps : List Nat
  given : List Nat
  attached : List (Nat × Nat)

namespace RecsRun

variable (s : RecsRun)

def entityCreated (r : Option Nat) (ctx : RecsContext) : RecsRun :=
  match r with
  | none => { s with ctx := ctx }
  | some a => { s with ctx := ctx, liveEntities := a :: s.liveEntities, given := ctx.sidCur :: s.given }

def cmpCreated (r : Option Nat) (ctx : RecsContext) : RecsRun :=
  match r with
  | none => { s with ctx := ctx }
  | some c => { s with ctx := ctx, liveCmps := c :: s.liveCmps, given := ctx.sidCur :: s.given }

end RecsRun

/-- Memory for a new object is memory that is free. -/
def RecsStep (s : RecsRun) (op : RecsOp) (s' : RecsRun) : Prop :=
  match op with
  | .entityNew fuel a added onNew onDelete => s.ctx.entities a = none ∧
      ∃ r ctx, recsEntityNew fuel a added onNew onDelete s.ctx = .ok (r, ctx) ∧ s' = s.entityCreated r ctx
  | .entityDelete onDelete a destroy =>
      ∃ code ctx, recsEntityDelete onDelete a destroy s.ctx = .ok (code, ctx) ∧
        s' = { s with
          ctx := ctx
          liveEntities := s.liveEntities.filter (· ≠ a)
          attached := s.attached.filter fun p => p.1 ≠ a }
  | .cmpNew fuel m added onNew onDelete => (∀ c ∈ m, s.ctx.cmps c = none) ∧
      ∃ r ctx, recsCmpNew fuel m added onNew onDelete s.ctx = .ok (r, ctx) ∧ s' = s.cmpCreated r ctx
  | .cmpDelete onDelete c destroy =>
      ∃ code ctx, recsCmpDelete onDelete c destroy s.ctx = .ok (code, ctx) ∧
        s' = { s with
          ctx := ctx
          liveCmps := s.liveCmps.filter (· ≠ c)
          attached := s.attached.filter fun p => p.2 ≠ c }
  | .cmpAdd e c =>
      ∃ code ctx, recsCmpAdd e c s.ctx = .ok (code, ctx) ∧
        s' = { s with ctx := ctx, attached := if code = 0 then (e, c) :: s.attached else s.attached }
  | .cmpGet e id => (∃ r, recsCmpGet e id s.ctx = .ok r) ∧ s' = s
  | .cmpRemove e id =>
      ∃ code out ctx, recsCmpRemove e id s.ctx = .ok (code, out, ctx) ∧
        s' = { s with
          ctx := ctx
          attached := s.attached.filter fun p => ¬ (p.1 = e ∧ s.ctx.cmps p.2 = some id) }
  | .cmpRemoveAll e =>
      ∃ ctx, recsCmpRemoveAll e s.ctx = .ok ctx ∧
        s' = { s with ctx := ctx, attached := s.attached.filter fun p => p.1 ≠ e }

/-- A context before its first object. -/
def recsStart (sidMin sidMax sidCur : Nat) : RecsRun where
  ctx := ⟨sidMin, sidMax, sidCur, Registry.empty, Registry.empty, fun _ => none, fun _ => none⟩
  liveEntities := []
  liveCmps := []
  given := []
  attached := []

/-! ### Registries -/

/-- Every live object is registered under its id. -/
structure Registered (m : Registry) (idOf : Nat → Option Nat) (live : List Nat) : Prop where
  nodup : live.Nodup
  held : ∀ a ∈ live, ∃ id, idOf a = some id ∧ m.get id = some a

section registered

variable {m : Registry} {idOf idOf' : Nat → Option Nat} {live : List Nat} {a id : Nat}

/-- Two live objects do not share an id. -/
theorem Registered.unique (h : Registered m idOf live) : (live.map idOf).Nodup := by
  refine List.Nodup.map_on ?_ h.nodup
  intro a ha b hb heq
  obtain ⟨id, hid, hmap⟩ := h.held a ha
  obtain ⟨id', hid', hmap'⟩ := h.held b hb
  rw [hid, hid'] at heq
  cases heq
  exact Option.some.inj (hmap.symm.trans hmap')

/-- A new object is not among those that are there. -/
theorem not_mem_of_none {β : Type} {f : Nat → Option β} (h : ∀ b ∈ live, ∃ x, f b = some x) (ha : f a = none) :
    a ∉ live := by
  intro hmem
  obtain ⟨x, hx⟩ := h a hmem
  rw [ha] at hx
  cases hx

/-- What happens to a new object leaves the others alone. -/
theorem update_live {β : Type} (ha : a ∉ live) (f : Nat → Option β) (x : Option β) {b : Nat} (hb : b ∈ live) :
    Function.update f a x b = f b :=
  Function.update_of_ne (ne_of_mem_of_not_mem hb ha) x f

theorem Registered.not_mem (h : Registered m idOf live) (ha : idOf a = none) : a ∉ live :=
  not_mem_of_none (fun b hb => (h.held b hb).imp fun _ hid => hid.1) ha

theorem Registered.congr (h : Registered m idOf live) (hid : ∀ a ∈ live, idOf' a = idOf a) :
    Registered m idOf' live := by
  refine ⟨h.nodup, fun a ha => ?_⟩
  rw [hid a ha]
  exact h.held a ha

theorem Registered.update (h : Registered m idOf live) (ha : a ∉ live) (x : Option Nat) :
    Registered m (Function.update idOf a x) live :=
  h.congr fun _ => update_live ha idOf x

/-- A new object that is taken back, with an id that was free. -/
theorem Registered.abandon (h : Registered m idOf live) (ha : a ∉ live) (hfree : FreeId m id) (x : Option Nat) :
    Registered (m.remove id) (Function.update idOf a x) live := by
  rw [Registry.remove_eq_self hfree]
  exact h.update ha x

/-- A new object gets an id that was free. -/
theorem Registered.add (h : Registered m idOf live) (ha : a ∉ live) (hfree : FreeId m id) :
    Registered (m.add true id a) (Function.update idOf a (some id)) (a :: live) := by
  refine ⟨List.nodup_cons.mpr ⟨ha, h.nodup⟩, fun b hb => ?_⟩
  rcases List.mem_cons.mp hb with rfl | hb
  · exact ⟨id, Function.update_self .., Registry.get_add_self⟩
  · obtain ⟨id', hid', hmap⟩ := h.held b hb
    refine ⟨id', ?_, ?_⟩
    · rw [update_live ha _ _ hb, hid']
    · rw [Registry.get_add_of_ne, hmap]
      intro heq
      rw [heq, hfree] at hmap
      cases hmap

/-- An object leaves, and no other live object has its id. -/
theorem Registered.remove (h : Registered m idOf live) (hother : ∀ b ∈ live, idOf b = some id → b = a)
    (x : Option Nat) : Registered (m.remove id) (Function.update idOf a x) (live.filter (· ≠ a)) := by
  refine ⟨h.nodup.filter _, fun b hb => ?_⟩
  simp only [decide_not, List.mem_filter, Bool.not_eq_eq_eq_not, Bool.not_true, decide_eq_false_iff_not] at hb
  obtain ⟨hb, hne⟩ := hb
  obtain ⟨id', hid', hmap⟩ := h.held b hb
  refine ⟨id', ?_, ?_⟩
  · rw [Function.update_of_ne hne, hid']
  · rw [Registry.get_remove_of_ne, hmap]
    intro heq
    rw [heq] at hid'
    exact hne (hother b hb hid')

end registered

/-! ### Ids in the range -/

def RecsContext.idOf (ctx : RecsContext) (a : Nat) : Option Nat := (ctx.entities a).map RecsEntity.id

theorem idOf_update {ctx ctx' : RecsContext} {a : Nat} {e : Option RecsEntity}
    (h : ctx'.entities = Function.update ctx.entities a e) :
    ctx'.idOf = Function.update ctx.idOf a (e.map RecsEntity.id) := by
  funext b
  rw [RecsContext.idOf, h]
  exact Function.apply_update (fun _ => Option.map RecsEntity.id) ctx.entities a e b

/-- The next search stays in the range: a free id lies ahead of the counter, or all 64-bit ids are in it. -/
def HasRoom (ctx : RecsContext) (map : Registry) : Prop :=
  RoomAhead ctx map ∨ ctx.sidMin = 0 ∧ ctx.sidMax = 18446744073709551615

/-- Creations have room in the range and memory for the entry; no deletion of an object takes the id of another
live one out of the registry. -/
def RangeGuard (s : RecsRun) : RecsOp → Prop
  | .entityNew _ _ added _ _ => added = true ∧ HasRoom s.ctx s.ctx.mapEntities
  | .entityDelete _ a _ => ∀ b ∈ s.liveEntities, s.ctx.idOf b = s.ctx.idOf a → b = a
  | .cmpNew _ m added _ _ => m ≠ none → added = true ∧ HasRoom s.ctx s.ctx.mapComponents
  | .cmpDelete _ c _ => ∀ b ∈ s.liveCmps, s.ctx.cmps b = s.ctx.cmps c → b = c
  | _ => True

/-- Every id given lies in the range, and no two live objects of a kind share one. -/
structure IdsHold (sidMin sidMax : Nat) (s : RecsRun) : Prop where
  range : ∀ id ∈ s.given, sidMin ≤ id ∧ id ≤ sidMax
  entities : (s.liveEntities.map s.ctx.idOf).Nodup ∧ ∀ a ∈ s.liveEntities, (s.ctx.idOf a).isSome
  cmps : (s.liveCmps.map s.ctx.cmps).Nodup ∧ ∀ c ∈ s.liveCmps, (s.ctx.cmps c).isSome

structure IdsInv (sidMin sidMax : Nat) (s : RecsRun) : Prop where
  min : s.ctx.sidMin = sidMin
  max : s.ctx.sidMax = sidMax
  lo : sidMin ≤ s.ctx.sidCur + 1
  hi : s.ctx.sidCur ≤ sidMax
  given : ∀ id ∈ s.given, sidMin ≤ id ∧ id ≤ sidMax
  entities : Registered s.ctx.mapEntities s.ctx.idOf s.liveEntities
  cmps : Registered s.ctx.mapComponents s.ctx.cmps s.liveCmps

section ids

variable {sidMin sidMax : Nat} {s s' : RecsRun} {op : RecsOp}

theorem Registered.isSome {m : Registry} {idOf : Nat → Option Nat} {live : List Nat} (h : Registered m idOf live) :
    ∀ a ∈ live, (idOf a).isSome := by
  intro a ha
  obtain ⟨id, hid, -⟩ := h.held a ha
  simp [hid]

theorem IdsInv.holds (h : IdsInv sidMin sidMax s) : IdsHold sidMin sidMax s :=
  ⟨h.given, ⟨h.entities.unique, h.entities.isSome⟩, h.cmps.unique, h.cmps.isSome⟩

/-- With room the search gives an id of the range. -/
theorem IdsInv.inRange (h : IdsInv sidMin sidMax s) (hmax : sidMax < 18446744073709551616) {map : Registry}
    (hroom : HasRoom s.ctx map) {fuel id : Nat} (hfind : recsFindId map fuel s.ctx = .ok (id, s.ctx.at id)) :
    sidMin ≤ id ∧ id ≤ sidMax := by
  have hlo := h.lo
  rcases hroom with hroom | ⟨hmin, hall⟩
  · have hid := recsFindId_ahead (by rw [h.max]; exact hmax) hroom hfind
    rw [h.max] at hid
    exact ⟨by omega, hid.2⟩
  · rw [h.min] at hmin
    rw [h.max] at hall
    have hid := (recsFindId_result hfind).2.1
    omega

theorem entityNew_ids (hmax : sidMax < 18446744073709551616) (h : IdsInv sidMin sidMax s) {fuel a : Nat}
    {onNew : Option NewEntityHook} {onDelete : Option Int} (hroom : HasRoom s.ctx s.ctx.mapEntities)
    (ha : s.ctx.entities a = none) {r : Option Nat} {ctx : RecsContext}
    (hrun : recsEntityNew fuel a true onNew onDelete s.ctx = .ok (r, ctx)) :
    IdsInv sidMin sidMax (s.entityCreated r ctx) := by
  obtain ⟨id, hfind, hr⟩ := recsEntityNew_ok hrun
  have hid := h.inRange hmax hroom hfind
  have hfree := (recsFindId_result hfind).1
  have hlive : a ∉ s.liveEntities := h.entities.not_mem (by simp [RecsContext.idOf, ha])
  rcases hr with hr | ⟨hnone, e, hr⟩
  · cases hr
    refine ⟨h.min, h.max, Nat.le_succ_of_le hid.1, hid.2, ?_, ?_, h.cmps⟩
    · exact List.forall_mem_cons.mpr ⟨hid, h.given⟩
    · rw [idOf_update rfl]
      exact h.entities.add hlive hfree
  · dsimp only at hnone hr
    subst hnone hr
    refine ⟨h.min, h.max, Nat.le_succ_of_le hid.1, hid.2, h.given, ?_, h.cmps⟩
    rw [idOf_update rfl]
    exact h.entities.abandon hlive hfree _

theorem cmpNew_ids (hmax : sidMax < 18446744073709551616) (h : IdsInv sidMin sidMax s) {fuel c : Nat}
    {onNew onDelete : Option Int} (hroom : HasRoom s.ctx s.ctx.mapComponents) (hc : s.ctx.cmps c = none)
    {r : Option Nat} {ctx : RecsContext}
    (hrun : recsCmpNew fuel (some c) true onNew onDelete s.ctx = .ok (r, ctx)) :
    IdsInv sidMin sidMax (s.cmpCreated r ctx) := by
  obtain ⟨hnone, -⟩ | ⟨c', id, hc', hfind, hr⟩ := recsCmpNew_ok hrun
  · cases hnone
  cases hc'
  have hid := h.inRange hmax hroom hfind
  have hfree := (recsFindId_result hfind).1
  have hlive : c ∉ s.liveCmps := h.cmps.not_mem hc
  rcases hr with hr | ⟨hnone, cmp, hr⟩
  · cases hr
    refine ⟨h.min, h.max, Nat.le_succ_of_le hid.1, hid.2, ?_, h.entities, ?_⟩
    · exact List.forall_mem_cons.mpr ⟨hid, h.given⟩
    · exact h.cmps.add hlive hfree
  · dsimp only at hnone hr
    subst hnone hr
    exact ⟨h.min, h.max, Nat.le_succ_of_le hid.1, hid.2, h.given, h.entities, h.cmps.abandon hlive hfree _⟩

/-- A call on the components of an entity leaves its id. -/
theorem IdsInv.onComponents (h : IdsInv sidMin sidMax s) {f : Rarray Nat → Except Fault (Rarray Nat)} {a : Nat}
    {ctx : RecsContext} (hcall : OnComponents f a s.ctx ctx) (attached : List (Nat × Nat)) :
    IdsInv sidMin sidMax { s with ctx := ctx, attached := attached } := by
  obtain ⟨e, e', he, hid, rfl⟩ := hcall.setEntity
  refine ⟨h.min, h.max, h.lo, h.hi, h.given, ?_, h.cmps⟩
  show Registered s.ctx.mapEntities (s.ctx.setEntity a (some e')).idOf s.liveEntities
  have hsame : (s.ctx.setEntity a (some e')).idOf = s.ctx.idOf := by
    rw [idOf_update rfl, Function.update_eq_self_iff]
    simp [RecsContext.idOf, he, hid]
  rw [hsame]
  exact h.entities

theorem IdsInv.step (hmax : sidMax < 18446744073709551616) (h : IdsInv sidMin sidMax s) (hguard : RangeGuard s op)
    (hstep : RecsStep s op s') : IdsInv sidMin sidMax s' := by
  cases op with
  | entityNew fuel a added onNew onDelete =>
    obtain ⟨ha, r, ctx, hrun, rfl⟩ := hstep
    obtain ⟨rfl, hroom⟩ := hguard
    exact entityNew_ids hmax h hroom ha hrun
  | entityDelete onDelete a destroy =>
    obtain ⟨code, ctx, hrun, rfl⟩ := hstep
    obtain ⟨e, e', he, -, rfl⟩ := recsEntityDelete_ok hrun
    refine ⟨h.min, h.max, h.lo, h.hi, h.given, ?_, h.cmps⟩
    rw [idOf_update rfl]
    apply h.entities.remove
    intro b hb hid
    apply hguard b hb
    rw [hid]
    simp [RecsContext.idOf, he]
  | cmpNew fuel m added onNew onDelete =>
    obtain ⟨hc, r, ctx, hrun, rfl⟩ := hstep
    rcases m with _ | c
    · cases hrun
      exact ⟨h.min, h.max, h.lo, h.hi, h.given, h.entities, h.cmps⟩
    · obtain ⟨rfl, hroom⟩ := hguard (by simp)
      exact cmpNew_ids hmax h hroom (hc c rfl) hrun
  | cmpDelete onDelete c destroy =>
    obtain ⟨code, ctx, hrun, rfl⟩ := hstep
    obtain ⟨id, id', hid, -, rfl⟩ := recsCmpDelete_ok hrun
    refine ⟨h.min, h.max, h.lo, h.hi, h.given, h.entities, ?_⟩
    apply h.cmps.remove
    intro b hb hid'
    apply hguard b hb
    rw [hid, hid']
  | cmpAdd e c =>
    obtain ⟨code, ctx, hrun, rfl⟩ := hstep
    exact h.onComponents (recsCmpAdd_ok hrun).2 _
  | cmpGet e id =>
    obtain ⟨-, rfl⟩ := hstep
    exact h
  | cmpRemove e id =>
    obtain ⟨code, out, ctx, hrun, rfl⟩ := hstep
    obtain ⟨-, rfl⟩ | ⟨c, -, hcall⟩ := recsCmpRemove_ok hrun
    · exact ⟨h.min, h.max, h.lo, h.hi, h.given, h.entities, h.cmps⟩
    · exact h.onComponents hcall _
  | cmpRemoveAll e =>
    obtain ⟨ctx, hrun, rfl⟩ := hstep
    exact h.onComponents (recsCmpRemoveAll_ok hrun) _

/-- In every run in which the creations have room in the range. -/
theorem ids_run {sidCur : Nat} (hmax : sidMax < 18446744073709551616) (hlo : sidMin ≤ sidCur + 1)
    (hhi : sidCur ≤ sidMax) {ops : List RecsOp}
    (hrun : Steps (Guarded RangeGuard RecsStep) (recsStart sidMin sidMax sidCur) ops s) :
    IdsHold sidMin sidMax s := by
  have hstart : IdsInv sidMin sidMax (recsStart sidMin sidMax sidCur) :=
    ⟨rfl, rfl, hlo, hhi, by simp [recsStart], ⟨List.nodup_nil, by simp [recsStart]⟩, List.nodup_nil, by simp [recsStart]⟩
  have hinv := hrun.invariant (I := IdsInv sidMin sidMax) (fun hI hstep => hI.step hmax hstep.1 hstep.2) hstart
  exact hinv.holds

end ids

/-- Two entities, of which the first is deleted, a component, and an entity at the address of the first. -/
theorem ids_run_deleted :
    let ops : List RecsOp := [.entityNew 1 101 true none none, .entityNew 1 102 true none none,
      .entityDelete none 101 true, .cmpNew 1 (some 201) true none none, .entityNew 1 101 true none none]
    ∃ s, Steps (Guarded RangeGuard RecsStep) (recsStart 1 9 0) ops s ∧ s.given = [4, 3, 2, 1] ∧
      s.liveEntities = [101, 102] ∧ IdsHold 1 9 s := by
  intro ops
  have hroom : HasRoom (recsStart 1 9 0).ctx (recsStart 1 9 0).ctx.mapEntities :=
    .inl ⟨1, by decide, by decide, rfl⟩
  obtain ⟨s₁, s₂, s₃, s₄, s₅, ⟨h₁, h₂, h₃, h₄, h₅⟩, ⟨hroom₁, hroom₃, hroom₄⟩, hids, hgiven, hlive⟩ :
      ∃ s₁ s₂ s₃ s₄ s₅, (RecsStep (recsStart 1 9 0) (.entityNew 1 101 true none none) s₁ ∧
        RecsStep s₁ (.entityNew 1 102 true none none) s₂ ∧ RecsStep s₂ (.entityDelete none 101 true) s₃ ∧
        RecsStep s₃ (.cmpNew 1 (some 201) true none none) s₄ ∧
        RecsStep s₄ (.entityNew 1 101 true none none) s₅) ∧
      (HasRoom s₁.ctx s₁.ctx.mapEntities ∧ HasRoom s₃.ctx s₃.ctx.mapComponents ∧
        HasRoom s₄.ctx s₄.ctx.mapEntities) ∧
      (s₂.liveEntities = [102, 101] ∧ s₂.ctx.idOf 102 ≠ s₂.ctx.idOf 101) ∧ s₅.given = [4, 3, 2, 1] ∧
      s₅.liveEntities = [101, 102] :=
    ⟨_, _, _, _, _, ⟨⟨rfl, _, _, rfl, rfl⟩, ⟨rfl, _, _, rfl, rfl⟩, ⟨_, _, rfl, rfl⟩,
      ⟨fun c hc => by cases hc; rfl, _, _, rfl, rfl⟩, ⟨rfl, _, _, rfl, rfl⟩⟩,
      ⟨.inl ⟨2, by decide, by decide, rfl⟩, .inl ⟨3, by decide, by decide, rfl⟩,
        .inl ⟨4, by decide, by decide, rfl⟩⟩, ⟨rfl, by decide⟩, rfl, rfl⟩
  have hdelete : RangeGuard s₂ (.entityDelete none 101 true) := by
    intro b hb hid
    rw [hids.1] at hb
    rcases List.mem_pair.mp hb with rfl | rfl
    · exact absurd hid hids.2
    · rfl
  have hrun : Steps (Guarded RangeGuard RecsStep) (recsStart 1 9 0) ops s₅ :=
    .cons ⟨⟨rfl, hroom⟩, h₁⟩ (.cons ⟨⟨rfl, hroom₁⟩, h₂⟩ (.cons ⟨hdelete, h₃⟩
      (.cons ⟨fun _ => ⟨rfl, hroom₃⟩, h₄⟩ (.cons ⟨⟨rfl, hroom₄⟩, h₅⟩ (.nil _)))))
  exact ⟨s₅, hrun, hgiven, hlive, ids_run (by decide) (by decide) (by decide) hrun⟩
/-- With the counter at the end of the range the next id is beyond it. -/
theorem id_beyond_range : ∃ ops s, Steps RecsStep (recsStart 1 3 3) ops s ∧ s.given = [4] ∧ ¬ IdsHold 1 3 s := by
  obtain ⟨s, hstep, hgiven⟩ : ∃ s, RecsStep (recsStart 1 3 3) (.entityNew 1 101 true none none) s ∧
      s.given = [4] := ⟨_, ⟨rfl, _, _, rfl, rfl⟩, rfl⟩
  refine ⟨_, s, .cons hstep (.nil _), hgiven, fun h => ?_⟩
  have hrange := h.range 4 (by rw [hgiven]; decide)
  omega

end Funra
