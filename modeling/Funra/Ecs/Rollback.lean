import Funra.Ecs.Basic
import Funra.Rdict.Adds

/-!
# Refused creations

A context with its dictionaries. `on_new_entity` and `on_new_cmp` may refuse the object that has just been registered
under a new id. The creation then removes the id, and the deletion it calls removes it once more.

The table of the dictionary may have been rehashed by the addition, so it is not the one from before; its associations
and its size are (`RecsMap.rolled_back`).
-/

namespace Funra

open Mem System Except

/-! ### The dictionaries -/

/-- `recs_init` makes both dictionaries with the default `bucket_capacity`. -/
structure RecsMap (d : Rdict Nat Nat Unit) : Prop where
  inv : d.Inv uint64Funcs
  buckets : 0 < d.buckets
  bucketCapacity : d.bucketCapacity = 16

section dictionaries

variable {d d' : Rdict Nat Nat Unit} {ok : Nat → Bool} {scale : Nat → Nat} {fuel id a : Nat} {code : Int}

theorem RecsMap.refines (h : RecsMap d) : Refines uint64Funcs d d.associations := associations_refines h.inv h.buckets

theorem recsMap_create {init : Nat} {heap : RdictHeap} (hinit : 0 < init) (hok : ok heap.calls = true)
    (hn : 0 < bucketCountOf (u32 (scale init)) 16) (hlt : bucketCountOf (u32 (scale init)) 16 * 16 < 4294967296)
    (hcreate : rdictCreate uint64Funcs ok scale fuel init 0 () heap = .ok d) : RecsMap d := by
  have hcreate : rdictCreate uint64Funcs ok scale fuel init 16 () heap = .ok d := hcreate
  obtain ⟨-, -, -, hw, -⟩ := rdictCreate_spec (by decide) hok hcreate
  rw [show init = if init > 0 then init else 16 from (if_pos hinit).symm] at hn hlt
  have hd := refines_create (by decide) hok hn hlt hcreate
  exact ⟨hd.inv, hd.buckets, hw⟩

/-- A lookup without a result has met no entry of the key. -/
theorem RecsMap.absent_of_find (h : RecsMap d) {key : Option Nat} (hfind : rdictFind uint64Funcs d key = .ok none) :
    d.associations key = none := by
  rcases hm : d.associations key with _ | v
  · rfl
  · have hfinds : FindsAs uint64Funcs d key (d.associations key) := by
      refine (find_iff uint64Funcs_compatible h.refines key).mpr fun k _ hnone => ?_
      rw [hm] at hnone
      cases hnone
    rw [hm] at hfinds
    obtain ⟨e, he, -⟩ := hfinds
    rw [hfind] at he
    cases he

theorem RecsMap.absent (h : RecsMap d) {k : Nat} (hnone : d.associations (some k) = none) :
    Absent uint64Funcs d k := h.refines.entries.absent k hnone

/-- Whole buckets of 16 slots leave room for the `NULL` key in the count. -/
theorem RecsMap.size_lt (h : RecsMap d) (hnull : d.entryNull = none) : d.size + 1 < 4294967296 := by
  have hsize := h.inv.size_eq
  have hle := entries_length_le h.inv
  have hcap := h.inv.capacity_lt
  rw [h.inv.capacity_eq, h.bucketCapacity] at hle hcap
  simp only [hnull, Option.isSome_none, Bool.false_eq_true, if_false] at hsize
  omega

theorem RecsMap.add (hok : ∀ i, ok i = true) (h : RecsMap d) (hnone : d.associations (uint64Key id) = none)
    (hrun : rdictAdd uint64Funcs ok scale fuel d (uint64Key id) (some a) = .ok (code, d')) :
    RecsMap d' ∧ d'.associations = d.associations.add true id a := by
  have hwrap : NoWrap uint64Funcs scale d (.add (uint64Key id) (some a)) := by
    refine ⟨fun n hn => ?_, fun _ _ hnull => h.size_lt hnull⟩
    rcases hkey : uint64Key id with _ | k
    · rw [hkey] at hn
      cases hn
    · rw [hkey] at hn hrun hnone
      have hends := rdictAdd_addEnds hok ⟨h.inv.tidy, h.inv.placed⟩ (h.absent hnone) hrun
      exact hends.sized hn
  have hd' := SessionMap.add_refines hok h.refines hwrap ⟨fuel, code, hrun⟩
  refine ⟨⟨hd'.inv, hd'.buckets, ?_⟩, hd'.associations_eq⟩
  rcases hkey : uint64Key id with _ | k
  · rw [hkey] at hrun
    obtain rfl := RdictStep.eq_addNull ⟨fuel, code, hrun⟩
    obtain ⟨-, -, -, hw⟩ := addNull_fields uint64Funcs ok d (some a)
    exact hw.trans h.bucketCapacity
  · rw [hkey] at hrun hwrap
    have hadd := rdictAdd_spec uint64Funcs_compatible h.inv (fun n hn => (hwrap.settled n hn).2) hrun
    exact hadd.bucketCapacity.trans h.bucketCapacity

/-- An addition under an id that has been searched for. -/
theorem RecsMap.add_returns (hok : ∀ i, ok i = true) (h : RecsMap d)
    (hfind : rdictFind uint64Funcs d (uint64Key id) = .ok none) :
    (rdictAdd uint64Funcs ok scale fuel d (uint64Key id) (some a)).Returns fun r => RecsMap r.2 :=
  fun _ hadd => (h.add hok (h.absent_of_find hfind) hadd).1

theorem RecsMap.remove (h : RecsMap d) (hrun : rdictRemove uint64Funcs d (uint64Key id) = .ok (code, d')) :
    RecsMap d' ∧ d'.associations = d.associations.remove id := by
  have hd' := SessionMap.remove_refines h.refines hrun
  refine ⟨⟨hd'.inv, hd'.buckets, ?_⟩, hd'.associations_eq⟩
  rcases hkey : uint64Key id with _ | k
  · rw [hkey] at hrun
    cases hrun
    obtain ⟨-, -, -, -, hw⟩ := removeNull_spec h.inv
    exact hw.trans h.bucketCapacity
  · rw [hkey] at hrun
    obtain ⟨-, -, hshape, -⟩ := rdictRemove_spec uint64Funcs_compatible h.inv hrun
    exact hshape.bucketCapacity.trans h.bucketCapacity

theorem RecsMap.remove_returns (h : RecsMap d) (id : Nat) :
    ∃ code d', rdictRemove uint64Funcs d (uint64Key id) = .ok (code, d') :=
  rdictRemove_total h.inv.tidy h.buckets _

/-- The addition of a new id and two removals, whatever the table looks like then. -/
theorem RecsMap.rolled_back (hok : ∀ i, ok i = true) (h : RecsMap d) (hnone : d.associations (uint64Key id) = none)
    {d₁ d₂ : Rdict Nat Nat Unit} {code₁ code₂ : Int}
    (hadd : rdictAdd uint64Funcs ok scale fuel d (uint64Key id) (some a) = .ok (code, d₁))
    (hremove : rdictRemove uint64Funcs d₁ (uint64Key id) = .ok (code₁, d₂))
    (hagain : rdictRemove uint64Funcs d₂ (uint64Key id) = .ok (code₂, d')) :
    RecsMap d' ∧ d'.associations = d.associations ∧ d'.size = d.size := by
  obtain ⟨h₁, hadded⟩ := h.add hok hnone hadd
  obtain ⟨h₂, hremoved⟩ := h₁.remove hremove
  obtain ⟨h', hkept⟩ := h₂.remove hagain
  have hback : d₂.associations = d.associations := by
    rw [hremoved, hadded, SessionMap.remove_add, SessionMap.remove_eq_iff.mpr hnone]
  have hsame : d'.associations = d.associations := by
    rw [hkept, hback, SessionMap.remove_eq_iff.mpr hnone]
  have hd' := h'.refines
  rw [hsame] at hd'
  exact ⟨h', hsame, size_of_associations h.refines hd'⟩

end dictionaries

/-! ### Contexts and hooks -/

structure DictContext where
  sidMin : Nat
  sidMax : Nat
  sidCur : Nat
  mapEntities : Rdict Nat Nat Unit
  mapComponents : Rdict Nat Nat Unit
  entities : Nat → Option RecsEntity
  cmps : Nat → Option Nat

/-- The dictionaries are the same. -/
def SameMaps (ctx ctx' : DictContext) : Prop :=
  ctx'.mapEntities = ctx.mapEntities ∧ ctx'.mapComponents = ctx.mapComponents

/-- A hook returns a code and may do anything to the context, but leaves its dictionaries alone. -/
structure RecsHook where
  code : Int
  run : Nat → DictContext → DictContext
  sameMaps : ∀ a ctx, SameMaps ctx (run a ctx)

/-- Without a hook the code stays `rcode_ok`. -/
def callHook (hook : Option RecsHook) (a : Nat) (ctx : DictContext) : Int × DictContext :=
  match hook with
  | none => (0, ctx)
  | some hook => (hook.code, hook.run a ctx)

namespace DictContext

variable (ctx : DictContext)

def entity (a : Nat) : Except Fault RecsEntity :=
  match ctx.entities a with
  | none => .error .useAfterFree
  | some e => .ok e

def setEntity (a : Nat) (e : Option RecsEntity) : DictContext :=
  { ctx with entities := Function.update ctx.entities a e }

def freeEntity (a : Nat) : Except Fault DictContext := do
  let _ ← ctx.entity a
  return ctx.setEntity a none

def cmp (c : Nat) : Except Fault Nat :=
  match ctx.cmps c with
  | none => .error .useAfterFree
  | some id => .ok id

def setCmp (c : Nat) (id : Option Nat) : DictContext := { ctx with cmps := Function.update ctx.cmps c id }

def freeCmp (c : Nat) : Except Fault DictContext := do
  let _ ← ctx.cmp c
  return ctx.setCmp c none

def recsGetNextId : Nat × DictContext :=
  let cur := if ctx.sidMax < ctx.sidCur then ctx.sidMin else ctx.sidCur
  (u64Succ cur, { ctx with sidCur := u64Succ cur })

/-- The search for a free id in `recs_entity_new` and `recs_cmp_new`. -/
def recsFindId (map : Rdict Nat Nat Unit) : Nat → DictContext → Except Fault (Nat × DictContext)
  | 0, _ => .error .outOfFuel
  | fuel + 1, ctx => do
    let (id, ctx) := ctx.recsGetNextId
    if (← rdictFind uint64Funcs map (uint64Key id)).isSome then recsFindId map fuel ctx else return (id, ctx)

def recsCmpRemoveAll (a : Nat) (ctx : DictContext) : Except Fault DictContext := do
  let entity ← ctx.entity a
  match entity.components with
  | none => return ctx
  | some ar => do
    let ar ← rarrayClear ar
    return ctx.setEntity a (some { entity with components := some ar })

def recsEntityDelete (onDelete : Option RecsHook) (a : Nat) (destroy : Bool) (ctx : DictContext) :
    Except Fault (Int × DictContext) := do
  let data ← ctx.entity a
  let ctx ← recsCmpRemoveAll a ctx
  let (_, map) ← rdictRemove uint64Funcs ctx.mapEntities (uint64Key data.id)
  let (code, ctx) := callHook onDelete a { ctx with mapEntities := map }
  if code ≠ 0 then return (code, ctx)
  else if destroy then do
    let ctx ← ctx.freeEntity a
    return (0, ctx)
  else return (0, ctx)

/-- `a` is the address of the new entity. -/
def recsEntityNew (ok : Nat → Bool) (scale : Nat → Nat) (fuel a : Nat) (onNew onDelete : Option RecsHook)
    (ctx : DictContext) : Except Fault (Option Nat × DictContext) := do
  let (id, ctx) ← recsFindId ctx.mapEntities fuel ctx
  let ctx := ctx.setEntity a (some ⟨id, none⟩)
  let (_, map) ← rdictAdd uint64Funcs ok scale fuel ctx.mapEntities (uint64Key id) (some a)
  let (code, ctx) := callHook onNew a { ctx with mapEntities := map }
  if code ≠ 0 then do
    let data ← ctx.entity a
    let (_, map) ← rdictRemove uint64Funcs ctx.mapEntities (uint64Key data.id)
    let (_, ctx) ← recsEntityDelete onDelete a true { ctx with mapEntities := map }
    return (none, ctx)
  else return (some a, ctx)

def recsCmpDelete (onDelete : Option RecsHook) (c : Nat) (destroy : Bool) (ctx : DictContext) :
    Except Fault (Int × DictContext) := do
  let id ← ctx.cmp c
  let (_, map) ← rdictRemove uint64Funcs ctx.mapComponents (uint64Key id)
  let (code, ctx) := callHook onDelete c { ctx with mapComponents := map }
  if code ≠ 0 then return (code, ctx)
  else if destroy then do
    let ctx ← ctx.freeCmp c
    return (0, ctx)
  else return (0, ctx)

/-- `m` is what `create_cmp` returns, `none` also where it is not set. -/
def recsCmpNew (ok : Nat → Bool) (scale : Nat → Nat) (fuel : Nat) (m : Option Nat) (onNew onDelete : Option RecsHook)
    (ctx : DictContext) : Except Fault (Option Nat × DictContext) :=
  match m with
  | none => .ok (none, ctx)
  | some c => do
    let (id, ctx) ← recsFindId ctx.mapComponents fuel ctx
    let ctx := ctx.setCmp c (some id)
    let (_, map) ← rdictAdd uint64Funcs ok scale fuel ctx.mapComponents (uint64Key id) (some c)
    let (code, ctx) := callHook onNew c { ctx with mapComponents := map }
    if code ≠ 0 then do
      let id ← ctx.cmp c
      let (_, map) ← rdictRemove uint64Funcs ctx.mapComponents (uint64Key id)
      let (_, ctx) ← recsCmpDelete onDelete c true { ctx with mapComponents := map }
      return (none, ctx)
    else return (some c, ctx)

end DictContext

/-! ### What the hooks may do -/

/-- An array that `rarray_clear` can clear. -/
def Clearable (ar : Rarray Nat) : Prop :=
  ∃ l, RarrayRep componentFuncs ar l ∧
    l.length * componentFuncs.type.size ≤ ar.capacity * componentFuncs.type.size % 4294967296

/-- The entity is allocated, with the id and no array or a proper one. -/
def DictContext.HasEntity (ctx : DictContext) (a id : Nat) : Prop :=
  ∃ e, ctx.entities a = some e ∧ e.id = id ∧ ∀ ar, e.components = some ar → Clearable ar

def DictContext.HasCmp (ctx : DictContext) (c id : Nat) : Prop := ctx.cmps c = some id

/-- A hook that refuses a new entity leaves it allocated, with its id and a proper array. -/
def KeepsEntity (onNew : Option RecsHook) : Prop :=
  ∀ h, onNew = some h → h.code ≠ 0 → ∀ a id ctx, ctx.HasEntity a id → (h.run a ctx).HasEntity a id

def KeepsCmp (onNew : Option RecsHook) : Prop :=
  ∀ h, onNew = some h → h.code ≠ 0 → ∀ c id ctx, ctx.HasCmp c id → (h.run c ctx).HasCmp c id

/-- A hook that agrees to the deletion of an entity leaves it to be freed. -/
def LeavesEntity (onDelete : Option RecsHook) : Prop :=
  ∀ h, onDelete = some h → h.code = 0 → ∀ a id ctx, ctx.HasEntity a id → ∃ e, (h.run a ctx).entities a = some e

def LeavesCmp (onDelete : Option RecsHook) : Prop :=
  ∀ h, onDelete = some h → h.code = 0 → ∀ c id ctx, ctx.HasCmp c id → ∃ id', (h.run c ctx).cmps c = some id'

/-- The hook is not set or returns `rcode_ok`. -/
def Accepts (hook : Option RecsHook) : Prop := ∀ h, hook = some h → h.code = 0

section hooks

variable {hook onNew onDelete : Option RecsHook} {ctx ctx' : DictContext} {a c id : Nat}

theorem SameMaps.trans {ctx'' : DictContext} (h : SameMaps ctx ctx') (h' : SameMaps ctx' ctx'') : SameMaps ctx ctx'' :=
  ⟨h'.1.trans h.1, h'.2.trans h.2⟩

theorem callHook_maps : SameMaps ctx (callHook hook a ctx).2 := by
  rcases hook with _ | h
  · exact ⟨rfl, rfl⟩
  · exact h.sameMaps a ctx

theorem callHook_code : (callHook hook a ctx).1 = 0 ↔ Accepts hook := by
  rcases hook with _ | h
  · simp [callHook, Accepts]
  · simp [callHook, Accepts]

theorem callHook_keepsEntity (hk : KeepsEntity hook) (h : ctx.HasEntity a id) (hcode : (callHook hook a ctx).1 ≠ 0) :
    (callHook hook a ctx).2.HasEntity a id := by
  rcases hook with _ | hook
  · exact h
  · exact hk hook rfl hcode a id ctx h

theorem callHook_keepsCmp (hk : KeepsCmp hook) (h : ctx.HasCmp c id) (hcode : (callHook hook c ctx).1 ≠ 0) :
    (callHook hook c ctx).2.HasCmp c id := by
  rcases hook with _ | hook
  · exact h
  · exact hk hook rfl hcode c id ctx h

theorem callHook_leavesEntity (hl : LeavesEntity hook) (h : ctx.HasEntity a id) (hcode : (callHook hook a ctx).1 = 0) :
    ∃ e, (callHook hook a ctx).2.entities a = some e := by
  rcases hook with _ | hook
  · obtain ⟨e, he, -⟩ := h
    exact ⟨e, he⟩
  · exact hl hook rfl hcode a id ctx h

theorem callHook_leavesCmp (hl : LeavesCmp hook) (h : ctx.HasCmp c id) (hcode : (callHook hook c ctx).1 = 0) :
    ∃ id', (callHook hook c ctx).2.cmps c = some id' := by
  rcases hook with _ | hook
  · exact ⟨id, h⟩
  · exact hl hook rfl hcode c id ctx h

theorem DictContext.entity_of_some {e : RecsEntity} (h : ctx.entities a = some e) : ctx.entity a = .ok e := by
  simp only [DictContext.entity, h]

theorem DictContext.cmp_of_some (h : ctx.cmps c = some id) : ctx.cmp c = .ok id := by simp only [DictContext.cmp, h]

/-! ### Deletion -/

namespace DictContext

theorem recsCmpRemoveAll_spec (h : ctx.HasEntity a id) :
    (recsCmpRemoveAll a ctx).Succeeds fun ctx' => SameMaps ctx ctx' ∧ ctx'.HasEntity a id := by
  obtain ⟨e, he, hid, hclear⟩ := h
  rw [recsCmpRemoveAll, entity_of_some he]
  rcases hcs : e.components with _ | ar
  · simp only [bind, Except.bind, hcs]
    exact Succeeds.ok ⟨⟨rfl, rfl⟩, e, he, hid, hclear⟩
  · obtain ⟨l, hrep, hfit⟩ := hclear ar hcs
    simp only [bind, Except.bind, hcs]
    refine Succeeds.bind (rarrayClear_spec hrep hfit) fun ar' har => ?_
    obtain ⟨hrep', -⟩ := har
    refine Succeeds.ok ⟨⟨rfl, rfl⟩, _, Function.update_self .., hid, fun ar'' heq => ?_⟩
    cases heq
    exact ⟨[], hrep', by simp⟩

/-- The id is removed, whatever the hook returns. -/
theorem recsEntityDelete_spec (hl : LeavesEntity onDelete) (hmap : RecsMap ctx.mapEntities) (h : ctx.HasEntity a id) :
    (recsEntityDelete onDelete a true ctx).Succeeds fun r =>
      (∃ code, rdictRemove uint64Funcs ctx.mapEntities (uint64Key id) = .ok (code, r.2.mapEntities)) ∧
        r.2.mapComponents = ctx.mapComponents := by
  have ⟨e, he, hid, _⟩ := h
  obtain ⟨code, map, hremove⟩ := hmap.remove_returns id
  refine Succeeds.bind (P := fun data => data.id = id) ⟨e, entity_of_some he, hid⟩ ?_
  rintro data rfl
  refine Succeeds.bind (recsCmpRemoveAll_spec h) fun ctx₁ hcleared => ?_
  obtain ⟨hsame, hentity⟩ := hcleared
  refine Succeeds.bind (P := fun r => r = (code, map)) ⟨_, by rw [hsame.1, hremove], rfl⟩ ?_
  rintro _ rfl
  dsimp only
  have hleaves : (callHook onDelete a { ctx₁ with mapEntities := map }).1 = 0 →
      ∃ e, (callHook onDelete a { ctx₁ with mapEntities := map }).2.entities a = some e :=
    callHook_leavesEntity hl hentity
  have hmaps : SameMaps { ctx₁ with mapEntities := map } (callHook onDelete a { ctx₁ with mapEntities := map }).2 :=
    callHook_maps
  generalize callHook onDelete a { ctx₁ with mapEntities := map } = r at *
  have hresult : (∃ code, rdictRemove uint64Funcs ctx.mapEntities (uint64Key data.id) =
      .ok (code, r.2.mapEntities)) ∧ r.2.mapComponents = ctx.mapComponents := by
    refine ⟨⟨code, ?_⟩, hmaps.2.trans hsame.2⟩
    rw [hmaps.1]
    exact hremove
  split
  next => exact Succeeds.ok hresult
  next hok =>
    obtain ⟨e', he'⟩ := hleaves (Decidable.not_not.mp hok)
    simp only [freeEntity, entity_of_some he', bind, Except.bind, if_true]
    exact Succeeds.ok hresult

theorem recsCmpDelete_spec (hl : LeavesCmp onDelete) (hmap : RecsMap ctx.mapComponents) (h : ctx.HasCmp c id) :
    (recsCmpDelete onDelete c true ctx).Succeeds fun r =>
      (∃ code, rdictRemove uint64Funcs ctx.mapComponents (uint64Key id) = .ok (code, r.2.mapComponents)) ∧
        r.2.mapEntities = ctx.mapEntities := by
  obtain ⟨code, map, hremove⟩ := hmap.remove_returns id
  refine Succeeds.bind (P := fun id' => id' = id) ⟨id, cmp_of_some h, rfl⟩ ?_
  rintro id rfl
  refine Succeeds.bind (P := fun r => r = (code, map)) ⟨_, hremove, rfl⟩ ?_
  rintro _ rfl
  dsimp only
  have hleaves : (callHook onDelete c { ctx with mapComponents := map }).1 = 0 →
      ∃ id', (callHook onDelete c { ctx with mapComponents := map }).2.cmps c = some id' := callHook_leavesCmp hl h
  have hmaps : SameMaps { ctx with mapComponents := map } (callHook onDelete c { ctx with mapComponents := map }).2 :=
    callHook_maps
  generalize callHook onDelete c { ctx with mapComponents := map } = r at *
  have hresult : (∃ code, rdictRemove uint64Funcs ctx.mapComponents (uint64Key id) =
      .ok (code, r.2.mapComponents)) ∧ r.2.mapEntities = ctx.mapEntities := by
    refine ⟨⟨code, ?_⟩, hmaps.1⟩
    rw [hmaps.2]
    exact hremove
  split
  next => exact Succeeds.ok hresult
  next hok =>
    obtain ⟨id', hcmp⟩ := hleaves (Decidable.not_not.mp hok)
    simp only [freeCmp, cmp_of_some hcmp, bind, Except.bind, if_true]
    exact Succeeds.ok hresult

/-! ### Creation -/

theorem recsFindId_succ (map : Rdict Nat Nat Unit) (fuel : Nat) : recsFindId map (fuel + 1) ctx =
    (rdictFind uint64Funcs map (uint64Key ctx.recsGetNextId.1)).bind fun e =>
      if e.isSome then recsFindId map fuel ctx.recsGetNextId.2 else .ok ctx.recsGetNextId := rfl

/-- The search has looked up what it gives, and has only counted. -/
theorem recsFindId_found {map : Rdict Nat Nat Unit} {fuel : Nat} {r : Nat × DictContext}
    (h : recsFindId map fuel ctx = .ok r) : rdictFind uint64Funcs map (uint64Key r.1) = .ok none ∧ SameMaps ctx r.2 := by
  induction fuel generalizing ctx with
  | zero => cases h
  | succ fuel ih =>
    rw [recsFindId_succ] at h
    obtain ⟨e, hfind, h⟩ := of_bind_ok h
    rcases e with _ | e
    · cases h
      exact ⟨hfind, rfl, rfl⟩
    · obtain ⟨hnone, hsame⟩ := ih h
      exact ⟨hnone, hsame⟩

theorem recsFindId_mono {map : Rdict Nat Nat Unit} {fuel fuel' : Nat} {r : Nat × DictContext} (hle : fuel ≤ fuel')
    (h : recsFindId map fuel ctx = .ok r) : recsFindId map fuel' ctx = .ok r := by
  induction fuel generalizing fuel' ctx with
  | zero => cases h
  | succ fuel ih =>
    obtain ⟨fuel', rfl⟩ : ∃ n, fuel' = n + 1 := ⟨fuel' - 1, by omega⟩
    rw [recsFindId_succ] at h ⊢
    obtain ⟨e, hfind, h⟩ := of_bind_ok h
    rw [hfind]
    rcases e with _ | e
    · exact h
    · exact ih (by omega) h

/-- The search for an id returns, and the addition of the object under it. -/
def Registers (ok : Nat → Bool) (scale : Nat → Nat) (map : Rdict Nat Nat Unit) (a : Nat) (ctx : DictContext) : Prop :=
  (∃ fuel r, recsFindId map fuel ctx = .ok r) ∧ ∀ fuel r, recsFindId map fuel ctx = .ok r →
    ∃ fuel r', rdictAdd uint64Funcs ok scale fuel map (uint64Key r.1) (some a) = .ok r'

/-- The search for an id gives `id`. -/
def Finds (map : Rdict Nat Nat Unit) (ctx : DictContext) (id : Nat) : Prop :=
  ∃ fuel ctx₁, recsFindId map fuel ctx = .ok (id, ctx₁)

/-- How a creation ends that may give the object `m`: with the object under the new id, or as if nothing had been. -/
structure Creation (accepted : Prop) (m : Option Nat) (ctx : DictContext) (d d' : Rdict Nat Nat Unit)
    (o : Option Nat) : Prop where
  map : RecsMap d'
  nonNull_iff : o ≠ none ↔ accepted
  created : ∀ a, o = some a → m = some a ∧ ∃ id, Finds d ctx id ∧ d.associations (uint64Key id) = none ∧
    d'.associations = Function.update d.associations (uint64Key id) (some (some a))
  refused : o = none → d'.associations = d.associations ∧ d'.size = d.size

variable {ok : Nat → Bool} {scale : Nat → Nat} {fuel : Nat} {d d' : Rdict Nat Nat Unit} {code : Int}

/-- The object has been registered, and nothing has been removed. -/
theorem Creation.of_add (hok : ∀ i, ok i = true) (hmap : RecsMap d) {accepted : Prop} (haccepted : accepted)
    {ctx₁ : DictContext} {fuel' : Nat} (hfind : recsFindId d fuel' ctx = .ok (id, ctx₁))
    (hadd : rdictAdd uint64Funcs ok scale fuel d (uint64Key id) (some a) = .ok (code, d')) :
    Creation accepted (some a) ctx d d' (some a) := by
  have hnone := hmap.absent_of_find (recsFindId_found hfind).1
  obtain ⟨hmap', hadded⟩ := hmap.add hok hnone hadd
  refine ⟨hmap', iff_of_true nofun haccepted, fun a' heq => ?_, nofun⟩
  cases heq
  exact ⟨rfl, id, ⟨fuel', ctx₁, hfind⟩, hnone, hadded.trans SessionMap.add_eq_update⟩

theorem Creation.of_rollback (hok : ∀ i, ok i = true) (hmap : RecsMap d) {accepted : Prop} (hrefused : ¬ accepted)
    (m : Option Nat) {ctx₁ : DictContext} {fuel' : Nat} (hfind : recsFindId d fuel' ctx = .ok (id, ctx₁))
    {d₁ d₂ : Rdict Nat Nat Unit} {code₁ code₂ : Int}
    (hadd : rdictAdd uint64Funcs ok scale fuel d (uint64Key id) (some a) = .ok (code, d₁))
    (hremove : rdictRemove uint64Funcs d₁ (uint64Key id) = .ok (code₁, d₂))
    (hagain : rdictRemove uint64Funcs d₂ (uint64Key id) = .ok (code₂, d')) :
    Creation accepted m ctx d d' none := by
  have hnone := hmap.absent_of_find (recsFindId_found hfind).1
  obtain ⟨hmap', hback⟩ := hmap.rolled_back hok hnone hadd hremove hagain
  exact ⟨hmap', iff_of_false (fun h => h rfl) hrefused, nofun, fun _ => hback⟩

/-- The hook has been called for the registered entity. -/
theorem callHook_newEntity (hn : KeepsEntity onNew) {ctx₁ : DictContext} (hsame : SameMaps ctx ctx₁) (a id : Nat)
    (d₁ : Rdict Nat Nat Unit) {r : Int × DictContext}
    (hr : callHook onNew a { ctx₁.setEntity a (some ⟨id, none⟩) with mapEntities := d₁ } = r) :
    (r.1 = 0 ↔ Accepts onNew) ∧ r.2.mapEntities = d₁ ∧ r.2.mapComponents = ctx.mapComponents ∧
      (r.1 ≠ 0 → r.2.HasEntity a id) := by
  rw [← hr]
  obtain ⟨hentities, hcmps⟩ : SameMaps _ (callHook onNew a _).2 := callHook_maps
  refine ⟨callHook_code, hentities, hcmps.trans hsame.2, callHook_keepsEntity hn ?_⟩
  exact ⟨_, Function.update_self .., rfl, nofun⟩

theorem recsEntityNew_spec (hok : ∀ i, ok i = true) (hmap : RecsMap ctx.mapEntities) (hn : KeepsEntity onNew)
    (hd : LeavesEntity onDelete) {ctx₁ : DictContext} {d₁ : Rdict Nat Nat Unit}
    (hfind : recsFindId ctx.mapEntities fuel ctx = .ok (id, ctx₁))
    (hadd : rdictAdd uint64Funcs ok scale fuel ctx.mapEntities (uint64Key id) (some a) = .ok (code, d₁)) :
    (recsEntityNew ok scale fuel a onNew onDelete ctx).Succeeds fun r =>
      Creation (Accepts onNew) (some a) ctx ctx.mapEntities r.2.mapEntities r.1 ∧
        r.2.mapComponents = ctx.mapComponents := by
  obtain ⟨hnone, hsame⟩ := recsFindId_found hfind
  refine Succeeds.bind (P := fun r => r = (id, ctx₁)) ⟨_, hfind, rfl⟩ ?_
  rintro _ rfl
  refine Succeeds.bind (P := fun r => r = (code, d₁)) ⟨_, by rw [← hadd, ← hsame.1]; rfl, rfl⟩ ?_
  rintro _ rfl
  dsimp only
  generalize hr : callHook onNew a { ctx₁.setEntity a (some ⟨id, none⟩) with mapEntities := d₁ } = r
  obtain ⟨hcode, hmaps, hcmps, hkeeps⟩ := callHook_newEntity hn hsame a id d₁ hr
  have hmap₁ : RecsMap d₁ := (hmap.add hok (hmap.absent_of_find hnone) hadd).1
  split
  next hrefuses =>
    have hnew := hkeeps hrefuses
    have ⟨e, he, hid, _⟩ := hnew
    refine Succeeds.bind (P := fun data => data.id = id) ⟨e, entity_of_some he, hid⟩ ?_
    rintro data rfl
    obtain ⟨code₁, d₂, hremove⟩ := hmap₁.remove_returns data.id
    refine Succeeds.bind (P := fun r => r = (code₁, d₂)) ⟨_, by rw [hmaps, hremove], rfl⟩ ?_
    rintro _ rfl
    have hmap₂ : RecsMap d₂ := (hmap₁.remove hremove).1
    have hentity : DictContext.HasEntity { r.2 with mapEntities := d₂ } a data.id := hnew
    refine Succeeds.bind (recsEntityDelete_spec hd hmap₂ hentity) fun r' hr' => ?_
    obtain ⟨⟨code₂, hagain⟩, hcmps'⟩ := hr'
    refine Succeeds.ok ⟨.of_rollback hok hmap (fun h => hrefuses (hcode.mpr h)) _ hfind hadd hremove hagain, ?_⟩
    exact hcmps'.trans hcmps
  next haccepts =>
    refine Succeeds.ok ⟨?_, hcmps⟩
    have hadd' : rdictAdd uint64Funcs ok scale fuel ctx.mapEntities (uint64Key id) (some a) =
        .ok (code, r.2.mapEntities) := by rw [hadd, hmaps]
    exact .of_add hok hmap (hcode.mp (Decidable.not_not.mp haccepts)) hfind hadd'

theorem callHook_newCmp (hn : KeepsCmp onNew) {ctx₁ : DictContext} (hsame : SameMaps ctx ctx₁) (c id : Nat)
    (d₁ : Rdict Nat Nat Unit) {r : Int × DictContext}
    (hr : callHook onNew c { ctx₁.setCmp c (some id) with mapComponents := d₁ } = r) :
    (r.1 = 0 ↔ Accepts onNew) ∧ r.2.mapComponents = d₁ ∧ r.2.mapEntities = ctx.mapEntities ∧
      (r.1 ≠ 0 → r.2.HasCmp c id) := by
  rw [← hr]
  obtain ⟨hentities, hcmps⟩ : SameMaps _ (callHook onNew c _).2 := callHook_maps
  exact ⟨callHook_code, hcmps, hentities.trans hsame.1, callHook_keepsCmp hn (Function.update_self ..)⟩

theorem recsCmpNew_spec (hok : ∀ i, ok i = true) (hmap : RecsMap ctx.mapComponents) (hn : KeepsCmp onNew)
    (hd : LeavesCmp onDelete) {ctx₁ : DictContext} {d₁ : Rdict Nat Nat Unit}
    (hfind : recsFindId ctx.mapComponents fuel ctx = .ok (id, ctx₁))
    (hadd : rdictAdd uint64Funcs ok scale fuel ctx.mapComponents (uint64Key id) (some c) = .ok (code, d₁)) :
    (recsCmpNew ok scale fuel (some c) onNew onDelete ctx).Succeeds fun r =>
      Creation (some c ≠ none ∧ Accepts onNew) (some c) ctx ctx.mapComponents r.2.mapComponents r.1 ∧
        r.2.mapEntities = ctx.mapEntities := by
  obtain ⟨hnone, hsame⟩ := recsFindId_found hfind
  refine Succeeds.bind (P := fun r => r = (id, ctx₁)) ⟨_, hfind, rfl⟩ ?_
  rintro _ rfl
  refine Succeeds.bind (P := fun r => r = (code, d₁)) ⟨_, by rw [← hadd, ← hsame.2]; rfl, rfl⟩ ?_
  rintro _ rfl
  dsimp only
  generalize hr : callHook onNew c { ctx₁.setCmp c (some id) with mapComponents := d₁ } = r
  obtain ⟨hcode, hmaps, hentities, hkeeps⟩ := callHook_newCmp hn hsame c id d₁ hr
  have hmap₁ : RecsMap d₁ := (hmap.add hok (hmap.absent_of_find hnone) hadd).1
  split
  next hrefuses =>
    have hnew := hkeeps hrefuses
    refine Succeeds.bind (P := fun id' => id' = id) ⟨id, cmp_of_some hnew, rfl⟩ ?_
    rintro id rfl
    obtain ⟨code₁, d₂, hremove⟩ := hmap₁.remove_returns id
    refine Succeeds.bind (P := fun r => r = (code₁, d₂)) ⟨_, by rw [hmaps, hremove], rfl⟩ ?_
    rintro _ rfl
    have hmap₂ : RecsMap d₂ := (hmap₁.remove hremove).1
    have hcmp : DictContext.HasCmp { r.2 with mapComponents := d₂ } c id := hnew
    refine Succeeds.bind (recsCmpDelete_spec hd hmap₂ hcmp) fun r' hr' => ?_
    obtain ⟨⟨code₂, hagain⟩, hentities'⟩ := hr'
    refine Succeeds.ok ⟨.of_rollback hok hmap (fun h => hrefuses (hcode.mpr h.2)) _ hfind hadd hremove hagain, ?_⟩
    exact hentities'.trans hentities
  next haccepts =>
    refine Succeeds.ok ⟨?_, hentities⟩
    have hadd' : rdictAdd uint64Funcs ok scale fuel ctx.mapComponents (uint64Key id) (some c) =
        .ok (code, r.2.mapComponents) := by rw [hadd, hmaps]
    exact .of_add hok hmap ⟨nofun, hcode.mp (Decidable.not_not.mp haccepts)⟩ hfind hadd'

/-- Whatever the fuel, a creation finds one id. -/
theorem registers_of_run {map : Rdict Nat Nat Unit} {r : Nat × DictContext} {r' : Int × Rdict Nat Nat Unit}
    (hfind : recsFindId map fuel ctx = .ok r)
    (hadd : rdictAdd uint64Funcs ok scale fuel map (uint64Key r.1) (some a) = .ok r') :
    Registers ok scale map a ctx := by
  refine ⟨⟨fuel, r, hfind⟩, fun fuel' r₁ hfind₁ => ?_⟩
  have hmax := recsFindId_mono (Nat.le_max_left fuel fuel') hfind
  rw [recsFindId_mono (Nat.le_max_right fuel fuel') hfind₁] at hmax
  cases hmax
  exact ⟨fuel, r', hadd⟩

theorem Registers.run {map : Rdict Nat Nat Unit} (h : Registers ok scale map a ctx) :
    ∃ fuel id ctx₁ code d₁, recsFindId map fuel ctx = .ok (id, ctx₁) ∧
      rdictAdd uint64Funcs ok scale fuel map (uint64Key id) (some a) = .ok (code, d₁) := by
  obtain ⟨⟨fuel, ⟨id, ctx₁⟩, hfind⟩, hadds⟩ := h
  obtain ⟨fuel', ⟨code, d₁⟩, hadd⟩ := hadds fuel _ hfind
  refine ⟨max fuel fuel', id, ctx₁, code, d₁, ?_, ?_⟩
  · exact recsFindId_mono (Nat.le_max_left ..) hfind
  · exact rdictAdd_mono (Nat.le_max_right ..) hadd

/-- A creation that returns has found an id and added the entity. -/
theorem recsEntityNew_run {r : Option Nat × DictContext}
    (hrun : recsEntityNew ok scale fuel a onNew onDelete ctx = .ok r) :
    ∃ id ctx₁ code d₁, recsFindId ctx.mapEntities fuel ctx = .ok (id, ctx₁) ∧
      rdictAdd uint64Funcs ok scale fuel ctx.mapEntities (uint64Key id) (some a) = .ok (code, d₁) := by
  obtain ⟨⟨id, ctx₁⟩, hfind, hrun⟩ := of_bind_ok hrun
  obtain ⟨⟨code, d₁⟩, hadd, -⟩ := of_bind_ok hrun
  obtain ⟨-, hsame⟩ := recsFindId_found hfind
  refine ⟨id, ctx₁, code, d₁, hfind, ?_⟩
  rw [← hadd, ← hsame.1]
  rfl

theorem recsCmpNew_run {r : Option Nat × DictContext}
    (hrun : recsCmpNew ok scale fuel (some c) onNew onDelete ctx = .ok r) :
    ∃ id ctx₁ code d₁, recsFindId ctx.mapComponents fuel ctx = .ok (id, ctx₁) ∧
      rdictAdd uint64Funcs ok scale fuel ctx.mapComponents (uint64Key id) (some c) = .ok (code, d₁) := by
  obtain ⟨⟨id, ctx₁⟩, hfind, hrun⟩ := of_bind_ok hrun
  obtain ⟨⟨code, d₁⟩, hadd, -⟩ := of_bind_ok hrun
  obtain ⟨-, hsame⟩ := recsFindId_found hfind
  refine ⟨id, ctx₁, code, d₁, hfind, ?_⟩
  rw [← hadd, ← hsame.2]
  rfl

/-- A creation returns when it registers its object, whatever the hooks say. -/
theorem recsEntityNew_returns_iff (hok : ∀ i, ok i = true) (hmap : RecsMap ctx.mapEntities) (hn : KeepsEntity onNew)
    (hd : LeavesEntity onDelete) :
    (∃ fuel r, recsEntityNew ok scale fuel a onNew onDelete ctx = .ok r) ↔
      Registers ok scale ctx.mapEntities a ctx := by
  constructor
  · rintro ⟨fuel, r, hrun⟩
    obtain ⟨id, ctx₁, code, d₁, hfind, hadd⟩ := recsEntityNew_run hrun
    exact registers_of_run hfind hadd
  · intro hregisters
    obtain ⟨fuel, id, ctx₁, code, d₁, hfind, hadd⟩ := hregisters.run
    obtain ⟨r, hrun, -⟩ := recsEntityNew_spec hok hmap hn hd hfind hadd
    exact ⟨fuel, r, hrun⟩

theorem recsCmpNew_returns_iff (hok : ∀ i, ok i = true) (hmap : RecsMap ctx.mapComponents) (hn : KeepsCmp onNew)
    (hd : LeavesCmp onDelete) (m : Option Nat) :
    (∃ fuel r, recsCmpNew ok scale fuel m onNew onDelete ctx = .ok r) ↔
      ∀ c, m = some c → Registers ok scale ctx.mapComponents c ctx := by
  constructor
  · rintro ⟨fuel, r, hrun⟩ c rfl
    obtain ⟨id, ctx₁, code, d₁, hfind, hadd⟩ := recsCmpNew_run hrun
    exact registers_of_run hfind hadd
  · intro hregisters
    rcases m with _ | c
    · exact ⟨0, _, rfl⟩
    · obtain ⟨fuel, id, ctx₁, code, d₁, hfind, hadd⟩ := (hregisters c rfl).run
      obtain ⟨r, hrun, -⟩ := recsCmpNew_spec hok hmap hn hd hfind hadd
      exact ⟨fuel, r, hrun⟩

/-! ### The dictionaries over a run -/

/-- Both dictionaries are proper ones. -/
structure Inv (ctx : DictContext) : Prop where
  entities : RecsMap ctx.mapEntities
  components : RecsMap ctx.mapComponents

theorem Inv.of_same (h : ctx.Inv) (hsame : SameMaps ctx ctx') : ctx'.Inv :=
  ⟨hsame.1 ▸ h.entities, hsame.2 ▸ h.components⟩

theorem Inv.remove_entity (h : ctx.Inv) :
    (rdictRemove uint64Funcs ctx.mapEntities (uint64Key id)).Returns fun r => Inv { ctx with mapEntities := r.2 } :=
  fun _ hrun => ⟨(h.entities.remove hrun).1, h.components⟩

theorem Inv.remove_cmp (h : ctx.Inv) :
    (rdictRemove uint64Funcs ctx.mapComponents (uint64Key id)).Returns fun r => Inv { ctx with mapComponents := r.2 } :=
  fun _ hrun => ⟨h.entities, (h.components.remove hrun).1⟩

theorem recsCmpRemoveAll_inv (h : ctx.Inv) : (recsCmpRemoveAll a ctx).Returns Inv := by
  refine Returns.bind_of_forall fun e => ?_
  split
  · exact Returns.ok h
  · refine Returns.bind_of_forall fun ar => ?_
    exact Returns.ok (h.of_same ⟨rfl, rfl⟩)

theorem freeEntity_inv (h : ctx.Inv) : (ctx.freeEntity a).Returns Inv :=
  Returns.bind_of_forall fun _ => Returns.ok (h.of_same ⟨rfl, rfl⟩)

theorem freeCmp_inv (h : ctx.Inv) : (ctx.freeCmp c).Returns Inv :=
  Returns.bind_of_forall fun _ => Returns.ok (h.of_same ⟨rfl, rfl⟩)

theorem recsEntityDelete_inv (destroy : Bool) (h : ctx.Inv) :
    (recsEntityDelete onDelete a destroy ctx).Returns fun r => r.2.Inv := by
  refine Returns.bind_of_forall fun data => ?_
  refine Returns.bind (recsCmpRemoveAll_inv h) fun ctx₁ h₁ => ?_
  refine Returns.bind h₁.remove_entity fun r hr => ?_
  have hcalled := hr.of_same (callHook_maps : SameMaps _ (callHook onDelete a _).2)
  dsimp only
  split
  · exact Returns.ok hcalled
  · split
    · exact Returns.bind (freeEntity_inv hcalled) fun _ hfreed => Returns.ok hfreed
    · exact Returns.ok hcalled

theorem recsCmpDelete_inv (destroy : Bool) (h : ctx.Inv) :
    (recsCmpDelete onDelete c destroy ctx).Returns fun r => r.2.Inv := by
  refine Returns.bind_of_forall fun id => ?_
  refine Returns.bind h.remove_cmp fun r hr => ?_
  have hcalled := hr.of_same (callHook_maps : SameMaps _ (callHook onDelete c _).2)
  dsimp only
  split
  · exact Returns.ok hcalled
  · split
    · exact Returns.bind (freeCmp_inv hcalled) fun _ hfreed => Returns.ok hfreed
    · exact Returns.ok hcalled

theorem recsEntityNew_inv (hok : ∀ i, ok i = true) (h : ctx.Inv) :
    (recsEntityNew ok scale fuel a onNew onDelete ctx).Returns fun r => r.2.Inv := by
  refine Returns.bind (fun _ hfind => recsFindId_found hfind) fun r hr => ?_
  obtain ⟨hnone, hsame⟩ := hr
  have h₁ := h.of_same hsame
  rw [← hsame.1] at hnone
  refine Returns.bind (h₁.entities.add_returns hok hnone) fun r' hadded => ?_
  have hadded : Inv { r.2.setEntity a (some ⟨r.1, none⟩) with mapEntities := r'.2 } := ⟨hadded, h₁.components⟩
  have hcalled := hadded.of_same (callHook_maps : SameMaps _ (callHook onNew a _).2)
  dsimp only
  split
  · refine Returns.bind_of_forall fun data => ?_
    refine Returns.bind hcalled.remove_entity fun _ hremoved => ?_
    exact Returns.bind (recsEntityDelete_inv true hremoved) fun _ hdeleted => Returns.ok hdeleted
  · exact Returns.ok hcalled

theorem recsCmpNew_inv (hok : ∀ i, ok i = true) {m : Option Nat} (h : ctx.Inv) :
    (recsCmpNew ok scale fuel m onNew onDelete ctx).Returns fun r => r.2.Inv := by
  rcases m with _ | c
  · exact Returns.ok h
  refine Returns.bind (fun _ hfind => recsFindId_found hfind) fun r hr => ?_
  obtain ⟨hnone, hsame⟩ := hr
  have h₁ := h.of_same hsame
  rw [← hsame.2] at hnone
  refine Returns.bind (h₁.components.add_returns hok hnone) fun r' hadded => ?_
  have hadded : Inv { r.2.setCmp c (some r.1) with mapComponents := r'.2 } := ⟨h₁.entities, hadded⟩
  have hcalled := hadded.of_same (callHook_maps : SameMaps _ (callHook onNew c _).2)
  dsimp only
  split
  · refine Returns.bind_of_forall fun id => ?_
    refine Returns.bind hcalled.remove_cmp fun _ hremoved => ?_
    exact Returns.bind (recsCmpDelete_inv true hremoved) fun _ hdeleted => Returns.ok hdeleted
  · exact Returns.ok hcalled

/-- The calls of a run, with what the hooks are then. -/
inductive Op
  | entityNew (a : Nat) (onNew onDelete : Option RecsHook)
  | entityDelete (a : Nat) (onDelete : Option RecsHook) (destroy : Bool)
  | cmpNew (m : Option Nat) (onNew onDelete : Option RecsHook)
  | cmpDelete (c : Nat) (onDelete : Option RecsHook) (destroy : Bool)

def exec (ok : Nat → Bool) (scale : Nat → Nat) (fuel : Nat) (ctx : DictContext) : Op → Except Fault DictContext
  | .entityNew a onNew onDelete => (recsEntityNew ok scale fuel a onNew onDelete ctx).map Prod.snd
  | .entityDelete a onDelete destroy => (recsEntityDelete onDelete a destroy ctx).map Prod.snd
  | .cmpNew m onNew onDelete => (recsCmpNew ok scale fuel m onNew onDelete ctx).map Prod.snd
  | .cmpDelete c onDelete destroy => (recsCmpDelete onDelete c destroy ctx).map Prod.snd

/-- The call returns. -/
def Step (ok : Nat → Bool) (scale : Nat → Nat) (ctx : DictContext) (op : Op) (ctx' : DictContext) : Prop :=
  ∃ fuel, exec ok scale fuel ctx op = .ok ctx'

theorem Inv.step (hok : ∀ i, ok i = true) {op : Op} (h : ctx.Inv) (hstep : Step ok scale ctx op ctx') : ctx'.Inv := by
  obtain ⟨fuel, hrun⟩ := hstep
  cases op with
  | entityNew => exact Returns.map (recsEntityNew_inv hok h) ctx' hrun
  | entityDelete _ _ destroy => exact Returns.map (recsEntityDelete_inv destroy h) ctx' hrun
  | cmpNew => exact Returns.map (recsCmpNew_inv hok h) ctx' hrun
  | cmpDelete _ _ destroy => exact Returns.map (recsCmpDelete_inv destroy h) ctx' hrun

/-- In every run from a context with new dictionaries they stay proper ones, whatever the hooks do and return. -/
theorem inv_run (hok : ∀ i, ok i = true) {heap heap' : RdictHeap} {ops : List Op}
    (hn : 0 < bucketCountOf (u32 (scale 2000)) 16) (hlt : bucketCountOf (u32 (scale 2000)) 16 * 16 < 4294967296)
    (hentities : rdictCreate uint64Funcs ok scale fuel 2000 0 () heap = .ok ctx.mapEntities)
    (hcomponents : rdictCreate uint64Funcs ok scale fuel 2000 0 () heap' = .ok ctx.mapComponents)
    (hrun : Steps (Step ok scale) ctx ops ctx') : ctx'.Inv := by
  refine hrun.invariant (fun h hstep => h.step hok hstep) ⟨?_, ?_⟩
  · exact recsMap_create (by decide) (hok _) hn hlt hentities
  · exact recsMap_create (by decide) (hok _) hn hlt hcomponents

/-! ### Refused creations -/

/-- When the creations return and how they end. -/
theorem creation_rolls_back (hok : ∀ i, ok i = true) (h : ctx.Inv) {onNewCmp onDeleteCmp : Option RecsHook}
    (hn : KeepsEntity onNew) (hd : LeavesEntity onDelete) (hnc : KeepsCmp onNewCmp) (hdc : LeavesCmp onDeleteCmp)
    (a : Nat) (m : Option Nat) :
    ((∃ fuel r, recsEntityNew ok scale fuel a onNew onDelete ctx = .ok r) ↔
        Registers ok scale ctx.mapEntities a ctx) ∧
      (∀ fuel r, recsEntityNew ok scale fuel a onNew onDelete ctx = .ok r →
        Creation (Accepts onNew) (some a) ctx ctx.mapEntities r.2.mapEntities r.1 ∧
          r.2.mapComponents = ctx.mapComponents) ∧
      ((∃ fuel r, recsCmpNew ok scale fuel m onNewCmp onDeleteCmp ctx = .ok r) ↔
        ∀ c, m = some c → Registers ok scale ctx.mapComponents c ctx) ∧
      (∀ fuel r, recsCmpNew ok scale fuel m onNewCmp onDeleteCmp ctx = .ok r →
        Creation (m ≠ none ∧ Accepts onNewCmp) m ctx ctx.mapComponents r.2.mapComponents r.1 ∧
          r.2.mapEntities = ctx.mapEntities) := by
  refine ⟨recsEntityNew_returns_iff hok h.entities hn hd, ?_,
    recsCmpNew_returns_iff hok h.components hnc hdc m, ?_⟩
  · intro fuel r hrun
    obtain ⟨id, ctx₁, code, d₁, hfind, hadd⟩ := recsEntityNew_run hrun
    exact (recsEntityNew_spec hok h.entities hn hd hfind hadd).returns r hrun
  · intro fuel r hrun
    rcases m with _ | c
    · cases hrun
      exact ⟨⟨h.components, by simp, nofun, fun _ => ⟨rfl, rfl⟩⟩, rfl⟩
    · obtain ⟨id, ctx₁, code, d₁, hfind, hadd⟩ := recsCmpNew_run hrun
      exact (recsCmpNew_spec hok h.components hnc hdc hfind hadd).returns r hrun

/-- One bucket without entries. -/
def newMap : Rdict Nat Nat Unit where
  entry := some (0, List.replicate 16 .empty)
  entryNull := none
  size := 0
  capacity := 16
  buckets := 1
  bucketCapacity := 16
  dataExt := ()
  heap := ⟨1, [0]⟩

theorem newMap_recsMap : RecsMap newMap := by
  have hcreate : rdictCreate uint64Funcs (fun _ => true) exactScale 1 12 0 () ⟨0, []⟩ = .ok newMap := rfl
  exact recsMap_create (by decide) rfl (by decide) (by decide) hcreate

def newContext : DictContext where
  sidMin := 1
  sidMax := 100
  sidCur := 0
  mapEntities := newMap
  mapComponents := newMap
  entities := fun _ => none
  cmps := fun _ => none

def refusing : RecsHook := ⟨1, fun _ ctx => ctx, fun _ _ => ⟨rfl, rfl⟩⟩

/-- An entity is refused, and its deletion too. -/
theorem creation_rolls_back_refused : ∃ r,
    recsEntityNew (fun _ => true) exactScale 1 101 (some refusing) (some refusing) newContext = .ok r ∧ r.1 = none ∧
      r.2.mapEntities.associations = newMap.associations ∧ r.2.mapEntities.size = 0 := by
  have hkeeps : KeepsEntity (some refusing) := by
    rintro _ ⟨⟩ - a id ctx h
    exact h
  have hleaves : LeavesEntity (some refusing) := by
    rintro _ ⟨⟩ ⟨⟩
  obtain ⟨-, hruns, -⟩ := @creation_rolls_back (some refusing) (some refusing) newContext (fun _ => true) exactScale
    (fun _ => rfl) ⟨newMap_recsMap, newMap_recsMap⟩ none none hkeeps hleaves nofun nofun 101 none
  obtain ⟨r, hrun, hnone⟩ : ∃ r, recsEntityNew (fun _ => true) exactScale 1 101 (some refusing) (some refusing)
      newContext = .ok r ∧ r.1 = none := ⟨_, rfl, rfl⟩
  obtain ⟨hassociations, hsize⟩ := (hruns 1 r hrun).1.refused hnone
  exact ⟨r, hrun, hnone, hassociations, hsize⟩

/-- A hook that writes another id into the entity. -/
def renumbering : RecsHook := ⟨1, fun a ctx => ctx.setEntity a (some ⟨9, none⟩), fun _ _ => ⟨rfl, rfl⟩⟩

/-- Without `create_cmp` there is no component, and what a hook renames is not found again. -/
theorem creation_not_rolled_back :
    (¬ ∀ (m : Option Nat) (onNew onDelete : Option RecsHook) (r : Option Nat × DictContext),
      recsCmpNew (fun _ => true) exactScale 1 m onNew onDelete newContext = .ok r → (r.1 ≠ none ↔ Accepts onNew)) ∧
    ¬ ∀ (onNew onDelete : Option RecsHook) (r : Option Nat × DictContext),
      recsEntityNew (fun _ => true) exactScale 1 101 onNew onDelete newContext = .ok r → r.1 = none →
        r.2.mapEntities.size = newContext.mapEntities.size := by
  constructor
  · intro hall
    have hcreated := (hall none none none _ rfl).mpr nofun
    exact hcreated rfl
  · intro hall
    obtain ⟨r, hrun, hnone, hsize⟩ : ∃ r, recsEntityNew (fun _ => true) exactScale 1 101 (some renumbering) none
        newContext = .ok r ∧ r.1 = none ∧ r.2.mapEntities.size = 1 := ⟨_, rfl, rfl, rfl⟩
    have hkept := hall _ _ r hrun hnone
    rw [hsize] at hkept
    cases hkept

end DictContext

end hooks

end Funra
