import Funra.Rarray.Runs
import Funra.Ecs.Registry

/-!
# Entities and components

A context with its two registries and the entities and components in memory. Entities and components are known by
their addresses; a component is its id, an entity its id and its array of components, `none` for `NULL`.

Hooks are what they do and return: a parameter `none` is a hook that is not set. `on_new_entity` may leave an
array in the entity; apart from that a hook leaves the context alone. `added` says whether `rdict_add` had
memory, which no caller looks at.
-/

namespace Funra

open Mem System Except

structure RecsEntity where
  id : Nat
  components : Option (Rarray Nat)
  deriving DecidableEq, Repr

structure RecsContext where
  sidMin : Nat
  sidMax : Nat
  sidCur : Nat
  mapEntities : Registry
  mapComponents : Registry
  entities : Nat → Option RecsEntity
  cmps : Nat → Option Nat

/-- An array of pointers as `rarray_init` leaves it. -/
def componentFuncs : RarrayFuncs Nat := ⟨.ptr, false, fun obj v => v = obj, fun a b => if a = b then 0 else 2⟩

namespace RecsContext

variable (ctx : RecsContext)

def entity (a : Nat) : Except Fault RecsEntity :=
  match ctx.entities a with
  | none => .error .useAfterFree
  | some e => .ok e

def setEntity (a : Nat) (e : Option RecsEntity) : RecsContext :=
  { ctx with entities := Function.update ctx.entities a e }

def cmp (c : Nat) : Except Fault Nat :=
  match ctx.cmps c with
  | none => .error .useAfterFree
  | some id => .ok id

def setCmp (c : Nat) (id : Option Nat) : RecsContext := { ctx with cmps := Function.update ctx.cmps c id }

end RecsContext

/-! ### Ids -/

/-- `++` on a `uint64_t`. -/
def u64Succ (n : Nat) : Nat := (n + 1) % 18446744073709551616

def recsGetNextId (ctx : RecsContext) : Nat × RecsContext :=
  let cur := if ctx.sidMax < ctx.sidCur then ctx.sidMin else ctx.sidCur
  (u64Succ cur, { ctx with sidCur := u64Succ cur })

/-- The search for a free id in `recs_entity_new` and `recs_cmp_new`. -/
def recsFindId (map : Registry) : Nat → RecsContext → Except Fault (Nat × RecsContext)
  | 0, _ => .error .outOfFuel
  | fuel + 1, ctx =>
    let (id, ctx) := recsGetNextId ctx
    if (map.get id).isSome then recsFindId map fuel ctx else .ok (id, ctx)

/-! ### The components of an entity -/

def recsCmpAdd (e c : Nat) (ctx : RecsContext) : Except Fault (Int × RecsContext) := do
  let entity ← ctx.entity e
  match entity.components with
  | none => return (0, ctx)
  | some ar => do
    let ar ← rarrayAdd componentFuncs c ar
    return (0, ctx.setEntity e (some { entity with components := some ar }))

/-- What `recs_get_cmp` puts into `ret_cmp`. -/
def recsGetCmp (id : Nat) (ctx : RecsContext) : Option Nat := ctx.mapComponents.get id

/-- The code, and what is written to `ret_cmp`. -/
def recsCmpGet (e id : Nat) (ctx : RecsContext) : Except Fault (Int × Option Nat) := do
  let entity ← ctx.entity e
  match recsGetCmp id ctx with
  | none => return (1, none)
  | some c =>
    match entity.components with
    | none => return (0, none)
    | some ar => do
      if ← rarrayExist componentFuncs c ar then return (0, some c) else return (0, none)

def recsCmpRemove (e id : Nat) (ctx : RecsContext) : Except Fault (Int × Option Nat × RecsContext) := do
  let entity ← ctx.entity e
  match recsGetCmp id ctx with
  | none => return (1, none, ctx)
  | some c =>
    match entity.components with
    | none => return (0, none, ctx)
    | some ar => do
      let (code, ar) ← rarrayRemove componentFuncs c ar
      return (code, if code ≠ 0 then some c else none, ctx.setEntity e (some { entity with components := some ar }))

def recsCmpRemoveAll (e : Nat) (ctx : RecsContext) : Except Fault RecsContext := do
  let entity ← ctx.entity e
  match entity.components with
  | none => return ctx
  | some ar => do
    let ar ← rarrayClear ar
    return ctx.setEntity e (some { entity with components := some ar })

/-! ### Creation and deletion -/

def recsEntityDelete (onDelete : Option Int) (a : Nat) (destroy : Bool) (ctx : RecsContext) :
    Except Fault (Int × RecsContext) := do
  let data ← ctx.entity a
  let ctx ← recsCmpRemoveAll a ctx
  let ctx := { ctx with mapEntities := ctx.mapEntities.remove data.id }
  if onDelete.getD 0 ≠ 0 then return (onDelete.getD 0, ctx)
  else return (0, if destroy then ctx.setEntity a none else ctx)

/-- What `on_new_entity` returns, and the initial capacity of the array it makes for the entity. -/
structure NewEntityHook where
  code : Int
  capacity : Option Nat
  deriving DecidableEq, Repr

def NewEntityHook.components (hook : NewEntityHook) : Option (Rarray Nat) := hook.capacity.map (rarrayCreate 8)

/-- `a` is the address of the new entity. -/
def recsEntityNew (fuel a : Nat) (added : Bool) (onNew : Option NewEntityHook) (onDelete : Option Int)
    (ctx : RecsContext) : Except Fault (Option Nat × RecsContext) := do
  let (id, ctx) ← recsFindId ctx.mapEntities fuel ctx
  let ctx := ctx.setEntity a (some ⟨id, none⟩)
  let ctx := { ctx with mapEntities := ctx.mapEntities.add added id a }
  match onNew with
  | none => return (some a, ctx)
  | some hook => do
    let ctx := ctx.setEntity a (some ⟨id, hook.components⟩)
    if hook.code ≠ 0 then do
      let ctx := { ctx with mapEntities := ctx.mapEntities.remove id }
      let (_, ctx) ← recsEntityDelete onDelete a true ctx
      return (none, ctx)
    else return (some a, ctx)

def recsCmpDelete (onDelete : Option Int) (c : Nat) (destroy : Bool) (ctx : RecsContext) :
    Except Fault (Int × RecsContext) := do
  let id ← ctx.cmp c
  let ctx := { ctx with mapComponents := ctx.mapComponents.remove id }
  if onDelete.getD 0 ≠ 0 then return (onDelete.getD 0, ctx)
  else return (0, if destroy then ctx.setCmp c none else ctx)

/-- `m` is what `create_cmp` returns. -/
def recsCmpNew (fuel : Nat) (m : Option Nat) (added : Bool) (onNew onDelete : Option Int) (ctx : RecsContext) :
    Except Fault (Option Nat × RecsContext) :=
  match m with
  | none => .ok (none, ctx)
  | some c => do
    let (id, ctx) ← recsFindId ctx.mapComponents fuel ctx
    let ctx := ctx.setCmp c (some id)
    let ctx := { ctx with mapComponents := ctx.mapComponents.add added id c }
    if onNew.getD 0 ≠ 0 then do
      let ctx := { ctx with mapComponents := ctx.mapComponents.remove id }
      let (_, ctx) ← recsCmpDelete onDelete c true ctx
      return (none, ctx)
    else return (some c, ctx)

/-! ### What the calls on the components do -/

/-- `f` has been applied to the array of the entity, if it has one. -/
def OnComponents (f : Rarray Nat → Except Fault (Rarray Nat)) (a : Nat) (ctx ctx' : RecsContext) : Prop :=
  ∃ e, ctx.entities a = some e ∧ (e.components = none ∧ ctx' = ctx ∨
    ∃ ar ar', e.components = some ar ∧ f ar = .ok ar' ∧ ctx' = ctx.setEntity a (some ⟨e.id, some ar'⟩))

section components

variable {ctx ctx' : RecsContext} {a c id : Nat}

theorem RecsContext.entity_ok {e : RecsEntity} (h : ctx.entity a = .ok e) : ctx.entities a = some e := by
  unfold RecsContext.entity at h
  split at h <;> cases h
  assumption

theorem RecsContext.entity_of_some {e : RecsEntity} (h : ctx.entities a = some e) : ctx.entity a = .ok e := by
  simp only [RecsContext.entity, h]

theorem OnComponents.setEntity {f : Rarray Nat → Except Fault (Rarray Nat)} (h : OnComponents f a ctx ctx') :
    ∃ e e', ctx.entities a = some e ∧ e'.id = e.id ∧ ctx' = ctx.setEntity a (some e') := by
  obtain ⟨e, he, ⟨-, rfl⟩ | ⟨ar, ar', -, -, rfl⟩⟩ := h
  · refine ⟨e, e, he, rfl, ?_⟩
    simp [RecsContext.setEntity, ← he]
  · exact ⟨e, ⟨e.id, some ar'⟩, he, rfl, rfl⟩

theorem recsCmpAdd_ok {code : Int} (h : recsCmpAdd a c ctx = .ok (code, ctx')) :
    code = 0 ∧ OnComponents (rarrayAdd componentFuncs c) a ctx ctx' := by
  obtain ⟨e, hentity, h⟩ := of_bind_ok h
  have he := RecsContext.entity_ok hentity
  rcases hcs : e.components with _ | ar
  · rw [hcs] at h
    cases h
    exact ⟨rfl, e, he, Or.inl ⟨hcs, rfl⟩⟩
  · rw [hcs] at h
    obtain ⟨ar', hadd, h⟩ := of_bind_ok h
    cases h
    exact ⟨rfl, e, he, Or.inr ⟨ar, ar', hcs, hadd, rfl⟩⟩

theorem recsCmpRemoveAll_ok (h : recsCmpRemoveAll a ctx = .ok ctx') : OnComponents rarrayClear a ctx ctx' := by
  obtain ⟨e, hentity, h⟩ := of_bind_ok h
  have he := RecsContext.entity_ok hentity
  rcases hcs : e.components with _ | ar
  · rw [hcs] at h
    cases h
    exact ⟨e, he, Or.inl ⟨hcs, rfl⟩⟩
  · rw [hcs] at h
    obtain ⟨ar', hclear, h⟩ := of_bind_ok h
    cases h
    exact ⟨e, he, Or.inr ⟨ar, ar', hcs, hclear, rfl⟩⟩

theorem recsCmpRemove_ok {code : Int} {out : Option Nat} (h : recsCmpRemove a id ctx = .ok (code, out, ctx')) :
    recsGetCmp id ctx = none ∧ ctx' = ctx ∨
      ∃ c, recsGetCmp id ctx = some c ∧
        OnComponents (fun ar => (rarrayRemove componentFuncs c ar).map Prod.snd) a ctx ctx' := by
  obtain ⟨e, hentity, h⟩ := of_bind_ok h
  have he := RecsContext.entity_ok hentity
  rcases hget : recsGetCmp id ctx with _ | c
  · rw [hget] at h
    cases h
    exact Or.inl ⟨rfl, rfl⟩
  · refine Or.inr ⟨c, rfl, e, he, ?_⟩
    rw [hget] at h
    rcases hcs : e.components with _ | ar
    · simp only [hcs] at h
      cases h
      exact Or.inl ⟨rfl, rfl⟩
    · simp only [hcs] at h
      obtain ⟨⟨code', ar'⟩, hremove, h⟩ := of_bind_ok h
      cases h
      exact Or.inr ⟨ar, ar', rfl, congrArg (Except.map Prod.snd) hremove, rfl⟩

end components

end Funra
