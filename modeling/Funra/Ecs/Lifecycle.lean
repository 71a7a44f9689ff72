import Funra.Ecs.Ids

/-!
# The life of a context

`recs_init` and `recs_uninit` with everything that the context points to: two dictionaries, the array of systems
and the administrative entity. Containers are known by the number of their creation; an access to one that is
gone is a fault, and so is the call of a hook that is not set.

`recs_uninit` never releases a dictionary (`rdict_clear` keeps it, and is called only for one with entries), leaves
`admin_entity` and `systems` as they are after it has freed them, and calls `on_uninit` when `on_init` is set. What
the context should do holds exactly for the sequences in which nothing is uninitialised that was initialised
(`lifecycle_iff`).
-/

namespace Funra

open Mem Except

/-- The hooks of a context and what they return; `none` is a hook that is not set. -/
structure RecsHooks where
  onInit : Option Int
  onUninit : Option Int
  onNewEntity : Option NewEntityHook
  onDeleteEntity : Option Int
  deriving DecidableEq, Repr

/-- `ctx.mapEntities` is what the dictionary at `mapEntities` holds (nothing, for `NULL`), likewise for the
components. `live` are the dictionaries and arrays in memory, `created` and `released` all that ever were.
`entities` are the entities created, `deleted` those for which `on_delete_entity` was called (or would have been, had
it been set). `up` says that the last call was a `recs_init` that returned ok. -/
structure RecsLife where
  ctx : RecsContext
  adminEntity : Option Nat
  systems : Option Nat
  mapEntities : Option Nat
  mapComponents : Option Nat
  live : List Nat
  next : Nat
  created : List Nat
  released : List Nat
  entities : List Nat
  deleted : List Nat
  up : Bool

namespace RecsLife

variable (l : RecsLife)

/-- A new dictionary or array; its number is `l.next`. -/
def container : RecsLife :=
  { l with next := l.next + 1, live := l.next :: l.live, created := l.next :: l.created }

/-- An access to a container; `NULL` is looked at by every function of the containers. -/
def access : Option Nat → Except Fault Unit
  | none => .ok ()
  | some d => if d ∈ l.live then .ok () else .error .useAfterFree

end RecsLife

/-! ### recs_uninit -/

def recsUninitAdmin (hooks : RecsHooks) (l : RecsLife) : Except Fault RecsLife :=
  match l.adminEntity with
  | none => .ok l
  | some a => do
    l.access l.mapEntities
    let r ← recsEntityDelete hooks.onDeleteEntity a true l.ctx
    return { l with ctx := r.2, deleted := a :: l.deleted }

/-- `on_init` is tested, `on_uninit` called. -/
def recsCallUninit (hooks : RecsHooks) : Except Fault Int :=
  if hooks.onInit.isSome then
    match hooks.onUninit with
    | none => .error .nullDeref
    | some code => .ok code
  else .ok 0

/-- `rarray_release`. -/
def recsReleaseSystems (l : RecsLife) : Except Fault RecsLife :=
  match l.systems with
  | none => .ok l
  | some ar => do
    l.access (some ar)
    return { l with live := l.live.erase ar, released := ar :: l.released }

/-- The entities that are left: `on_delete_entity` for each, and `rdict_clear`, whose free function reads them. -/
def recsClearEntities (l : RecsLife) : Except Fault RecsLife :=
  match l.mapEntities with
  | none => .ok l
  | some d => do
    l.access (some d)
    if l.ctx.mapEntities.items = [] then return l
    else do
      let _ ← l.ctx.mapEntities.items.mapM fun p => l.ctx.entity p.2
      return { l with
        ctx := { l.ctx with mapEntities := Registry.empty }
        mapEntities := none
        deleted := l.ctx.mapEntities.items.map Prod.snd ++ l.deleted }

def recsClearComponents (l : RecsLife) : Except Fault RecsLife :=
  match l.mapComponents with
  | none => .ok l
  | some d => do
    l.access (some d)
    if l.ctx.mapComponents.items = [] then return l
    else do
      let _ ← l.ctx.mapComponents.items.mapM fun p => l.ctx.cmp p.2
      return { l with
        ctx := { l.ctx with mapComponents := Registry.empty }
        mapComponents := none }

def recsUninit (hooks : RecsHooks) (l : RecsLife) : Except Fault (Int × RecsLife) := do
  let l ← recsUninitAdmin hooks l
  let code ← recsCallUninit hooks
  let l ← recsReleaseSystems l
  let l ← recsClearEntities l
  let l ← recsClearComponents l
  return (code, { l with up := false })

/-! ### recs_init -/

/-- The fields that `recs_init` sets before it calls `on_init`; what they pointed to is not looked at. -/
def recsInitFields (l : RecsLife) : RecsLife :=
  let l := { l.container with
    mapEntities := some l.next, ctx := { l.ctx with mapEntities := Registry.empty } }
  let l := { l.container with
    mapComponents := some l.next, ctx := { l.ctx with mapComponents := Registry.empty } }
  { l.container with systems := some l.next }

/-- The administrative entity is the first in `map_entities`, so its first id is free. -/
def recsInitAdmin (hooks : RecsHooks) (l : RecsLife) : Except Fault RecsLife := do
  let r ← recsEntityNew 1 l.next true hooks.onNewEntity hooks.onDeleteEntity l.ctx
  return { l with
    ctx := r.2
    adminEntity := r.1
    next := l.next + 1
    entities := l.next :: l.entities
    deleted := if r.1.isNone then l.next :: l.deleted else l.deleted
    up := true }

def recsInit (hooks : RecsHooks) (l : RecsLife) : Except Fault (Int × RecsLife) := do
  let l := recsInitFields l
  if hooks.onInit.getD 0 ≠ 0 then do
    let r ← recsUninit hooks l
    return (hooks.onInit.getD 0, r.2)
  else do
    let l ← recsInitAdmin hooks l
    return (0, l)

/-! ### Sequences of calls -/

inductive LifeCall
  | init (hooks : RecsHooks)
  | uninit (hooks : RecsHooks)
  deriving DecidableEq, Repr

def lifeCall (l : RecsLife) : LifeCall → Except Fault RecsLife
  | .init hooks => (recsInit hooks l).map Prod.snd
  | .uninit hooks => (recsUninit hooks l).map Prod.snd

def lifeRun (calls : List LifeCall) (l : RecsLife) : Except Fault RecsLife := calls.foldlM lifeCall l

/-- A context whose memory is zero but for the range of the ids. -/
def lifeStart (sidMin sidMax sidCur : Nat) : RecsLife where
  ctx := ⟨sidMin, sidMax, sidCur, Registry.empty, Registry.empty, fun _ => none, fun _ => none⟩
  adminEntity := none
  systems := none
  mapEntities := none
  mapComponents := none
  live := []
  next := 0
  created := []
  released := []
  entities := []
  deleted := []
  up := false

/-- Every container is released once and every entity deleted once, except what an initialised context holds:
that is in memory. -/
structure LifeHolds (l : RecsLife) : Prop where
  containers : ∀ d ∈ l.created, l.released.count d =
    if l.up ∧ (l.mapEntities = some d ∨ l.mapComponents = some d ∨ l.systems = some d) then 0 else 1
  entities : ∀ a ∈ l.entities, l.deleted.count a = if l.up ∧ l.adminEntity = some a then 0 else 1

/-- Nothing is uninitialised that was initialised: an initialisation succeeds and is the last call, and what comes
before it does not call a hook that is not set. -/
def NeverUndone : List LifeCall → Prop
  | [] => True
  | .uninit hooks :: rest => (hooks.onInit = none ∨ hooks.onUninit ≠ none) ∧ NeverUndone rest
  | .init hooks :: rest => hooks.onInit.getD 0 = 0 ∧ rest = []

section lifecycle

variable {l l' : RecsLife} {hooks : RecsHooks} {call : LifeCall} {calls : List LifeCall} {d : Nat}

theorem lifeRun_cons : lifeRun (call :: calls) l = (lifeCall l call).bind (lifeRun calls) := by
  rw [lifeRun, List.foldlM_cons]
  rfl

/-! ### What a call leaves alone -/

/-- No container has come or gone. -/
structure SameContainers (l l' : RecsLife) : Prop where
  next : l'.next = l.next
  systems : l'.systems = l.systems
  created : l'.created = l.created
  released : l'.released = l.released

theorem SameContainers.refl : SameContainers l l := ⟨rfl, rfl, rfl, rfl⟩

theorem recsUninitAdmin_same (h : recsUninitAdmin hooks l = .ok l') : SameContainers l l' := by
  unfold recsUninitAdmin at h
  split at h
  next =>
    cases h
    exact SameContainers.refl
  next =>
    obtain ⟨-, -, h⟩ := of_bind_ok h
    obtain ⟨r, -, h⟩ := of_bind_ok h
    cases h
    exact ⟨rfl, rfl, rfl, rfl⟩

/-- A dictionary is cleared, if it is there and has entries. -/
theorem SameContainers.clear {β : Type} {map : Option Nat} {items : List (Nat × Nat)} {access : Nat → Except Fault Unit}
    {look : Except Fault β} {cleared : RecsLife} (hcleared : SameContainers l cleared)
    (h : (match map with
      | none => Except.ok l
      | some d => (access d).bind fun _ => if items = [] then Except.ok l else look.bind fun _ => .ok cleared) = .ok l') :
    SameContainers l l' := by
  split at h
  next =>
    cases h
    exact SameContainers.refl
  next =>
    obtain ⟨-, -, h⟩ := of_bind_ok h
    split at h
    next =>
      cases h
      exact SameContainers.refl
    next =>
      obtain ⟨r, -, h⟩ := of_bind_ok h
      cases h
      exact hcleared

theorem recsClearEntities_same (h : recsClearEntities l = .ok l') : SameContainers l l' := by
  unfold recsClearEntities at h
  refine SameContainers.clear ?_ h
  exact ⟨rfl, rfl, rfl, rfl⟩

theorem recsClearComponents_same (h : recsClearComponents l = .ok l') : SameContainers l l' := by
  unfold recsClearComponents at h
  refine SameContainers.clear ?_ h
  exact ⟨rfl, rfl, rfl, rfl⟩

/-! ### A container that is never released -/

structure Unreleased (d : Nat) (l : RecsLife) : Prop where
  created : d ∈ l.created
  released : d ∉ l.released
  systems : l.systems ≠ some d
  lt : d < l.next

/-- Nor does the context hold it any more. -/
structure Lost (d : Nat) (l : RecsLife) : Prop extends Unreleased d l where
  gone : l.up = true → l.mapEntities ≠ some d ∧ l.mapComponents ≠ some d

theorem Lost.not_holds (h : Lost d l) : ¬ LifeHolds l := by
  intro hholds
  have hcount := hholds.containers d h.created
  rw [List.count_eq_zero_of_not_mem h.released, if_neg] at hcount
  · cases hcount
  · rintro ⟨hup, hd | hd | hd⟩
    · exact (h.gone hup).1 hd
    · exact (h.gone hup).2 hd
    · exact h.systems hd

theorem Unreleased.same (h : Unreleased d l) (hsame : SameContainers l l') : Unreleased d l' :=
  ⟨by rw [hsame.created]; exact h.created, by rw [hsame.released]; exact h.released,
    by rw [hsame.systems]; exact h.systems, by rw [hsame.next]; exact h.lt⟩

theorem recsReleaseSystems_unreleased (hrun : recsReleaseSystems l = .ok l') (h : Unreleased d l) :
    Unreleased d l' := by
  unfold recsReleaseSystems at hrun
  split at hrun
  next =>
    cases hrun
    exact h
  next ar har =>
    obtain ⟨-, -, hrun⟩ := of_bind_ok hrun
    cases hrun
    refine ⟨h.created, ?_, h.systems, h.lt⟩
    have hne := h.systems
    rw [har] at hne
    intro hmem
    rcases List.mem_cons.mp hmem with rfl | hmem
    · exact hne rfl
    · exact h.released hmem

theorem recsUninit_lost {r : Int × RecsLife} (hrun : recsUninit hooks l = .ok r) (h : Unreleased d l) :
    Lost d r.2 := by
  obtain ⟨l₁, hadmin, hrun⟩ := of_bind_ok hrun
  obtain ⟨code, -, hrun⟩ := of_bind_ok hrun
  obtain ⟨l₂, hsystems, hrun⟩ := of_bind_ok hrun
  obtain ⟨l₃, hentities, hrun⟩ := of_bind_ok hrun
  obtain ⟨l₄, hcmps, hrun⟩ := of_bind_ok hrun
  cases hrun
  have h₁ := h.same (recsUninitAdmin_same hadmin)
  have h₂ := recsReleaseSystems_unreleased hsystems h₁
  have h₄ := (h₂.same (recsClearEntities_same hentities)).same (recsClearComponents_same hcmps)
  exact ⟨⟨h₄.created, h₄.released, h₄.systems, h₄.lt⟩, nofun⟩

theorem Unreleased.initFields (h : Unreleased d l) :
    Unreleased d (recsInitFields l) ∧ (recsInitFields l).mapEntities ≠ some d ∧
      (recsInitFields l).mapComponents ≠ some d := by
  have hlt := h.lt
  have hne (n : Nat) : some (l.next + n) ≠ some d := by
    simp only [ne_eq, Option.some.injEq]
    omega
  refine ⟨⟨?_, h.released, hne 2, Nat.lt_succ_of_lt (Nat.lt_succ_of_lt (Nat.lt_succ_of_lt hlt))⟩, hne 0, hne 1⟩
  exact List.mem_cons_of_mem _ (List.mem_cons_of_mem _ (List.mem_cons_of_mem _ h.created))

theorem recsInitAdmin_unreleased (hrun : recsInitAdmin hooks l = .ok l') (h : Unreleased d l) :
    Unreleased d l' ∧ l'.mapEntities = l.mapEntities ∧ l'.mapComponents = l.mapComponents := by
  obtain ⟨r, -, hrun⟩ := of_bind_ok hrun
  cases hrun
  exact ⟨⟨h.created, h.released, h.systems, Nat.lt_succ_of_lt h.lt⟩, rfl, rfl⟩

/-- `recs_init` from its fields on. -/
theorem recsInit_ok {r : Int × RecsLife} (hrun : recsInit hooks l = .ok r) :
    hooks.onInit.getD 0 ≠ 0 ∧ (∃ r', recsUninit hooks (recsInitFields l) = .ok r' ∧ r.2 = r'.2) ∨
      hooks.onInit.getD 0 = 0 ∧ recsInitAdmin hooks (recsInitFields l) = .ok r.2 := by
  unfold recsInit at hrun
  dsimp only at hrun
  split at hrun
  next hcode =>
    obtain ⟨r', hrun', hrun⟩ := of_bind_ok hrun
    cases hrun
    exact Or.inl ⟨hcode, r', hrun', rfl⟩
  next hcode =>
    obtain ⟨l₁, hadmin, hrun⟩ := of_bind_ok hrun
    cases hrun
    exact Or.inr ⟨not_not.mp hcode, hadmin⟩

/-- Every further call loses what has not been released. -/
theorem lifeCall_lost (hrun : lifeCall l call = .ok l') (h : Unreleased d l) : Lost d l' := by
  cases call with
  | uninit hooks =>
    obtain ⟨r, huninit, rfl⟩ := of_map_ok hrun
    exact recsUninit_lost huninit h
  | init hooks =>
    obtain ⟨r, hinit, rfl⟩ := of_map_ok hrun
    obtain ⟨hfields, hentities, hcmps⟩ := h.initFields
    obtain ⟨-, r', huninit, heq⟩ | ⟨-, hadmin⟩ := recsInit_ok hinit
    · rw [heq]
      exact recsUninit_lost huninit hfields
    · obtain ⟨h', hentities', hcmps'⟩ := recsInitAdmin_unreleased hadmin hfields
      refine ⟨h', fun _ => ?_⟩
      rw [hentities', hcmps']
      exact ⟨hentities, hcmps⟩

theorem lifeRun_lost (hrun : lifeRun calls l = .ok l') (h : Lost d l) : Lost d l' := by
  induction calls generalizing l with
  | nil =>
    cases hrun
    exact h
  | cons call calls ih =>
    rw [lifeRun_cons] at hrun
    obtain ⟨l₁, hcall, hrun⟩ := of_bind_ok hrun
    exact ih hrun (lifeCall_lost hcall h.toUnreleased)

/-! ### A context that was never initialised -/

structure Blank (l : RecsLife) : Prop where
  adminEntity : l.adminEntity = none
  systems : l.systems = none
  mapEntities : l.mapEntities = none
  mapComponents : l.mapComponents = none
  created : l.created = []
  released : l.released = []
  entities : l.entities = []
  deleted : l.deleted = []

theorem Blank.holds (h : Blank l) : LifeHolds l := by
  constructor
  · simp [h.created]
  · simp [h.entities]

theorem Blank.uninit (h : Blank l) (hooks : RecsHooks) :
    lifeCall l (.uninit hooks) = (recsCallUninit hooks).map fun _ => { l with up := false } := by
  show (recsUninit hooks l).map Prod.snd = _
  have hadmin : recsUninitAdmin hooks l = .ok l := by simp only [recsUninitAdmin, h.adminEntity]
  have hsystems : recsReleaseSystems l = .ok l := by simp only [recsReleaseSystems, h.systems]
  have hentities : recsClearEntities l = .ok l := by simp only [recsClearEntities, h.mapEntities]
  have hcmps : recsClearComponents l = .ok l := by simp only [recsClearComponents, h.mapComponents]
  rw [recsUninit, hadmin]
  cases hcode : recsCallUninit hooks with
  | error e => rfl
  | ok code =>
    simp only [bind, Except.bind, hsystems, hentities, hcmps]
    rfl

theorem recsCallUninit_ok : (∃ code, recsCallUninit hooks = .ok code) ↔ hooks.onInit = none ∨ hooks.onUninit ≠ none := by
  unfold recsCallUninit
  cases hooks.onInit <;> cases hooks.onUninit <;> simp

/-- The dictionary of the entities is not released yet. -/
theorem Blank.initFields (h : Blank l) : Unreleased l.next (recsInitFields l) := by
  refine ⟨by simp [recsInitFields, RecsLife.container], ?_, ?_, ?_⟩
  · simp [recsInitFields, RecsLife.container, h.released]
  · simp only [recsInitFields, RecsLife.container, ne_eq, Option.some.injEq]
    omega
  · show l.next < l.next + 1 + 1 + 1
    omega

/-- The search for an id in an empty registry. -/
theorem recsFindId_empty (ctx : RecsContext) : recsFindId Registry.empty 1 ctx = .ok (ctx.draw, ctx.at ctx.draw) :=
  (recsFindId_succ 0).trans (if_neg (by simp))

/-- The first initialisation gives a context with everything in it. -/
theorem Blank.init (h : Blank l) (hcode : hooks.onInit.getD 0 = 0) :
    (lifeCall l (.init hooks)).Succeeds LifeHolds := by
  apply Succeeds.map
  unfold recsInit
  dsimp only
  rw [if_neg (not_not.mpr hcode)]
  obtain ⟨⟨r, ctx⟩, hnew, hr⟩ := recsEntityNew_spec (recsInitFields l).next true hooks.onNewEntity hooks.onDeleteEntity
    (show recsFindId (recsInitFields l).ctx.mapEntities 1 (recsInitFields l).ctx = _ from recsFindId_empty (recsInitFields l).ctx)
  have hr' : r = none ∨ r = some (recsInitFields l).next := by
    rcases hr with hr | ⟨hr, -⟩
    · exact Or.inr (congrArg Prod.fst hr)
    · exact Or.inl hr
  show (Except.bind (Except.bind (recsEntityNew _ _ _ _ _ _) _) _).Succeeds _
  rw [hnew]
  apply Succeeds.ok
  constructor
  · intro d hd
    show List.count d l.released = _
    rw [h.released, List.count_nil, if_pos]
    refine ⟨rfl, ?_⟩
    have hcreated : d ∈ [l.next + 1 + 1, l.next + 1, l.next] := by
      simpa [recsInitFields, RecsLife.container, h.created] using hd
    simp only [List.mem_cons, List.not_mem_nil, or_false] at hcreated
    rcases hcreated with rfl | rfl | rfl
    · exact Or.inr (Or.inr rfl)
    · exact Or.inr (Or.inl rfl)
    · exact Or.inl rfl
  · intro a ha
    have hentities : a ∈ [(recsInitFields l).next] := by
      simpa [recsInitFields, RecsLife.container, h.entities] using ha
    rw [List.mem_singleton.mp hentities]
    have hdeleted : (recsInitFields l).deleted = [] := h.deleted
    rcases hr' with rfl | rfl
    · simp [hdeleted]
    · simp [hdeleted]

/-- A run from a context that was never initialised. -/
theorem Blank.run_iff (h : Blank l) : (lifeRun calls l).Succeeds LifeHolds ↔ NeverUndone calls := by
  induction calls generalizing l with
  | nil => exact iff_of_true (Succeeds.ok h.holds) trivial
  | cons call rest ih =>
    rw [lifeRun_cons]
    cases call with
    | uninit hooks =>
      rw [h.uninit hooks, NeverUndone, ← recsCallUninit_ok]
      have hblank : Blank { l with up := false } := ⟨h.adminEntity, h.systems, h.mapEntities, h.mapComponents, h.created,
        h.released, h.entities, h.deleted⟩
      cases hcode : recsCallUninit hooks with
      | error e =>
        refine iff_of_false ?_ ?_
        · rintro ⟨l', hrun, -⟩
          cases hrun
        · rintro ⟨⟨code, hcode'⟩, -⟩
          cases hcode'
      | ok code =>
        simp only [true_and, Except.ok.injEq, exists_eq']
        exact ih hblank
    | init hooks =>
      rw [NeverUndone]
      constructor
      · rintro ⟨l', hrun, hholds⟩
        obtain ⟨l₁, hcall, hrun⟩ := of_bind_ok hrun
        obtain ⟨r, hinit, rfl⟩ := of_map_ok hcall
        have hunreleased := h.initFields
        obtain ⟨-, r', huninit, heq⟩ | ⟨hcode, hadmin⟩ := recsInit_ok hinit
        · rw [heq] at hrun
          exact absurd hholds (lifeRun_lost hrun (recsUninit_lost huninit hunreleased)).not_holds
        · refine ⟨hcode, ?_⟩
          have hlive := (recsInitAdmin_unreleased hadmin hunreleased).1
          cases rest with
          | nil => rfl
          | cons call rest =>
            rw [lifeRun_cons] at hrun
            obtain ⟨l₂, hcall, hrun⟩ := of_bind_ok hrun
            exact absurd hholds (lifeRun_lost hrun (lifeCall_lost hcall hlive)).not_holds
      · rintro ⟨hcode, rfl⟩
        obtain ⟨l', hcall, hholds⟩ := h.init hcode
        rw [hcall]
        exact ⟨l', rfl, hholds⟩

/-- For every sequence of calls on a zero-initialised context with any range of ids. -/
theorem lifecycle_iff (sidMin sidMax sidCur : Nat) (calls : List LifeCall) :
    (lifeRun calls (lifeStart sidMin sidMax sidCur)).Succeeds LifeHolds ↔ NeverUndone calls :=
  Blank.run_iff ⟨rfl, rfl, rfl, rfl, rfl, rfl, rfl, rfl⟩

end lifecycle

def noHooks : RecsHooks := ⟨none, none, none, none⟩

/-- The dictionaries are not released; a second `recs_uninit` reads the administrative entity that the first one
has freed; with `on_init` alone, `recs_uninit` calls `NULL`. -/
theorem lifecycle_fails :
    (∃ l, lifeRun [.init noHooks, .uninit noHooks] (lifeStart 0 0 0) = .ok l ∧ ¬ LifeHolds l) ∧
      lifeRun [.init noHooks, .uninit noHooks, .uninit noHooks] (lifeStart 0 0 0) = .error .useAfterFree ∧
      lifeRun [.uninit { noHooks with onInit := some 0 }] (lifeStart 0 0 0) = .error .nullDeref := by
  refine ⟨⟨_, rfl, fun hholds => ?_⟩, rfl, rfl⟩
  have hcount := hholds.containers 0 (by decide)
  cases hcount

end Funra
