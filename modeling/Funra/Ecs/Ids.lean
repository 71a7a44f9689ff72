import Funra.Ecs.Basic

/-!
# New ids

What the search of a creation finds is free, and lies within the range as long as a free id lies ahead of the
counter. The creation then registers the object under it, or ends as if it had not when the hook fails.
-/

namespace Funra

open Mem Except

variable {ctx : RecsContext} {map : Registry} {id : Nat}

def FreeId (map : Registry) (id : Nat) : Prop := map.get id = none

/-- The counter has been set to `n`. -/
def RecsContext.at (ctx : RecsContext) (n : Nat) : RecsContext := { ctx with sidCur := n }

/-- The next id. -/
def RecsContext.draw (ctx : RecsContext) : Nat :=
  u64Succ (if ctx.sidMax < ctx.sidCur then ctx.sidMin else ctx.sidCur)

theorem recsFindId_succ (fuel : Nat) : recsFindId map (fuel + 1) ctx =
    if (map.get ctx.draw).isSome then recsFindId map fuel (ctx.at ctx.draw)
    else .ok (ctx.draw, ctx.at ctx.draw) := rfl

/-- What the search gives is free, was drawn last, and is all that changes. -/
theorem recsFindId_result {fuel : Nat} {r : Nat × RecsContext} (h : recsFindId map fuel ctx = .ok r) :
    FreeId map r.1 ∧ r.1 < 18446744073709551616 ∧ r.2 = ctx.at r.1 := by
  induction fuel generalizing ctx with
  | zero => cases h
  | succ fuel ih =>
    rw [recsFindId_succ] at h
    split at h
    next =>
      have hrest := ih h
      exact hrest
    next hfree =>
      cases h
      exact ⟨Option.not_isSome_iff_eq_none.mp hfree, Nat.mod_lt _ (by decide), rfl⟩

/-! ### Within the range -/

/-- A free id lies ahead of the counter. -/
def RoomAhead (ctx : RecsContext) (map : Registry) : Prop :=
  ∃ id, ctx.sidCur < id ∧ id ≤ ctx.sidMax ∧ FreeId map id

/-- Without a wrap the search stops at the first free id ahead. -/
theorem recsFindId_ahead (hmax : ctx.sidMax < 18446744073709551616) (h : RoomAhead ctx map) {fuel : Nat}
    {r : Nat × RecsContext} (hrun : recsFindId map fuel ctx = .ok r) : ctx.sidCur < r.1 ∧ r.1 ≤ ctx.sidMax := by
  induction fuel generalizing ctx with
  | zero => cases hrun
  | succ fuel ih =>
    obtain ⟨id, hlo, hhi, hfree⟩ := h
    have hdraw : ctx.draw = ctx.sidCur + 1 := by
      rw [RecsContext.draw, if_neg (by omega), u64Succ]
      omega
    rw [recsFindId_succ, hdraw] at hrun
    split at hrun
    next hused =>
      have hne : id ≠ ctx.sidCur + 1 := by
        rintro rfl
        rw [hfree] at hused
        cases hused
      have hlo' : ctx.sidCur + 1 < id := by omega
      have hrest := @ih (ctx.at (ctx.sidCur + 1)) hmax ⟨id, hlo', hhi, hfree⟩ hrun
      exact ⟨Nat.lt_trans (Nat.lt_succ_self _) hrest.1, hrest.2⟩
    next =>
      cases hrun
      exact ⟨Nat.lt_succ_self _, by omega⟩

/-! ### Creation -/

theorem recsCmpRemoveAll_returns {a : Nat} {e : RecsEntity} (h : ctx.entities a = some e)
    (hclear : ∀ ar, e.components = some ar → ∃ ar', rarrayClear ar = .ok ar') :
    ∃ ctx', recsCmpRemoveAll a ctx = .ok ctx' := by
  have hentity := RecsContext.entity_of_some h
  rw [recsCmpRemoveAll, hentity]
  rcases hcs : e.components with _ | ar
  · exact ⟨ctx, by simp only [bind, Except.bind, hcs]; rfl⟩
  · obtain ⟨ar', hrun⟩ := hclear ar hcs
    exact ⟨_, by simp only [bind, Except.bind, hcs, hrun]; rfl⟩

theorem recsEntityDelete_ok {onDelete : Option Int} {a : Nat} {destroy : Bool} {r : Int × RecsContext}
    (h : recsEntityDelete onDelete a destroy ctx = .ok r) :
    ∃ e e', ctx.entities a = some e ∧ (∀ e₁, e' = some e₁ → e₁.id = e.id) ∧
      r.2 = { ctx.setEntity a e' with mapEntities := ctx.mapEntities.remove e.id } := by
  obtain ⟨data, hdata, h⟩ := of_bind_ok h
  obtain ⟨ctx', hremove, h⟩ := of_bind_ok h
  obtain ⟨e, e', he, hid, rfl⟩ := (recsCmpRemoveAll_ok hremove).setEntity
  obtain rfl : data = e := Option.some.inj ((RecsContext.entity_ok hdata).symm.trans he)
  refine ⟨data, ?_⟩
  dsimp only at h
  split at h
  · cases h
    refine ⟨some e', he, ?_, rfl⟩
    rintro _ ⟨⟩
    exact hid
  · cases h
    cases destroy with
    | false =>
      refine ⟨some e', he, ?_, rfl⟩
      rintro _ ⟨⟩
      exact hid
    | true =>
      refine ⟨none, he, nofun, ?_⟩
      simp [RecsContext.setEntity]

theorem recsEntityDelete_returns (onDelete : Option Int) {a : Nat} (destroy : Bool) {e : RecsEntity}
    (h : ctx.entities a = some e) (hclear : ∀ ar, e.components = some ar → ∃ ar', rarrayClear ar = .ok ar') :
    ∃ r, recsEntityDelete onDelete a destroy ctx = .ok r := by
  obtain ⟨ctx', hremove⟩ := recsCmpRemoveAll_returns h hclear
  have hentity := RecsContext.entity_of_some h
  simp only [recsEntityDelete, hentity, hremove, bind, Except.bind]
  split
  · exact ⟨_, rfl⟩
  · exact ⟨_, rfl⟩

/-- The context once the id has been found and a new entity registered under it. -/
def RecsContext.registered (ctx : RecsContext) (a id : Nat) (added : Bool) (e : Option RecsEntity) : RecsContext :=
  { ctx.at id with
    entities := Function.update ctx.entities a e
    mapEntities := ctx.mapEntities.add added id a }

/-- After the search a creation returns: the entity, or `NULL` when the hook failed. -/
theorem recsEntityNew_spec {fuel : Nat} (a : Nat) (added : Bool) (onNew : Option NewEntityHook) (onDelete : Option Int)
    (hfind : recsFindId ctx.mapEntities fuel ctx = .ok (id, ctx.at id)) :
    (recsEntityNew fuel a added onNew onDelete ctx).Succeeds fun r =>
      r = (some a, ctx.registered a id added (some ⟨id, onNew.bind (·.components)⟩)) ∨
        r.1 = none ∧ ∃ e, r.2 = { ctx.registered a id added e with mapEntities := ctx.mapEntities.remove id } := by
  rw [recsEntityNew, hfind]
  rcases onNew with _ | hook
  · exact Succeeds.ok (Or.inl rfl)
  · show (ite _ _ _ : Except Fault (Option Nat × RecsContext)).Succeeds _
    split
    · let ctx' : RecsContext := { (ctx.registered a id added (some ⟨id, none⟩)).setEntity a (some ⟨id, hook.components⟩)
        with mapEntities := (ctx.mapEntities.add added id a).remove id }
      have hentity : ctx'.entities a = some ⟨id, hook.components⟩ := Function.update_self ..
      have hclear (ar : Rarray Nat) (h : hook.components = some ar) : ∃ ar', rarrayClear ar = .ok ar' := by
        obtain ⟨n, -, rfl⟩ := Option.map_eq_some_iff.mp h
        obtain ⟨ar', hrun, -⟩ := rarrayClear_spec (rarrayCreate_rep componentFuncs n) (by simp)
        exact ⟨ar', hrun⟩
      obtain ⟨r, hdelete⟩ := recsEntityDelete_returns onDelete true hentity hclear
      show (Except.bind (recsEntityDelete onDelete a true ctx') _).Succeeds _
      rw [hdelete]
      apply Succeeds.ok
      right
      obtain ⟨e, e', he, -, hr⟩ := recsEntityDelete_ok hdelete
      obtain rfl : _ = e := Option.some.inj (hentity.symm.trans he)
      refine ⟨rfl, e', ?_⟩
      rw [hr]
      simp [ctx', RecsContext.registered, RecsContext.setEntity, Registry.remove_add, Registry.remove_remove]
    · apply Succeeds.ok
      left
      simp [RecsContext.registered, RecsContext.setEntity, RecsContext.at]

theorem recsCmpDelete_ok {onDelete : Option Int} {c : Nat} {destroy : Bool} {r : Int × RecsContext}
    (h : recsCmpDelete onDelete c destroy ctx = .ok r) :
    ∃ id id', ctx.cmps c = some id ∧ (id' = some id ∨ id' = none) ∧
      r.2 = { ctx.setCmp c id' with mapComponents := ctx.mapComponents.remove id } := by
  obtain ⟨id, hid, h⟩ := of_bind_ok h
  have hc : ctx.cmps c = some id := by
    unfold RecsContext.cmp at hid
    split at hid <;> cases hid
    assumption
  have hkept : ctx.setCmp c (some id) = ctx := by simp [RecsContext.setCmp, ← hc]
  refine ⟨id, ?_⟩
  dsimp only at h
  split at h
  · cases h
    refine ⟨some id, hc, Or.inl rfl, ?_⟩
    rw [hkept]
  · cases h
    cases destroy with
    | false =>
      refine ⟨some id, hc, Or.inl rfl, ?_⟩
      rw [hkept]
      rfl
    | true => exact ⟨none, hc, Or.inr rfl, rfl⟩

theorem recsCmpDelete_returns (onDelete : Option Int) {c : Nat} (destroy : Bool) (h : ctx.cmps c = some id) :
    ∃ r, recsCmpDelete onDelete c destroy ctx = .ok r := by
  have hcmp : ctx.cmp c = .ok id := by simp only [RecsContext.cmp, h]
  simp only [recsCmpDelete, hcmp, bind, Except.bind]
  split
  · exact ⟨_, rfl⟩
  · exact ⟨_, rfl⟩

/-- As `registered`, for a new component. -/
def RecsContext.registeredCmp (ctx : RecsContext) (c id : Nat) (added : Bool) (cmp : Option Nat) : RecsContext :=
  { ctx.at id with
    cmps := Function.update ctx.cmps c cmp
    mapComponents := ctx.mapComponents.add added id c }

theorem recsCmpNew_spec {fuel : Nat} (c : Nat) (added : Bool) (onNew onDelete : Option Int)
    (hfind : recsFindId ctx.mapComponents fuel ctx = .ok (id, ctx.at id)) :
    (recsCmpNew fuel (some c) added onNew onDelete ctx).Succeeds fun r =>
      r = (some c, ctx.registeredCmp c id added (some id)) ∨
        r.1 = none ∧ ∃ cmp, r.2 =
          { ctx.registeredCmp c id added cmp with mapComponents := ctx.mapComponents.remove id } := by
  rw [recsCmpNew, hfind]
  show (ite _ _ _ : Except Fault (Option Nat × RecsContext)).Succeeds _
  split
  · let ctx' : RecsContext := { ctx.registeredCmp c id added (some id)
      with mapComponents := (ctx.mapComponents.add added id c).remove id }
    have hcmp : ctx'.cmps c = some id := Function.update_self ..
    obtain ⟨r, hdelete⟩ := recsCmpDelete_returns onDelete true hcmp
    show (Except.bind (recsCmpDelete onDelete c true ctx') _).Succeeds _
    rw [hdelete]
    apply Succeeds.ok
    right
    obtain ⟨id₁, cmp, hid, -, hr⟩ := recsCmpDelete_ok hdelete
    obtain rfl : id = id₁ := Option.some.inj (hcmp.symm.trans hid)
    refine ⟨rfl, cmp, ?_⟩
    rw [hr]
    simp [ctx', RecsContext.registeredCmp, RecsContext.setCmp, Registry.remove_add, Registry.remove_remove]
  · apply Succeeds.ok
    left
    rfl

/-- What a search found, in the form in which the creations use it. -/
theorem recsFindId_at {map : Registry} {fuel : Nat} {r : Nat × RecsContext}
    (h : recsFindId map fuel ctx = .ok r) : recsFindId map fuel ctx = .ok (r.1, ctx.at r.1) := by
  obtain ⟨-, -, hr⟩ := recsFindId_result h
  rw [h, ← hr]

theorem recsEntityNew_ok {fuel a : Nat} {added : Bool} {onNew : Option NewEntityHook} {onDelete : Option Int}
    {r : Option Nat × RecsContext} (h : recsEntityNew fuel a added onNew onDelete ctx = .ok r) :
    ∃ id, recsFindId ctx.mapEntities fuel ctx = .ok (id, ctx.at id) ∧
      (r = (some a, ctx.registered a id added (some ⟨id, onNew.bind (·.components)⟩)) ∨
        r.1 = none ∧ ∃ e, r.2 = { ctx.registered a id added e with mapEntities := ctx.mapEntities.remove id }) := by
  obtain ⟨r', hfind, -⟩ := of_bind_ok h
  have hfind := recsFindId_at hfind
  exact ⟨r'.1, hfind, (recsEntityNew_spec a added onNew onDelete hfind).returns r h⟩

theorem recsCmpNew_ok {fuel : Nat} {m : Option Nat} {added : Bool} {onNew onDelete : Option Int}
    {r : Option Nat × RecsContext} (h : recsCmpNew fuel m added onNew onDelete ctx = .ok r) :
    m = none ∧ r = (none, ctx) ∨
      ∃ c id, m = some c ∧ recsFindId ctx.mapComponents fuel ctx = .ok (id, ctx.at id) ∧
        (r = (some c, ctx.registeredCmp c id added (some id)) ∨
          r.1 = none ∧ ∃ cmp, r.2 =
            { ctx.registeredCmp c id added cmp with mapComponents := ctx.mapComponents.remove id }) := by
  rcases m with _ | c
  · left
    cases h
    exact ⟨rfl, rfl⟩
  · right
    obtain ⟨r', hfind, -⟩ := of_bind_ok h
    have hfind := recsFindId_at hfind
    exact ⟨c, r'.1, rfl, hfind, (recsCmpNew_spec c added onNew onDelete hfind).returns r h⟩

end Funra
