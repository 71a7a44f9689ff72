import Funra.Ecs.Runs

/-!
# The components of an entity

The components attached to an entity are what `recs_cmp_get` finds, in every run in which a component is added
only where the hook has made an array and `recs_cmp_remove` is called only for an id that is not registered
(`attached_run`). `recs_cmp_add` without an array returns ok and keeps nothing; `recs_cmp_remove` writes the
component if and only if it was not attached, and for every registered id `recs_cmp_get` returns ok, attached or
not (`attached_lost`).
-/

namespace Funra

open Mem System Except

theorem componentFuncs_equal (a b : Nat) : componentFuncs.equal a b = (a == b) := by
  by_cases h : a = b <;> simp [RarrayFuncs.equal, componentFuncs, h]

/-- The components of the entity are the list `l`. -/
def RecsEntity.Holds (e : RecsEntity) (l : List Nat) : Prop :=
  match e.components with
  | none => l = []
  | some ar => RarrayRep componentFuncs ar l

/-- The array that a call works on, and what it does there. -/
def RecsOp.onArray (op : RecsOp) (ctx : RecsContext) : Option (Nat × RarrayOp Nat) :=
  match op with
  | .cmpAdd a c => some (a, .add c c)
  | .cmpRemove a id => (recsGetCmp id ctx).map fun c => (a, .remove c)
  | .cmpRemoveAll a => some (a, .clear)
  | _ => none

/-- The array counts its bytes without loss. -/
def ArrayFits (s : RecsRun) (op : RecsOp) : Prop :=
  ∀ a aop e ar, op.onArray s.ctx = some (a, aop) → s.ctx.entities a = some e → e.components = some ar →
    RarrayGuard componentFuncs ar aop

section holds

variable {ctx ctx' : RecsContext} {a c id : Nat} {e : RecsEntity} {l : List Nat}

theorem NewEntityHook.holds (onNew : Option NewEntityHook) (id : Nat) :
    RecsEntity.Holds ⟨id, onNew.bind (·.components)⟩ [] := by
  unfold RecsEntity.Holds
  dsimp only
  split
  next => rfl
  next ar har =>
    obtain ⟨hook, rfl, hcomponents⟩ := Option.bind_eq_some_iff.mp har
    obtain ⟨n, -, rfl⟩ := Option.map_eq_some_iff.mp hcomponents
    exact rarrayCreate_rep componentFuncs n

/-- What a call does to the components is what it does to the list. -/
theorem OnComponents.holds {aop : RarrayOp Nat}
    (h : OnComponents (fun ar => rarrayCall componentFuncs ar aop) a ctx ctx') (he : ctx.entities a = some e)
    (hl : e.Holds l) (hfits : ∀ ar, e.components = some ar → RarrayGuard componentFuncs ar aop) :
    ∃ e', ctx' = ctx.setEntity a (some e') ∧ e'.id = e.id ∧ (e'.components.isSome ↔ e.components.isSome) ∧
      e'.Holds (if e.components.isSome then listStep componentFuncs l aop else []) := by
  obtain ⟨e₁, he₁, hcall⟩ := h
  obtain rfl : e = e₁ := Option.some.inj (he.symm.trans he₁)
  rcases hcall with ⟨hnone, rfl⟩ | ⟨ar, ar', hsome, hrun, rfl⟩
  · refine ⟨e, ?_, rfl, Iff.rfl, ?_⟩
    · simp [RecsContext.setEntity, ← he]
    · simp [RecsEntity.Holds, hnone]
  · refine ⟨⟨e.id, some ar'⟩, rfl, rfl, by simp [hsome], ?_⟩
    rw [RecsEntity.Holds, hsome] at hl
    simp only [hsome, Option.isSome_some, if_true, RecsEntity.Holds]
    exact (rarrayCall_spec hl (hfits ar hsome).1 (hfits ar hsome).2).returns ar' hrun

theorem RecsEntity.Holds.exist {ar : Rarray Nat} (hl : RarrayRep componentFuncs ar l) (c : Nat) :
    rarrayExist componentFuncs c ar = .ok (decide (c ∈ l)) := by
  rw [rarrayExist_eq hl]
  congr 1
  rw [Bool.eq_iff_iff, List.any_eq_true, decide_eq_true_eq]
  simp only [componentFuncs_equal, beq_iff_eq, exists_eq_right]

/-- `recs_cmp_get` returns ok for every registered component. -/
theorem recsCmpGet_eq (he : ctx.entities a = some e) (hl : e.Holds l) (hget : recsGetCmp id ctx = some c) :
    recsCmpGet a id ctx = .ok (0, if c ∈ l then some c else none) := by
  rw [recsCmpGet, RecsContext.entity_of_some he]
  rcases hcs : e.components with _ | ar
  · rw [RecsEntity.Holds, hcs] at hl
    subst hl
    simp only [bind, Except.bind, hget, hcs]
    rfl
  · rw [RecsEntity.Holds, hcs] at hl
    simp only [bind, Except.bind, hget, hcs, RecsEntity.Holds.exist hl]
    by_cases hmem : c ∈ l <;> simp [hmem, pure, Except.pure]

theorem recsCmpGet_unknown (he : ctx.entities a = some e) (hget : recsGetCmp id ctx = none) :
    recsCmpGet a id ctx = .ok (1, none) := by
  rw [recsCmpGet, RecsContext.entity_of_some he]
  simp only [bind, Except.bind, hget]
  rfl

/-- It is the failures that come with the component. -/
theorem recsCmpRemove_out {code : Int} {out : Option Nat} (h : recsCmpRemove a id ctx = .ok (code, out, ctx'))
    (hcode : code = 0) : out = none := by
  obtain ⟨e, -, h⟩ := of_bind_ok h
  rcases hget : recsGetCmp id ctx with _ | c
  · rw [hget] at h
    cases h
    rfl
  rw [hget] at h
  rcases hcs : e.components with _ | ar
  · simp only [hcs] at h
    cases h
    rfl
  · simp only [hcs] at h
    obtain ⟨r, -, h⟩ := of_bind_ok h
    cases h
    exact if_neg (not_not.mpr hcode)

/-- A component that is not attached: nothing changes. -/
theorem recsCmpRemove_absent {code : Int} {out : Option Nat} (he : ctx.entities a = some e) (hl : e.Holds l)
    (hget : recsGetCmp id ctx = some c) (hc : c ∉ l) (h : recsCmpRemove a id ctx = .ok (code, out, ctx')) :
    ctx' = ctx := by
  obtain ⟨hnone, -⟩ | ⟨c', hget', e₁, he₁, hcall⟩ := recsCmpRemove_ok h
  · rw [hget] at hnone
    cases hnone
  rw [hget] at hget'
  cases hget'
  obtain rfl : e = e₁ := Option.some.inj (he.symm.trans he₁)
  rcases hcall with ⟨-, rfl⟩ | ⟨ar, ar', hsome, hrun, rfl⟩
  · rfl
  rw [RecsEntity.Holds, hsome] at hl
  obtain ⟨r, hremove, rfl⟩ := of_map_ok hrun
  rcases rarrayRemove_code hl hremove with ⟨hany, -⟩ | ⟨-, rfl⟩
  · obtain ⟨x, hx, heq⟩ := List.any_eq_true.mp hany
    rw [componentFuncs_equal, beq_iff_eq] at heq
    rw [heq] at hx
    exact absurd hx hc
  · have hsame : (⟨e.id, some ar⟩ : RecsEntity) = e := by rw [← hsome]
    rw [hsame]
    simp [RecsContext.setEntity, ← he]

end holds

/-! ### The law -/

/-- `recs_cmp_remove` returns ok with the component if and only if it was attached, and `recs_cmp_get` reports it
absent afterwards. -/
def CmpRemoveMeets (s : RecsRun) (a id : Nat) : Prop :=
  ∃ code out ctx, recsCmpRemove a id s.ctx = .ok (code, out, ctx) ∧
    ((∃ c, code = 0 ∧ out = some c ∧ s.ctx.cmps c = some id) ↔ ∃ c, (a, c) ∈ s.attached ∧ s.ctx.cmps c = some id) ∧
    ∃ code' out', recsCmpGet a id ctx = .ok (code', out') ∧ code' ≠ 0

/-- `recs_cmp_get` finds what is attached and nothing else; `recs_cmp_remove` does what it should for an id that is
not registered, and for no other. -/
structure AttachHolds (s : RecsRun) : Prop where
  get : ∀ a ∈ s.liveEntities, ∀ c ∈ s.liveCmps, ∃ id, s.ctx.cmps c = some id ∧
    recsCmpGet a id s.ctx = .ok (0, if (a, c) ∈ s.attached then some c else none)
  remove : ∀ a ∈ s.liveEntities, ∀ id, CmpRemoveMeets s a id ↔ s.ctx.mapComponents.get id = none

/-- No deletions. A component is added to an entity that has an array, and removed only under an id that is not
registered; there is memory for the entry of a new component. -/
def AttachGuard (s : RecsRun) (op : RecsOp) : Prop :=
  ArrayFits s op ∧
    match op with
    | .entityNew .. => True
    | .cmpNew _ _ added _ _ => added = true
    | .cmpAdd a c => a ∈ s.liveEntities ∧ c ∈ s.liveCmps ∧
        ∀ e, s.ctx.entities a = some e → e.components.isSome
    | .cmpGet a _ => a ∈ s.liveEntities
    | .cmpRemove a id => a ∈ s.liveEntities ∧ s.ctx.mapComponents.get id = none
    | .cmpRemoveAll a => a ∈ s.liveEntities
    | .entityDelete .. | .cmpDelete .. => False

structure AttachInv (s : RecsRun) : Prop where
  entities : ∀ a ∈ s.liveEntities, ∃ e l, s.ctx.entities a = some e ∧ e.Holds l ∧ ∀ c, c ∈ l ↔ (a, c) ∈ s.attached
  cmps : Registered s.ctx.mapComponents s.ctx.cmps s.liveCmps
  known : ∀ id c, s.ctx.mapComponents.get id = some c → c ∈ s.liveCmps ∧ s.ctx.cmps c = some id
  pairs : ∀ p ∈ s.attached, p.1 ∈ s.liveEntities ∧ p.2 ∈ s.liveCmps

section attached

variable {s s' : RecsRun} {op : RecsOp} {a c id : Nat}

theorem Registered.getCmp {ctx : RecsContext} {live : List Nat} (h : Registered ctx.mapComponents ctx.cmps live)
    (hc : c ∈ live) : ∃ id, ctx.cmps c = some id ∧ recsGetCmp id ctx = some c := by
  obtain ⟨id, hid, hmap⟩ := h.held c hc
  refine ⟨id, hid, ?_⟩
  simp [recsGetCmp, hmap]

theorem AttachInv.registered (h : AttachInv s) (hmap : s.ctx.mapComponents.get id ≠ none) :
    ∃ c ∈ s.liveCmps, recsGetCmp id s.ctx = some c ∧ s.ctx.cmps c = some id := by
  obtain ⟨c, hc⟩ := Option.ne_none_iff_exists'.mp hmap
  exact ⟨c, (h.known id c hc).1, hc, (h.known id c hc).2⟩

theorem AttachInv.holds_get (h : AttachInv s) (ha : a ∈ s.liveEntities) (hc : c ∈ s.liveCmps) :
    ∃ id, s.ctx.cmps c = some id ∧ recsCmpGet a id s.ctx = .ok (0, if (a, c) ∈ s.attached then some c else none) := by
  obtain ⟨id, hid, hget⟩ := h.cmps.getCmp hc
  obtain ⟨e, l, he, hl, hmem⟩ := h.entities a ha
  refine ⟨id, hid, ?_⟩
  rw [recsCmpGet_eq he hl hget]
  simp only [hmem c]

/-- An id that is not registered. -/
theorem AttachInv.remove_unknown (h : AttachInv s) (ha : a ∈ s.liveEntities)
    (hmap : s.ctx.mapComponents.get id = none) : CmpRemoveMeets s a id := by
  obtain ⟨e, l, he, hl, -⟩ := h.entities a ha
  have hget : recsGetCmp id s.ctx = none := by simp [recsGetCmp, hmap]
  refine ⟨1, none, s.ctx, ?_, ?_, 1, none, recsCmpGet_unknown he hget, by decide⟩
  · rw [recsCmpRemove, RecsContext.entity_of_some he]
    simp only [bind, Except.bind, hget]
    rfl
  · refine iff_of_false ?_ ?_
    · rintro ⟨c, hcode, -⟩
      cases hcode
    · rintro ⟨c, hpair, hid⟩
      obtain ⟨id', hid', hmap'⟩ := h.cmps.held c (h.pairs _ hpair).2
      rw [hid] at hid'
      cases hid'
      rw [hmap] at hmap'
      cases hmap'

/-- A registered id: the result is tested the wrong way round, and `recs_cmp_get` stays ok. -/
theorem AttachInv.remove_registered (h : AttachInv s) (ha : a ∈ s.liveEntities)
    (hmap : s.ctx.mapComponents.get id ≠ none) : ¬ CmpRemoveMeets s a id := by
  rintro ⟨code, out, ctx', hrun, hiff, code', out', hafter, hne⟩
  obtain ⟨c, hc, hget, hid⟩ := h.registered hmap
  obtain ⟨e, l, he, hl, hmem⟩ := h.entities a ha
  by_cases hpair : (a, c) ∈ s.attached
  · obtain ⟨c', hcode, hout, -⟩ := hiff.mpr ⟨c, hpair, hid⟩
    rw [recsCmpRemove_out hrun hcode] at hout
    cases hout
  · obtain rfl := recsCmpRemove_absent he hl hget (fun hcl => hpair ((hmem c).mp hcl)) hrun
    rw [recsCmpGet_eq he hl hget] at hafter
    cases hafter
    exact hne rfl

theorem AttachInv.holds (h : AttachInv s) : AttachHolds s := by
  refine ⟨fun a ha c hc => h.holds_get ha hc, fun a ha id => ⟨fun hmeets => ?_, h.remove_unknown ha⟩⟩
  by_contra hmap
  exact h.remove_registered ha hmap hmeets

/-! ### Steps -/

/-- The call works on the array of `a`, to which `l` is attached; the rest stays. -/
theorem AttachInv.onComponents (h : AttachInv s) (ha : a ∈ s.liveEntities) (aop : RarrayOp Nat) {ctx : RecsContext}
    (hcall : OnComponents (fun ar => rarrayCall componentFuncs ar aop) a s.ctx ctx)
    (hfits : ∀ e ar, s.ctx.entities a = some e → e.components = some ar → RarrayGuard componentFuncs ar aop)
    {attached : List (Nat × Nat)} (hother : ∀ b c, b ≠ a → ((b, c) ∈ attached ↔ (b, c) ∈ s.attached))
    (hself : ∀ e l, s.ctx.entities a = some e → (∀ c, c ∈ l ↔ (a, c) ∈ s.attached) →
      ∀ c, c ∈ (if e.components.isSome then listStep componentFuncs l aop else []) ↔ (a, c) ∈ attached)
    (hpairs : ∀ p ∈ attached, p.1 ∈ s.liveEntities ∧ p.2 ∈ s.liveCmps) :
    AttachInv { s with ctx := ctx, attached := attached } := by
  obtain ⟨e, l, he, hl, hmem⟩ := h.entities a ha
  obtain ⟨e', rfl, -, -, hl'⟩ := hcall.holds he hl (hfits e · he)
  refine ⟨fun b hb => ?_, h.cmps, h.known, hpairs⟩
  by_cases hba : b = a
  · subst hba
    exact ⟨e', _, Function.update_self .., hl', hself e l he hmem⟩
  · obtain ⟨eb, lb, heb, hlb, hmemb⟩ := h.entities b hb
    exact ⟨eb, lb, (Function.update_of_ne hba ..).trans heb, hlb, fun c => (hmemb c).trans (hother b c hba).symm⟩

theorem AttachInv.entityNew (h : AttachInv s) {fuel : Nat} {added : Bool} {onNew : Option NewEntityHook}
    {onDelete : Option Int} (ha : s.ctx.entities a = none) {r : Option Nat} {ctx : RecsContext}
    (hrun : recsEntityNew fuel a added onNew onDelete s.ctx = .ok (r, ctx)) : AttachInv (s.entityCreated r ctx) := by
  have hlive : a ∉ s.liveEntities := by
    refine not_mem_of_none (fun b hb => ?_) ha
    obtain ⟨e, l, he, -⟩ := h.entities b hb
    exact ⟨e, he⟩
  have hkept {e' : Option RecsEntity} (b : Nat) (hb : b ∈ s.liveEntities) :
      ∃ e l, Function.update s.ctx.entities a e' b = some e ∧ e.Holds l ∧ ∀ c, c ∈ l ↔ (b, c) ∈ s.attached := by
    rw [update_live hlive _ _ hb]
    exact h.entities b hb
  obtain ⟨id, -, hr⟩ := recsEntityNew_ok hrun
  rcases hr with hr | ⟨hnone, e, hr⟩
  · cases hr
    refine ⟨fun b hb => ?_, h.cmps, h.known, fun p hp => ⟨List.mem_cons_of_mem _ (h.pairs p hp).1, (h.pairs p hp).2⟩⟩
    rcases List.mem_cons.mp hb with rfl | hb
    · refine ⟨_, [], Function.update_self .., NewEntityHook.holds onNew id, fun c => ?_⟩
      refine iff_of_false List.not_mem_nil fun hpair => hlive (h.pairs _ hpair).1
    · exact hkept b hb
  · dsimp only at hnone hr
    subst hnone hr
    exact ⟨hkept, h.cmps, h.known, h.pairs⟩

theorem AttachInv.cmpNew (h : AttachInv s) {fuel : Nat} {onNew onDelete : Option Int} (hc : s.ctx.cmps c = none)
    {r : Option Nat} {ctx : RecsContext} (hrun : recsCmpNew fuel (some c) true onNew onDelete s.ctx = .ok (r, ctx)) :
    AttachInv (s.cmpCreated r ctx) := by
  obtain ⟨hnone, -⟩ | ⟨c', id, hc', hfind, hr⟩ := recsCmpNew_ok hrun
  · cases hnone
  cases hc'
  have hfree := (recsFindId_result hfind).1
  have hlive : c ∉ s.liveCmps := h.cmps.not_mem hc
  have hkept {x : Option Nat} {id b : Nat} (hmap : s.ctx.mapComponents.get id = some b) :
      b ∈ s.liveCmps ∧ Function.update s.ctx.cmps c x b = some id := by
    obtain ⟨hb, hid⟩ := h.known id b hmap
    exact ⟨hb, (update_live hlive _ _ hb).trans hid⟩
  rcases hr with hr | ⟨hnone, cmp, hr⟩
  · cases hr
    refine ⟨h.entities, h.cmps.add hlive hfree, fun id' b hmap => ?_,
      fun p hp => ⟨(h.pairs p hp).1, List.mem_cons_of_mem _ (h.pairs p hp).2⟩⟩
    rcases Registry.add_some hmap with ⟨rfl, rfl⟩ | ⟨-, hmap⟩
    · exact ⟨List.mem_cons_self, Function.update_self ..⟩
    · obtain ⟨hb, hid⟩ := hkept (x := some id) hmap
      exact ⟨List.mem_cons_of_mem _ hb, hid⟩
  · dsimp only at hnone hr
    subst hnone hr
    exact ⟨h.entities, h.cmps.abandon hlive hfree _, fun id' b hmap => hkept (Registry.remove_some hmap).2, h.pairs⟩

theorem AttachInv.step (h : AttachInv s) (hguard : AttachGuard s op) (hstep : RecsStep s op s') : AttachInv s' := by
  obtain ⟨hfits, hguard⟩ := hguard
  cases op with
  | entityNew fuel a added onNew onDelete =>
    obtain ⟨ha, r, ctx, hrun, rfl⟩ := hstep
    exact h.entityNew ha hrun
  | entityDelete onDelete a destroy => exact hguard.elim
  | cmpNew fuel m added onNew onDelete =>
    obtain ⟨hc, r, ctx, hrun, rfl⟩ := hstep
    rcases m with _ | c
    · cases hrun
      exact ⟨h.entities, h.cmps, h.known, h.pairs⟩
    · obtain rfl : added = true := hguard
      exact h.cmpNew (hc c rfl) hrun
  | cmpDelete onDelete c destroy => exact hguard.elim
  | cmpAdd a c =>
    obtain ⟨code, ctx, hrun, rfl⟩ := hstep
    obtain ⟨ha, hc, harray⟩ := hguard
    obtain ⟨rfl, hcall⟩ := recsCmpAdd_ok hrun
    rw [if_pos rfl]
    refine h.onComponents ha (.add c c) hcall (fun e ar => hfits a _ e ar rfl) (fun b d hb => ?_)
      (fun e l he hmem d => ?_) (List.forall_mem_cons.mpr ⟨⟨ha, hc⟩, h.pairs⟩)
    · simp [hb]
    · simp [harray e he, listStep, hmem, or_comm]
  | cmpGet a id =>
    obtain ⟨-, rfl⟩ := hstep
    exact h
  | cmpRemove a id =>
    obtain ⟨code, out, ctx, hrun, rfl⟩ := hstep
    obtain ⟨ha, hmap⟩ := hguard
    have hsame : (s.attached.filter fun p => ¬ (p.1 = a ∧ s.ctx.cmps p.2 = some id)) = s.attached := by
      rw [List.filter_eq_self]
      rintro p hp
      obtain ⟨id', hid', hmap'⟩ := h.cmps.held p.2 (h.pairs p hp).2
      have hne : id' ≠ id := by
        rintro rfl
        rw [hmap] at hmap'
        cases hmap'
      simp [hid', hne]
    obtain ⟨-, rfl⟩ | ⟨c, hget, -⟩ := recsCmpRemove_ok hrun
    · rw [hsame]
      exact h
    · simp [recsGetCmp, hmap] at hget
  | cmpRemoveAll a =>
    obtain ⟨ctx, hrun, rfl⟩ := hstep
    refine h.onComponents hguard .clear (recsCmpRemoveAll_ok hrun) (fun e ar => hfits a _ e ar rfl)
      (fun b d hb => ?_) (fun e l he hmem d => ?_) fun p hp => h.pairs p (List.mem_of_mem_filter hp)
    · simp [hb]
    · simp [listStep]

/-- In every run whose calls meet the condition. -/
theorem attached_run {sidMin sidMax sidCur : Nat} {ops : List RecsOp}
    (hrun : Steps (Guarded AttachGuard RecsStep) (recsStart sidMin sidMax sidCur) ops s) : AttachHolds s := by
  have hstart : AttachInv (recsStart sidMin sidMax sidCur) :=
    ⟨by simp [recsStart], ⟨List.nodup_nil, by simp [recsStart]⟩, fun _ _ hmap => (by cases hmap), by simp [recsStart]⟩
  exact (hrun.invariant (I := AttachInv) (fun hI hstep => hI.step hstep.1 hstep.2) hstart).holds

end attached

/-- The calls that create the entity 101 (id 1), with what its hook does, and attach the component 201 (id 2). -/
def attachOps (onNew : Option NewEntityHook) : List RecsOp :=
  [.entityNew 1 101 true onNew none, .cmpNew 1 (some 201) true none none, .cmpAdd 101 201]

theorem attached_pair : ∃ s, s.attached = [(101, 201)] ∧ AttachHolds s := by
  have hrun : ∃ s, Steps (Guarded AttachGuard RecsStep) (recsStart 0 9 0) (attachOps (some ⟨0, some 4⟩)) s ∧
      s.attached = [(101, 201)] := by
    refine ⟨_, .cons ⟨⟨fun _ _ _ _ h => (by cases h), trivial⟩, rfl, _, _, rfl, rfl⟩
      (.cons ⟨⟨fun _ _ _ _ h => (by cases h), rfl⟩, fun _ h => (by cases h; rfl), _, _, rfl, rfl⟩
        (.cons ⟨⟨?_, List.mem_cons_self, List.mem_cons_self, ?_⟩, _, _, rfl, rfl⟩ (.nil _))), rfl⟩
    · rintro _ _ _ _ ⟨⟩ ⟨⟩ ⟨⟩
      exact ⟨by decide, by decide⟩
    · rintro _ ⟨⟩
      rfl
  obtain ⟨s, hrun, hpair⟩ := hrun
  exact ⟨s, hpair, attached_run hrun⟩

/-- Without an array the component is lost; with one, `recs_cmp_remove` does not give it. -/
theorem attached_lost :
    (∃ s, Steps RecsStep (recsStart 0 9 0) (attachOps none) s ∧ (101, 201) ∈ s.attached ∧
      recsCmpGet 101 2 s.ctx = .ok (0, none)) ∧
    ∃ s, Steps RecsStep (recsStart 0 9 0) (attachOps (some ⟨0, some 4⟩)) s ∧ (101, 201) ∈ s.attached ∧
      ¬ CmpRemoveMeets s 101 2 := by
  constructor
  · exact ⟨_, .cons ⟨rfl, _, _, rfl, rfl⟩ (.cons ⟨fun _ h => (by cases h; rfl), _, _, rfl, rfl⟩
      (.cons ⟨_, _, rfl, rfl⟩ (.nil _))), List.mem_cons_self, rfl⟩
  · refine ⟨_, .cons ⟨rfl, _, _, rfl, rfl⟩ (.cons ⟨fun _ h => (by cases h; rfl), _, _, rfl, rfl⟩
      (.cons ⟨_, _, rfl, rfl⟩ (.nil _))), List.mem_cons_self, ?_⟩
    rintro ⟨code, out, ctx, hrun, hiff, -⟩
    obtain ⟨c, hcode, hout, -⟩ := hiff.mpr ⟨201, List.mem_cons_self, rfl⟩
    rw [recsCmpRemove_out hrun hcode] at hout
    cases hout

end Funra
