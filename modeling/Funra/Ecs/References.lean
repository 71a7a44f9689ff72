import Funra.Ecs.Components

/-!
# References to components

The arrays of live entities refer to registered components only, as long as no component is deleted that a live
entity still refers to (`references_run`): `recs_cmp_delete` takes a component out of `map_components` and frees
it, and looks at no entity. A deletion of such a component always leaves a reference behind.
-/

namespace Funra

open Mem System Except

/-- The pointers in the array of an entity. -/
def RecsContext.stored (ctx : RecsContext) (a : Nat) : List Nat :=
  match (ctx.entities a).bind RecsEntity.components with
  | none => []
  | some ar => ar.items.take ar.size

/-- Every stored pointer is the value of an entry of `map_components`. -/
def RefsHold (s : RecsRun) : Prop :=
  ∀ a ∈ s.liveEntities, ∀ c ∈ s.ctx.stored a, ∃ id, s.ctx.mapComponents.get id = some c

/-- No live entity refers to the component that is registered under the id of `c`. -/
def Unreferenced (s : RecsRun) (c : Nat) : Prop :=
  ∀ id, s.ctx.cmps c = some id → ∀ a ∈ s.liveEntities, ∀ c' ∈ s.ctx.stored a,
    s.ctx.mapComponents.get id ≠ some c'

/-- What is added is registered, and what is deleted is not referred to. -/
def RefsGuard (s : RecsRun) (op : RecsOp) : Prop :=
  ArrayFits s op ∧
    match op with
    | .cmpAdd _ c => ∃ id, s.ctx.mapComponents.get id = some c
    | .cmpDelete _ c _ => Unreferenced s c
    | _ => True

structure RefsInv (s : RecsRun) : Prop where
  entities : ∀ a ∈ s.liveEntities, ∃ e l, s.ctx.entities a = some e ∧ e.Holds l ∧
    ∀ c ∈ l, ∃ id, s.ctx.mapComponents.get id = some c
  known : ∀ id c, s.ctx.mapComponents.get id = some c → s.ctx.cmps c = some id

section refs

variable {s s' : RecsRun} {op : RecsOp} {a c id : Nat}

theorem RecsEntity.Holds.stored {ctx : RecsContext} {e : RecsEntity} {l : List Nat} (hl : e.Holds l)
    (he : ctx.entities a = some e) : ctx.stored a = l := by
  unfold RecsEntity.Holds at hl
  rw [RecsContext.stored, he]
  rcases hcs : e.components with _ | ar
  · simp_all
  · rw [hcs] at hl
    simp only [Option.bind_some, hcs]
    exact hl.elems

theorem RefsInv.holds (h : RefsInv s) : RefsHold s := by
  intro a ha c hc
  obtain ⟨e, l, he, hl, hrefs⟩ := h.entities a ha
  rw [hl.stored he] at hc
  exact hrefs c hc

/-- Entities that keep their arrays, while every registered component they refer to stays registered. -/
theorem RefsInv.entities_mono (h : RefsInv s) {ctx : RecsContext} {live : List Nat}
    (hlive : ∀ b ∈ live, b ∈ s.liveEntities ∧ ctx.entities b = s.ctx.entities b)
    (hmap : ∀ b ∈ live, ∀ c ∈ s.ctx.stored b, ∀ id, s.ctx.mapComponents.get id = some c →
      ctx.mapComponents.get id = some c) :
    ∀ b ∈ live, ∃ e l, ctx.entities b = some e ∧ e.Holds l ∧
      ∀ c ∈ l, ∃ id, ctx.mapComponents.get id = some c := by
  intro b hb
  obtain ⟨hb', hsame⟩ := hlive b hb
  obtain ⟨e, l, he, hl, hrefs⟩ := h.entities b hb'
  refine ⟨e, l, hsame.trans he, hl, fun c hc => ?_⟩
  obtain ⟨id, hid⟩ := hrefs c hc
  exact ⟨id, hmap b hb c (by rwa [hl.stored he]) id hid⟩

theorem RefsInv.onComponents (h : RefsInv s) (aop : RarrayOp Nat) {ctx : RecsContext}
    (hcall : OnComponents (fun ar => rarrayCall componentFuncs ar aop) a s.ctx ctx)
    (hfits : ∀ e ar, s.ctx.entities a = some e → e.components = some ar → RarrayGuard componentFuncs ar aop)
    (hmade : ∀ c ∈ aop.made, ∃ id, s.ctx.mapComponents.get id = some c)
    (attached : List (Nat × Nat)) : RefsInv { s with ctx := ctx, attached := attached } := by
  obtain ⟨e₀, e₀', he₀, -, rfl⟩ := hcall.setEntity
  refine ⟨fun b hb => ?_, h.known⟩
  by_cases hba : b = a
  · subst hba
    obtain ⟨e, l, he, hl, hrefs⟩ := h.entities b hb
    obtain ⟨e', heq, -, -, hl'⟩ := hcall.holds he hl (hfits e · he)
    rw [heq]
    refine ⟨e', _, Function.update_self .., hl', fun c hc => ?_⟩
    split at hc
    · rcases mem_listStep hc with hc | hc
      · exact hrefs c hc
      · exact hmade c hc
    · cases hc
  · obtain ⟨e, l, he, hl, hrefs⟩ := h.entities b hb
    exact ⟨e, l, (Function.update_of_ne hba ..).trans he, hl, hrefs⟩

theorem RefsInv.entityNew (h : RefsInv s) {fuel : Nat} {added : Bool} {onNew : Option NewEntityHook}
    {onDelete : Option Int} (ha : s.ctx.entities a = none) {r : Option Nat} {ctx : RecsContext}
    (hrun : recsEntityNew fuel a added onNew onDelete s.ctx = .ok (r, ctx)) : RefsInv (s.entityCreated r ctx) := by
  have hlive : a ∉ s.liveEntities := by
    refine not_mem_of_none (fun b hb => ?_) ha
    obtain ⟨e, l, he, -⟩ := h.entities b hb
    exact ⟨e, he⟩
  obtain ⟨id, -, hr⟩ := recsEntityNew_ok hrun
  have hkept (e : Option RecsEntity) : ∀ b ∈ s.liveEntities, ∃ e' l,
      (s.ctx.registered a id added e).entities b = some e' ∧ e'.Holds l ∧
        ∀ c ∈ l, ∃ id', (s.ctx.registered a id added e).mapComponents.get id' = some c :=
    h.entities_mono (fun b hb => ⟨hb, update_live hlive _ _ hb⟩) fun _ _ _ _ _ hmap => hmap
  rcases hr with hr | ⟨hnone, e, hr⟩
  · cases hr
    refine ⟨fun b hb => ?_, h.known⟩
    rcases List.mem_cons.mp hb with rfl | hb
    · exact ⟨_, [], Function.update_self .., NewEntityHook.holds onNew id, by simp⟩
    · exact hkept _ b hb
  · dsimp only at hnone hr
    subst hnone hr
    exact ⟨hkept e, h.known⟩

theorem RefsInv.entityDelete (h : RefsInv s) {onDelete : Option Int} {destroy : Bool} {code : Int} {ctx : RecsContext}
    (hrun : recsEntityDelete onDelete a destroy s.ctx = .ok (code, ctx)) (attached : List (Nat × Nat)) :
    RefsInv { s with ctx := ctx, liveEntities := s.liveEntities.filter (· ≠ a), attached := attached } := by
  obtain ⟨e, e', -, -, rfl⟩ := recsEntityDelete_ok hrun
  refine ⟨h.entities_mono (fun b hb => ?_) fun _ _ _ _ _ hmap => hmap, h.known⟩
  obtain ⟨hb, hne⟩ := List.mem_filter.mp hb
  exact ⟨hb, Function.update_of_ne (of_decide_eq_true hne) ..⟩

theorem RefsInv.cmpNew (h : RefsInv s) {fuel : Nat} {added : Bool} {onNew onDelete : Option Int}
    (hc : s.ctx.cmps c = none) {r : Option Nat} {ctx : RecsContext}
    (hrun : recsCmpNew fuel (some c) added onNew onDelete s.ctx = .ok (r, ctx)) : RefsInv (s.cmpCreated r ctx) := by
  obtain ⟨hnone, -⟩ | ⟨c', id, hc', hfind, hr⟩ := recsCmpNew_ok hrun
  · cases hnone
  cases hc'
  have hfree : s.ctx.mapComponents.get id = none := (recsFindId_result hfind).1
  have hkept {x : Option Nat} {id b : Nat} (hmap : s.ctx.mapComponents.get id = some b) :
      Function.update s.ctx.cmps c x b = some id := by
    have hid := h.known id b hmap
    refine (Function.update_of_ne ?_ ..).trans hid
    rintro rfl
    rw [hc] at hid
    cases hid
  have hne {id' b : Nat} (hmap : s.ctx.mapComponents.get id' = some b) : id' ≠ id := by
    intro heq
    rw [heq, hfree] at hmap
    cases hmap
  rcases hr with hr | ⟨hnone, cmp, hr⟩
  · cases hr
    cases added with
    | false =>
      exact ⟨h.entities, fun id' b hmap => hkept hmap⟩
    | true =>
      refine ⟨h.entities_mono (fun b hb => ⟨hb, rfl⟩) fun b _ c' _ id' hmap => (Registry.get_add_of_ne (hne hmap)).trans hmap,
        fun id' b hmap => ?_⟩
      rcases Registry.add_some hmap with ⟨rfl, rfl⟩ | ⟨-, hmap⟩
      · exact Function.update_self ..
      · exact hkept hmap
  · dsimp only at hnone hr
    subst hnone hr
    exact ⟨h.entities_mono (fun b hb => ⟨hb, rfl⟩) fun b _ c' _ id' hmap => (Registry.get_remove_of_ne (hne hmap)).trans hmap,
      fun id' b hmap => hkept (Registry.remove_some hmap).2⟩

theorem RefsInv.cmpDelete (h : RefsInv s) {onDelete : Option Int} {destroy : Bool} {code : Int} {ctx : RecsContext}
    (hrun : recsCmpDelete onDelete c destroy s.ctx = .ok (code, ctx)) (hunref : Unreferenced s c)
    (liveCmps : List Nat) (attached : List (Nat × Nat)) :
    RefsInv { s with ctx := ctx, liveCmps := liveCmps, attached := attached } := by
  obtain ⟨id, x, hid, hx, rfl⟩ := recsCmpDelete_ok hrun
  refine ⟨h.entities_mono (fun b hb => ⟨hb, rfl⟩) fun b hb c' hc' id' hmap => ?_, fun id' b hmap => ?_⟩
  · refine (Registry.get_remove_of_ne fun heq => ?_).trans hmap
    rw [heq] at hmap
    exact hunref id hid b hb c' hc' hmap
  · obtain ⟨hne, hmap⟩ := Registry.remove_some hmap
    have hid' := h.known id' b hmap
    refine (Function.update_of_ne ?_ ..).trans hid'
    rintro rfl
    rw [hid] at hid'
    cases hid'
    exact hne rfl

theorem RefsInv.step (h : RefsInv s) (hguard : RefsGuard s op) (hstep : RecsStep s op s') : RefsInv s' := by
  obtain ⟨hfits, hguard⟩ := hguard
  cases op with
  | entityNew fuel a added onNew onDelete =>
    obtain ⟨ha, r, ctx, hrun, rfl⟩ := hstep
    exact h.entityNew ha hrun
  | entityDelete onDelete a destroy =>
    obtain ⟨code, ctx, hrun, rfl⟩ := hstep
    exact h.entityDelete hrun _
  | cmpNew fuel m added onNew onDelete =>
    obtain ⟨hc, r, ctx, hrun, rfl⟩ := hstep
    rcases m with _ | c
    · cases hrun
      exact ⟨h.entities, h.known⟩
    · exact h.cmpNew (hc c rfl) hrun
  | cmpDelete onDelete c destroy =>
    obtain ⟨code, ctx, hrun, rfl⟩ := hstep
    exact h.cmpDelete hrun hguard _ _
  | cmpAdd a c =>
    obtain ⟨code, ctx, hrun, rfl⟩ := hstep
    refine h.onComponents (.add c c) (recsCmpAdd_ok hrun).2 (fun e ar => hfits a _ e ar rfl) (fun c' hc' => ?_) _
    rw [List.mem_singleton.mp hc']
    exact hguard
  | cmpGet a id =>
    obtain ⟨-, rfl⟩ := hstep
    exact h
  | cmpRemove a id =>
    obtain ⟨code, out, ctx, hrun, rfl⟩ := hstep
    obtain ⟨-, rfl⟩ | ⟨c, hget, hcall⟩ := recsCmpRemove_ok hrun
    · exact ⟨h.entities, h.known⟩
    · exact h.onComponents (.remove c) hcall (fun e ar => hfits a _ e ar (by simp [RecsOp.onArray, hget]))
        (fun c' hc' => (by cases hc')) _
  | cmpRemoveAll a =>
    obtain ⟨ctx, hrun, rfl⟩ := hstep
    exact h.onComponents .clear (recsCmpRemoveAll_ok hrun) (fun e ar => hfits a _ e ar rfl)
      (fun c' hc' => (by cases hc')) _

/-- A deletion keeps the references right if and only if nothing refers to what it takes out of the registry. -/
theorem RefsInv.cmpDelete_iff (h : RefsInv s) {onDelete : Option Int} {destroy : Bool}
    (hstep : RecsStep s (.cmpDelete onDelete c destroy) s') : RefsHold s' ↔ Unreferenced s c := by
  obtain ⟨code, ctx, hrun, rfl⟩ := hstep
  refine ⟨fun hrefs id hid a ha c' hc' hmap => ?_, fun hunref => (h.cmpDelete hrun hunref _ _).holds⟩
  obtain ⟨id₁, x, hid₁, -, rfl⟩ := recsCmpDelete_ok hrun
  obtain rfl : id = id₁ := Option.some.inj (hid.symm.trans hid₁)
  obtain ⟨id', hmap'⟩ := hrefs a ha c' hc'
  obtain ⟨hne, hmap'⟩ := Registry.remove_some hmap'
  have heq := (h.known _ _ hmap).symm.trans (h.known _ _ hmap')
  cases heq
  exact hne rfl

/-- What has been deleted is in no array. -/
theorem RefsInv.cmpDelete_gone (h : RefsInv s) {onDelete : Option Int} {destroy : Bool}
    (hstep : RecsStep s (.cmpDelete onDelete c destroy) s') (hrefs : RefsHold s') :
    ∀ a ∈ s'.liveEntities, c ∉ s'.ctx.stored a := by
  intro a ha hc
  obtain ⟨id', hmap⟩ := hrefs a ha c hc
  obtain ⟨code, ctx, hrun, rfl⟩ := hstep
  obtain ⟨id, x, hid, -, rfl⟩ := recsCmpDelete_ok hrun
  obtain ⟨hne, hmap⟩ := Registry.remove_some hmap
  have heq := hid.symm.trans (h.known _ _ hmap)
  cases heq
  exact hne rfl

/-- In every run in which no component is deleted that a live entity refers to; the next deletion keeps the
references right if and only if it is not of such a component either. -/
theorem references_run {sidMin sidMax sidCur : Nat} {ops : List RecsOp}
    (hrun : Steps (Guarded RefsGuard RecsStep) (recsStart sidMin sidMax sidCur) ops s) :
    RefsHold s ∧ ∀ onDelete c destroy s', RecsStep s (.cmpDelete onDelete c destroy) s' →
      (RefsHold s' ↔ Unreferenced s c) ∧ (RefsHold s' → ∀ a ∈ s'.liveEntities, c ∉ s'.ctx.stored a) := by
  have hstart : RefsInv (recsStart sidMin sidMax sidCur) :=
    ⟨by simp [recsStart], fun _ _ hmap => (by cases hmap)⟩
  have h := hrun.invariant (I := RefsInv) (fun hI hstep => hI.step hstep.1 hstep.2) hstart
  exact ⟨h.holds, fun _ _ _ _ hstep => ⟨h.cmpDelete_iff hstep, h.cmpDelete_gone hstep⟩⟩

end refs

theorem references_pair : ∃ s, s.ctx.stored 101 = [201] ∧ RefsHold s := by
  have hrun : ∃ s, Steps (Guarded RefsGuard RecsStep) (recsStart 0 9 0) (attachOps (some ⟨0, some 4⟩)) s ∧
      s.ctx.stored 101 = [201] := by
    refine ⟨_, .cons ⟨⟨fun _ _ _ _ h => (by cases h), trivial⟩, rfl, _, _, rfl, rfl⟩
      (.cons ⟨⟨fun _ _ _ _ h => (by cases h), trivial⟩, fun _ h => (by cases h; rfl), _, _, rfl, rfl⟩
        (.cons ⟨⟨?_, ⟨2, rfl⟩⟩, _, _, rfl, rfl⟩ (.nil _))), rfl⟩
    rintro _ _ _ _ ⟨⟩ ⟨⟩ ⟨⟩
    exact ⟨by decide, by decide⟩
  obtain ⟨s, hrun, hstored⟩ := hrun
  exact ⟨s, hstored, (references_run hrun).1⟩

/-- The component is freed, and the entity still refers to it. -/
theorem reference_left : ∃ s, Steps RecsStep (recsStart 0 9 0)
    (attachOps (some ⟨0, some 4⟩) ++ [.cmpDelete none 201 true]) s ∧
    101 ∈ s.liveEntities ∧ 201 ∈ s.ctx.stored 101 ∧ s.ctx.cmps 201 = none ∧ ¬ RefsHold s := by
  refine ⟨_, .cons ⟨rfl, _, _, rfl, rfl⟩ (.cons ⟨fun _ h => (by cases h; rfl), _, _, rfl, rfl⟩
    (.cons ⟨_, _, rfl, rfl⟩ (.cons ⟨_, _, rfl, rfl⟩ (.nil _)))), List.mem_cons_self, List.mem_cons_self, rfl, ?_⟩
  intro hrefs
  obtain ⟨id, hmap⟩ := hrefs 101 List.mem_cons_self 201 List.mem_cons_self
  obtain ⟨hne, hmap⟩ := Registry.remove_some hmap
  rcases Registry.add_some hmap with ⟨hkey, -⟩ | ⟨-, hmap⟩
  · exact hne hkey
  · cases hmap

end Funra
