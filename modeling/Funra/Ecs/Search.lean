import Funra.Ecs.Rollback
import Funra.Rdict.Failures

/-!
# The creations that return

`recs_get_next_id` compares the counter with `sid_max` before it counts, so the ids it draws go up to `sid_max + 1`,
and after the wrap they start with `sid_min + 1` (`drawable_iff`). The search of a creation looks them up in that
order. It ends at the first that is free, if there is one and its lookup ends in the table, which behind a full last
bucket it does not; it never gives up (`search_returns_iff`). A creation returns when the addition under that id does
as well (`creation_returns_iff`).
-/

namespace Funra

open Except

namespace DictContext

/-! ### The ids that are drawn -/

/-- The ids that `recs_get_next_id` gives one after the other. -/
def drawn (ctx : DictContext) : Nat → Nat
  | 0 => ctx.recsGetNextId.1
  | n + 1 => ctx.recsGetNextId.2.drawn n

/-- The id will be drawn. -/
def Draws (ctx : DictContext) (id : Nat) : Prop := ∃ n, ctx.drawn n = id

/-- The counter has been set to `n`. -/
def withCur (ctx : DictContext) (n : Nat) : DictContext := { ctx with sidCur := n }

/-- Which ids these are: those ahead of the counter up to `sid_max + 1`, then those from `sid_min + 1` on;
all, when the counter wraps by itself. (The last two cases are also right for a range that is empty.) -/
def Drawable (ctx : DictContext) (id : Nat) : Prop :=
  id < 18446744073709551616 ∧
    (ctx.sidMax = 18446744073709551615 ∨ ctx.sidCur ≤ ctx.sidMax ∧ ctx.sidCur < id ∧ id ≤ ctx.sidMax + 1 ∨
      ctx.sidMin < id ∧ id ≤ ctx.sidMax + 1 ∨ id = ctx.sidMin + 1 ∨
      ctx.sidMin = 18446744073709551615 ∧ id ≤ ctx.sidMax + 1)

section drawn

variable {ctx : DictContext} {id : Nat}

/-- The next id. -/
def draw (ctx : DictContext) : Nat := u64Succ (if ctx.sidMax < ctx.sidCur then ctx.sidMin else ctx.sidCur)

theorem recsGetNextId_eq (ctx : DictContext) : ctx.recsGetNextId = (ctx.draw, ctx.withCur ctx.draw) := rfl

theorem draws_iff : ctx.Draws id ↔ ctx.draw = id ∨ (ctx.withCur ctx.draw).Draws id := by
  constructor
  · rintro ⟨_ | n, hn⟩
    · exact .inl hn
    · exact .inr ⟨n, hn⟩
  · rintro (heq | ⟨n, hn⟩)
    · exact ⟨0, heq⟩
    · exact ⟨n + 1, hn⟩

theorem draw_of_le (h : ctx.sidCur ≤ ctx.sidMax) (hmax : ctx.sidCur < 18446744073709551615) :
    ctx.draw = ctx.sidCur + 1 := by
  rw [draw, if_neg (by omega), u64Succ]
  omega

theorem draw_of_gt (h : ctx.sidMax < ctx.sidCur) : ctx.draw = u64Succ ctx.sidMin := by
  rw [draw, if_pos h]

/-- An id up to `sid_max + 1` lies ahead. -/
theorem draws_of_ahead {n : Nat} (hcur : ctx.sidCur + n = id) (hpos : 0 < n) (hid : id ≤ ctx.sidMax + 1)
    (hid64 : id < 18446744073709551616) : ctx.Draws id := by
  induction n generalizing ctx with
  | zero => cases hpos
  | succ n ih =>
    have hdraw : ctx.draw = ctx.sidCur + 1 := draw_of_le (by omega) (by omega)
    rw [draws_iff, hdraw]
    rcases Nat.eq_zero_or_pos n with rfl | hn
    · exact .inl hcur
    · exact .inr (@ih (ctx.withCur (ctx.sidCur + 1)) (by simp only [withCur]; omega) hn hid)

/-- The counter gets to the end of the range. -/
theorem draws_of_last {n : Nat} (last : Nat) (hcur : ctx.sidCur + n = last) (hlast : last ≤ ctx.sidMax + 1)
    (hlast64 : last < 18446744073709551616) (h : (ctx.withCur last).Draws id) : ctx.Draws id := by
  induction n generalizing ctx with
  | zero =>
    obtain rfl : ctx.sidCur = last := hcur
    exact h
  | succ n ih =>
    have hdraw : ctx.draw = ctx.sidCur + 1 := draw_of_le (by omega) (by omega)
    rw [draws_iff, hdraw]
    exact .inr (@ih (ctx.withCur (ctx.sidCur + 1)) (by simp only [withCur]; omega) hlast h)

/-- From the end of the range the ids from `sid_min + 1` on are drawn. -/
theorem draws_of_wrapped (hcur : ctx.sidMax < ctx.sidCur) (hmin : ctx.sidMin < 18446744073709551616)
    (hid : id < 18446744073709551616) (hdraw : ctx.sidMin < id ∧ id ≤ ctx.sidMax + 1 ∨ id = ctx.sidMin + 1 ∨
      ctx.sidMin = 18446744073709551615 ∧ id ≤ ctx.sidMax + 1) : ctx.Draws id := by
  rw [draws_iff, draw_of_gt hcur]
  have hnext : u64Succ ctx.sidMin ≤ id := by
    unfold u64Succ
    omega
  rcases Nat.eq_or_lt_of_le hnext with heq | hlt
  · exact .inl heq
  · right
    refine draws_of_ahead (n := id - u64Succ ctx.sidMin) (Nat.add_sub_of_le hnext) (Nat.sub_pos_of_lt hlt) ?_ hid
    unfold u64Succ at hlt
    show id ≤ ctx.sidMax + 1
    omega

theorem draws_of_drawable (hmin : ctx.sidMin < 18446744073709551616)
    (hmax : ctx.sidMax < 18446744073709551616) (hcur : ctx.sidCur < 18446744073709551616) (h : ctx.Drawable id) :
    ctx.Draws id := by
  obtain ⟨hid, h⟩ := h
  by_cases hahead : ctx.sidCur < id ∧ id ≤ ctx.sidMax + 1
  · exact draws_of_ahead (n := id - ctx.sidCur) (by omega) (by omega) hahead.2 hid
  by_cases hall : ctx.sidMax = 18446744073709551615
  · -- the counter itself wraps: it gets to its last value, and 0 is drawn next
    refine draws_of_last (n := ctx.sidMax - ctx.sidCur) ctx.sidMax (by omega) (by omega) (by omega) ?_
    have hzero : (ctx.withCur ctx.sidMax).draw = 0 := by simp [draw, withCur, u64Succ, hall]
    rw [draws_iff, hzero]
    rcases Nat.eq_zero_or_pos id with rfl | hpos
    · exact .inl rfl
    · right
      have hstart : ((ctx.withCur ctx.sidMax).withCur 0).sidCur + id = id := Nat.zero_add id
      apply draws_of_ahead hstart hpos ?_ hid
      show id ≤ ctx.sidMax + 1
      omega
  · have hwrapped := h.resolve_left hall
    by_cases hcur' : ctx.sidCur ≤ ctx.sidMax
    · refine draws_of_last (n := ctx.sidMax + 1 - ctx.sidCur) (ctx.sidMax + 1) (by omega) (Nat.le_refl _)
        (by omega) ?_
      exact draws_of_wrapped (Nat.lt_succ_self _) hmin hid (hwrapped.resolve_left fun h => hahead h.2)
    · exact draws_of_wrapped (by omega) hmin hid (hwrapped.resolve_left fun h => hcur' h.1)

theorem drawable_draw (hmin : ctx.sidMin < 18446744073709551616) (hmax : ctx.sidMax < 18446744073709551616) :
    ctx.Drawable ctx.draw := by
  unfold Drawable draw u64Succ
  split <;> omega

/-- What will be drawn after the next id is drawable already. -/
theorem drawable_of_draw (hmin : ctx.sidMin < 18446744073709551616) (hmax : ctx.sidMax < 18446744073709551616)
    (h : (ctx.withCur ctx.draw).Drawable id) : ctx.Drawable id := by
  unfold Drawable withCur draw u64Succ at h
  unfold Drawable
  dsimp only at h
  split at h <;> omega

/-- The ids that are drawn, for every range and counter. -/
theorem drawable_iff (hmin : ctx.sidMin < 18446744073709551616)
    (hmax : ctx.sidMax < 18446744073709551616) (hcur : ctx.sidCur < 18446744073709551616) :
    ctx.Drawable id ↔ ctx.Draws id := by
  constructor
  · exact draws_of_drawable hmin hmax hcur
  · rintro ⟨n, hn⟩
    induction n generalizing ctx with
    | zero =>
      rw [← hn]
      exact drawable_draw hmin hmax
    | succ n ih =>
      have hnext : ctx.recsGetNextId.2.sidCur < 18446744073709551616 := Nat.mod_lt _ (by decide)
      exact drawable_of_draw hmin hmax (ih hmin hmax hnext hn)

end drawn

/-! ### The search -/

/-- The id is not in the dictionary. -/
def Free (map : Rdict Nat Nat Unit) (id : Nat) : Prop := map.associations (uint64Key id) = none

/-- The first id to be drawn that is free. -/
def FirstFree (map : Rdict Nat Nat Unit) (ctx : DictContext) (id : Nat) : Prop :=
  ∃ n, ctx.drawn n = id ∧ Free map id ∧ ∀ j < n, ¬ Free map (ctx.drawn j)

/-- The condition on the search of a creation: an id that will be drawn is free, and the lookup of the first ends. -/
def Searchable (map : Rdict Nat Nat Unit) (ctx : DictContext) : Prop :=
  (∃ id, ctx.Drawable id ∧ Free map id) ∧ ∀ id, FirstFree map ctx id → LookupEnds map id

section search

variable {map : Rdict Nat Nat Unit} {ctx : DictContext} {id a : Nat}

theorem find_free_iff (h : RecsMap map) :
    rdictFind uint64Funcs map (uint64Key id) = .ok none ↔ Free map id ∧ LookupEnds map id := by
  constructor
  · intro hfind
    have hfree : Free map id := h.absent_of_find hfind
    exact ⟨hfree, (SessionMap.absent_refines_iff h.refines hfree).mp hfind⟩
  · rintro ⟨hfree, hends⟩
    exact (SessionMap.absent_refines_iff h.refines hfree).mpr hends

/-- A used id is found. -/
theorem find_used_iff (h : RecsMap map) :
    (∃ e, rdictFind uint64Funcs map (uint64Key id) = .ok (some e)) ↔ ¬ Free map id := by
  constructor
  · rintro ⟨e, hfind⟩ hfree
    unfold Free at hfree
    rcases (rdictFind_found uint64Funcs_compatible h.inv h.buckets).mp hfind with ⟨hkey, hnull⟩ | ⟨k, hkey, he, hk⟩
    · rw [hkey, Rdict.associations, hnull] at hfree
      cases hfree
    · rw [hkey, h.inv.associations_eq he (hasKey_uint64.mp hk)] at hfree
      cases hfree
  · intro hused
    obtain ⟨v, hv⟩ := Option.ne_none_iff_exists'.mp hused
    have hfinds := (find_iff uint64Funcs_compatible h.refines (uint64Key id)).mpr fun k _ hnone => absurd hnone hused
    rw [hv] at hfinds
    obtain ⟨e, he, -⟩ := hfinds
    exact ⟨e, he⟩

/-- The id of a search that returns is the first free one, and its lookup has ended. -/
theorem recsFindId_first (h : RecsMap map) {fuel : Nat} {r : Nat × DictContext}
    (hrun : recsFindId map fuel ctx = .ok r) : FirstFree map ctx r.1 ∧ LookupEnds map r.1 := by
  induction fuel generalizing ctx with
  | zero => cases hrun
  | succ fuel ih =>
    rw [recsFindId_succ] at hrun
    obtain ⟨e, hfind, hrun⟩ := of_bind_ok hrun
    rcases e with _ | e
    · cases hrun
      obtain ⟨hfree, hends⟩ := (find_free_iff h).mp hfind
      exact ⟨⟨0, rfl, hfree, nofun⟩, hends⟩
    · obtain ⟨⟨n, hn, hfree, hbefore⟩, hends⟩ := ih hrun
      refine ⟨⟨n + 1, hn, hfree, fun j hj => ?_⟩, hends⟩
      rcases j with _ | j
      · exact (find_used_iff h).mp ⟨e, hfind⟩
      · exact hbefore j (Nat.lt_of_succ_lt_succ hj)

/-- The search goes on up to the first free id. -/
theorem recsFindId_of_first (h : RecsMap map) {n : Nat} (hfree : Free map (ctx.drawn n))
    (hbefore : ∀ j < n, ¬ Free map (ctx.drawn j)) (hends : LookupEnds map (ctx.drawn n)) :
    ∃ r, recsFindId map (n + 1) ctx = .ok r := by
  induction n generalizing ctx with
  | zero =>
    have hfind : rdictFind uint64Funcs map (uint64Key ctx.recsGetNextId.1) = .ok none :=
      (find_free_iff h).mpr ⟨hfree, hends⟩
    rw [recsFindId_succ, hfind]
    exact ⟨_, rfl⟩
  | succ n ih =>
    obtain ⟨e, hfind⟩ := (find_used_iff h).mpr (hbefore 0 (Nat.succ_pos n))
    rw [recsFindId_succ, show rdictFind uint64Funcs map (uint64Key ctx.recsGetNextId.1) = .ok (some e) from hfind]
    exact ih hfree (fun j hj => hbefore (j + 1) (Nat.succ_lt_succ hj)) hends

theorem FirstFree.unique {id' : Nat} (h : FirstFree map ctx id) (h' : FirstFree map ctx id') : id = id' := by
  obtain ⟨n, rfl, hfree, hbefore⟩ := h
  obtain ⟨n', rfl, hfree', hbefore'⟩ := h'
  rcases Nat.lt_trichotomy n n' with hlt | rfl | hgt
  · exact absurd hfree (hbefore' n hlt)
  · rfl
  · exact absurd hfree' (hbefore n' hgt)

/-- If an id that is drawn is free, there is a first one. -/
theorem exists_firstFree : (∃ id, FirstFree map ctx id) ↔ ∃ id, ctx.Draws id ∧ Free map id := by
  classical
  constructor
  · rintro ⟨id, n, hn, hfree, -⟩
    exact ⟨id, ⟨n, hn⟩, hfree⟩
  · rintro ⟨_, ⟨n, rfl⟩, hfree⟩
    have hex : ∃ n, Free map (ctx.drawn n) := ⟨n, hfree⟩
    exact ⟨_, Nat.find hex, rfl, Nat.find_spec hex, fun j hj => Nat.find_min hex hj⟩

/-- Exactly when the search of a creation ends. -/
theorem search_returns_iff (h : RecsMap map) (hmin : ctx.sidMin < 18446744073709551616)
    (hmax : ctx.sidMax < 18446744073709551616) (hcur : ctx.sidCur < 18446744073709551616) :
    (∃ fuel r, recsFindId map fuel ctx = .ok r) ↔ Searchable map ctx := by
  unfold Searchable
  simp only [drawable_iff hmin hmax hcur, ← exists_firstFree]
  constructor
  · rintro ⟨fuel, r, hrun⟩
    obtain ⟨hfirst, hends⟩ := recsFindId_first h hrun
    refine ⟨⟨r.1, hfirst⟩, fun id hid => ?_⟩
    rwa [hid.unique hfirst]
  · rintro ⟨⟨id, hfirst⟩, hends⟩
    have hends := hends id hfirst
    obtain ⟨n, rfl, hfree, hbefore⟩ := hfirst
    exact ⟨n + 1, recsFindId_of_first h hfree hbefore hends⟩

end search

/-! ### The creations -/

/-- The condition on the addition under a free id: its rehashes end. -/
def Addable (scale : Nat → Nat) (map : Rdict Nat Nat Unit) (id : Nat) : Prop :=
  ∀ k, uint64Key id = some k → RoundEnds uint64Funcs scale map k

/-- The condition on a creation: its search ends, and then the addition. -/
def Creatable (scale : Nat → Nat) (map : Rdict Nat Nat Unit) (ctx : DictContext) : Prop :=
  Searchable map ctx ∧ ∀ id, FirstFree map ctx id → Addable scale map id

section creation

variable {ok : Nat → Bool} {scale : Nat → Nat} {map : Rdict Nat Nat Unit} {ctx : DictContext} {id : Nat}
  {onNew onDelete onNewCmp onDeleteCmp : Option RecsHook}

theorem add_returns_iff (hok : ∀ i, ok i = true) (h : RecsMap map) (hfree : Free map id) (a : Nat) :
    (∃ fuel r, rdictAdd uint64Funcs ok scale fuel map (uint64Key id) (some a) = .ok r) ↔ Addable scale map id := by
  unfold Addable
  rcases hkey : uint64Key id with _ | k
  · exact iff_of_true ⟨1, _, rfl⟩ nofun
  · have hnone : map.associations (some k) = none := hkey ▸ hfree
    rw [rdictAdd_returns_iff hok ⟨h.inv.tidy, h.inv.placed⟩ h.buckets (h.absent hnone)]
    simp only [Option.some.injEq, forall_eq']

theorem registers_iff (hok : ∀ i, ok i = true) (h : RecsMap map) (hmin : ctx.sidMin < 18446744073709551616)
    (hmax : ctx.sidMax < 18446744073709551616) (hcur : ctx.sidCur < 18446744073709551616) (a : Nat) :
    Registers ok scale map a ctx ↔ Creatable scale map ctx := by
  unfold Registers Creatable
  rw [search_returns_iff h hmin hmax hcur]
  refine and_congr_right fun hsearch => ?_
  constructor
  · intro hadds id hfirst
    obtain ⟨fuel, r, hrun⟩ := (search_returns_iff h hmin hmax hcur).mpr hsearch
    have hfound := (recsFindId_first h hrun).1
    obtain rfl := hfirst.unique hfound
    obtain ⟨-, -, hfree, -⟩ := hfound
    exact (add_returns_iff hok h hfree a).mp (hadds fuel r hrun)
  · intro haddable fuel r hrun
    have hfirst := (recsFindId_first h hrun).1
    have ⟨_, _, hfree, _⟩ := hfirst
    exact (add_returns_iff hok h hfree a).mpr (haddable r.1 hfirst)

/-- Exactly when the searches for an id end, and the creations. -/
theorem creation_returns_iff (h : ctx.Inv) (hmin : ctx.sidMin < 18446744073709551616)
    (hmax : ctx.sidMax < 18446744073709551616) (hcur : ctx.sidCur < 18446744073709551616) :
    ((∃ fuel r, recsFindId ctx.mapEntities fuel ctx = .ok r) ↔ Searchable ctx.mapEntities ctx) ∧
      ((∃ fuel r, recsFindId ctx.mapComponents fuel ctx = .ok r) ↔ Searchable ctx.mapComponents ctx) ∧
      ∀ (ok : Nat → Bool) (scale : Nat → Nat), (∀ i, ok i = true) →
        (∀ a onNew onDelete, KeepsEntity onNew → LeavesEntity onDelete →
          ((∃ fuel r, recsEntityNew ok scale fuel a onNew onDelete ctx = .ok r) ↔
            Creatable scale ctx.mapEntities ctx)) ∧
        ∀ m onNew onDelete, KeepsCmp onNew → LeavesCmp onDelete →
          ((∃ fuel r, recsCmpNew ok scale fuel m onNew onDelete ctx = .ok r) ↔
            m = none ∨ Creatable scale ctx.mapComponents ctx) := by
  refine ⟨search_returns_iff h.entities hmin hmax hcur, search_returns_iff h.components hmin hmax hcur,
    fun ok scale hok => ⟨fun a onNew onDelete hn hd => ?_, fun m onNew onDelete hn hd => ?_⟩⟩
  · rw [recsEntityNew_returns_iff hok h.entities hn hd, registers_iff hok h.entities hmin hmax hcur]
  · rw [recsCmpNew_returns_iff hok h.components hn hd]
    rcases m with _ | c
    · exact iff_of_true nofun (.inl rfl)
    · simp only [Option.some.injEq, forall_eq', reduceCtorEq, false_or,
        registers_iff hok h.components hmin hmax hcur]

end creation

/-- A new context with the range `[1, 2]`. -/
def smallRange : DictContext := { newContext with sidMax := 2 }

theorem smallRange_inv : smallRange.Inv := ⟨newMap_recsMap, newMap_recsMap⟩

/-- The entities 1 and 2 are in it. -/
def twoEntities : DictContext where
  sidMin := 1
  sidMax := 2
  sidCur := 2
  mapEntities := { newMap with
    entry := some (0, [⟨some 1, some 101⟩, ⟨some 2, some 102⟩] ++ List.replicate 14 .empty), size := 2 }
  mapComponents := newMap
  entities := Function.update (Function.update (fun _ => none) 101 (some ⟨1, none⟩)) 102 (some ⟨2, none⟩)
  cmps := fun _ => none

/-- And 3, which is not in the range. -/
def threeEntities : DictContext where
  sidMin := 1
  sidMax := 2
  sidCur := 3
  mapEntities := { newMap with
    entry := some (0, [⟨some 1, some 101⟩, ⟨some 2, some 102⟩, ⟨some 3, some 103⟩] ++ List.replicate 13 .empty),
    size := 3 }
  mapComponents := newMap
  entities := Function.update twoEntities.entities 103 (some ⟨3, none⟩)
  cmps := fun _ => none

/-- The calls that lead to them. -/
theorem smallRange_runs :
    ∃ ctx₁, recsEntityNew (fun _ => true) exactScale 1 101 none none smallRange = .ok (some 101, ctx₁) ∧
      recsEntityNew (fun _ => true) exactScale 1 102 none none ctx₁ = .ok (some 102, twoEntities) ∧
      recsEntityNew (fun _ => true) exactScale 1 103 none none twoEntities = .ok (some 103, threeEntities) :=
  ⟨_, rfl, rfl, rfl⟩

theorem entities_inv : twoEntities.Inv ∧ threeEntities.Inv := by
  obtain ⟨ctx₁, h₁, h₂, h₃⟩ := smallRange_runs
  have hfirst : ctx₁.Inv := recsEntityNew_inv (fun _ => rfl) smallRange_inv _ h₁
  have htwo : twoEntities.Inv := recsEntityNew_inv (fun _ => rfl) hfirst _ h₂
  exact ⟨htwo, recsEntityNew_inv (fun _ => rfl) htwo _ h₃⟩

/-- No id is free. -/
theorem threeEntities_full {id : Nat} (hdraw : threeEntities.Drawable id) : ¬ Free threeEntities.mapEntities id := by
  have hid : id = 2 ∨ id = 3 := by
    have hrange : (2 = 18446744073709551615 ∨ 3 ≤ 2 ∧ 3 < id ∧ id ≤ 2 + 1 ∨ 1 < id ∧ id ≤ 2 + 1 ∨ id = 1 + 1 ∨
        1 = 18446744073709551615 ∧ id ≤ 2 + 1) := hdraw.2
    omega
  rcases hid with rfl | rfl <;> exact nofun

/-- With two entities there is another id, and with three there is none. -/
theorem creation_returns_third :
    (∃ fuel r, recsEntityNew (fun _ => true) exactScale fuel 103 none none twoEntities = .ok r) ∧
      ¬ ∃ fuel r, recsEntityNew (fun _ => true) exactScale fuel 104 none none threeEntities = .ok r := by
  obtain ⟨htwo, hthree⟩ := entities_inv
  have hfirst : FirstFree twoEntities.mapEntities twoEntities 3 := ⟨0, rfl, rfl, nofun⟩
  constructor
  · have hreturns := ((creation_returns_iff htwo (by decide) (by decide) (by decide)).2.2 (fun _ => true) exactScale
      fun _ => rfl).1 103 none none nofun nofun
    refine hreturns.mpr ⟨⟨⟨3, ⟨by decide, .inr (.inl (by decide))⟩, rfl⟩, fun id hid => ?_⟩, fun id hid => ?_⟩
    · obtain rfl := hid.unique hfirst
      rintro k ⟨⟩
      exact ⟨15, .empty, by decide, rfl, rfl⟩
    · obtain rfl := hid.unique hfirst
      rintro k ⟨⟩ hcrowded
      obtain ⟨e, he, ho, -⟩ := hcrowded 14 (by decide)
      cases he
      cases ho
  · intro hrun
    have hreturns := ((creation_returns_iff hthree (by decide) (by decide) (by decide)).2.2 (fun _ => true) exactScale
      fun _ => rfl).1 104 none none nofun nofun
    obtain ⟨⟨⟨id, hdraw, hfree⟩, -⟩, -⟩ := hreturns.mp hrun
    exact threeEntities_full hdraw hfree

/-- The entities 1, 2 and 3 are created, and the fourth creation searches for ever. -/
theorem creation_never_returns :
    ∃ ctx₁ ctx₂ ctx₃, recsEntityNew (fun _ => true) exactScale 1 101 none none smallRange = .ok (some 101, ctx₁) ∧
      recsEntityNew (fun _ => true) exactScale 1 102 none none ctx₁ = .ok (some 102, ctx₂) ∧
      recsEntityNew (fun _ => true) exactScale 1 103 none none ctx₂ = .ok (some 103, ctx₃) ∧
      (∀ fuel r, recsFindId ctx₃.mapEntities fuel ctx₃ ≠ .ok r) ∧
      ∀ fuel r, recsEntityNew (fun _ => true) exactScale fuel 104 none none ctx₃ ≠ .ok r := by
  obtain ⟨ctx₁, h₁, h₂, h₃⟩ := smallRange_runs
  have hnever : ∀ fuel r, recsFindId threeEntities.mapEntities fuel threeEntities ≠ .ok r := by
    intro fuel r hrun
    obtain ⟨⟨n, hn, hfree, -⟩, -⟩ := recsFindId_first entities_inv.2.entities hrun
    exact threeEntities_full ((drawable_iff (by decide) (by decide) (by decide)).mpr ⟨n, hn⟩) hfree
  refine ⟨ctx₁, twoEntities, threeEntities, h₁, h₂, h₃, hnever, fun fuel r hrun => ?_⟩
  obtain ⟨id, ctx', code, d₁, hfind, -⟩ := recsEntityNew_run hrun
  exact hnever fuel _ hfind

end DictContext

end Funra
