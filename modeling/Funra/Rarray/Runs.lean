import Funra.Lib.System
import Funra.Rarray.Refine

/-!
# Runs of an array

An array is the list of its elements with a zeroed tail, and owns the copies it has made, in every run whose
steps count their bytes without loss (`rarray_holds_run`, `rarray_owns_run`). The products of a length and
`value_size` have 32 bits in `_rarray_alloc`, in the remove functions of strings and pointers and in
`rarray_clear`: an array with room for 2^29 pointers is cleared by a `memset` of 0 bytes (`rarray_clear_wraps`),
and the next `rarray_add` frees what the clear has freed (`rarray_frees_twice`).
-/

namespace Funra

open Mem System CInt Except

variable {V : Type} {F : RarrayFuncs V} {ar ar' : Rarray V} {l : List V}

/-! ### The list of the elements -/

/-- `v` is what is stored for `obj`. -/
inductive RarrayOp (V : Type)
  | add (obj v : V)
  | remove (val : V)
  | removeAt (index : Nat)
  | clear
  deriving DecidableEq, Repr

/-- The list of the elements. -/
def listStep (F : RarrayFuncs V) (l : List V) : RarrayOp V → List V
  | .add _ v => l ++ [v]
  | .remove val => l.eraseP (F.equal · val)
  | .removeAt index => l.eraseIdx index
  | .clear => []

/-- The copies a call makes. -/
def RarrayOp.made : RarrayOp V → List V
  | .add _ v => [v]
  | _ => []

theorem mem_listStep {op : RarrayOp V} {x : V} (hx : x ∈ listStep F l op) : x ∈ l ∨ x ∈ op.made := by
  cases op with
  | add obj v => exact List.mem_append.mp hx
  | remove val => exact Or.inl (List.mem_of_mem_eraseP hx)
  | removeAt index => exact Or.inl (List.mem_of_mem_eraseIdx hx)
  | clear => cases hx

/-- The list and the copies made so far. -/
def ownedStep (F : RarrayFuncs V) (s : List V × List V) (op : RarrayOp V) : List V × List V :=
  (listStep F s.1 op, s.2 ++ op.made)

theorem foldl_made (ops : List (RarrayOp V)) (s : List V × List V) :
    ops.foldl (ownedStep F) s =
      (ops.foldl (listStep F) s.1, s.2 ++ ops.flatMap RarrayOp.made) := by
  induction ops generalizing s with
  | nil => simp
  | cons op ops ih => simp [ih, ownedStep]

/-- What is added is what the set function stores. -/
def RarrayAllowed (F : RarrayFuncs V) : RarrayOp V → Prop
  | .add obj v => F.Stores obj v
  | _ => True

variable [Zero V]

/-- An array of copies: of strings, or with a `copy_value_func`. A copy is not `NULL`. -/
structure RarrayFuncs.Copying (F : RarrayFuncs V) : Prop where
  type : F.type = .string ∨ F.type = .ptr ∧ F.copyValue = true
  ne_zero : ∀ obj v, F.copies obj v → v ≠ 0

theorem RarrayFuncs.Copying.stores (hF : F.Copying) {obj v : V} (h : F.Stores obj v) : v ≠ 0 := by
  unfold RarrayFuncs.Stores at h
  rcases hF.type with htype | ⟨htype, hcopy⟩
  · rw [htype] at h
    exact hF.ne_zero obj v h
  · rw [htype] at h
    exact hF.ne_zero obj v (by simpa [hcopy] using h)

theorem RarrayFuncs.Copying.ne_int (hF : F.Copying) : F.type ≠ .int := by
  rcases hF.type with htype | ⟨htype, -⟩
  · simp [htype]
  · simp [htype]

theorem RarrayRep.elems (h : RarrayRep F ar l) : ar.items.take ar.size = l := by
  rw [h.items, h.size, List.take_left']
  rfl

theorem rarrayCreate_rep (F : RarrayFuncs V) (initCapacity : Nat) :
    RarrayRep F (rarrayCreate F.type.size initCapacity) [] := by
  refine ⟨rfl, rfl, ?_, Nat.zero_le _, by simp, by simp [rarrayCreate]⟩
  unfold rarrayCreate
  dsimp only
  split
  next hpos => exact hpos
  next => decide

/-! ### The list with its tail -/

/-- The array is the list `l`, as its slots, `rarray_at` and the loop show it. -/
structure RarrayHolds (ar : Rarray V) (l : List V) : Prop where
  size : ar.size = l.length
  le : ar.size ≤ ar.capacity
  slots : ∀ i < ar.size, ar.items[i]? = l[i]?
  tail : ∀ i < ar.capacity, ar.size ≤ i → ar.items[i]? = some 0
  at_ : ∀ i, rarrayAt ar i = .ok (if i < ar.size then l.getD i 0 else 0)
  visits : rarrayFor ar (fun v seen => ((none : Option Unit), seen ++ [v])) [] = .ok (none, l)

theorem RarrayRep.holds (h : RarrayRep F ar l) : RarrayHolds ar l where
  size := h.size
  le := h.size ▸ h.le
  slots i hi := by
    rw [h.size] at hi
    rw [h.items_get hi, List.getElem?_eq_getElem hi]
  tail i hi hge := h.items_tail (h.size ▸ hge) hi
  at_ i := by
    rw [rarrayAt_eq h, h.size]
    split
    next => rfl
    next hge => rw [List.getD_eq_default _ _ (Nat.le_of_not_lt hge)]
  visits := by
    rw [rarrayFor_eq h, forUntil_collect]
    rfl

/-! ### Operations and the abstract list -/

variable [DecidableEq V]

def rarrayCall (F : RarrayFuncs V) (ar : Rarray V) : RarrayOp V → Except Fault (Rarray V)
  | .add _ v => rarrayAdd F v ar
  | .remove val => (rarrayRemove F val ar).map Prod.snd
  | .removeAt index => (rarrayRemoveAt F index ar).map Prod.snd
  | .clear => rarrayClear ar

def RarrayStep (F : RarrayFuncs V) (ar : Rarray V) (op : RarrayOp V) (ar' : Rarray V) : Prop :=
  RarrayAllowed F op ∧ rarrayCall F ar op = .ok ar'

/-- Sizes stay below 2^31. -/
def RarrayBounded (ar : Rarray V) : RarrayOp V → Prop
  | .add _ _ => ar.size + 1 < 2147483648
  | _ => True

/-- The elements behind `index` can be moved. -/
def RarrayMovable (F : RarrayFuncs V) (ar : Rarray V) (index : Nat) : Prop :=
  F.type = .int ∨ (ar.size - index - 1) * ar.valueSize < 4294967296

/-- No count of bytes that matters is cut to 32 bits. -/
def RarrayFits (F : RarrayFuncs V) (ar : Rarray V) : RarrayOp V → Prop
  | .add _ _ => ar.capacity ≤ ar.size → ar.size * ar.valueSize < 4294967296
  | .remove val => ∀ i ∈ (ar.items.take ar.size).findIdx? (F.equal · val), RarrayMovable F ar i
  | .removeAt index => index < ar.size → RarrayMovable F ar index
  | .clear => ar.size * ar.valueSize ≤ ar.capacity * ar.valueSize % 4294967296

theorem rarrayCall_spec (h : RarrayRep F ar l) {op : RarrayOp V} (hbounded : RarrayBounded ar op)
    (hfits : RarrayFits F ar op) :
    (rarrayCall F ar op).Succeeds fun ar' => RarrayRep F ar' (listStep F l op) := by
  cases op with
  | add obj v =>
    simp only [RarrayBounded, RarrayFits, h.size, h.valueSize] at hbounded hfits
    exact (rarrayAdd_spec h hbounded hfits v).mono fun _ hr => hr.1
  | remove val =>
    rw [RarrayFits, h.elems] at hfits
    simp only [RarrayMovable, h.size, h.valueSize] at hfits
    exact Succeeds.map ((rarrayRemove_spec h val hfits).mono fun _ hr => hr.1)
  | removeAt index =>
    simp only [RarrayFits, RarrayMovable, h.size, h.valueSize] at hfits
    exact Succeeds.map ((rarrayRemoveAt_spec h index hfits).mono fun _ hr => hr.1)
  | clear =>
    simp only [RarrayFits, h.size, h.valueSize] at hfits
    exact (rarrayClear_spec h hfits).mono fun _ hr => hr.1

instance (ar : Rarray V) (op : RarrayOp V) : Decidable (RarrayBounded ar op) :=
  match op with
  | .add _ _ => inferInstanceAs (Decidable (_ < _))
  | .remove _ | .removeAt _ | .clear => inferInstanceAs (Decidable True)

instance (F : RarrayFuncs V) (ar : Rarray V) (index : Nat) : Decidable (RarrayMovable F ar index) :=
  inferInstanceAs (Decidable (_ ∨ _))

instance (F : RarrayFuncs V) (ar : Rarray V) (op : RarrayOp V) : Decidable (RarrayFits F ar op) :=
  match op with
  | .add _ _ => inferInstanceAs (Decidable (_ → _))
  | .remove val => inferInstanceAs (Decidable (∀ i ∈ List.findIdx? (F.equal · val) _, RarrayMovable F ar i))
  | .removeAt index => inferInstanceAs (Decidable (_ → RarrayMovable F ar index))
  | .clear => inferInstanceAs (Decidable (_ ≤ _))

def RarrayGuard (F : RarrayFuncs V) (ar : Rarray V) (op : RarrayOp V) : Prop :=
  RarrayBounded ar op ∧ RarrayFits F ar op

theorem rarray_rep_run {initCapacity : Nat} {ops : List (RarrayOp V)}
    (hrun : Steps (Guarded (RarrayGuard F) (RarrayStep F)) (rarrayCreate F.type.size initCapacity) ops ar) :
    RarrayRep F ar (ops.foldl (listStep F) []) := by
  refine Steps.simulate (R := fun ar l => RarrayRep F ar l) ?_ hrun (rarrayCreate_rep F initCapacity)
  rintro ar op ar' l hrep ⟨⟨hbounded, hfits⟩, -, hcall⟩
  exact (rarrayCall_spec hrep hbounded hfits).returns ar' hcall

theorem rarray_holds_run {initCapacity : Nat} {ops : List (RarrayOp V)}
    (hrun : Steps (Guarded (RarrayGuard F) (RarrayStep F)) (rarrayCreate F.type.size initCapacity) ops ar) :
    RarrayHolds ar (ops.foldl (listStep F) []) ∧
      ∀ op, RarrayGuard F ar op → RarrayAllowed F op → ∃ ar', RarrayStep F ar op ar' := by
  have hrep := rarray_rep_run hrun
  refine ⟨hrep.holds, fun op hguard hallowed => ?_⟩
  obtain ⟨ar', hcall, -⟩ := rarrayCall_spec hrep hguard.1 hguard.2
  exact ⟨ar', hallowed, hcall⟩

/-- An array of pointers, compared as `compare_func_default` does; `copy` is what `copy_value_func` returns. -/
def ptrFuncs (copyValue : Bool) (copies : Nat → Nat → Prop) : RarrayFuncs Nat :=
  ⟨.ptr, copyValue, copies, fun a b => if a = b then 0 else 2⟩

theorem rarray_holds_full : RarrayHolds (⟨8, 2, 2, [7, 5], [6]⟩ : Rarray Nat) [7, 5] := by
  set F := ptrFuncs false fun _ _ => False
  have h₁ : RarrayStep F (rarrayCreate 8 2) (.add 7 7) ⟨8, 1, 2, [7, 0], []⟩ := ⟨rfl, rfl⟩
  have h₂ : RarrayStep F ⟨8, 1, 2, [7, 0], []⟩ (.add 6 6) ⟨8, 2, 2, [7, 6], []⟩ := ⟨rfl, rfl⟩
  have h₃ : RarrayStep F ⟨8, 2, 2, [7, 6], []⟩ (.remove 6) ⟨8, 1, 2, [7, 0], [6]⟩ := ⟨trivial, rfl⟩
  have h₄ : RarrayStep F ⟨8, 1, 2, [7, 0], [6]⟩ (.add 5 5) ⟨8, 2, 2, [7, 5], [6]⟩ := ⟨rfl, rfl⟩
  have hrun : Steps (Guarded (RarrayGuard F) (RarrayStep F)) (rarrayCreate 8 2)
      [.add 7 7, .add 6 6, .remove 6, .add 5 5] ⟨8, 2, 2, [7, 5], [6]⟩ :=
    .cons ⟨⟨by decide, by decide⟩, h₁⟩ (.cons ⟨⟨by decide, by decide⟩, h₂⟩
      (.cons ⟨⟨by decide, by decide⟩, h₃⟩ (.cons ⟨⟨by decide, by decide⟩, h₄⟩ (.nil _))))
  exact (rarray_holds_run hrun).1

/-! ### A clear that clears nothing -/

section bigArray

variable {n : Nat} (x : Nat) (freed : List Nat) (copyValue : Bool) (copies : Nat → Nat → Prop)

/-- An array of `n + 1` pointers with `x` in its first slot. -/
def bigArray (n size x : Nat) (freed : List Nat) : Rarray Nat :=
  ⟨8, size, n + 1, x :: List.replicate n 0, freed⟩

theorem bigArray_rep : RarrayRep (ptrFuncs copyValue copies) (bigArray n 1 x freed) [x] :=
  ⟨rfl, rfl, Nat.succ_pos n, Nat.succ_pos n, by simp, rfl⟩

theorem bigArray_add :
    rarrayAdd (ptrFuncs copyValue copies) x (rarrayCreate 8 (n + 1)) = .ok (bigArray n 1 x []) :=
  rarrayAdd_ok (rarrayCreate_rep (ptrFuncs copyValue copies) (n + 1)) (Nat.succ_pos n) x

theorem bigArray_clear (hn : n + 1 = 536870912) :
    rarrayClear (bigArray n 1 x freed) = .ok (bigArray n 0 x (freed ++ [x])) := by
  apply rarrayClear_wraps (bigArray_rep x freed true fun _ _ => False)
  show (n + 1) * 8 % 4294967296 = 0
  rw [hn]

end bigArray

/-- An array with room for 2^29 pointers: `rarray_add`, `rarray_clear`, and the element is still in its slot. -/
theorem rarray_clear_wraps : ∃ (ops : List (RarrayOp Nat)) (ar : Rarray Nat),
    Steps (Guarded RarrayBounded (RarrayStep (ptrFuncs false fun _ _ => False)))
      (rarrayCreate 8 536870912) ops ar ∧
      ¬ RarrayHolds ar (ops.foldl (listStep (ptrFuncs false fun _ _ => False)) []) := by
  obtain ⟨n, hn⟩ : ∃ n, n + 1 = 536870912 := ⟨536870911, rfl⟩
  rw [← hn]
  refine ⟨[.add 7 7, .clear], bigArray n 0 7 [7], ?_, fun h => ?_⟩
  · exact .cons ⟨show 0 + 1 < 2147483648 by decide, rfl, bigArray_add 7 _ _⟩ (.cons ⟨trivial, trivial, bigArray_clear 7 [] hn⟩ (.nil _))
  · have hzero := h.tail 0 (Nat.succ_pos n) (Nat.le_refl _)
    simp [bigArray] at hzero

/-! ### Ownership -/

/-- What was held or made is held or freed. -/
theorem rarrayCall_moves (hF : F.Copying) (h : RarrayRep F ar l) (hne : ∀ x ∈ l, x ≠ 0) {op : RarrayOp V}
    (hguard : RarrayGuard F ar op) :
    (rarrayCall F ar op).Succeeds fun ar' => (ar'.freed ++ listStep F l op).Perm (ar.freed ++ l ++ op.made) := by
  obtain ⟨hbounded, hfits⟩ := hguard
  cases op with
  | add obj v =>
    simp only [RarrayBounded, RarrayFits, h.size, h.valueSize] at hbounded hfits
    refine (rarrayAdd_spec h hbounded hfits v).mono fun ar' hr => ?_
    rw [hr.2, listStep, RarrayOp.made, List.append_assoc]
  | remove val =>
    rw [RarrayFits, h.elems] at hfits
    simp only [RarrayMovable, h.size, h.valueSize] at hfits
    refine Succeeds.map ((rarrayRemove_spec h val hfits).mono fun r hr => ?_)
    simpa [listStep, RarrayOp.made] using hr.2 hF.ne_int hne
  | removeAt index =>
    simp only [RarrayFits, RarrayMovable, h.size, h.valueSize] at hfits
    refine Succeeds.map ((rarrayRemoveAt_spec h index hfits).mono fun r hr => ?_)
    simpa [listStep, RarrayOp.made] using hr.2 hF.ne_int hne
  | clear =>
    simp only [RarrayFits, h.size, h.valueSize] at hfits
    refine (rarrayClear_spec h hfits).mono fun ar' hr => ?_
    simp [hr.2, listStep, RarrayOp.made]

/-- The array and its list, with the copies made so far. -/
structure RarrayOwns (F : RarrayFuncs V) (ar : Rarray V) (s : List V × List V) : Prop where
  rep : RarrayRep F ar s.1
  ne_zero : ∀ x ∈ s.1, x ≠ 0
  perm : (ar.freed ++ s.1).Perm s.2

theorem rarray_owned_run (hF : F.Copying) {initCapacity : Nat} {ops : List (RarrayOp V)}
    (hrun : Steps (Guarded (RarrayGuard F) (RarrayStep F)) (rarrayCreate F.type.size initCapacity) ops ar) :
    RarrayOwns F ar (ops.foldl (listStep F) [], ops.flatMap RarrayOp.made) := by
  have hstart : RarrayOwns F (rarrayCreate F.type.size initCapacity) ([], []) :=
    ⟨rarrayCreate_rep F initCapacity, by simp, List.Perm.refl _⟩
  have hend : RarrayOwns F ar (ops.foldl (ownedStep F) ([], [])) := by
    refine Steps.simulate (R := RarrayOwns F) ?_ hrun hstart
    rintro ar op ar' ⟨l, made⟩ ⟨hrep, hne, hperm⟩ ⟨hguard, hallowed, hcall⟩
    refine ⟨(rarrayCall_spec hrep hguard.1 hguard.2).returns ar' hcall, fun x hx => ?_, ?_⟩
    · rcases mem_listStep hx with hx | hx
      · exact hne x hx
      · cases op with
        | add obj v =>
          obtain rfl : x = v := List.mem_singleton.mp hx
          exact hF.stores hallowed
        | remove val => cases hx
        | removeAt index => cases hx
        | clear => cases hx
    · exact ((rarrayCall_moves hF hrep hne hguard).returns ar' hcall).trans (hperm.append_right _)
  rwa [foldl_made] at hend

/-- At every time each copy is held or has been freed once, and a release frees the rest. -/
theorem rarray_owns_run (hF : F.Copying) {initCapacity : Nat} {ops : List (RarrayOp V)}
    (hrun : Steps (Guarded (RarrayGuard F) (RarrayStep F)) (rarrayCreate F.type.size initCapacity) ops ar) :
    (ar.freed ++ ops.foldl (listStep F) []).Perm (ops.flatMap RarrayOp.made) ∧
      (RarrayFits F ar .clear → (rarrayRelease ar).Succeeds fun freed =>
        freed.Perm (ops.flatMap RarrayOp.made)) := by
  obtain ⟨hrep, -, hperm⟩ := rarray_owned_run hF hrun
  refine ⟨hperm, fun hfits => ?_⟩
  simp only [RarrayFits, hrep.size, hrep.valueSize] at hfits
  refine Succeeds.bind (rarrayClear_spec hrep hfits) ?_
  rintro ar' ⟨-, hfreed⟩
  refine Succeeds.ok ?_
  rw [hfreed]
  exact hperm

theorem rarray_owns_strings : ∃ freed : List Nat,
    rarrayRelease (⟨8, 1, 2, [106, 0], [107]⟩ : Rarray Nat) = .ok freed ∧ freed.Perm [107, 106] := by
  set F : RarrayFuncs Nat := ⟨.string, false, fun obj v => v = obj + 100, fun a b => if a = b then 0 else 2⟩
  have hF : F.Copying := ⟨Or.inl rfl, fun obj v h => by rw [h]; exact Nat.succ_ne_zero _⟩
  have h₁ : RarrayStep F (rarrayCreate 8 2) (.add 7 107) ⟨8, 1, 2, [107, 0], []⟩ := ⟨rfl, rfl⟩
  have h₂ : RarrayStep F ⟨8, 1, 2, [107, 0], []⟩ (.add 6 106) ⟨8, 2, 2, [107, 106], []⟩ := ⟨rfl, rfl⟩
  have h₃ : RarrayStep F ⟨8, 2, 2, [107, 106], []⟩ (.removeAt 0) ⟨8, 1, 2, [106, 0], [107]⟩ := ⟨trivial, rfl⟩
  have hrun : Steps (Guarded (RarrayGuard F) (RarrayStep F)) (rarrayCreate 8 2)
      [.add 7 107, .add 6 106, .removeAt 0] ⟨8, 1, 2, [106, 0], [107]⟩ :=
    .cons ⟨⟨by decide, by decide⟩, h₁⟩ (.cons ⟨⟨by decide, by decide⟩, h₂⟩
      (.cons ⟨⟨by decide, by decide⟩, h₃⟩ (.nil _)))
  exact (rarray_owns_run hF hrun).2 (by decide)

/-- After the clear that clears nothing the next `rarray_add` frees the copy again. -/
theorem rarray_frees_twice : ∃ (ops : List (RarrayOp Nat)) (ar : Rarray Nat),
    Steps (Guarded RarrayBounded (RarrayStep (ptrFuncs true fun obj v => v = obj + 100)))
      (rarrayCreate 8 536870912) ops ar ∧
      ¬ ∃ freed, rarrayRelease ar = .ok freed ∧ freed.Perm (ops.flatMap RarrayOp.made) := by
  obtain ⟨n, hn⟩ : ∃ n, n + 1 = 536870912 := ⟨536870911, rfl⟩
  rw [← hn]
  have hstore : rarrayAdd (ptrFuncs true fun obj v => v = obj + 100) 108 (bigArray n 0 107 [107]) =
      .ok (bigArray n 1 108 [107, 107]) := rfl
  refine ⟨[.add 7 107, .clear, .add 8 108], bigArray n 1 108 [107, 107], ?_, ?_⟩
  · exact .cons ⟨show 0 + 1 < 2147483648 by decide, rfl, bigArray_add 107 _ _⟩ (.cons ⟨trivial, trivial, bigArray_clear 107 [] hn⟩
      (.cons ⟨show 0 + 1 < 2147483648 by decide, rfl, hstore⟩ (.nil _)))
  · rintro ⟨freed, hrelease, hperm⟩
    rw [rarrayRelease, bigArray_clear _ _ hn] at hrelease
    obtain rfl : [107, 107, 108] = freed := Except.ok.inj hrelease
    have hlen := hperm.length_eq
    simp [RarrayOp.made] at hlen

end Funra
