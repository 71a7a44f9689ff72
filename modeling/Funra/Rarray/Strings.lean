import Funra.Rarray.Runs

/-!
# Membership in a string array

`rarray_init` leaves the `compare_func_default` of `rarray_create` in place, which compares pointers, where
`rlist_init` installs the compare function of the element type. So `rarray_exist` and `rarray_remove` look for
an address (`strings_exist`, `strings_remove`). They answer by the characters just when the first element with
the characters of the string is the string itself (`strings_byValue_iff`).
-/

namespace Funra

open Mem System CInt Except

variable {copies : Nat → Nat → Prop} {ar : Rarray Nat} {l : List Nat} {s : Nat}

/-- An array of strings; a value is the address of its first character, and `copies` says what `rstr_cpy` may
return. -/
def stringFuncs (copies : Nat → Nat → Prop) : RarrayFuncs Nat :=
  ⟨.string, false, copies, fun a b => if a = b then 0 else 2⟩

/-- The elements. -/
def Rarray.elems (ar : Rarray Nat) : List Nat := ar.items.take ar.size

/-- The element has the characters of the string at `s`; `text` is what the memory holds behind an address. -/
def sameText (text : Nat → List UInt8) (s v : Nat) : Bool := text v == text s

/-- Membership goes by the characters. -/
structure ByValue (F : RarrayFuncs Nat) (text : Nat → List UInt8) (ar : Rarray Nat) (s : Nat) : Prop where
  exist : rarrayExist F s ar = .ok (ar.elems.any (sameText text s))
  remove : (rarrayRemove F s ar).Succeeds fun r =>
    r.1 = (if ar.elems.any (sameText text s) then 0 else 4) ∧
      r.2.elems = ar.elems.eraseP (sameText text s) ∧
      (ar.elems.any (sameText text s) = false → r.2 = ar)

/-! ### By the address -/

theorem stringFuncs_equal : ((stringFuncs copies).equal · s) = (· == s) := by
  funext v
  by_cases hv : v = s
  · simp [RarrayFuncs.equal, stringFuncs, hv]
  · simp [RarrayFuncs.equal, stringFuncs, hv]

theorem strings_exist (h : RarrayRep (stringFuncs copies) ar l) :
    rarrayExist (stringFuncs copies) s ar = .ok (l.any (· == s)) := by
  rw [rarrayExist_eq h, stringFuncs_equal]

theorem strings_remove (h : RarrayRep (stringFuncs copies) ar l)
    (hguard : RarrayGuard (stringFuncs copies) ar (.remove s)) :
    (rarrayRemove (stringFuncs copies) s ar).Succeeds fun r =>
      r.1 = (if l.any (· == s) then 0 else 4) ∧ r.2.elems = l.erase s ∧
        (l.any (· == s) = false → r.2 = ar) := by
  have hfits := hguard.2
  rw [RarrayFits, h.elems] at hfits
  simp only [RarrayMovable, h.size, h.valueSize] at hfits
  obtain ⟨r, hrun, hrep, -⟩ := rarrayRemove_spec h s hfits
  have helems : r.2.elems = l.erase s := by
    rw [Rarray.elems, hrep.elems, stringFuncs_equal, List.erase_eq_eraseP']
  refine ⟨r, hrun, ?_, helems, ?_⟩
  · rcases rarrayRemove_code h hrun with ⟨hany, hcode⟩ | ⟨hany, rfl⟩
    · rw [stringFuncs_equal] at hany
      rw [hcode, if_pos hany]
    · rw [stringFuncs_equal] at hany
      rw [if_neg (by simp [hany])]
  · intro hno
    rcases rarrayRemove_code h hrun with ⟨hany, -⟩ | ⟨-, rfl⟩
    · rw [stringFuncs_equal, hno] at hany
      cases hany
    · rfl

/-! ### By the characters -/

/-- Two searches of which one accepts `s` only: they find and erase the same just when the other one ends at `s`. -/
theorem search_iff {p : Nat → Bool} (hs : p s = true) (l : List Nat) :
    l.any (· == s) = l.any p ∧ l.erase s = l.eraseP p ↔ ∀ v ∈ l.find? p, v = s := by
  induction l with
  | nil => simp
  | cons x l ih =>
    by_cases hp : p x = true
    · rw [List.find?_cons_of_pos hp, List.eraseP_cons_of_pos hp]
      simp only [Option.mem_some_iff, forall_eq']
      constructor
      · rintro ⟨hany, herase⟩
        by_contra hx
        rw [List.erase_cons_tail (by simpa using hx)] at herase
        have hmem : s ∈ x :: l := by
          rw [List.any_cons (f := p), hp, Bool.true_or] at hany
          obtain ⟨y, hy, heq⟩ := List.any_eq_true.mp hany
          exact beq_iff_eq.mp heq ▸ hy
        have hperm : (x :: l).Perm (s :: l) := by
          calc (x :: l).Perm (s :: (x :: l).erase s) := List.perm_cons_erase hmem
            _ = s :: l := by rw [List.erase_cons_tail (by simpa using hx), herase]
        have hcount := hperm.count_eq x
        simp [Ne.symm hx] at hcount
      · rintro rfl
        simp [hp]
    · have hx : x ≠ s := fun heq => hp (heq ▸ hs)
      have hxs : (x == s) = false := by simpa using hx
      rw [List.find?_cons_of_neg hp, List.eraseP_cons_of_neg hp, List.erase_cons_tail (by simp [hxs]), ← ih]
      simp [hp, hxs]

/-- In every array a run leaves, and for every string, membership goes by the characters just when no element has
those of the string or the first one that has them is the string itself. -/
theorem strings_byValue_iff {initCapacity : Nat} {ops : List (RarrayOp Nat)}
    (hrun : Steps (Guarded (RarrayGuard (stringFuncs copies)) (RarrayStep (stringFuncs copies)))
      (rarrayCreate 8 initCapacity) ops ar) (text : Nat → List UInt8) {s : Nat}
    (hguard : RarrayGuard (stringFuncs copies) ar (.remove s)) :
    ByValue (stringFuncs copies) text ar s ↔ ∀ v ∈ ar.elems.find? (sameText text s), v = s := by
  have hrep : RarrayRep (stringFuncs copies) ar ar.elems := by
    have h := rarray_rep_run hrun
    rwa [← h.elems] at h
  have hs : sameText text s s = true := by simp [sameText]
  rw [← search_iff hs]
  obtain ⟨r, hremove, hcode, helems, hsame⟩ := strings_remove hrep hguard
  constructor
  · rintro ⟨hexist, hby⟩
    have hany := Except.ok.inj ((strings_exist hrep).symm.trans hexist)
    refine ⟨hany, ?_⟩
    rw [← helems]
    exact (hby.returns r hremove).2.1
  · rintro ⟨hany, herase⟩
    refine ⟨?_, r, hremove, ?_, ?_, ?_⟩
    · rw [strings_exist hrep, hany]
    · rw [hcode, hany]
    · rw [helems, herase]
    · rw [← hany]
      exact hsame

/-- The copy of "a" at 7 is at 107. -/
theorem oneString_run : Steps (Guarded (RarrayGuard (stringFuncs fun obj v => v = obj + 100))
    (RarrayStep (stringFuncs fun obj v => v = obj + 100))) (rarrayCreate 8 2) [.add 7 107]
    ⟨8, 1, 2, [107, 0], []⟩ :=
  .cons ⟨⟨by decide, by decide⟩, rfl, rfl⟩ (.nil _)

theorem strings_byValue_iff_one :
    ByValue (stringFuncs fun obj v => v = obj + 100) (fun _ => [97]) ⟨8, 1, 2, [107, 0], []⟩ 107 ↔
      ∀ v ∈ (⟨8, 1, 2, [107, 0], []⟩ : Rarray Nat).elems.find? (sameText (fun _ => [97]) 107), v = 107 :=
  strings_byValue_iff oneString_run _ ⟨by decide, by decide⟩

/-- "a" at 7 is not found, the array holds its copy at 107. -/
theorem string_not_found : ¬ ∀ (ops : List (RarrayOp Nat)) (ar : Rarray Nat) (text : Nat → List UInt8) (s : Nat),
    Steps (Guarded (RarrayGuard (stringFuncs fun obj v => v = obj + 100))
      (RarrayStep (stringFuncs fun obj v => v = obj + 100))) (rarrayCreate 8 2) ops ar →
      RarrayGuard (stringFuncs fun obj v => v = obj + 100) ar (.remove s) →
      ByValue (stringFuncs fun obj v => v = obj + 100) text ar s := by
  intro hall
  have hby := hall _ _ (fun _ => [97]) 7 oneString_run ⟨by decide, by decide⟩
  have hexist : rarrayExist (stringFuncs fun obj v => v = obj + 100) 7 ⟨8, 1, 2, [107, 0], []⟩ = .ok false := rfl
  have heq := Except.ok.inj (hexist.symm.trans hby.exist)
  exact absurd heq (by decide)

end Funra
