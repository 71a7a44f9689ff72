import Funra.Rarray.Refine

/-!
# Arrays of ints that only grow

The string functions collect positions in arrays of `int` by additions alone. The capacities are then the first one
times powers of two. The growth of an array of 2^30 elements or more copies too few of them, as the bytes are
counted in 32 bits: the others become 0 (`stored`). With fewer than 2^31 elements in all this happens once at
most.
-/

namespace Funra

open Mem CInt Except

variable {ar : Rarray Int} {l : List Int} {c K k : Nat}

def intArrayFuncs : RarrayFuncs Int := ⟨.int, false, fun _ _ => False, fun a b => if a = b then 0 else 2⟩

/-- The elements. -/
def Rarray.ints (ar : Rarray Int) : List Int := ar.items.take ar.size

def toInts (l : List Nat) : List Int := l.map fun p : Nat => (p : Int)

@[simp] theorem toInts_length (l : List Nat) : (toInts l).length = l.length := List.length_map _

/-- What is left of the elements once the array has outgrown the capacity `b`. -/
def stored (b : Nat) (l : List Int) : List Int :=
  if l.length ≤ b then l else l.take (b % 1073741824) ++ List.replicate (b - b % 1073741824) 0 ++ l.drop b

/-- From a first capacity of `c` on, `c * 2 ^ K` is the one with 2^30 slots or more that ints can count. -/
structure Doubling (c K : Nat) : Prop where
  pos : 0 < c
  lt : c < 16777216
  ge : 1073741824 ≤ c * 2 ^ K
  below : c * 2 ^ K < 2147483648

/-- `l` was added to an empty array of capacity `c`. -/
structure IntArray (c K : Nat) (ar : Rarray Int) (l : List Int) : Prop where
  rep : RarrayRep intArrayFuncs ar (stored (c * 2 ^ K) l)
  capacity : ∃ k ≤ K + 1, ar.capacity = c * 2 ^ k ∧ (k = K + 1 → c * 2 ^ K < l.length)

theorem stored_of_le {b : Nat} (h : l.length ≤ b) : stored b l = l := if_pos h

@[simp] theorem stored_length (b : Nat) (l : List Int) : (stored b l).length = l.length := by
  rw [stored]
  split
  next => rfl
  next hlt =>
    have hmod := Nat.mod_le b 1073741824
    simp only [List.length_append, List.length_take, List.length_replicate, List.length_drop]
    omega

theorem stored_append {b : Nat} (hne : l.length ≠ b) (v : Int) : stored b (l ++ [v]) = stored b l ++ [v] := by
  unfold stored
  have hmod := Nat.mod_le b 1073741824
  rw [List.length_append, List.length_singleton]
  split
  next hle => rw [if_pos (by omega)]
  next hgt =>
    rw [if_neg (by omega), List.take_append_of_le_length (by omega), List.drop_append_of_le_length (by omega)]
    simp only [List.append_assoc]

/-- An entry that was lost reads 0. -/
theorem stored_getD (b : Nat) (l : List Int) (t : Nat) :
    (stored b l).getD t 0 = l.getD t 0 ∨ (stored b l).getD t 0 = 0 ∧ t < b ∧ b < l.length := by
  unfold stored
  split
  next => exact Or.inl rfl
  next hlt =>
    have hmod := Nat.mod_le b 1073741824
    simp only [List.getD_eq_getElem?_getD]
    by_cases hfirst : t < b % 1073741824
    · left
      rw [List.append_assoc, List.getElem?_append_left (by rw [List.length_take]; omega), List.getElem?_take_of_lt hfirst]
    · rw [List.append_assoc, List.getElem?_append_right (by rw [List.length_take]; omega), List.length_take]
      by_cases hlost : t < b
      · right
        rw [List.getElem?_append_left (by rw [List.length_replicate]; omega), List.getElem?_replicate]
        split
        · exact ⟨rfl, hlost, by omega⟩
        · exact ⟨rfl, hlost, by omega⟩
      · left
        rw [List.getElem?_append_right (by rw [List.length_replicate]; omega), List.length_replicate,
          List.getElem?_drop]
        congr 2
        omega

theorem stored_lost {b t : Nat} (hlen : b < l.length) (hlo : b % 1073741824 ≤ t) (hhi : t < b) :
    (stored b l)[t]? = some 0 := by
  rw [stored, if_neg (by omega), List.append_assoc,
    List.getElem?_append_right (by rw [List.length_take]; omega), List.length_take,
    List.getElem?_append_left (by rw [List.length_replicate]; omega), List.getElem?_replicate, if_pos (by omega)]

/-- Nothing is lost where all is 0. -/
theorem stored_of_zero {b : Nat} (h : ∀ t < b, l.getD t 0 = 0) : stored b l = l := by
  apply List.ext_getElem (stored_length b l)
  intro t ht ht'
  rw [← List.getD_eq_getElem (stored b l) 0 ht, ← List.getD_eq_getElem l 0 ht']
  rcases stored_getD b l t with heq | ⟨hzero, hlt, -⟩
  · exact heq
  · rw [hzero, h t hlt]

theorem stored_toInts (b : Nat) (ps : List Nat) : ∃ P : List Nat, stored b (toInts ps) = toInts P ∧
    P.length = ps.length ∧ (∀ p ∈ P, p ∈ ps ∨ p = 0) ∧ (ps.length ≤ b → P = ps) := by
  by_cases hle : ps.length ≤ b
  · exact ⟨ps, stored_of_le (by rwa [toInts_length]), rfl, fun p hp => Or.inl hp, fun _ => rfl⟩
  · have hmod := Nat.mod_le b 1073741824
    refine ⟨ps.take (b % 1073741824) ++ List.replicate (b - b % 1073741824) 0 ++ ps.drop b, ?_, ?_, ?_,
      fun h => absurd h hle⟩
    · rw [stored, if_neg (by rwa [toInts_length])]
      simp only [toInts, List.map_append, List.map_take, List.map_drop, List.map_replicate]
      rfl
    · simp only [List.length_append, List.length_take, List.length_replicate, List.length_drop]
      omega
    · intro p hp
      rcases List.mem_append.mp hp with hp | hp
      · rcases List.mem_append.mp hp with hp | hp
        · exact Or.inl (List.mem_of_mem_take hp)
        · exact Or.inr (List.eq_of_mem_replicate hp)
      · exact Or.inl (List.mem_of_mem_drop hp)

theorem toInts_injective {l l' : List Nat} (h : toInts l = toInts l') : l = l' :=
  List.map_injective_iff.mpr (fun _ _ heq => Int.ofNat.inj heq) h

/-! ### Growth -/

theorem floatOfNat_mul_two_pow (hc : c < 16777216) (k : Nat) : floatOfNat (c * 2 ^ k) = c * 2 ^ k := by
  unfold floatOfNat
  dsimp only
  have hdvd : 2 ^ (Nat.log2 (c * 2 ^ k) - 23) ∣ c * 2 ^ k := by
    rcases Nat.eq_zero_or_pos c with rfl | hpos
    · simp
    · refine (pow_dvd_pow 2 ?_).trans (Nat.dvd_mul_left (2 ^ k) c)
      have hlt : Nat.log2 (c * 2 ^ k) < 24 + k := by
        rw [Nat.log2_lt (Nat.mul_pos hpos (Nat.two_pow_pos k)).ne', Nat.pow_add]
        exact Nat.mul_lt_mul_of_pos_right hc (Nat.two_pow_pos k)
      omega
  rw [Nat.mod_eq_zero_of_dvd hdvd, if_neg]
  · exact Nat.div_mul_cancel hdvd
  · have hpos := Nat.two_pow_pos (Nat.log2 (c * 2 ^ k) - 23)
    omega

theorem rarrayScale_mul_two_pow (hc : c < 16777216) (hlt : c * 2 ^ k < 2147483648) :
    rarrayScale (c * 2 ^ k) = c * 2 ^ (k + 1) := by
  rw [rarrayScale, floatOfNat_mul_two_pow hc, uint32_of_range (by omega) (by omega), Nat.pow_succ,
    ← Nat.mul_assoc]
  omega

theorem rarrayAlloc_int (h : RarrayRep intArrayFuncs ar l) {capacity : Nat} (hcap : l.length < capacity) :
    (rarrayAlloc capacity ar).Succeeds fun ar' => ar'.capacity = capacity ∧ RarrayRep intArrayFuncs ar'
      (l.take (l.length % 1073741824) ++ List.replicate (l.length - l.length % 1073741824) 0) := by
  have hlt := h.lt
  have hle := h.le
  have hmod := Nat.mod_le l.length 1073741824
  have hsize : ar.valueSize = 4 := h.valueSize
  have hcopy : int32 (ar.size : Int) = l.length := by rw [h.size, int32_of_range (by omega) (by omega)]
  have hn : (uint32 ((l.length : Int) * ((4 : Nat) : Int))).toNat / 4 = l.length % 1073741824 := by
    unfold uint32
    omega
  unfold rarrayAlloc
  dsimp only
  rw [hcopy, hsize, hn]
  split
  next hpos =>
    generalize l.length % 1073741824 = n at hmod
    have hlen : (l.take n ++ List.replicate (l.length - n) (0 : Int)).length = l.length := by
      simp only [List.length_append, List.length_take, List.length_replicate]
      omega
    rw [if_pos ⟨by rw [h.items_length]; omega, by rw [List.length_replicate]; omega⟩]
    refine Succeeds.ok ⟨rfl, ⟨rfl, ?_, Nat.zero_lt_of_lt hcap, ?_, ?_, ?_⟩⟩
    · rw [hlen]
      exact h.size
    · rw [hlen]
      exact hcap.le
    · rwa [hlen]
    · dsimp only
      rw [hlen, h.items, List.take_append_of_le_length hmod, List.drop_replicate, List.append_assoc,
        List.replicate_append_replicate, show l.length - n + (capacity - l.length) = capacity - n by omega]
  next hzero =>
    obtain rfl : l = [] := List.length_eq_zero_iff.mp (by omega)
    exact Succeeds.ok ⟨rfl, ⟨rfl, h.size, hcap, Nat.zero_le _, hlt, by simp⟩⟩

theorem rarrayAdd_append (h : RarrayRep intArrayFuncs ar l) (hlt : l.length < ar.capacity)
    (hlen : l.length + 1 < 2147483648) (v : Int) :
    (rarrayAdd intArrayFuncs v ar).Succeeds fun ar' => ar'.capacity = ar.capacity ∧ RarrayRep intArrayFuncs ar' (l ++ [v]) := by
  refine ⟨_, rarrayAdd_ok h hlt v, rfl, h.valueSize, by simp, h.pos, by simpa using Nat.succ_le_of_lt hlt,
    by simpa using hlen, ?_⟩
  dsimp only
  rw [List.append_assoc, List.singleton_append, List.length_append, List.length_singleton, Nat.sub_sub]

theorem intArray_create (hc : Doubling c K) : IntArray c K (rarrayCreate 4 c) [] := by
  have hpos := hc.pos
  refine ⟨?_, 0, Nat.zero_le _, ?_, fun h => absurd h (Nat.succ_ne_zero K).symm⟩
  · rw [stored_of_le (Nat.zero_le _)]
    refine ⟨rfl, rfl, ?_, Nat.zero_le _, by decide, ?_⟩ <;> simp [rarrayCreate, hpos]
  · simp [rarrayCreate, hpos]

theorem IntArray.add (hc : Doubling c K) (h : IntArray c K ar l) (hlen : l.length + 1 < 2147483648) (v : Int) :
    (rarrayAdd intArrayFuncs v ar).Succeeds fun ar' => IntArray c K ar' (l ++ [v]) := by
  obtain ⟨k, hk, hcap, hlast⟩ := h.capacity
  have hle := h.rep.le
  have hpow : k ≤ K → c * 2 ^ k ≤ c * 2 ^ K := fun hkK => Nat.mul_le_mul_left c (Nat.pow_le_pow_right (by decide) hkK)
  have hge := hc.ge
  have hbelow := hc.below
  rw [stored_length] at hle
  rcases hle.lt_or_eq with hlt | hfull
  · have hne : l.length ≠ c * 2 ^ K := by
      intro heq
      rcases Nat.le_succ_iff.mp hk with hkK | rfl
      · have hle' := hpow hkK
        omega
      · exact absurd (hlast rfl) (by omega)
    refine (rarrayAdd_append h.rep (by rwa [stored_length]) (by rwa [stored_length]) v).mono ?_
    rintro ar' ⟨hcap', hrep⟩
    rw [← stored_append hne] at hrep
    refine ⟨hrep, k, hk, hcap'.trans hcap, fun hkK => ?_⟩
    rw [List.length_append]
    exact Nat.lt_add_right 1 (hlast hkK)
  · -- the array is full and grows
    have hkK : k ≤ K := by
      rcases Nat.le_succ_iff.mp hk with hkK | rfl
      · exact hkK
      · rw [Nat.pow_succ, ← Nat.mul_assoc] at hcap
        omega
    have hle' := hpow hkK
    have hstored : stored (c * 2 ^ K) l = l := stored_of_le (by omega)
    have hrep := h.rep
    rw [hstored] at hrep
    have hscale : rarrayScale ar.capacity = c * 2 ^ (k + 1) := by
      rw [hcap, rarrayScale_mul_two_pow hc.lt (by omega)]
    have hdouble : c * 2 ^ (k + 1) = 2 * l.length := by
      rw [hfull, hcap, Nat.pow_succ, ← Nat.mul_assoc]
      omega
    have hpos : 0 < l.length := by rw [hfull]; exact hrep.pos
    change (Except.bind (if ar.capacity ≤ ar.size then _ else _) _).Succeeds _
    rw [if_pos (by rw [hrep.size, hfull]), hscale]
    refine Succeeds.bind (rarrayAlloc_int hrep (by omega)) ?_
    rintro ar' ⟨hcap', hrep'⟩
    have hlen' : (l.take (l.length % 1073741824) ++ List.replicate (l.length - l.length % 1073741824) (0 : Int)).length =
        l.length := by
      have hmod := Nat.mod_le l.length 1073741824
      simp only [List.length_append, List.length_take, List.length_replicate]
      omega
    have hgo : (rarrayAdd intArrayFuncs v ar').Succeeds _ :=
      rarrayAdd_append hrep' (by omega) (by omega) v
    rw [rarrayAdd, if_neg (by rw [hrep'.size, hlen', hcap']; omega)] at hgo
    refine hgo.mono ?_
    rintro ar'' ⟨hcap'', hrep''⟩
    refine ⟨?_, k + 1, by omega, by rw [hcap'', hcap'], fun hkK' => ?_⟩
    · convert hrep'' using 1
      rcases hkK.lt_or_eq with hklt | rfl
      · have hsmall : l.length < 1073741824 := by
          have hle'' : c * 2 ^ (k + 1) ≤ c * 2 ^ K := Nat.mul_le_mul_left c (Nat.pow_le_pow_right (by decide) hklt)
          omega
        rw [stored_of_le (by rw [List.length_append, List.length_singleton]; omega), Nat.mod_eq_of_lt hsmall]
        simp
      · rw [stored, if_neg (by rw [List.length_append, List.length_singleton]; omega), ← hcap, ← hfull,
          List.take_append_of_le_length (Nat.mod_le _ _), List.drop_left']
        rfl
    · rw [List.length_append, List.length_singleton]
      obtain rfl : k = K := Nat.succ.inj hkK'
      omega

/-! ### Reading -/

theorem IntArray.ints_eq (h : IntArray c K ar l) : ar.ints = stored (c * 2 ^ K) l := by
  rw [Rarray.ints, h.rep.size, h.rep.items, List.take_left']
  rfl

theorem IntArray.size_eq (h : IntArray c K ar l) : ar.size = l.length := by
  rw [h.rep.size, stored_length]

theorem rarrayRelease_ok (h : RarrayRep intArrayFuncs ar l) : (rarrayRelease ar).Succeeds fun _ => True := by
  change (Except.bind (Except.bind (rarrayFor ar _ ar.freed) _) _).Succeeds _
  rw [rarrayFor_eq h, forUntil_collect]
  have hle : (uint32 ((ar.valueSize : Int) * ar.capacity)).toNat / ar.valueSize ≤ ar.capacity := by
    rw [← Nat.cast_mul, uint32]
    refine Nat.div_le_of_le_mul ?_
    omega
  change (Except.bind (Except.bind (Rarray.zero { ar with freed := ar.freed ++ l } _) _) _).Succeeds _
  rw [Rarray.zero, if_pos (by rw [h.items_length]; exact hle)]
  exact Succeeds.ok trivial

end Funra
