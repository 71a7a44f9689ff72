import Mathlib.Data.List.GetD
import Mathlib.Data.List.TakeDrop
import Mathlib.Tactic.Ring
import Funra.Lib.Except
import Funra.Rarray.Basic

/-!
# What an array represents

`RarrayRep F ar l`: the slots below `size` hold `l`, the slots up to the capacity are zero. Each operation is
one on `l` when the bytes it copies or clears are counted without loss (`RarrayFits`).
-/

namespace Funra

open Mem CInt Except

variable {V : Type} {F : RarrayFuncs V} {ar : Rarray V} {l : List V} {v : V}

structure RarrayRep [Zero V] (F : RarrayFuncs V) (ar : Rarray V) (l : List V) : Prop where
  valueSize : ar.valueSize = F.type.size
  size : ar.size = l.length
  pos : 0 < ar.capacity
  le : l.length ≤ ar.capacity
  lt : l.length < 2147483648
  items : ar.items = l ++ List.replicate (ar.capacity - l.length) 0

theorem RarrayType.size_pos (t : RarrayType) : 0 < t.size := by
  cases t <;> decide

theorem RarrayType.four_le_size (t : RarrayType) : 4 ≤ t.size := by
  cases t <;> decide

/-! ### Loops over a list -/

theorem forUntil_findIdx {ε : Type} (p : V → Bool) (l : List V) (n : Nat) :
    (forUntil (ε := ε) (fun v index => .ok (if p v then (some index, index) else (none, index + 1))) l n).Succeeds
      fun r => r.1 = (l.findIdx? p).map (· + n) := by
  induction l generalizing n with
  | nil => exact Succeeds.ok rfl
  | cons v l ih =>
    rw [forUntil, List.findIdx?_cons]
    cases p v with
    | true => exact Succeeds.ok (by simp)
    | false =>
      refine (ih (n + 1)).mono fun r hr => ?_
      rw [hr]
      cases List.findIdx? p l with
      | none => rfl
      | some k => simp [Nat.add_comm, Nat.add_left_comm]

theorem forUntil_any {ε : Type} (p : V → Bool) (l : List V) :
    (forUntil (ε := ε) (fun v s => .ok (if p v then (some (), s) else (none, s))) l ()).Succeeds
      fun r => r.1.isSome = l.any p := by
  induction l with
  | nil => exact Succeeds.ok rfl
  | cons v l ih =>
    rw [forUntil, List.any_cons]
    cases p v with
    | true => exact Succeeds.ok rfl
    | false => exact ih

theorem forUntil_collect {ε : Type} (l freed : List V) :
    forUntil (ε := ε) (fun v freed => .ok ((none : Option Unit), freed ++ [v])) l freed = .ok (none, freed ++ l) := by
  induction l generalizing freed with
  | nil => simp [forUntil]
  | cons v l ih =>
    refine (ih (freed ++ [v])).trans ?_
    rw [List.append_assoc, List.singleton_append]

theorem cons_eraseIdx_perm {i : Nat} (hi : i < l.length) : (l[i] :: l.eraseIdx i).Perm l := by
  have hsplit : l.take i ++ l[i] :: l.drop (i + 1) = l := by
    rw [← List.drop_eq_getElem_cons hi, List.take_append_drop]
  calc (l[i] :: l.eraseIdx i).Perm (l.take i ++ l[i] :: l.drop (i + 1)) := by
        rw [List.eraseIdx_eq_take_drop_succ]
        exact List.perm_middle.symm
    _ = l := hsplit

/-! ### The new capacity -/

/-- Rounding to 24 bits moves a number by less than its 2^23rd part. -/
theorem floatOfNat_bounds (n : Nat) :
    n ≤ floatOfNat n + n / 8388608 ∧ floatOfNat n ≤ n + n / 8388608 := by
  unfold floatOfNat
  dsimp only
  generalize hk : Nat.log2 n - 23 = k
  have hdiv := Nat.div_add_mod n (2 ^ k)
  have hmod := Nat.mod_lt n (Nat.two_pow_pos k)
  rw [Nat.mul_comm] at hdiv
  generalize hq : n / 2 ^ k = q at *
  generalize hr : n % 2 ^ k = r at *
  cases k with
  | zero =>
    simp only [Nat.pow_zero] at *
    rw [if_neg (by omega)]
    omega
  | succ k =>
    have hn : n ≠ 0 := by
      rintro rfl
      simp at hk
    have hulp : 2 ^ (k + 1) * 8388608 ≤ n := by
      calc 2 ^ (k + 1) * 8388608 = 2 ^ Nat.log2 n := by rw [show Nat.log2 n = k + 1 + 23 by omega, Nat.pow_add _ _ 23]
        _ ≤ n := Nat.log2_self_le hn
    have hpart : 2 ^ (k + 1) ≤ n / 8388608 := (Nat.le_div_iff_mul_le (by decide)).mpr hulp
    split
    · rw [Nat.succ_mul]
      omega
    · omega

theorem rarrayScale_bounds {n : Nat} (hpos : 0 < n) (hlt : n < 1073741824) :
    n < rarrayScale n ∧ rarrayScale n < 2147484160 := by
  have hbounds := floatOfNat_bounds n
  have hscale : rarrayScale n = floatOfNat n * 2 := by
    unfold rarrayScale uint32
    omega
  rw [hscale]
  omega

/-! ### Slots -/

theorem Rarray.slot_ok {offset : Nat} (h : ar.items[offset]? = some v) : ar.slot offset = .ok v := by
  simp only [Rarray.slot, h]

theorem Rarray.setSlot_ok {offset : Nat} (h : offset < ar.items.length) :
    ar.setSlot offset v = .ok { ar with items := ar.items.set offset v } := if_pos h

variable [Zero V]

namespace RarrayRep

theorem items_length (h : RarrayRep F ar l) : ar.items.length = ar.capacity := by
  rw [h.items, List.length_append, List.length_replicate]
  have hle := h.le
  omega

theorem items_get (h : RarrayRep F ar l) {i : Nat} (hi : i < l.length) : ar.items[i]? = some l[i] := by
  rw [h.items, List.getElem?_append_left hi, List.getElem?_eq_getElem hi]

theorem items_tail (h : RarrayRep F ar l) {i : Nat} (hlo : l.length ≤ i) (hhi : i < ar.capacity) :
    ar.items[i]? = some 0 := by
  rw [h.items, List.getElem?_append_right hlo, List.getElem?_replicate, if_pos]
  have hle := h.le
  omega

end RarrayRep

/-! ### Allocation -/

/-- The 32-bit product counts the slots when it does not wrap. -/
theorem slots_of_bytes {n k : Nat} (hk : 0 < k) (hfit : n * k < 4294967296) :
    (uint32 ((n : Int) * k)).toNat / k = n := by
  rw [← Nat.cast_mul, uint32_of_range (Int.natCast_nonneg _) (by exact_mod_cast hfit), Int.toNat_natCast,
    Nat.mul_div_cancel _ hk]

theorem rarrayAlloc_spec (h : RarrayRep F ar l) (hfit : l.length * F.type.size < 4294967296)
    {capacity : Nat} (hcap : l.length < capacity) :
    (rarrayAlloc capacity ar).Succeeds fun ar' =>
      RarrayRep F ar' l ∧ ar'.capacity = capacity ∧ ar'.freed = ar.freed := by
  have hlt := h.lt
  have hle := h.le
  have hcopy : int32 (ar.size : Int) = l.length := by
    rw [h.size, int32_of_range (by omega) (by omega)]
  have hn := slots_of_bytes F.type.size_pos hfit
  unfold rarrayAlloc
  dsimp only
  rw [hcopy, h.valueSize, hn]
  split
  next hpos =>
    rw [if_pos ⟨by rw [h.items_length]; exact hle, by simpa using hcap.le⟩]
    refine Succeeds.ok ⟨⟨rfl, h.size, Nat.lt_of_le_of_lt (Nat.zero_le _) hcap, hcap.le, hlt, ?_⟩, rfl, rfl⟩
    dsimp only
    rw [h.items, List.take_left', List.drop_replicate]
    rfl
  next hzero =>
    obtain rfl : l = [] := List.length_eq_zero_iff.mp (by omega)
    exact Succeeds.ok ⟨⟨rfl, h.size, hcap, Nat.zero_le _, hlt, by simp⟩, rfl, rfl⟩

/-! ### Moving down -/

/-- The elements behind `i` move down; the last one stays where it was as well. -/
theorem Rarray.shift_ok (h : RarrayRep F ar l) {i : Nat} (hi : i < l.length) :
    ∃ x, (if 0 < l.length - i - 1 then ar.shift i (l.length - i - 1) else .ok ar) = .ok { ar with
      items := l.eraseIdx i ++ x :: List.replicate (ar.capacity - l.length) 0 } := by
  have hne : l ≠ [] := List.ne_nil_of_length_pos (Nat.zero_lt_of_lt hi)
  have hdrop : l.drop (l.length - 1) = [l.getLast hne] := List.drop_length_sub_one hne
  have hle := h.le
  refine ⟨l.getLast hne, ?_⟩
  split
  next hpos =>
    have hfront : ar.items.take i = l.take i := by
      rw [h.items, List.take_append_of_le_length hi.le]
    have hmoved : (ar.items.drop (i + 1)).take (l.length - i - 1) = l.drop (i + 1) := by
      rw [h.items, List.drop_append_of_le_length hi, List.take_append_of_le_length (by simp; omega),
        List.take_of_length_le (by simp; omega)]
    have hrest : ar.items.drop (i + (l.length - i - 1)) =
        l.getLast hne :: List.replicate (ar.capacity - l.length) 0 := by
      rw [show i + (l.length - i - 1) = l.length - 1 by omega, h.items,
        List.drop_append_of_le_length (by omega), hdrop]
      rfl
    rw [Rarray.shift, if_pos (by rw [h.items_length]; omega), hfront, hmoved, hrest, List.eraseIdx_eq_take_drop_succ]
  next hlast =>
    obtain rfl : i = l.length - 1 := by omega
    rw [List.eraseIdx_length_sub_one, List.append_cons, List.dropLast_append_getLast, ← h.items]

theorem rarrayDropLast_ok {x : V} (hsize : ar.size = l.length + 1) (hlt : l.length + 1 < 2147483648)
    {n : Nat} (hitems : ar.items = l ++ x :: List.replicate n 0) :
    rarrayDropLast ar = .ok { ar with size := l.length, items := l ++ List.replicate (n + 1) 0 } := by
  have hlast : (uint32 ((ar.size : Int) - 1)).toNat = l.length := by
    rw [hsize, uint32_of_range (by omega) (by omega)]
    omega
  have hset : ar.items.set l.length 0 = l ++ List.replicate (n + 1) 0 := by
    rw [hitems, List.set_append_right _ _ (Nat.le_refl _), Nat.sub_self, List.set_cons_zero, List.replicate_succ]
  have hslot : ar.setSlot l.length 0 = .ok { ar with items := l ++ List.replicate (n + 1) 0 } := by
    rw [Rarray.setSlot_ok (by rw [hitems]; simp), hset]
  unfold rarrayDropLast
  rw [hlast, hslot]
  change Except.ok { ar with items := _, size := (uint32 ((ar.size : Int) - 1)).toNat } = _
  rw [hlast]

theorem rarrayRemoveInt_ok (h : RarrayRep F ar l) {i : Nat} (hi : i < l.length) :
    rarrayRemoveInt i ar = .ok { ar with
      size := l.length - 1
      items := l.eraseIdx i ++ List.replicate (ar.capacity - l.length + 1) 0 } := by
  have hlt := h.lt
  have hcopy : uint32 ((ar.size : Int) - i - 1) = ((l.length - i - 1 : Nat) : Int) := by
    rw [h.size, uint32_of_range (by omega) (by omega)]
    omega
  have hlen := List.length_eraseIdx_of_lt hi
  obtain ⟨x, hshift⟩ := Rarray.shift_ok h hi
  unfold rarrayRemoveInt
  dsimp only
  rw [hcopy, Int.toNat_natCast]
  simp only [Int.natCast_pos]
  rw [hshift, ← hlen]
  exact rarrayDropLast_ok (by rw [h.size, hlen]; omega) (by omega) rfl

/-- The array once the element at `i` is out. -/
theorem RarrayRep.eraseIdx (h : RarrayRep F ar l) {i : Nat} (hi : i < l.length) (freed : List V) :
    RarrayRep F { ar with
      size := l.length - 1
      items := l.eraseIdx i ++ List.replicate (ar.capacity - l.length + 1) 0
      freed := freed } (l.eraseIdx i) := by
  have hlen := List.length_eraseIdx_of_lt hi
  have hle := h.le
  have hlt := h.lt
  refine ⟨h.valueSize, hlen.symm, h.pos, by dsimp only; omega, by omega, ?_⟩
  dsimp only
  rw [hlen, show ar.capacity - (l.length - 1) = ar.capacity - l.length + 1 by omega]

/-! ### Reading -/

theorem rarrayAt_eq (h : RarrayRep F ar l) (index : Nat) : rarrayAt ar index = .ok (l.getD index 0) := by
  unfold rarrayAt
  rw [List.getD_eq_getElem?_getD]
  split
  next hbeyond => rw [List.getElem?_eq_none (Nat.le_trans h.le hbeyond)]; rfl
  next hin =>
    rcases Nat.lt_or_ge index l.length with hlt | hge
    · rw [Rarray.slot_ok (h.items_get hlt), List.getElem?_eq_getElem hlt]
      rfl
    · rw [Rarray.slot_ok (h.items_tail hge (Nat.lt_of_not_le hin)), List.getElem?_eq_none hge]
      rfl

theorem rarrayNext_eq (h : RarrayRep F ar l) {it : Nat} (hit : it ≤ l.length) :
    rarrayNext ar it = .ok (l.getD it 0, it + 1) := by
  have hlt := h.lt
  have hnext : (uint32 ((it : Int) + 1)).toNat = it + 1 := by
    rw [uint32_of_range (by omega) (by omega)]
    omega
  rw [rarrayNext, rarrayAt_eq h]
  change Except.ok (l.getD it 0, (uint32 ((it : Int) + 1)).toNat) = _
  rw [hnext]

/-- The order of evaluation makes the test right: past the last element the index exceeds `size`. -/
theorem rarrayHasNext_eq (h : RarrayRep F ar l) (it : Nat) : rarrayHasNext ar (it + 1) = decide (it < l.length) := by
  rw [rarrayHasNext, h.size]
  rfl

theorem rarrayRounds_eq {σ ρ : Type} (h : RarrayRep F ar l) (body : V → σ → Option ρ × σ) {fuel it : Nat} {s : σ}
    (hit : it ≤ l.length) (hfuel : l.length - it < fuel) :
    rarrayRounds ar body fuel it s = forUntil (fun v s => .ok (body v s)) (l.drop it) s := by
  induction fuel generalizing it s with
  | zero => cases hfuel
  | succ fuel ih =>
    rw [rarrayRounds, rarrayNext_eq h hit]
    change (if rarrayHasNext ar (it + 1) = true then _ else _) = _
    rw [rarrayHasNext_eq h]
    by_cases hin : it < l.length
    · rw [if_pos (decide_eq_true hin), List.drop_eq_getElem_cons hin, List.getD_eq_getElem _ _ hin]
      simp only [forUntil, bind, Except.bind]
      rcases body l[it] s with ⟨_ | r, s'⟩
      · exact ih hin (by omega)
      · rfl
    · rw [if_neg (by simpa using hin), List.drop_eq_nil_of_le (by omega)]
      rfl

theorem rarrayFor_eq {σ ρ : Type} (h : RarrayRep F ar l) (body : V → σ → Option ρ × σ) (s : σ) :
    rarrayFor ar body s = forUntil (fun v s => .ok (body v s)) l s :=
  rarrayRounds_eq h body (Nat.zero_le _) (by rw [h.size]; omega)

theorem rarrayExist_eq (h : RarrayRep F ar l) (data : V) :
    rarrayExist F data ar = .ok (l.any (F.equal · data)) := by
  obtain ⟨r, hloop, hr⟩ := forUntil_any (ε := Fault) (F.equal · data) l
  change Except.bind (rarrayFor ar _ ()) _ = _
  rw [rarrayFor_eq h, hloop]
  exact congrArg _ hr

/-- Only the slots of the elements have to be cleared. -/
theorem rarrayClear_spec (h : RarrayRep F ar l)
    (hfit : l.length * F.type.size ≤ ar.capacity * F.type.size % 4294967296) :
    (rarrayClear ar).Succeeds fun ar' => RarrayRep F ar' [] ∧ ar'.freed = ar.freed ++ l := by
  change (Except.bind (rarrayFor ar _ ar.freed) _).Succeeds _
  rw [rarrayFor_eq h, forUntil_collect]
  set n := (uint32 ((ar.valueSize : Int) * ar.capacity)).toNat / ar.valueSize with hn
  have hbytes : (uint32 ((ar.valueSize : Int) * ar.capacity)).toNat = ar.capacity * F.type.size % 4294967296 := by
    rw [h.valueSize, ← Nat.cast_mul, uint32, Nat.mul_comm]
    omega
  have hpos := F.type.size_pos
  have hlo : l.length ≤ n := by
    rw [hn, hbytes, h.valueSize, Nat.le_div_iff_mul_le hpos]
    exact hfit
  have hhi : n ≤ ar.capacity := by
    rw [hn, hbytes, h.valueSize]
    exact Nat.div_le_of_le_mul ((Nat.mod_le _ _).trans (Nat.mul_comm _ _).le)
  change (Except.bind (Rarray.zero { ar with freed := ar.freed ++ l } n) _).Succeeds _
  rw [Rarray.zero, if_pos (by rw [h.items_length]; exact hhi)]
  refine Succeeds.ok ⟨⟨h.valueSize, rfl, h.pos, Nat.zero_le _, by simp, ?_⟩, rfl⟩
  dsimp only
  rw [h.items, List.drop_append, List.drop_eq_nil_of_le hlo, List.drop_replicate, List.nil_append, List.nil_append,
    List.replicate_append_replicate]
  have hle := h.le
  simp only [List.length_nil]
  congr 1
  omega

/-- The byte count of the whole array is a multiple of 2^32. -/
theorem rarrayClear_wraps (h : RarrayRep F ar l) (hwrap : ar.capacity * F.type.size % 4294967296 = 0) :
    rarrayClear ar = .ok { ar with size := 0, freed := ar.freed ++ l } := by
  have hbytes : (uint32 ((ar.valueSize : Int) * ar.capacity)).toNat = 0 := by
    rw [h.valueSize, ← Nat.cast_mul, uint32, Nat.mul_comm]
    omega
  change Except.bind (rarrayFor ar _ ar.freed) _ = _
  rw [rarrayFor_eq h, forUntil_collect]
  change Except.bind (Rarray.zero { ar with freed := ar.freed ++ l }
    ((uint32 ((ar.valueSize : Int) * ar.capacity)).toNat / ar.valueSize)) _ = _
  rw [hbytes, Nat.zero_div]
  rfl

/-! ### Adding -/

variable [DecidableEq V]

theorem RarrayType.setValue_spec (t : RarrayType) (hlt : l.length < ar.capacity)
    (h : RarrayRep F ar l) (v : V) :
    t.setValue l.length v ar = .ok { ar with items := l ++ v :: List.replicate (ar.capacity - l.length - 1) 0 } := by
  have hlen : l.length < ar.items.length := by rwa [h.items_length]
  have hset : ar.items.set l.length v = l ++ v :: List.replicate (ar.capacity - l.length - 1) 0 := by
    obtain ⟨k, hk⟩ : ∃ k, ar.capacity - l.length = k + 1 := ⟨ar.capacity - l.length - 1, by omega⟩
    rw [h.items, List.set_append_right _ _ (Nat.le_refl _), Nat.sub_self, hk, List.replicate_succ]
    rfl
  have hold := Rarray.slot_ok (h.items_tail (Nat.le_refl _) hlt)
  cases t with
  | int => exact (Rarray.setSlot_ok hlen).trans (by rw [hset])
  | string => exact (Rarray.setSlot_ok hlen).trans (by rw [hset])
  | ptr =>
    -- the slot behind the elements is zero: nothing is freed
    change Except.bind (ar.slot l.length) _ = _
    rw [hold]
    change (if (0 : V) ≠ 0 then ar.freeValue 0 else ar).setSlot l.length v = _
    rw [if_neg (not_not.mpr rfl), Rarray.setSlot_ok hlen, hset]

/-- `rarray_add` once there is room. -/
theorem rarrayAdd_store (h : RarrayRep F ar l) (hlt : l.length < ar.capacity) (v : V) :
    (F.type.setValue ar.size v ar).bind (fun ar => .ok { ar with size := (uint32 (ar.size + 1)).toNat }) =
      .ok { ar with
        size := l.length + 1
        items := l ++ v :: List.replicate (ar.capacity - l.length - 1) 0 } := by
  have hbound := h.lt
  have hcount : (uint32 ((ar.size : Int) + 1)).toNat = l.length + 1 := by
    rw [h.size, uint32_of_range (by omega) (by omega)]
    omega
  rw [h.size, F.type.setValue_spec hlt h v]
  change Except.ok { ar with size := (uint32 ((ar.size : Int) + 1)).toNat, items := _ } = _
  rw [hcount]

theorem rarrayAdd_ok (h : RarrayRep F ar l) (hlt : l.length < ar.capacity) (v : V) :
    rarrayAdd F v ar = .ok { ar with
      size := l.length + 1
      items := l ++ v :: List.replicate (ar.capacity - l.length - 1) 0 } := by
  change Except.bind (if ar.capacity ≤ ar.size then _ else Except.ok ar) _ = _
  rw [if_neg (by rw [h.size]; omega)]
  exact rarrayAdd_store h hlt v

theorem rarrayAdd_spec (h : RarrayRep F ar l) (hlen : l.length + 1 < 2147483648)
    (hfit : ar.capacity ≤ l.length → l.length * F.type.size < 4294967296) (v : V) :
    (rarrayAdd F v ar).Succeeds fun ar' => RarrayRep F ar' (l ++ [v]) ∧ ar'.freed = ar.freed := by
  have hroom : (if ar.capacity ≤ ar.size then rarrayAlloc (rarrayScale ar.capacity) ar else .ok ar).Succeeds
      fun ar' => RarrayRep F ar' l ∧ l.length < ar'.capacity ∧ ar'.freed = ar.freed := by
    rw [h.size]
    split
    next hfull =>
      have hcap : ar.capacity = l.length := Nat.le_antisymm hfull h.le
      have hsmall : l.length * 4 < 4294967296 :=
        Nat.lt_of_le_of_lt (Nat.mul_le_mul_left _ F.type.four_le_size) (hfit hfull)
      have hgrow := (rarrayScale_bounds h.pos (by omega)).1
      rw [hcap] at hgrow ⊢
      refine (rarrayAlloc_spec h (hfit hfull) hgrow).mono fun ar' har' => ⟨har'.1, ?_, har'.2.2⟩
      rwa [har'.2.1]
    next hspace => exact Succeeds.ok ⟨h, Nat.lt_of_not_le hspace, rfl⟩
  refine Succeeds.bind hroom ?_
  rintro ar' ⟨hrep, hlt, hfreed⟩
  refine ⟨_, rarrayAdd_store hrep hlt v, ⟨hrep.valueSize, ?_, hrep.pos, ?_, ?_, ?_⟩, hfreed⟩
  · simp
  · simpa using Nat.succ_le_of_lt hlt
  · simpa using hlen
  · dsimp only
    rw [List.append_assoc, List.singleton_append, List.length_append, List.length_singleton, Nat.sub_sub]

/-! ### Removing -/

theorem rarrayRemovePtr_ok (h : RarrayRep F ar l) {i : Nat} (hi : i < l.length)
    (hfit : (l.length - i - 1) * F.type.size < 4294967296) :
    rarrayRemovePtr i ar = .ok { ar with
      size := l.length - 1
      items := l.eraseIdx i ++ List.replicate (ar.capacity - l.length + 1) 0
      freed := if l[i] = 0 then ar.freed else ar.freed ++ [l[i]] } := by
  have hlt := h.lt
  have hcopy : int32 (uint32 ((ar.size : Int) - i - 1)) = ((l.length - i - 1 : Nat) : Int) := by
    rw [h.size, uint32_of_range (by omega) (by omega), int32_of_range (by omega) (by omega)]
    omega
  have hlen := List.length_eraseIdx_of_lt hi
  have hfree : (if l[i] ≠ 0 then ar.freeValue l[i] else ar) =
      { ar with freed := if l[i] = 0 then ar.freed else ar.freed ++ [l[i]] } := by
    by_cases hzero : l[i] = 0
    · rw [if_neg (not_not.mpr hzero), if_pos hzero]
    · rw [if_pos hzero, if_neg hzero, Rarray.freeValue]
  change Except.bind (ar.slot i) _ = _
  rw [Rarray.slot_ok (h.items_get hi)]
  set freed := if l[i] = 0 then ar.freed else ar.freed ++ [l[i]]
  have h₁ : RarrayRep F { ar with freed := freed } l := ⟨h.valueSize, h.size, h.pos, h.le, h.lt, h.items⟩
  obtain ⟨x, hshift⟩ := Rarray.shift_ok h₁ hi
  have hn : (uint32 (((l.length - i - 1 : Nat) : Int) * ar.valueSize)).toNat / ar.valueSize =
      l.length - i - 1 := by
    rw [h.valueSize]
    exact slots_of_bytes F.type.size_pos hfit
  simp only [Except.bind, hfree, hcopy, hn, Int.natCast_pos]
  change Except.bind (if 0 < l.length - i - 1 then Rarray.shift { ar with freed := freed } i _ else _)
    rarrayDropLast = _
  rw [hshift, ← hlen]
  exact rarrayDropLast_ok (by rw [h.size, hlen]; omega) (by omega) rfl

theorem removeValue_spec (h : RarrayRep F ar l) {i : Nat} (hi : i < l.length)
    (hfit : F.type = .int ∨ (l.length - i - 1) * F.type.size < 4294967296) :
    (F.type.removeValue i ar).Succeeds fun ar' => RarrayRep F ar' (l.eraseIdx i) ∧
      ar'.freed = if F.type = .int ∨ l[i] = 0 then ar.freed else ar.freed ++ [l[i]] := by
  rcases hfit with hint | hfit
  · rw [hint, if_pos (Or.inl rfl)]
    exact ⟨_, rarrayRemoveInt_ok h hi, h.eraseIdx hi _, rfl⟩
  · have hptr := rarrayRemovePtr_ok h hi hfit
    cases htype : F.type with
    | int =>
      rw [if_pos (Or.inl rfl)]
      exact ⟨_, rarrayRemoveInt_ok h hi, h.eraseIdx hi _, rfl⟩
    | string => exact ⟨_, hptr, h.eraseIdx hi _, by simp⟩
    | ptr => exact ⟨_, hptr, h.eraseIdx hi _, by simp⟩

/-! ### The operations -/

/-- `free_value_func` gets what leaves the array. -/
def RarrayMoves (F : RarrayFuncs V) (ar : Rarray V) (l : List V) (ar' : Rarray V) (l' : List V) : Prop :=
  F.type ≠ .int → (∀ x ∈ l, x ≠ 0) → (ar'.freed ++ l').Perm (ar.freed ++ l)

theorem removeValue_moves {ar' : Rarray V} {i : Nat} (hi : i < l.length)
    (hfreed : ar'.freed = if F.type = .int ∨ l[i] = 0 then ar.freed else ar.freed ++ [l[i]]) :
    RarrayMoves F ar l ar' (l.eraseIdx i) := by
  intro htype hne
  rw [hfreed, if_neg (not_or.mpr ⟨htype, hne _ (List.getElem_mem hi)⟩), List.append_assoc]
  exact (cons_eraseIdx_perm hi).append_left _

theorem rarrayRemove_spec (h : RarrayRep F ar l) (val : V)
    (hfit : ∀ i, l.findIdx? (F.equal · val) = some i →
      F.type = .int ∨ (l.length - i - 1) * F.type.size < 4294967296) :
    (rarrayRemove F val ar).Succeeds fun r =>
      RarrayRep F r.2 (l.eraseP (F.equal · val)) ∧ RarrayMoves F ar l r.2 (l.eraseP (F.equal · val)) := by
  obtain ⟨⟨found, k⟩, hloop, rfl⟩ := forUntil_findIdx (ε := Fault) (F.equal · val) l 0
  change (Except.bind (rarrayFor ar _ 0) _).Succeeds _
  rw [rarrayFor_eq h, hloop, List.eraseP_eq_eraseIdx]
  cases hidx : l.findIdx? (F.equal · val) with
  | none => exact Succeeds.ok ⟨h, fun _ _ => List.Perm.refl _⟩
  | some i =>
    have hi : i < l.length := (List.findIdx?_eq_some_iff_findIdx_eq.mp hidx).1
    change (Except.bind (F.type.removeValue i ar) _).Succeeds _
    refine Succeeds.bind (removeValue_spec h hi (hfit i hidx)) ?_
    rintro ar' ⟨hrep, hfreed⟩
    exact Succeeds.ok ⟨hrep, removeValue_moves hi hfreed⟩

/-- `rcode_ok` says that the value was there. -/
theorem rarrayRemove_code (h : RarrayRep F ar l) {val : V} {r : Int × Rarray V} (hrun : rarrayRemove F val ar = .ok r) :
    l.any (F.equal · val) = true ∧ r.1 = 0 ∨ l.any (F.equal · val) = false ∧ r = (4, ar) := by
  obtain ⟨⟨found, k⟩, hloop, rfl⟩ := forUntil_findIdx (ε := Fault) (F.equal · val) l 0
  change Except.bind (rarrayFor ar _ 0) _ = _ at hrun
  rw [rarrayFor_eq h, hloop] at hrun
  rw [← List.findIdx?_isSome]
  cases hidx : l.findIdx? (F.equal · val) with
  | none =>
    rw [hidx] at hrun
    cases hrun
    exact Or.inr ⟨rfl, rfl⟩
  | some i =>
    rw [hidx] at hrun
    obtain ⟨ar', -, hrun⟩ := of_bind_ok (x := F.type.removeValue i ar) hrun
    cases hrun
    exact Or.inl ⟨rfl, rfl⟩

theorem rarrayRemoveAt_spec (h : RarrayRep F ar l) (index : Nat)
    (hfit : index < l.length → F.type = .int ∨ (l.length - index - 1) * F.type.size < 4294967296) :
    (rarrayRemoveAt F index ar).Succeeds fun r =>
      RarrayRep F r.2 (l.eraseIdx index) ∧ RarrayMoves F ar l r.2 (l.eraseIdx index) := by
  unfold rarrayRemoveAt
  rw [h.size]
  split
  next hge =>
    rw [List.eraseIdx_of_length_le hge]
    exact Succeeds.ok ⟨h, fun _ _ => List.Perm.refl _⟩
  next hlt =>
    have hi := Nat.lt_of_not_le hlt
    refine Succeeds.bind (removeValue_spec h hi (hfit hi)) ?_
    rintro ar' ⟨hrep, hfreed⟩
    exact Succeeds.ok ⟨hrep, removeValue_moves hi hfreed⟩

end Funra
