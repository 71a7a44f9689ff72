import Funra.Lib.Borders
import Funra.Rarray.Ints
import Funra.Rstring.Basic

/-!
# Knuth-Morris-Pratt

`_kmp_next_array_init` adds the table entries to an array, and in place of the fallback it adds another entry: after
a mismatch behind a partial match it comes back to the same two characters for ever. The table is only built for
`Straight` patterns, where no such mismatch occurs (`kmpNextRound_good`), and it is right then. The search itself falls
back as it should.

The lengths are `int`s: of a text with 2^31 characters or more another prefix is searched, or nothing.
-/

namespace Funra

open Mem CInt Except Words

structure KmpNext where
  length : Int
  i : Int
  array : Rarray Int

def kmpNextRound (pat : CStr) (lenPattern : Int) (s : KmpNext) : Except Fault (KmpNext ⊕ Rarray Int) :=
  if s.i < lenPattern then do
    if (← byteAt pat.obj s.i) = (← byteAt pat.obj s.length) then
      let array ← rarrayAdd intArrayFuncs (s.length + 1) s.array
      return .inl ⟨s.length + 1, s.i + 1, array⟩
    else if s.length ≠ 0 then
      let array ← rarrayAdd intArrayFuncs (s.length - 1) s.array
      return .inl ⟨s.length, s.i, array⟩
    else
      let array ← rarrayAdd intArrayFuncs 0 s.array
      return .inl ⟨s.length, s.i + 1, array⟩
  else .ok (.inr s.array)

def kmpNextArrayInit (fuel : Nat) (pat : CStr) (lenPattern : Int) (array : Rarray Int) :
    Except Fault (Rarray Int) := do
  let array ← rarrayAdd intArrayFuncs 0 array
  loop .outOfFuel (kmpNextRound pat lenPattern) fuel ⟨0, 1, array⟩

structure KmpState where
  i : Int
  j : Int
  count : Int
  ret : Rarray Int

/-- What happens after the first comparison of a round. The flag says that the loop has ended, not the search
for `count` matches, which leaves without the release of the key. -/
def kmpSearchRest (str pattern : CStr) (lenPattern lenSrc : Int) (key : Rarray Int) (s : KmpState) :
    Except Fault (KmpState ⊕ (Bool × Rarray Int)) := do
  if s.j = lenPattern then
    let ret ← rarrayAdd intArrayFuncs (s.i - s.j) s.ret
    let count := if 0 < s.count then s.count - 1 else s.count
    if 0 < s.count ∧ count = 0 then return .inr (false, ret)
    else
      let j ← rarrayAt key (uint32 (s.j - 1)).toNat
      return .inl ⟨s.i, j, count, ret⟩
  else if s.i < lenSrc then
    if (← byteAt pattern.obj s.j) ≠ (← byteAt str.obj s.i) then
      if s.j ≠ 0 then
        let j ← rarrayAt key (uint32 (s.j - 1)).toNat
        return .inl { s with j }
      else return .inl { s with i := s.i + 1 }
    else return .inl s
  else return .inl s

def kmpSearchRound (str pattern : CStr) (lenPattern lenSrc : Int) (key : Rarray Int) (s : KmpState) :
    Except Fault (KmpState ⊕ (Bool × Rarray Int)) :=
  if s.i < lenSrc then do
    let s := if (← byteAt pattern.obj s.j) = (← byteAt str.obj s.i) then { s with i := s.i + 1, j := s.j + 1 } else s
    kmpSearchRest str pattern lenPattern lenSrc key s
  else .ok (.inr (true, s.ret))

def kmpSearch (fuel : Nat) (str pattern : CStr) (count : Int) : Except Fault (Rarray Int) := do
  let lenPattern := int32 pattern.chars.length
  let lenSrc := int32 str.chars.length
  let key ← kmpNextArrayInit fuel pattern lenPattern (rarrayCreate 4 30)
  let (ended, ret) ← loop .outOfFuel (kmpSearchRound str pattern lenPattern lenSrc key) fuel
    ⟨0, 0, count, rarrayCreate 4 10⟩
  if ended then
    let _ ← rarrayRelease key
    return ret
  else return ret

theorem doubling_key : Doubling 30 26 := ⟨by decide, by decide, by decide, by decide⟩

theorem doubling_ret : Doubling 10 27 := ⟨by decide, by decide, by decide, by decide⟩

/-! ### The table -/

/-- The entries of a pattern that starts again at `d`. -/
def startTable (d n : Nat) : List Int := (List.range n).map fun t => ((t + 1 - d : Nat) : Int)

@[simp] theorem startTable_length (d n : Nat) : (startTable d n).length = n := by
  simp [startTable]

theorem startTable_succ (d n : Nat) : startTable d (n + 1) = startTable d n ++ [((n + 1 - d : Nat) : Int)] := by
  simp [startTable, List.range_succ]

/-- Up to where the pattern starts again the entries are 0. -/
theorem startTable_of_le {d n : Nat} (h : n ≤ d) : startTable (d + 1) n = startTable d n := by
  apply List.map_congr_left
  intro t ht
  have hlt := List.mem_range.mp ht
  rw [show t + 1 - (d + 1) = 0 by omega, show t + 1 - d = 0 by omega]

/-- The first `i` entries are there, and `length` characters before `i` have matched. -/
structure KmpNextAt (w : Obj) (L : Int) (s : KmpNext) (i length : Nat) : Prop where
  i_eq : s.i = i
  length_eq : s.length = length
  lt : length < i
  le : i = 1 ∨ i ≤ L
  before : ∀ p < i - length, 0 < p → w[p]? ≠ w[0]?
  agree : Agree w w (i - length) length
  array : IntArray 30 26 s.array (startTable (i - length) i)

/-- A mismatch behind a partial match. -/
def KmpStuck (w : Obj) (L : Int) (s : KmpNext) : Prop :=
  ∃ i length : Nat, s.i = i ∧ s.length = length ∧ i < L ∧ length < i ∧ 0 < length ∧ w[i]? ≠ w[length]?

variable {pat pattern str : CStr} {L : Int} {s : KmpNext} {i length : Nat}

theorem KmpNextAt.take {w : Obj} (h : KmpNextAt w L s i length) (hlt : i < L) (hne : w[i]? ≠ w[length]?)
    (hlen : length ≠ 0) (hL : L ≤ w.length) : ¬ Straight (w.take L.toNat) := by
  intro hstraight
  have hi := h.lt
  have hagree : Agree (w.take L.toNat) (w.take L.toNat) (i - length) length := by
    rw [agree_take (by omega)]
    intro t ht
    rw [List.getElem?_take_of_lt (by omega), h.agree t ht]
  have hnext := hstraight.next (Nat.pos_of_ne_zero hlen) hi (by rw [List.length_take]; omega) hagree
  rw [List.getElem?_take_of_lt (by omega), List.getElem?_take_of_lt (by omega)] at hnext
  exact hne hnext

theorem kmpNextRound_at (hL : L ≤ pat.chars.length) (hint : L < 2147483648) (h : KmpNextAt pat.chars L s i length) :
    (kmpNextRound pat L s).Succeeds (Sum.elim
      (fun s' => (∃ length', KmpNextAt pat.chars L s' (i + 1) length') ∨
        KmpStuck pat.chars L s' ∧ ¬ Straight (pat.chars.take L.toNat))
      fun array => L ≤ i ∧ array = s.array) := by
  have hlt := h.lt
  unfold kmpNextRound
  rw [h.i_eq, h.length_eq]
  split
  next hi =>
    have hin : i < pat.chars.length := by omega
    have hin' : length < pat.chars.length := by omega
    have hsmall : (startTable (i - length) i).length + 1 < 2147483648 := by rw [startTable_length]; omega
    rw [CStr.byteAt_lt hin, CStr.byteAt_lt hin']
    simp only [bind, Except.bind]
    by_cases heq : pat.chars[i] = pat.chars[length]
    · rw [if_pos heq]
      have hget : pat.chars[i]? = pat.chars[length]? := by
        rw [List.getElem?_eq_getElem hin, List.getElem?_eq_getElem hin', heq]
      refine Succeeds.bind (h.array.add doubling_key hsmall _) fun array harray => ?_
      refine Succeeds.ok (Or.inl ⟨length + 1, by simp, by simp, by omega, by omega, ?_, ?_, ?_⟩)
      · rw [Nat.add_sub_add_right]
        exact h.before
      · rw [Nat.add_sub_add_right]
        refine h.agree.succ ?_
        rwa [Nat.sub_add_cancel hlt.le]
      · rw [Nat.add_sub_add_right, startTable_succ, show i + 1 - (i - length) = length + 1 by omega]
        exact_mod_cast harray
    · rw [if_neg heq]
      have hget : pat.chars[i]? ≠ pat.chars[length]? := by
        rw [List.getElem?_eq_getElem hin, List.getElem?_eq_getElem hin']
        exact fun hsome => heq (Option.some.inj hsome)
      by_cases hzero : length = 0
      · subst hzero
        rw [if_neg (by simp)]
        refine Succeeds.bind (h.array.add doubling_key hsmall 0) fun array harray => ?_
        refine Succeeds.ok (Or.inl ⟨0, by simp, rfl, by omega, by omega, ?_, agree_zero _ _ _, ?_⟩)
        · intro p hp hpos
          rcases Nat.lt_succ_iff_lt_or_eq.mp hp with hp | rfl
          · exact h.before p hp hpos
          · exact hget
        · rw [Nat.sub_zero, startTable_succ, Nat.sub_self, startTable_of_le (Nat.le_refl i)]
          exact harray
      · rw [if_pos (by omega)]
        refine Succeeds.bind (h.array.add doubling_key hsmall _) fun array _ => ?_
        exact Succeeds.ok (Or.inr ⟨⟨i, length, rfl, rfl, hi, hlt, Nat.pos_of_ne_zero hzero, hget⟩,
          h.take hi hget hzero hL⟩)
  next hi => exact Succeeds.ok ⟨by omega, rfl⟩

/-- The same two characters are compared again. -/
theorem kmpNextRound_stuck (hL : L ≤ pat.chars.length) (h : KmpStuck pat.chars L s) :
    (kmpNextRound pat L s).Returns (Sum.elim (KmpStuck pat.chars L) fun _ => False) := by
  obtain ⟨i, length, hi, hlen, hlt, hle, hpos, hne⟩ := h
  have hin : i < pat.chars.length := by omega
  have hin' : length < pat.chars.length := by omega
  unfold kmpNextRound
  rw [hi, hlen, if_pos hlt, CStr.byteAt_lt hin, CStr.byteAt_lt hin']
  simp only [bind, Except.bind]
  rw [if_neg, if_pos (by omega)]
  · exact Returns.bind_of_forall fun array => Returns.ok ⟨i, length, rfl, rfl, hlt, hle, hpos, hne⟩
  · rintro heq
    rw [List.getElem?_eq_getElem hin, List.getElem?_eq_getElem hin', heq] at hne
    exact hne rfl

/-- The array holds the entries of the first `L` characters. -/
def KmpTable (w : Obj) (L : Int) (array : Rarray Int) : Prop :=
  ∃ d, 0 < d ∧ IntArray 30 26 array (startTable d (max 1 L).toNat) ∧ (0 < L → StartsAgain (w.take L.toNat) d)

theorem KmpNextAt.table {w : Obj} (h : KmpNextAt w L s i length) (hend : L ≤ i) (hL : L ≤ w.length) :
    KmpTable w L s.array := by
  have hlt := h.lt
  have hmax : (max 1 L).toNat = i := by
    rcases h.le with rfl | hle <;> omega
  refine ⟨i - length, by omega, hmax ▸ h.array, fun hpos => ?_⟩
  have hle : (i : Int) ≤ L := by
    rcases h.le with rfl | hle <;> omega
  have hlen : (w.take L.toNat).length = i := by
    rw [List.length_take]
    omega
  have htake : ∀ t < i, (w.take L.toNat)[t]? = w[t]? := fun t ht => List.getElem?_take_of_lt (by omega)
  refine ⟨by omega, by omega, fun p hp hp0 => ?_, ?_⟩
  · rw [htake p (by omega), htake 0 (by omega)]
    exact h.before p hp hp0
  · intro t ht
    rw [hlen] at ht
    rw [htake _ (by omega), htake t (by omega)]
    exact h.agree t (by omega)

/-- Of a pattern whose length is counted as 0 or less there is one entry. -/
theorem KmpTable.zero {w : Obj} {array : Rarray Int} (h : KmpTable w L array) (hL : L ≤ 0) (index : Nat) :
    rarrayAt array index = .ok 0 := by
  obtain ⟨d, hd, harray, -⟩ := h
  have hentry : startTable d 1 = [0] := by
    rw [startTable, List.range_one, List.map_singleton, show 0 + 1 - d = 0 by omega]
    rfl
  rw [rarrayAt_eq harray.rep, show (max 1 L).toNat = 1 by omega, stored_of_le (by rw [startTable_length]; decide), hentry]
  cases index <;> rfl

/-- The state at the start of the loop. -/
theorem kmpNext_start (w : Obj) (L : Int) : (rarrayAdd intArrayFuncs 0 (rarrayCreate 4 30)).Succeeds fun array =>
    KmpNextAt w L ⟨0, 1, array⟩ 1 0 := by
  refine ((intArray_create doubling_key).add doubling_key (by decide) 0).mono fun array harray => ?_
  exact ⟨rfl, rfl, by decide, Or.inl rfl, fun p hp hpos => by omega, agree_zero w w 1, harray⟩

theorem kmpNextArrayInit_halts (hL : L ≤ pat.chars.length) (hint : L < 2147483648)
    (hstraight : Straight (pat.chars.take L.toNat)) :
    Halts (fun fuel => kmpNextArrayInit fuel pat L (rarrayCreate 4 30)) (KmpTable pat.chars L) := by
  simp only [kmpNextArrayInit, bind]
  refine Halts.bind (kmpNext_start pat.chars L).halts fun array hstart => ?_
  refine Halts.loop (I := fun s => ∃ i length, KmpNextAt pat.chars L s i length) (μ := fun s => (L - s.i).toNat) ?_
    ⟨1, 0, hstart⟩
  rintro s ⟨i, length, h⟩
  have hround := kmpNextRound_at hL hint h
  obtain ⟨next, hrun, hnext⟩ := hround
  refine ⟨next, hrun, ?_⟩
  rcases next with s' | array
  · obtain ⟨length', h'⟩ := hnext.resolve_right fun hstuck => hstuck.2 hstraight
    refine ⟨⟨i + 1, length', h'⟩, ?_⟩
    -- a round that goes on has found `i` below the length
    have hlt : s.i < L := by
      by_contra hge
      rw [kmpNextRound, if_neg hge] at hrun
      cases hrun
    rw [h'.i_eq]
    have hi := h.i_eq
    omega
  · obtain ⟨hend, rfl⟩ := hnext
    exact h.table hend hL

theorem kmpNextArrayInit_returns (hL : L ≤ pat.chars.length) (hint : L < 2147483648) (fuel : Nat) :
    (kmpNextArrayInit fuel pat L (rarrayCreate 4 30)).Returns fun array =>
      KmpTable pat.chars L array ∧ Straight (pat.chars.take L.toNat) := by
  simp only [kmpNextArrayInit, bind]
  refine Returns.bind (kmpNext_start pat.chars L).returns fun array hstart => ?_
  refine Returns.loop (I := fun s => (∃ i length, KmpNextAt pat.chars L s i length) ∨ KmpStuck pat.chars L s) ?_
    (Or.inl ⟨1, 0, hstart⟩) fuel
  rintro s (⟨i, length, h⟩ | hstuck)
  · refine (kmpNextRound_at hL hint h).returns.mono ?_
    rintro (s' | array) hnext
    · rcases hnext with ⟨length', h'⟩ | ⟨hstuck, -⟩
      · exact Or.inl ⟨i + 1, length', h'⟩
      · exact Or.inr hstuck
    · obtain ⟨hend, rfl⟩ := hnext
      have htable := h.table hend hL
      refine ⟨htable, ?_⟩
      obtain ⟨d, -, -, hstart⟩ := htable
      rcases Int.lt_or_le 0 L with hpos | hneg
      · exact (hstart hpos).straight
      · rw [Int.toNat_of_nonpos hneg]
        exact fun p hp => absurd hp (by simp)
  · refine (kmpNextRound_stuck hL hstuck).mono ?_
    rintro (s' | array) hnext
    · exact Or.inr hnext
    · exact hnext.elim

/-! ### The search -/

/-- What `_kmp_search` uses of its key: each entry is a border, the last one the longest. -/
structure KmpKey (w : Obj) (key : Rarray Int) : Prop where
  entry : ∀ j, 0 < j → j ≤ w.length → ∃ v : Nat, rarrayAt key (j - 1) = .ok (v : Int) ∧ v < j ∧ Agree w w (j - v) v ∧
    (j = w.length → v = border w)
  rep : ∃ l, RarrayRep intArrayFuncs key l

/-- The last entry is never lost. -/
theorem kmpKey_of_table (hL : L ≤ pat.chars.length) (hpos : 0 < L) {key : Rarray Int} (h : KmpTable pat.chars L key) :
    KmpKey (pat.chars.take L.toNat) key := by
  obtain ⟨d, hd, harray, hstart⟩ := h
  have hagain := hstart hpos
  have hlen : (pat.chars.take L.toNat).length = L.toNat := by
    rw [List.length_take]
    omega
  rw [show (max 1 L).toNat = L.toNat by omega] at harray
  refine ⟨fun j hj hle => ?_, _, harray.rep⟩
  rw [hlen] at hle
  have hentry : (startTable d L.toNat).getD (j - 1) 0 = ((j - d : Nat) : Int) := by
    rw [startTable, List.getD_eq_getElem _ _ (by simp; omega)]
    simp [show j - 1 + 1 = j by omega]
  have hborder : Agree (pat.chars.take L.toNat) (pat.chars.take L.toNat) (j - (j - d)) (j - d) := by
    rcases Nat.le_total d j with hd | hd
    · rw [Nat.sub_sub_self hd]
      exact hagain.agree.mono (by omega)
    · rw [show j - d = 0 by omega]
      exact agree_zero _ _ _
  have hlast : border (pat.chars.take L.toNat) = L.toNat - d := by
    have h := hagain.border (i := L.toNat - 1) (by omega)
    rwa [show L.toNat - 1 + 1 = L.toNat by omega, List.take_of_length_le (by omega)] at h
  rw [rarrayAt_eq harray.rep]
  rcases stored_getD (30 * 2 ^ 26) (startTable d L.toNat) (j - 1) with heq | ⟨hzero, hlt, hlong⟩
  · rw [heq, hentry]
    exact ⟨j - d, rfl, by omega, hborder, fun hend => by rw [hlast]; omega⟩
  · rw [hzero]
    rw [startTable_length] at hlong
    exact ⟨0, rfl, hj, agree_zero _ _ _, fun hend => by omega⟩

/-- `w` and `t` are the characters of the pattern and the text that the lengths count. -/
structure KmpInput (str pattern : CStr) (L n : Int) (key : Rarray Int) (w t : Obj) : Prop where
  word : w = pattern.chars.take L.toNat
  text : t = str.chars.take n.toNat
  length : w.length = L
  pos : 0 < L
  length_int : L < 2147483648
  text_le : n ≤ str.chars.length
  int : n < 2147483648
  straight : Straight w
  key : KmpKey w key

/-- `j` characters before `i` have matched, every match before them has been found. -/
structure KmpScan (w t : Obj) (s : KmpState) (i j : Nat) : Prop where
  i_eq : s.i = i
  j_eq : s.j = j
  count : s.count = 0
  le : j ≤ i
  end_le : i ≤ t.length
  agree : Agree w t (i - j) j
  ret : IntArray 10 27 s.ret (toInts (before w t (i - j)))

/-- Each round makes this smaller. -/
def kmpRest (t : Obj) (s : KmpState) : Nat := 2 * (t.length - s.i.toNat) + s.j.toNat

section search

variable {n : Int} {key : Rarray Int} {w t : Obj} {j v : Nat} {s : KmpState}

theorem KmpInput.ne_nil (h : KmpInput str pattern L n key w t) : w ≠ [] := by
  have hlen := h.length
  have hpos := h.pos
  rintro rfl
  simp at hlen
  omega

theorem KmpInput.lt_iff (h : KmpInput str pattern L n key w t) : (i : Int) < n ↔ i < t.length := by
  rw [h.text, List.length_take]
  have hle := h.text_le
  omega

theorem byteAt_take {s : CStr} {n : Nat} (hi : i < (s.chars.take n).length) :
    byteAt s.obj i = .ok (s.chars.take n)[i] := by
  have hlt : i < s.chars.length := by
    rw [List.length_take] at hi
    omega
  rw [CStr.byteAt_lt hlt, List.getElem_take]

/-- The fallback behind a match or a mismatch. -/
theorem KmpInput.fall (h : KmpInput str pattern L n key w t) (hj : 0 < j) (hle : j ≤ w.length) :
    ∃ v : Nat, rarrayAt key (uint32 ((j : Int) - 1)).toNat = .ok (v : Int) ∧ v < j ∧ Agree w w (j - v) v ∧
      (j = w.length → v = border w) := by
  have hL := h.length
  have hlt := h.length_int
  rw [uint32_of_range (by omega) (by omega), show ((j : Int) - 1).toNat = j - 1 by omega]
  exact h.key.entry j hj hle

/-- A whole match is noted, and the search goes on behind the longest border. -/
theorem kmpSearchRest_match (h : KmpInput str pattern L n key w t) (hi : s.i = i) (hj : s.j = w.length)
    (hcount : s.count = 0) (hle : w.length ≤ i) (hend : i ≤ t.length)
    (hagree : Agree w t (i - w.length) w.length)
    (hret : IntArray 10 27 s.ret (toInts (before w t (i - w.length)))) :
    (kmpSearchRest str pattern L n key s).Succeeds (Sum.elim
      (fun s' => ∃ i' j', KmpScan w t s' i' j' ∧ j' < w.length ∧ kmpRest t s' < kmpRest t s) fun _ => False) := by
  have hpos : 0 < w.length := List.length_pos_iff.mpr h.ne_nil
  have hint := h.int
  have htext : t.length < 2147483648 := by
    rw [h.text, List.length_take]
    omega
  have hsmall : (toInts (before w t (i - w.length))).length + 1 < 2147483648 := by
    rw [toInts_length]
    have hcard := before_length_le h.ne_nil t (i - w.length)
    omega
  obtain ⟨v, hfall, hlt, hborder, hlast⟩ := h.fall hpos (Nat.le_refl _)
  unfold kmpSearchRest
  rw [if_pos (hj.trans h.length)]
  refine Succeeds.bind (hret.add doubling_ret hsmall _) fun ret hret' => ?_
  rw [hcount, hj, hi, if_neg (by omega)]
  simp only [bind, Except.bind, hfall]
  refine Succeeds.ok ⟨i, v, ⟨rfl, rfl, rfl, by omega, hend, ?_, ?_⟩, hlt, ?_⟩
  · have hshift := hagree.unshift hborder (by omega)
    rwa [show i - w.length + (w.length - v) = i - v by omega] at hshift
  · have hadd : before w t (i - v) = before w t (i - w.length) ++ [i - w.length] := by
      rw [← before_succ h.ne_nil hagree]
      refine (before_skip h.ne_nil (by omega) fun k hk hkv hocc => ?_).symm
      have hmax := hagree.border hpos (Nat.le_refl _) (by omega) (by omega) (hocc.mono (by omega))
      rw [List.take_length, ← hlast rfl] at hmax
      omega
    rw [hadd, toInts, List.map_append, List.map_singleton]
    rw [hi, hj, show (i : Int) - w.length = ((i - w.length : Nat) : Int) by omega] at hret'
    exact hret'
  · rw [kmpRest, kmpRest, hi, hj]
    dsimp only
    omega

/-- Behind a mismatch nothing begins that has not been found. -/
theorem kmpSearchRest_scan (h : KmpInput str pattern L n key w t) (hs : KmpScan w t s i j) (hj : j < w.length) :
    (kmpSearchRest str pattern L n key s).Succeeds (Sum.elim
      (fun s' => ∃ i' j', KmpScan w t s' i' j' ∧ j' < w.length ∧ kmpRest t s' ≤ kmpRest t s ∧
        (i < t.length → t[i]? ≠ w[j]? → kmpRest t s' < kmpRest t s)) fun _ => False) := by
  have hle := hs.le
  have hend := hs.end_le
  have hL := h.length
  have hw := h.word
  have ht := h.text
  unfold kmpSearchRest
  rw [hs.j_eq, hs.i_eq, if_neg (by omega)]
  simp only [h.lt_iff]
  by_cases hi : i < t.length
  · rw [if_pos hi]
    have hread : byteAt pattern.obj j = .ok w[j] := by
      simp only [hw] at hj ⊢
      exact byteAt_take hj
    have hread' : byteAt str.obj i = .ok t[i] := by
      simp only [ht] at hi ⊢
      exact byteAt_take hi
    simp only [bind, Except.bind, hread, hread']
    by_cases heq : w[j] = t[i]
    · rw [if_neg (not_not.mpr heq)]
      refine Succeeds.ok ⟨i, j, hs, hj, Nat.le_refl _, fun _ hne => absurd ?_ hne⟩
      rw [List.getElem?_eq_getElem hi, List.getElem?_eq_getElem hj, heq]
    · rw [if_pos heq]
      have hne : t[i - j + j]? ≠ w[j]? := by
        rw [Nat.sub_add_cancel hle, List.getElem?_eq_getElem hi, List.getElem?_eq_getElem hj]
        exact fun hsome => heq (Option.some.inj hsome).symm
      by_cases hzero : j = 0
      · subst hzero
        rw [if_neg (by simp)]
        refine Succeeds.ok ⟨i + 1, 0, ⟨by simp, rfl, hs.count, Nat.zero_le _, hi, agree_zero _ _ _, ?_⟩, hj, ?_⟩
        · rw [Nat.sub_zero, ← before_skip h.ne_nil (Nat.le_succ i) fun k hk hki hocc => ?_]
          · exact hs.ret
          · obtain rfl : k = i := by omega
            exact hne (hocc 0 hj)
        · rw [kmpRest, kmpRest, hs.i_eq]
          dsimp only
          omega
      · obtain ⟨v, hfall, hlt, hborder, -⟩ := h.fall (Nat.pos_of_ne_zero hzero) hj.le
        rw [if_pos (by omega)]
        simp only [hfall]
        refine Succeeds.ok ⟨i, v, ⟨rfl, rfl, hs.count, by omega, hend, ?_, ?_⟩, by omega, ?_⟩
        · have hshift := hs.agree.unshift hborder (by omega)
          rwa [show i - j + (j - v) = i - v by omega] at hshift
        · rw [← before_skip h.ne_nil (show i - j ≤ i - v by omega) fun k hk hkv => ?_]
          · exact hs.ret
          · exact h.straight.skip hs.agree hj hne hk (by omega)
        · rw [kmpRest, kmpRest, hs.i_eq, hs.j_eq]
          dsimp only
          omega
  · rw [if_neg hi]
    exact Succeeds.ok ⟨i, j, hs, hj, Nat.le_refl _, fun hlt => absurd hlt hi⟩

theorem kmpSearchRound_scan (h : KmpInput str pattern L n key w t) (hs : KmpScan w t s i j) (hj : j < w.length) :
    (kmpSearchRound str pattern L n key s).Succeeds (Sum.elim
      (fun s' => (∃ i' j', KmpScan w t s' i' j' ∧ j' < w.length) ∧ kmpRest t s' < kmpRest t s)
      fun r => r.1 = true ∧ IntArray 10 27 r.2 (toInts (occurrences w t))) := by
  have hle := hs.le
  have hend := hs.end_le
  have hw := h.word
  have ht := h.text
  unfold kmpSearchRound
  rw [hs.i_eq]
  simp only [h.lt_iff]
  by_cases hi : i < t.length
  · rw [if_pos hi]
    have hread : byteAt pattern.obj j = .ok w[j] := by
      simp only [hw] at hj ⊢
      exact byteAt_take hj
    have hread' : byteAt str.obj i = .ok t[i] := by
      simp only [ht] at hi ⊢
      exact byteAt_take hi
    rw [hs.j_eq]
    simp only [bind, Except.bind, hread, hread']
    by_cases heq : w[j] = t[i]
    · rw [if_pos heq]
      have hagree : Agree w t (i - j) (j + 1) := by
        refine hs.agree.succ ?_
        rw [Nat.sub_add_cancel hle, List.getElem?_eq_getElem hi, List.getElem?_eq_getElem hj, heq]
      have hless : kmpRest t { s with i := (i : Int) + 1, j := (j : Int) + 1 } < kmpRest t s := by
        rw [kmpRest, kmpRest, hs.i_eq, hs.j_eq]
        dsimp only
        omega
      rcases Nat.lt_or_ge (j + 1) w.length with hmore | hfull
      · have hs' : KmpScan w t { s with i := (i : Int) + 1, j := (j : Int) + 1 } (i + 1) (j + 1) := by
          refine ⟨by simp, by simp, hs.count, by omega, hi, ?_, ?_⟩
          · rwa [Nat.add_sub_add_right]
          · rw [Nat.add_sub_add_right]
            exact hs.ret
        refine (kmpSearchRest_scan h hs' hmore).mono ?_
        rintro (s'' | r) hnext
        · obtain ⟨i', j', hscan, hj', hrest, -⟩ := hnext
          exact ⟨⟨i', j', hscan, hj'⟩, Nat.lt_of_le_of_lt hrest hless⟩
        · exact hnext.elim
      · obtain hm : j + 1 = w.length := by omega
        refine (kmpSearchRest_match h (i := i + 1) (s := { s with i := (i : Int) + 1, j := (j : Int) + 1 })
          (by simp) (by simp [← hm]) hs.count (by omega) hi ?_ ?_).mono ?_
        · rw [← hm, Nat.add_sub_add_right]
          exact hagree
        · rw [← hm, Nat.add_sub_add_right]
          exact hs.ret
        · rintro (s'' | r) hnext
          · obtain ⟨i', j', hscan, hj', hrest⟩ := hnext
            exact ⟨⟨i', j', hscan, hj'⟩, Nat.lt_trans hrest hless⟩
          · exact hnext.elim
    · rw [if_neg heq]
      refine (kmpSearchRest_scan h hs hj).mono ?_
      rintro (s'' | r) hnext
      · obtain ⟨i', j', hscan, hj', -, hrest⟩ := hnext
        refine ⟨⟨i', j', hscan, hj'⟩, hrest hi ?_⟩
        rw [List.getElem?_eq_getElem hi, List.getElem?_eq_getElem hj]
        exact fun hsome => heq (Option.some.inj hsome).symm
      · exact hnext.elim
  · rw [if_neg hi]
    refine Succeeds.ok ⟨rfl, ?_⟩
    rw [← before_end h.ne_nil (p := i - j) (by omega)]
    exact hs.ret

/-! A pattern whose length is counted as 0 or less is never found: behind a mismatch at 0 the loop adds a position
for ever, or it goes on without one. -/

def KmpIdle (str pattern : CStr) (L n : Int) (s : KmpState) : Prop :=
  s.count = 0 ∧ 0 ≤ s.j ∧
    (IntArray 10 27 s.ret [] ∨ L = 0 ∧ s.j = 0 ∧ s.i < n ∧ byteAt pattern.obj 0 ≠ byteAt str.obj s.i)

theorem kmpSearchRest_idle (hL : L ≤ 0) (hkey : ∀ index, rarrayAt key index = .ok 0) (h : KmpIdle str pattern L n s)
    (hstuck : s.j = L → s.i < n ∧ byteAt pattern.obj 0 ≠ byteAt str.obj s.i) :
    (kmpSearchRest str pattern L n key s).Returns (Sum.elim (KmpIdle str pattern L n) fun _ => False) := by
  obtain ⟨hcount, hj, hret⟩ := h
  unfold kmpSearchRest
  by_cases hjL : s.j = L
  · obtain ⟨hi, hne⟩ := hstuck hjL
    rw [if_pos hjL]
    refine Returns.bind_of_forall fun ret => ?_
    rw [hcount, if_neg (by omega)]
    simp only [bind, Except.bind, hkey]
    exact Returns.ok ⟨rfl, Int.le_refl 0, Or.inr ⟨by omega, rfl, hi, hne⟩⟩
  · rw [if_neg hjL]
    have hempty : IntArray 10 27 s.ret [] := hret.resolve_right fun hstuck => hjL (hstuck.2.1.trans hstuck.1.symm)
    split
    · refine Returns.bind_of_forall fun c => Returns.bind_of_forall fun d => ?_
      split
      · split
        · simp only [bind, Except.bind, hkey]
          exact Returns.ok ⟨hcount, Int.le_refl 0, Or.inl hempty⟩
        · exact Returns.ok ⟨hcount, hj, Or.inl hempty⟩
      · exact Returns.ok ⟨hcount, hj, Or.inl hempty⟩
    · exact Returns.ok ⟨hcount, hj, Or.inl hempty⟩

theorem kmpSearchRound_idle (hL : L ≤ 0) (hkey : ∀ index, rarrayAt key index = .ok 0) (h : KmpIdle str pattern L n s) :
    (kmpSearchRound str pattern L n key s).Returns
      (Sum.elim (KmpIdle str pattern L n) fun r => IntArray 10 27 r.2 []) := by
  have hmono : ∀ r, Sum.elim (KmpIdle str pattern L n) (fun _ : Bool × Rarray Int => False) r →
      Sum.elim (KmpIdle str pattern L n) (fun r => IntArray 10 27 r.2 []) r := by
    rintro (s' | r) hnext
    · exact hnext
    · exact hnext.elim
  have hj := h.2.1
  unfold kmpSearchRound
  split
  next hi =>
    simp only [bind]
    cases hc : byteAt pattern.obj s.j with
    | error f => exact Returns.error
    | ok c =>
      cases hd : byteAt str.obj s.i with
      | error f => exact Returns.error
      | ok d =>
        simp only [Except.bind]
        by_cases heq : c = d
        · rw [if_pos heq]
          have hempty : IntArray 10 27 s.ret [] := by
            refine h.2.2.resolve_right ?_
            rintro ⟨-, hzero, -, hne⟩
            rw [hzero] at hc
            exact hne (by rw [hc, hd, heq])
          have hidle : KmpIdle str pattern L n { s with i := s.i + 1, j := s.j + 1 } :=
            ⟨h.1, Int.le_add_one hj, Or.inl hempty⟩
          refine (kmpSearchRest_idle hL hkey hidle fun heq => ?_).mono hmono
          dsimp only at heq
          omega
        · rw [if_neg heq]
          refine (kmpSearchRest_idle hL hkey h fun hjL => ⟨hi, ?_⟩).mono hmono
          rw [show s.j = 0 by omega] at hc
          rw [hc, hd]
          exact fun hok => heq (Except.ok.inj hok)
  next hi => exact Returns.ok (h.2.2.resolve_right fun hstuck => hi hstuck.2.2.1)

end search

/-! ### What is found -/

/-- The characters that the `int` length counts. -/
def CStr.counted (s : CStr) : Obj := s.chars.take (int32 s.chars.length).toNat

/-- The occurrences of the counted part of the pattern in the counted part of the text. -/
def found (str pattern : CStr) : List Nat :=
  if 0 < int32 pattern.chars.length then occurrences pattern.counted str.counted else []

theorem found_of_pos (h : 0 < int32 pattern.chars.length) :
    found str pattern = occurrences pattern.counted str.counted := if_pos h

theorem found_of_not_pos (h : ¬ 0 < int32 pattern.chars.length) : found str pattern = [] := if_neg h

attribute [irreducible] found

theorem int32_le (n : Nat) : int32 n ≤ n := by
  unfold int32
  omega

theorem kmpSearch_halts (hpos : 0 < int32 pattern.chars.length)
    (hstraight : Straight pattern.counted) :
    Halts (fun fuel => kmpSearch fuel str pattern 0) fun ret => IntArray 10 27 ret (toInts (found str pattern)) := by
  have hle := int32_le pattern.chars.length
  have hint := (int32_range pattern.chars.length).2
  simp only [kmpSearch, bind]
  refine Halts.bind (kmpNextArrayInit_halts hle hint hstraight) fun key hkey => ?_
  have hinput : KmpInput str pattern (int32 pattern.chars.length) (int32 str.chars.length) key
      pattern.counted str.counted :=
    ⟨rfl, rfl, by rw [CStr.counted, List.length_take]; omega, hpos, hint, int32_le _, (int32_range _).2, hstraight,
      kmpKey_of_table hle hpos hkey⟩
  refine Halts.bind (P := fun r => r.1 = true ∧ IntArray 10 27 r.2 (toInts (found str pattern))) ?_ ?_
  · rw [found_of_pos hpos]
    refine Halts.loop (I := fun s => ∃ i j, KmpScan pattern.counted str.counted s i j ∧ j < pattern.counted.length)
      (μ := kmpRest str.counted) ?_ ⟨0, 0, ?_, ?_⟩
    · rintro s ⟨i, j, hs, hj⟩
      exact kmpSearchRound_scan hinput hs hj
    · exact ⟨rfl, rfl, rfl, Nat.le_refl 0, Nat.zero_le _, agree_zero _ _ _, by
        rw [Nat.sub_zero, before_zero]
        exact intArray_create doubling_ret⟩
    · exact List.length_pos_iff.mpr hinput.ne_nil
  · rintro ⟨ended, ret⟩ ⟨hended, hret⟩
    obtain rfl : ended = true := hended
    obtain ⟨l, hrep⟩ := hinput.key.rep
    have hdone : ((rarrayRelease key).bind fun _ => (.ok ret : Except Fault (Rarray Int))).Succeeds fun ret =>
        IntArray 10 27 ret (toInts (found str pattern)) :=
      Succeeds.bind (rarrayRelease_ok hrep) fun _ _ => Succeeds.ok hret
    exact hdone.halts

theorem kmpSearch_mono {n m : Nat} {count : Int} {ret : Rarray Int} (h : kmpSearch n str pattern count = .ok ret)
    (hle : n ≤ m) : kmpSearch m str pattern count = .ok ret := by
  simp only [kmpSearch, kmpNextArrayInit, bind] at h ⊢
  obtain ⟨key, hkey, h⟩ := of_bind_ok h
  obtain ⟨array, hadd, hinit⟩ := of_bind_ok hkey
  obtain ⟨⟨ended, ret'⟩, hsearch, hrest⟩ := of_bind_ok h
  rw [hadd]
  simp only [Except.bind]
  rw [loop_mono hinit hle]
  simp only []
  rw [loop_mono hsearch hle]
  exact hrest

/-- A search that ends has found what there is to find, and its pattern is straight. -/
theorem kmpSearch_returns (fuel : Nat) : (kmpSearch fuel str pattern 0).Returns fun ret =>
    IntArray 10 27 ret (toInts (found str pattern)) ∧
      Straight pattern.counted := by
  have hle := int32_le pattern.chars.length
  have hint := (int32_range pattern.chars.length).2
  intro ret hrun
  have hstraight : Straight pattern.counted := by
    simp only [kmpSearch, bind] at hrun
    obtain ⟨key, hkey, -⟩ := of_bind_ok hrun
    exact (kmpNextArrayInit_returns hle hint fuel key hkey).2
  refine ⟨?_, hstraight⟩
  by_cases hpos : 0 < int32 pattern.chars.length
  · have hsearch : Halts (fun fuel => kmpSearch fuel str pattern 0) _ := kmpSearch_halts hpos hstraight
    obtain ⟨ret', ⟨n, hall⟩, hret⟩ := hsearch
    have hsame := (kmpSearch_mono hrun (Nat.le_max_left fuel n)).symm.trans (hall _ (Nat.le_max_right fuel n))
    rw [Except.ok.inj hsame]
    exact hret
  · rw [found_of_not_pos hpos]
    simp only [kmpSearch, bind] at hrun
    obtain ⟨key, hkey, hrun⟩ := of_bind_ok hrun
    have htable := (kmpNextArrayInit_returns hle hint fuel key hkey).1
    obtain ⟨⟨ended, ret'⟩, hloop, hrun⟩ := of_bind_ok hrun
    have hidle := Returns.loop (Q := fun r => IntArray 10 27 r.2 [])
      (fun s hs => kmpSearchRound_idle (Int.not_lt.mp hpos) (htable.zero (Int.not_lt.mp hpos)) hs)
      ⟨rfl, Int.le_refl 0, Or.inl (intArray_create doubling_ret)⟩ fuel _ hloop
    have heq : ret' = ret := by
      cases ended with
      | true =>
        obtain ⟨_, -, hret⟩ := of_bind_ok hrun
        exact Except.ok.inj hret
      | false => exact Except.ok.inj hrun
    exact heq ▸ hidle

/-! ### The table and the search together -/

structure KmpFinds (str pattern : CStr) : Prop where
  table : Halts (fun fuel => kmpNextArrayInit fuel pattern (int32 pattern.chars.length) (rarrayCreate 4 30))
    fun array => array.ints = toInts ((List.range pattern.chars.length).map fun i => border (pattern.chars.take (i + 1)))
  search : Halts (fun fuel => kmpSearch fuel str pattern 0) fun ret =>
    ret.ints = toInts (occurrences pattern.chars str.chars)

/-- `fits`: the table outgrows 30 * 2^26 entries before the first one that is not 0. -/
structure KmpCounted (str pattern : CStr) : Prop where
  straight : Straight pattern.chars
  fits : pattern.chars.length ≤ 2013265920 ∨ pattern.chars.length < 2147483648 ∧
    ∀ p < 2013265920, 0 < p → pattern.chars[p]? ≠ pattern.chars[0]?
  inText : ∀ p ∈ occurrences pattern.chars str.chars, (p + pattern.chars.length : Int) ≤ int32 str.chars.length
  few : (occurrences pattern.chars str.chars).length ≤ 1342177280

theorem int32_of_lt {n : Nat} (h : n < 2147483648) : int32 n = n := int32_of_range (by omega) (by omega)

theorem counted_of_lt {s : CStr} (h : s.chars.length < 2147483648) : s.counted = s.chars := by
  rw [CStr.counted, int32_of_lt h, Int.toNat_natCast, List.take_length]

theorem startTable_eq_border {w : Obj} {d : Nat} (h : StartsAgain w d) :
    startTable d w.length = toInts ((List.range w.length).map fun i => border (w.take (i + 1))) := by
  rw [startTable, toInts, List.map_map]
  apply List.map_congr_left
  intro i hi
  rw [Function.comp_apply, h.border (List.mem_range.mp hi)]

/-- Strictly ascending positions leave their index behind. -/
theorem le_getElem_of_sorted {l : List Nat} (h : l.Pairwise (· < ·)) (t : Nat) (ht : t < l.length) : t ≤ l[t] := by
  induction t with
  | zero => exact Nat.zero_le _
  | succ t ih =>
    have hlt := List.pairwise_iff_getElem.mp h t (t + 1) (by omega) ht (Nat.lt_succ_self t)
    have hle := ih (by omega)
    omega

theorem KmpFinds.lt (h : KmpFinds str pattern) (hne : pattern.chars ≠ []) : pattern.chars.length < 2147483648 := by
  have hpos := List.length_pos_iff.mpr hne
  have hle := int32_le pattern.chars.length
  have hint := (int32_range pattern.chars.length).2
  obtain ⟨array, hints, ⟨d, -, harray, -⟩, -⟩ :=
    (h.table.returns (kmpNextArrayInit_returns hle hint)).exists
  have hlen := congrArg List.length hints
  rw [harray.ints_eq, stored_length, startTable_length, toInts_length, List.length_map, List.length_range] at hlen
  omega

theorem KmpFinds.counted (h : KmpFinds str pattern) (hne : pattern.chars ≠ []) : KmpCounted str pattern := by
  have hpos := List.length_pos_iff.mpr hne
  have hlt := h.lt hne
  have hL := int32_of_lt hlt
  have hcounted := counted_of_lt hlt
  obtain ⟨array, hints, ⟨d, hd, harray, hagain⟩, -⟩ :=
    (h.table.returns (kmpNextArrayInit_returns (int32_le _) (int32_range _).2)).exists
  obtain ⟨ret, hret, hfound, hstraight⟩ := (h.search.returns kmpSearch_returns).exists
  rw [hcounted] at hstraight
  rw [hL, Int.toNat_natCast, List.take_length] at hagain
  have hagain := hagain (by omega)
  rw [harray.ints_eq, hL, show (max 1 (pattern.chars.length : Int)).toNat = pattern.chars.length by omega,
    ← startTable_eq_border hagain] at hints
  rw [hfound.ints_eq] at hret
  have hfew : (occurrences pattern.chars str.chars).length ≤ 1342177280 := by
    by_contra hmany
    have hlen := congrArg List.length hret
    rw [stored_length, toInts_length, toInts_length] at hlen
    have hlost := stored_lost (l := toInts (found str pattern)) (b := 10 * 2 ^ 27) (t := 1342177279)
      (by rw [toInts_length]; omega) (by decide) (by decide)
    have hmany' : 1342177279 < (occurrences pattern.chars str.chars).length := by omega
    rw [hret, toInts, List.getElem?_map, List.getElem?_eq_getElem hmany'] at hlost
    have hge := le_getElem_of_sorted (occurrences_sorted pattern.chars str.chars) _ hmany'
    have hzero : ((occurrences pattern.chars str.chars)[1342177279] : Int) = 0 := Option.some.inj hlost
    omega
  have hsame : found str pattern = occurrences pattern.chars str.chars := by
    have hlen := congrArg List.length hret
    rw [stored_length, toInts_length, toInts_length] at hlen
    rw [stored_of_le (by rw [toInts_length]; omega)] at hret
    exact toInts_injective hret
  refine ⟨hstraight, ?_, ?_, hfew⟩
  · by_contra hfits
    push Not at hfits
    obtain ⟨hlong, hagainst⟩ := hfits
    obtain ⟨p, hpb, hp0, hrecurs⟩ := hagainst hlt
    -- the entry in the last slot that is lost belongs to a border
    have hdp : d ≤ p := by
      by_contra hlt
      exact hagain.before p (Nat.lt_of_not_le hlt) hp0 hrecurs
    have hlost := stored_lost (l := startTable d pattern.chars.length) (b := 30 * 2 ^ 26) (t := 2013265919)
      (by rw [startTable_length]; omega) (by decide) (by decide)
    rw [hints, startTable, List.getElem?_map, List.getElem?_range (by omega)] at hlost
    have hzero : ((2013265919 + 1 - d : Nat) : Int) = 0 := Option.some.inj hlost
    omega
  · intro p hp
    rw [← hsame, found_of_pos (by omega), hcounted] at hp
    have hle := occurrence_le hne hp
    rw [CStr.counted, List.length_take] at hle
    omega

theorem KmpCounted.lt (h : KmpCounted str pattern) : pattern.chars.length < 2147483648 := by
  rcases h.fits with hle | ⟨hlt, -⟩ <;> omega

theorem KmpCounted.found (h : KmpCounted str pattern) (hne : pattern.chars ≠ []) :
    found str pattern = occurrences pattern.chars str.chars := by
  have hpos := List.length_pos_iff.mpr hne
  rw [found_of_pos (by rw [int32_of_lt h.lt]; omega), counted_of_lt h.lt, CStr.counted, occurrences_take hne]
  apply List.filter_eq_self.mpr
  intro p hp
  have hle := h.inText p hp
  simp only [decide_eq_true_iff]
  omega

theorem KmpCounted.finds (h : KmpCounted str pattern) (hne : pattern.chars ≠ []) : KmpFinds str pattern := by
  have hpos := List.length_pos_iff.mpr hne
  have hL := int32_of_lt h.lt
  have hcounted := counted_of_lt h.lt
  constructor
  · rw [hL]
    refine (kmpNextArrayInit_halts (Int.le_refl _) (by have hlt := h.lt; omega) ?_).mono ?_
    · rw [Int.toNat_natCast, List.take_length]
      exact h.straight
    · rintro array ⟨d, -, harray, hagain⟩
      rw [Int.toNat_natCast, List.take_length] at hagain
      have hagain := hagain (by omega)
      rw [harray.ints_eq, show (max 1 (pattern.chars.length : Int)).toNat = pattern.chars.length by omega,
        ← startTable_eq_border hagain]
      rcases h.fits with hle | ⟨-, hfirst⟩
      · exact stored_of_le (by rw [startTable_length]; omega)
      · refine stored_of_zero fun t ht => ?_
        -- the pattern does not start again among the entries that are lost
        have hd : 30 * 2 ^ 26 ≤ d ∨ pattern.chars.length ≤ d := by
          by_contra hlt
          rw [not_or, Nat.not_le, Nat.not_le] at hlt
          exact hfirst d (by omega) hagain.pos (hagain.agree 0 (by omega))
        by_cases hin : t < pattern.chars.length
        · rw [startTable, List.getD_eq_getElem _ _ (by simpa using hin), List.getElem_map, List.getElem_range]
          omega
        · rw [List.getD_eq_default _ _ (by rw [startTable_length]; omega)]
  · refine (kmpSearch_halts (by rw [hL]; omega) (by rw [hcounted]; exact h.straight)).mono fun ret hret => ?_
    rw [hret.ints_eq, h.found hne, stored_of_le]
    rw [toInts_length]
    exact h.few

/-- The table is built and the search finds every occurrence just for straight patterns, as far as ints count. -/
theorem kmpFinds_iff (str pattern : CStr) (hne : pattern.chars ≠ []) : KmpFinds str pattern ↔ KmpCounted str pattern :=
  ⟨fun h => h.counted hne, fun h => h.finds hne⟩

/-- "aba" in "ababa". -/
theorem kmpFinds_aba : KmpFinds ⟨[97, 98, 97, 98, 97], by decide, by decide⟩ ⟨[97, 98, 97], by decide, by decide⟩ ↔
    KmpCounted ⟨[97, 98, 97, 98, 97], by decide, by decide⟩ ⟨[97, 98, 97], by decide, by decide⟩ :=
  kmpFinds_iff _ _ (by decide)

/-- The table of "aab" is never built. -/
theorem kmp_aab_endless : ¬ ∀ str pattern : CStr, pattern.chars ≠ [] → KmpFinds str pattern := fun h =>
  absurd ((h ⟨[97, 97, 98], by decide, by decide⟩ ⟨[97, 97, 98], by decide, by decide⟩ (by decide)).counted
    (by decide)).straight (by decide)

end Funra
