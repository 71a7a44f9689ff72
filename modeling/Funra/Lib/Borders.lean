import Mathlib.Order.Bounds.Basic
import Funra.Lib.Words

/-!
# Borders

`border w` is the length of the longest prefix of `w` other than `w` that is a suffix too. In a `Straight` word
the first character comes again only where the word starts again to its end: the borders of the prefixes
are 0 up to there and grow by one from there on (`StartsAgain.border`). After a mismatch no border of a straight
word goes on with another character (`Straight.next`).
-/

namespace Words

variable {α : Type*} {w s : List α} {b d i j k p q n m : Nat}

theorem suffix_take_iff (hk : k ≤ j) (hj : j ≤ w.length) :
    (w.take j).take k <:+ w.take j ↔ Agree w w (j - k) k := by
  have hlen : ((w.take j).take k).length = k := by simp; omega
  have hlen' : (w.take j).length - k = j - k := by simp; omega
  rw [List.suffix_iff_eq_drop, hlen, hlen']
  constructor
  · intro h t ht
    have ht' := congrArg (fun l => l[t]?) h
    simp only [List.getElem?_drop] at ht'
    rw [List.getElem?_take_of_lt ht, List.getElem?_take_of_lt (by omega), List.getElem?_take_of_lt (by omega)] at ht'
    exact ht'.symm
  · intro h
    apply List.ext_getElem?
    intro t
    rw [List.getElem?_drop]
    by_cases ht : t < k
    · rw [List.getElem?_take_of_lt ht, List.getElem?_take_of_lt (by omega), List.getElem?_take_of_lt (by omega), h t ht]
    · rw [List.getElem?_eq_none (by omega), List.getElem?_eq_none (by rw [List.length_take]; omega)]

/-! ### The longest border -/

section border

variable [DecidableEq α]

def border (w : List α) : Nat := Nat.findGreatest (fun k => w.take k <:+ w) (w.length - 1)

theorem border_isGreatest (hw : w ≠ []) : IsGreatest {k | k < w.length ∧ w.take k <:+ w} (border w) := by
  have hpos := List.length_pos_iff.mpr hw
  refine ⟨⟨?_, ?_⟩, ?_⟩
  · have hle := Nat.findGreatest_le (P := fun k => w.take k <:+ w) (w.length - 1)
    rw [border]
    omega
  · exact Nat.findGreatest_spec (P := fun k => w.take k <:+ w) (Nat.zero_le _) (by simp)
  · rintro k ⟨hlt, hk⟩
    exact Nat.le_findGreatest (by omega) hk

theorem border_take_isGreatest (hpos : 0 < j) (hj : j ≤ w.length) :
    IsGreatest {k | k < j ∧ Agree w w (j - k) k} (border (w.take j)) := by
  have hlen : (w.take j).length = j := by simp; omega
  have h := border_isGreatest (w := w.take j) (List.ne_nil_of_length_pos (by rwa [hlen]))
  rw [hlen] at h
  convert h using 1
  ext k
  simp only [Set.mem_ofPred_eq, and_congr_right_iff]
  intro hk
  rw [suffix_take_iff hk.le hj]

/-- The next occurrence begins no earlier than the longest border allows. -/
theorem Agree.border (h : Agree w s p j) (hpos : 0 < j) (hj : j ≤ w.length) (hpq : p < q) (hq : q ≤ p + j)
    (h' : Agree w s q (p + j - q)) : p + j - q ≤ border (w.take j) := by
  refine (border_take_isGreatest hpos hj).2 ⟨by omega, ?_⟩
  have hshift := h.shift h' hpq.le (by omega)
  rwa [show j - (p + j - q) = q - p by omega]

end border

/-! ### Straight words -/

def Straight (w : List α) : Prop := ∀ p < w.length, 0 < p → w[p]? = w[0]? → w.HasPeriod p

instance [DecidableEq α] (w : List α) : Decidable (Straight w) :=
  inferInstanceAs (Decidable (∀ p < w.length, 0 < p → w[p]? = w[0]? → w <+: w.take p ++ w))

/-- `d` is where the first character comes first again, or the end, and the rest repeats the start. -/
structure StartsAgain (w : List α) (d : Nat) : Prop where
  pos : 0 < d
  le : d ≤ w.length
  before : ∀ p < d, 0 < p → w[p]? ≠ w[0]?
  agree : Agree w w d (w.length - d)

theorem hasPeriod_iff_agree : w.HasPeriod p ↔ Agree w w p (w.length - p) := by
  rw [List.hasPeriod_iff_getElem?]
  constructor
  · intro h t ht
    rw [h t ht, Nat.add_comm]
  · intro h t ht
    rw [← h t ht, Nat.add_comm]

theorem StartsAgain.straight (h : StartsAgain w d) : Straight w := by
  intro p hp hpos heq
  have hperiod := hasPeriod_iff_agree.mpr h.agree
  have hmod : p % d = 0 := by
    by_contra hne
    refine h.before (p % d) (Nat.mod_lt p h.pos) (Nat.pos_of_ne_zero hne) ?_
    rw [hperiod.getElem?_mod d p w hp, heq]
  rw [List.hasPeriod_iff_getElem?]
  intro t ht
  rw [← hperiod.getElem?_mod d t w (by omega), ← hperiod.getElem?_mod d (t + p) w (by omega), Nat.add_mod, hmod,
    Nat.add_zero, Nat.mod_mod]

theorem StartsAgain.border [DecidableEq α] (h : StartsAgain w d) (hi : i < w.length) :
    border (w.take (i + 1)) = i + 1 - d := by
  have hpos := h.pos
  apply (border_take_isGreatest (Nat.succ_pos i) hi).unique
  refine ⟨⟨by omega, ?_⟩, ?_⟩
  · rcases Nat.le_total d (i + 1) with hd | hd
    · rw [Nat.sub_sub_self hd]
      exact h.agree.mono (by omega)
    · rw [show i + 1 - d = 0 by omega]
      exact agree_zero w w _
  · rintro k ⟨hk, hagree⟩
    by_contra hgt
    refine h.before (i + 1 - k) (by omega) (by omega) ?_
    exact hagree 0 (by omega)

/-- A border that is not empty goes on with the next character. -/
theorem Straight.next (h : Straight w) (hk : 0 < k) (hkj : k < j) (hj : j < w.length) (hb : Agree w w (j - k) k) :
    w[j]? = w[k]? := by
  have hperiod := hasPeriod_iff_agree.mp (h (j - k) (by omega) (by omega) (hb 0 hk))
  have hnext := hperiod k (by omega)
  rwa [Nat.sub_add_cancel hkj.le] at hnext

/-- After a mismatch no occurrence begins in what has agreed. -/
theorem Straight.skip (h : Straight w) (hagree : Agree w s p j) (hj : j < w.length) (hne : s[p + j]? ≠ w[j]?)
    (hpq : p ≤ q) (hq : q < p + j) : ¬ Agree w s q w.length := by
  intro hocc
  rcases hpq.eq_or_lt with rfl | hlt
  · exact hne (hocc j hj)
  · have hborder : Agree w w (j - (p + j - q)) (p + j - q) := by
      have hshift := hagree.shift (hocc.mono (by omega : p + j - q ≤ w.length)) hpq (by omega)
      rwa [show j - (p + j - q) = q - p by omega]
    have hnext := h.next (by omega) (by omega) hj hborder
    have hchar := hocc (p + j - q) (by omega)
    rw [Nat.add_sub_cancel' (by omega)] at hchar
    exact hne (hchar.trans hnext.symm)

end Words
