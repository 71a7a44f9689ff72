import Mathlib.Data.Nat.Digits.Defs
import Funra.Rstring.Concat

/-!
# Appending to a string

The room `rstr_cat` computes is an unsigned difference: once the destination is longer than `dest_size` it wraps, and
the whole source is appended. `rlog_printf_cached` passes the size of a pointer, which the time before the format
exceeds, and relies on that.
-/

namespace Funra

open Mem CInt Except

def catLen (destSize : UInt64) (position srcLen : Nat) : Nat :=
  if destSize = 0 then srcLen else min srcLen (sizeT ((destSize.toNat : Int) - position))

/-- The object of `dest`, and the number of bytes that are appended. -/
def rstrCat (dest src : Obj) (destSize : UInt64) : Except Fault (Obj × Nat) := do
  let position ← rstrLen dest 0
  let srcLen ← rstrLen src 0
  let copyLen := catLen destSize position srcLen
  let dest ← store dest position (← Mem.load src 0 copyLen)
  let dest ← store dest (sizeT (position + copyLen)) [0]
  return (dest, copyLen)

/-- The C library's. -/
def strcat (dest src : Obj) : Except Fault Obj := do
  store dest (← rstrLen dest 0) ((← strAt src 0) ++ [0])

/-! ### The header of a log item -/

/-- `%.{width}d`. -/
def fmtInt (width : Nat) (n : Int) : Obj :=
  (if n < 0 then [45] else []) ++ ((Nat.digits 10 n.natAbs).reverse.map fun d => UInt8.ofNat (48 + d)).leftpad width 48

/-- What `rtime_from_time_millis` returns. -/
structure TimeDatas where
  year : Int
  month : Int
  day : Int
  hour : Int
  minute : Int
  second : Int
  mills : Int

/-- "%.4d-%.2d-%.2d %.2d:%.2d:%.2d %.3d". -/
def timeText (t : TimeDatas) : Obj :=
  fmtInt 4 t.year ++ [45] ++ fmtInt 2 t.month ++ [45] ++ fmtInt 2 t.day ++ [32] ++ fmtInt 2 t.hour ++ [58] ++
    fmtInt 2 t.minute ++ [58] ++ fmtInt 2 t.second ++ [32] ++ fmtInt 3 t.mills

/-- VEBR, TRACE, DEBUG, INFO, WARN, ERROR, FATAL and ALL. -/
def rlogStrs : List Obj :=
  [[86, 69, 66, 82], [84, 82, 65, 67, 69], [68, 69, 66, 85, 71], [73, 78, 70, 79], [87, 65, 82, 78],
    [69, 82, 82, 79, 82], [70, 65, 84, 65, 76], [65, 76, 76]]

/-- How `rlog_printf_cached` builds `item_fmt`, with `timeStr` in an array of 32 bytes. `sizeof(item_fmt)` is 8. -/
def rlogItemFmt (M : Malloc) (itemFmt : Obj) (time : TimeDatas) (level : Fin 8) (fmt : Obj) : Except Fault (Obj × Nat) := do
  let timeStr ← store (M.block 32) 0 (timeText time ++ [0])
  let itemFmt ← strcat itemFmt timeStr
  let itemFmt ← strcat itemFmt [32, 91, 0]
  let itemFmt ← strcat itemFmt (rlogStrs.get level ++ [0])
  let itemFmt ← strcat itemFmt [93, 32, 0]
  rstrCat itemFmt fmt 8

/-! ### The bound -/

variable {d src : CStr} {rest : Obj} {n : UInt64}

/-- The object of `d`, with the bytes behind it, once this many of `src` are appended. -/
def appended (d src : CStr) (rest : Obj) (copyLen : Nat) : Obj :=
  d.chars ++ src.chars.take copyLen ++ 0 :: rest.drop copyLen

theorem strAt_dest (d : CStr) (rest : Obj) : strAt (d.chars ++ 0 :: rest) 0 = .ok d.chars := strAt_of_append rfl d.noNul

theorem catLen_le (n : UInt64) (position srcLen : Nat) : catLen n position srcLen ≤ srcLen := by
  rw [catLen]
  split
  · exact Nat.le_refl _
  · exact Nat.min_le_left _ _

/-- The call up to the writes. -/
theorem rstrCat_eq (rest : Obj) {c : Nat} (hc : catLen n d.chars.length src.chars.length = c) :
    rstrCat (d.chars ++ 0 :: rest) src.obj n =
      (store (d.chars ++ 0 :: rest) d.chars.length (src.chars.take c)).bind fun dest =>
        (store dest (d.chars.length + c : Nat) [0]).bind fun dest => .ok (dest, c) := by
  have hle := catLen_le n d.chars.length src.chars.length
  have hd := d.fits
  have hs := src.fits
  have hlen : rstrLen (d.chars ++ 0 :: rest) 0 = .ok d.chars.length := by
    rw [rstrLen, strAt_dest]
    rfl
  have hload : Mem.load src.obj (0 : Nat) c = .ok (src.chars.take c) := load_obj (by omega)
  have hpos : sizeT ((d.chars.length : Int) + c) = d.chars.length + c := sizeT_add (by omega)
  unfold rstrCat
  rw [hlen, rstrLen_obj (Nat.zero_le _), Nat.sub_zero]
  simp only [bind, ok_bind]
  rw [hc, show Mem.load src.obj 0 c = _ from hload, ok_bind, hpos]
  rfl

theorem rstrCat_ok (rest : Obj) {c : Nat} (hc : catLen n d.chars.length src.chars.length = c) (hfit : c ≤ rest.length) :
    rstrCat (d.chars ++ 0 :: rest) src.obj n = .ok (appended d src rest c, c) := by
  have htake : (src.chars.take c).length = c := by
    rw [List.length_take, Nat.min_eq_left (hc ▸ catLen_le n _ _)]
  rw [rstrCat_eq rest hc, store_behind (by rw [htake, List.length_cons]; omega), ok_bind, htake]
  have hfront : d.chars.length + c = (d.chars ++ src.chars.take c).length := by rw [List.length_append, htake]
  rw [hfront, List.drop_eq_getElem_cons (by rw [List.length_cons]; omega), store_char]
  rfl

theorem rstrCat_beyond (rest : Obj) {c : Nat} (hc : catLen n d.chars.length src.chars.length = c) (hfit : rest.length < c) :
    (rstrCat (d.chars ++ 0 :: rest) src.obj n).Returns fun _ => False := by
  rw [rstrCat_eq rest hc]
  refine Returns.bind (store_returns _ _ _) fun dest hdest => ?_
  rw [store_beyond]
  · exact Returns.error
  · rw [hdest, List.length_append, List.length_cons, List.length_singleton]
    omega

/-- What the claimed bound says of a call: no byte behind `dest_size` changes, what fits is appended and counted. -/
def CatLaw (d src : CStr) (rest : Obj) (n : UInt64) : Prop :=
  (rstrCat (d.chars ++ 0 :: rest) src.obj n).Succeeds fun r =>
    if d.chars.length ≤ n.toNat then
      r.2 = min src.chars.length (n.toNat - d.chars.length) ∧ strAt r.1 0 = .ok (d.chars ++ src.chars.take r.2) ∧
        ∀ i, n.toNat < i → r.1[i]? = (d.chars ++ 0 :: rest)[i]?
    else r.1 = d.chars ++ 0 :: rest ∧ r.2 = 0

theorem catLen_fits (hn : 0 < n) (hle : d.chars.length ≤ n.toNat) :
    catLen n d.chars.length src.chars.length = min src.chars.length (n.toNat - d.chars.length) := by
  have hlt := n.toNat_lt
  have hne : n ≠ 0 := fun hzero => by simp [hzero] at hn
  rw [catLen, if_neg hne, ← Nat.cast_sub hle, sizeT_eq, Nat.mod_eq_of_lt (by omega)]

/-- The difference has wrapped. -/
theorem catLen_wraps (hlt : n.toNat < d.chars.length) : catLen n d.chars.length src.chars.length = src.chars.length := by
  have hd := d.fits
  have hs := src.fits
  rw [catLen]
  split
  · rfl
  · unfold sizeT
    omega

theorem zero_not_mem_appended (d src : CStr) (c : Nat) : 0 ∉ d.chars ++ src.chars.take c := by
  rw [List.mem_append]
  rintro (h | h)
  · exact d.noNul h
  · exact src.noNul (List.mem_of_mem_take h)

/-- Behind the terminator nothing changes. -/
theorem appended_get {c i : Nat} (hc : c ≤ src.chars.length) (hi : d.chars.length + c < i) :
    (appended d src rest c)[i]? = (d.chars ++ 0 :: rest)[i]? := by
  obtain ⟨k, rfl⟩ := Nat.exists_eq_add_of_lt hi
  have hfront : (d.chars ++ src.chars.take c).length = d.chars.length + c := by
    rw [List.length_append, List.length_take, Nat.min_eq_left hc]
  rw [appended, List.getElem?_append_right (by omega), List.getElem?_append_right (by omega), hfront,
    show d.chars.length + c + k + 1 - (d.chars.length + c) = k + 1 by omega,
    show d.chars.length + c + k + 1 - d.chars.length = c + k + 1 by omega, List.getElem?_cons_succ,
    List.getElem?_cons_succ, List.getElem?_drop]

theorem CatLaw.of_fits (hn : 0 < n) (hle : d.chars.length ≤ n.toNat)
    (hfit : min src.chars.length (n.toNat - d.chars.length) ≤ rest.length) : CatLaw d src rest n := by
  refine ⟨_, rstrCat_ok rest (catLen_fits hn hle) hfit, ?_⟩
  dsimp only
  rw [if_pos hle]
  refine ⟨rfl, strAt_of_append rfl (zero_not_mem_appended d src _), fun i hi => ?_⟩
  exact appended_get (Nat.min_le_left _ _) (by omega)

theorem CatLaw.of_nil (hnil : src.chars = []) (hlt : n.toNat < d.chars.length) : CatLaw d src rest n := by
  refine ⟨_, rstrCat_ok rest (catLen_wraps hlt) (by rw [hnil]; exact Nat.zero_le _), ?_⟩
  dsimp only
  rw [if_neg (not_le.mpr hlt), appended, hnil, List.length_nil, List.take_nil, List.append_nil]
  exact ⟨rfl, rfl⟩

theorem CatLaw.fits (hn : 0 < n) (h : CatLaw d src rest n) : d.chars.length ≤ n.toNat ∧
    d.chars.length + min src.chars.length (n.toNat - d.chars.length) < (d.chars ++ 0 :: rest).length ∨ src.chars = [] := by
  obtain ⟨⟨dest, c⟩, hrun, hlaw⟩ := h
  by_cases hle : d.chars.length ≤ n.toNat
  · refine Or.inl ⟨hle, ?_⟩
    by_contra hshort
    rw [List.length_append, List.length_cons] at hshort
    exact rstrCat_beyond rest (catLen_fits hn hle) (by omega) _ hrun
  · right
    rw [if_neg hle] at hlaw
    have hwrap : catLen n d.chars.length src.chars.length = _ := catLen_wraps (not_le.mp hle)
    by_cases hroom : src.chars.length ≤ rest.length
    · rw [rstrCat_ok rest hwrap hroom] at hrun
      have hc := congrArg Prod.snd (Except.ok.inj hrun)
      exact List.eq_nil_of_length_eq_zero (hc.trans hlaw.2)
    · exact absurd hrun (fun hrun => rstrCat_beyond rest hwrap (not_le.mp hroom) _ hrun)

/-- A destination that is too long gets the whole source. -/
theorem rstrCat_wraps (hlt : n.toNat < d.chars.length) (hfit : src.chars.length ≤ rest.length) :
    (rstrCat (d.chars ++ 0 :: rest) src.obj n).Succeeds fun r =>
      r.2 = src.chars.length ∧ strAt r.1 0 = .ok (d.chars ++ src.chars) := by
  refine ⟨_, rstrCat_ok rest (catLen_wraps hlt) hfit, rfl, ?_⟩
  have hnul := zero_not_mem_appended d src src.chars.length
  rw [List.take_length] at hnul
  rw [appended, List.take_length]
  exact strAt_of_append rfl hnul

/-! ### The log item -/

theorem zero_not_mem_fmtInt (width : Nat) (n : Int) : 0 ∉ fmtInt width n := by
  have hdigit : ∀ d < 10, UInt8.ofNat (48 + d) ≠ 0 := by decide
  rw [fmtInt, List.leftpad]
  simp only [List.mem_append, List.mem_replicate, List.mem_map, List.mem_reverse]
  rintro (hsign | hpad | ⟨d, hd, hzero⟩)
  · split at hsign
    · simp at hsign
    · exact absurd hsign List.not_mem_nil
  · exact absurd hpad.2 (by decide)
  · exact hdigit d (Nat.digits_lt_base (by decide) hd) hzero

theorem le_fmtInt_length (width : Nat) (n : Int) : width ≤ (fmtInt width n).length := by
  rw [fmtInt, List.length_append, List.length_leftpad]
  omega

theorem zero_not_mem_timeText (t : TimeDatas) : 0 ∉ timeText t := by
  simp [timeText, zero_not_mem_fmtInt]

theorem timeText_length (t : TimeDatas) : 23 ≤ (timeText t).length := by
  have hyear := le_fmtInt_length 4 t.year
  have hmonth := le_fmtInt_length 2 t.month
  have hday := le_fmtInt_length 2 t.day
  have hhour := le_fmtInt_length 2 t.hour
  have hminute := le_fmtInt_length 2 t.minute
  have hsecond := le_fmtInt_length 2 t.second
  have hmills := le_fmtInt_length 3 t.mills
  simp only [timeText, List.length_append, List.length_singleton]
  omega

/-- What stands before the format. -/
def itemHeader (time : TimeDatas) (level : Fin 8) : Obj := timeText time ++ [32, 91] ++ rlogStrs.get level ++ [93, 32]

theorem rlogStrs_get (level : Fin 8) : 0 ∉ rlogStrs.get level ∧ (rlogStrs.get level).length ≤ 5 := by
  have hall : rlogStrs.all (fun t => !t.contains 0 && decide (t.length ≤ 5)) = true := by decide
  have hlevel := List.all_eq_true.mp hall _ (List.get_mem rlogStrs level)
  simpa using hlevel

theorem zero_not_mem_itemHeader (time : TimeDatas) (level : Fin 8) : 0 ∉ itemHeader time level := by
  simp only [itemHeader, List.mem_append, not_or]
  exact ⟨⟨⟨zero_not_mem_timeText time, by decide⟩, (rlogStrs_get level).1⟩, by decide⟩

/-- An object of `N` bytes, with this string at its start. -/
def Holding (N : Nat) (chars mem : Obj) : Prop := mem.length = N ∧ ∃ back, mem = chars ++ 0 :: back

theorem strcat_spec {N : Nat} {chars t mem src : Obj} (h : Holding N chars mem) (hnul : 0 ∉ chars)
    (htext : strAt src 0 = .ok t) (hfit : chars.length + t.length < N) :
    (strcat mem src).Succeeds (Holding N (chars ++ t)) := by
  obtain ⟨hlen, back, rfl⟩ := h
  rw [List.length_append, List.length_cons] at hlen
  have hstr : rstrLen (chars ++ 0 :: back) 0 = .ok chars.length := by
    rw [rstrLen, strAt_of_append rfl hnul]
    rfl
  unfold strcat
  rw [hstr, htext]
  simp only [bind, ok_bind]
  rw [store_behind]
  · refine Succeeds.ok ⟨?_, (0 :: back).drop (t ++ [0]).length, by simp⟩
    simp only [List.length_append, List.length_drop, List.length_cons, List.length_nil]
    omega
  · rw [List.length_append, List.length_singleton, List.length_cons]
    omega

theorem rlogItemFmt_spec (M : Malloc) (time : TimeDatas) (level : Fin 8) (fmt : CStr) (back : Obj)
    (htime : (timeText time).length < 32) (hfit : (itemHeader time level).length + fmt.chars.length < (0 :: back).length) :
    (rlogItemFmt M (0 :: back) time level fmt.obj).Succeeds fun r =>
      r.2 = fmt.chars.length ∧ strAt r.1 0 = .ok (itemHeader time level ++ fmt.chars) := by
  obtain ⟨hlevel, hshort⟩ := rlogStrs_get level
  have hheader : (itemHeader time level).length = (timeText time).length + 2 + (rlogStrs.get level).length + 2 := by
    simp only [itemHeader, List.length_append, List.length_cons, List.length_nil]
  have htimeStr : (store (M.block 32) 0 (timeText time ++ [0])).Succeeds fun mem => strAt mem 0 = .ok (timeText time) := by
    have hblock := M.length_block 32
    have hstore := store_append (t := []) (b := timeText time ++ [0]) (List.nil_prefix (l := M.block 32))
      (by rw [hblock, List.length_append, List.length_singleton, List.length_nil]; omega)
    rw [List.length_nil, List.nil_append] at hstore
    exact hstore.mono fun mem hmem => strAt_of_prefix hmem.1 (zero_not_mem_timeText time)
  have hnul := zero_not_mem_itemHeader time level
  simp only [itemHeader, List.mem_append, not_or] at hnul
  unfold rlogItemFmt
  refine Succeeds.bind htimeStr fun timeStr htext => ?_
  have hstart : Holding (0 :: back).length [] (0 :: back) := ⟨rfl, back, rfl⟩
  refine Succeeds.bind (strcat_spec hstart List.not_mem_nil htext (by rw [List.length_nil]; omega)) fun mem₁ h₁ => ?_
  rw [List.nil_append] at h₁
  refine Succeeds.bind (strcat_spec h₁ hnul.1.1.1 (t := [32, 91]) rfl ?_) fun mem₂ h₂ => ?_
  · change (timeText time).length + 2 < _
    omega
  have htext₃ : strAt (rlogStrs.get level ++ [0]) 0 = .ok (rlogStrs.get level) := strAt_of_append rfl hlevel
  refine Succeeds.bind (strcat_spec h₂ ?_ htext₃ ?_) fun mem₃ h₃ => ?_
  · rw [List.mem_append, not_or]
    exact hnul.1.1
  · rw [List.length_append]
    change (timeText time).length + 2 + _ < _
    omega
  refine Succeeds.bind (strcat_spec h₃ ?_ (t := [93, 32]) rfl ?_) fun mem₄ h₄ => ?_
  · rw [List.mem_append, List.mem_append, not_or, not_or]
    exact hnul.1
  · rw [List.length_append, List.length_append]
    change (timeText time).length + 2 + _ + 2 < _
    omega
  obtain ⟨hlen, back', hmem⟩ := h₄
  have htimes := timeText_length time
  obtain ⟨header, hchars⟩ : ∃ header : CStr, header.chars = itemHeader time level :=
    ⟨⟨itemHeader time level, zero_not_mem_itemHeader time level, by omega⟩, rfl⟩
  rw [hmem, List.length_append, List.length_cons] at hlen
  change (itemHeader time level).length + _ = _ at hlen
  rw [hmem]
  change (rstrCat (itemHeader time level ++ 0 :: back') fmt.obj 8).Succeeds _
  rw [← hchars]
  refine rstrCat_wraps ?_ ?_
  · rw [hchars]
    change 8 < _
    omega
  · omega

/-- The bound holds for a destination within it whose object has room for what is appended, or for an empty source.
The log item always gets its whole format. -/
theorem catLaw_iff (d src : CStr) (rest : Obj) (n : UInt64) (hn : 0 < n) :
    (CatLaw d src rest n ↔ d.chars.length ≤ n.toNat ∧
      d.chars.length + min src.chars.length (n.toNat - d.chars.length) < (d.chars ++ 0 :: rest).length ∨ src.chars = []) ∧
    ∀ (M : Malloc) (time : TimeDatas) (level : Fin 8) (fmt : CStr) (back : Obj), (timeText time).length < 32 →
      (itemHeader time level).length + fmt.chars.length < (0 :: back).length →
        (rlogItemFmt M (0 :: back) time level fmt.obj).Succeeds fun r =>
          r.2 = fmt.chars.length ∧ strAt r.1 0 = .ok (itemHeader time level ++ fmt.chars) := by
  refine ⟨⟨CatLaw.fits hn, ?_⟩, rlogItemFmt_spec⟩
  rintro (⟨hle, hfit⟩ | hnil)
  · rw [List.length_append, List.length_cons] at hfit
    exact CatLaw.of_fits hn hle (by omega)
  · by_cases hle : d.chars.length ≤ n.toNat
    · refine CatLaw.of_fits hn hle ?_
      rw [hnil, List.length_nil, Nat.zero_min]
      exact Nat.zero_le _
    · exact CatLaw.of_nil hnil (not_le.mp hle)

/-- "a" in four bytes, with "b" and a size of 2. -/
theorem catLaw_iff_ab : CatLaw ⟨[97], by decide, by decide⟩ ⟨[98], by decide, by decide⟩ [0, 0] 2 :=
  (catLaw_iff ⟨[97], by decide, by decide⟩ ⟨[98], by decide, by decide⟩ [0, 0] 2 (by decide)).1.mpr (Or.inl (by decide))

/-- "abc" in eight bytes, with "d" and a size of 2. -/
theorem cat_beyond_size : ¬ ∀ (d src : CStr) (rest : Obj) (n : UInt64), 0 < n → CatLaw d src rest n := by
  intro h
  have hlaw := h ⟨[97, 98, 99], by decide, by decide⟩ ⟨[100], by decide, by decide⟩ [0, 0, 0, 0] 2 (by decide)
  exact absurd (hlaw.fits (by decide)) (by decide)

end Funra
