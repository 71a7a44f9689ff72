import Funra.Rfile.Path
import Funra.Rstring.Pointers

/-!
# The template of the file names

`_rlog_format_filepath_template` looks for the last '.' and for "${index}" in the whole path: those of a directory count
like those of the file name.
-/

namespace Funra

open Mem CInt Except Words Paths

/-- "${index}" -/
def rlogParamFileIndex : CStr := ⟨[36, 123, 105, 110, 100, 101, 120, 125], by decide, by decide⟩

/-- "log" -/
def rlogParamFileSuffix : CStr := ⟨[108, 111, 103], by decide, by decide⟩

/-- "." -/
def rlogParamFileSuffixGap : CStr := ⟨[46], by decide, by decide⟩

/-- "_" -/
def rlogParamFileIndexGap : CStr := ⟨[95], by decide, by decide⟩

/-- "_${index}" goes before the last '.', or to the end. -/
def insertIndex (M : Malloc) (fileSuffix : Int) (format : Obj) : Except Fault Obj := do
  if (← rstrIndex format 0 rlogParamFileIndex) < 0 then
    if fileSuffix < 0 then rstrJoin M [some format, some rlogParamFileIndexGap.obj, some rlogParamFileIndex.obj, none]
    else
      let tempPath ← store format fileSuffix [0]
      rstrJoin M [some tempPath, some rlogParamFileIndexGap.obj, some rlogParamFileIndex.obj, some rlogParamFileSuffixGap.obj,
        some (tempPath.drop (fileSuffix + 1).toNat), none]
  else return format

def insertSuffix (M : Malloc) (fileSuffix : Int) (format : Obj) : Except Fault Obj :=
  if fileSuffix < 0 then rstrJoin M [some format, some rlogParamFileSuffixGap.obj, some rlogParamFileSuffix.obj, none]
  else .ok format

/-- The place of the suffix is that in the copy, before anything is inserted. -/
def rlogFormatFilepathTemplate (M : Malloc) (fuel : Nat) (filepathTemplate : CStr) : Except Fault Obj := do
  let format ← rstrCpy M filepathTemplate.obj 0
  let fileSuffix ← rstrLastIndex fuel (← cstrAt format 0) rlogParamFileSuffixGap
  let format ← insertIndex M fileSuffix format
  let format ← insertSuffix M fileSuffix format
  rfileFormatPath fuel format

variable {M : Malloc} {chars D N : Obj} {s : CStr}

/-- "_${index}" -/
def indexPart : Obj := rlogParamFileIndexGap.chars ++ rlogParamFileIndex.chars

/-- ".log" -/
def suffixPart : Obj := rlogParamFileSuffixGap.chars ++ rlogParamFileSuffix.chars

/-- What the template becomes. -/
def templateOf (chars : Obj) : Obj :=
  if 46 ∈ chars then
    if rlogParamFileIndex.chars <:+: chars then chars else dirOf 46 chars ++ indexPart ++ 46 :: nameOf 46 chars
  else (if rlogParamFileIndex.chars <:+: chars then chars else chars ++ indexPart) ++ suffixPart

/-! ### The call -/

theorem rstrIndex_obj {key : CStr} (hkey : key.chars ≠ []) (hlen : s.chars.length < 2147483648) :
    ∃ index, rstrIndex s.obj 0 key = .ok index ∧ (index < 0 ↔ ¬ key.chars <:+: s.chars) := by
  rw [contains_iff hkey, not_not, rstrIndex, strstr_obj (Nat.zero_le _), List.drop_zero, search_eq_head hkey]
  rcases hocc : occurrences key.chars s.chars with _ | ⟨p, ps⟩
  · exact ⟨-1, rfl, by simp⟩
  · have hp := occurrence_le hkey (hocc ▸ List.mem_cons_self : p ∈ occurrences key.chars s.chars)
    refine ⟨int32 p, ?_, ?_⟩
    · simp only [bind, ok_bind, List.head?_cons, Option.map_some, Nat.zero_add, Nat.cast_zero, sub_zero]
      rfl
    · rw [int32_of_range (by omega) (by omega)]
      simp

/-- Where the last '.' stands. -/
theorem lastDot_eq (hlen : s.chars.length < 2147483648) (fuel : Nat) :
    rstrLastIndex fuel s rlogParamFileSuffixGap = .ok (if 46 ∈ s.chars then ((dirOf 46 s.chars).length : Int) else -1) := by
  rw [rstrLastIndex_char (c := 46) rfl]
  split
  next hmem =>
    have hsplit := (dirOf_append_nameOf hmem).symm
    have hle := congrArg List.length hsplit
    rw [List.length_append] at hle
    rw [lastChar_some hsplit (sep_not_mem_nameOf 46 s.chars), int32_of_range (by omega) (by omega)]
  next hmem => exact lastChar_none hmem

/-- With the "${index}", before the suffix is looked at. -/
def indexedOf (chars : Obj) : Obj :=
  if rlogParamFileIndex.chars <:+: chars then chars
  else if 46 ∈ chars then dirOf 46 chars ++ indexPart ++ 46 :: nameOf 46 chars
  else chars ++ indexPart

/-- The string is cut at the '.', and the two parts are joined again. -/
theorem indexed_dot (M : Malloc) (hlen : s.chars.length < 2 ^ 29) (hdot : 46 ∈ s.chars) :
    ((store s.obj (dirOf 46 s.chars).length [0]).bind fun tempPath =>
      rstrJoin M [some tempPath, some rlogParamFileIndexGap.obj, some rlogParamFileIndex.obj, some rlogParamFileSuffixGap.obj,
        some (tempPath.drop ((dirOf 46 s.chars).length + 1 : Int).toNat), none]).Succeeds fun mem =>
      strAt mem 0 = .ok (dirOf 46 s.chars ++ indexPart ++ 46 :: nameOf 46 s.chars) := by
  have hsplit := dirOf_append_nameOf hdot
  have hstore := store_char (dirOf 46 s.chars) (nameOf 46 s.chars ++ [0]) 46 0
  rw [← List.cons_append, ← List.append_assoc, hsplit] at hstore
  have hnul := s.noNul
  rw [← hsplit, List.mem_append, List.mem_cons, not_or, not_or] at hnul
  have hsize := congrArg List.length hsplit
  rw [List.length_append, List.length_cons] at hsize
  have hdrop : (dirOf 46 s.chars ++ 0 :: (nameOf 46 s.chars ++ [0])).drop ((dirOf 46 s.chars).length + 1 : Int).toNat =
      nameOf 46 s.chars ++ [0] := by
    rw [show ((dirOf 46 s.chars).length + 1 : Int).toNat = (dirOf 46 s.chars).length + 1 by omega, List.drop_length_add_append]
    rfl
  rw [CStr.obj, hstore, ok_bind, hdrop]
  have hjoin := rstrJoin_behind (strAt_of_append (r := nameOf 46 s.chars ++ [0]) rfl hnul.1)
    [rlogParamFileIndexGap, rlogParamFileIndex, rlogParamFileSuffixGap, ⟨nameOf 46 s.chars, hnul.2.2, by omega⟩]
    (by simp [rlogParamFileIndexGap, rlogParamFileIndex, rlogParamFileSuffixGap]; omega) M
  refine hjoin.mono fun mem hmem => hmem.trans ?_
  simp [indexPart, rlogParamFileSuffixGap]

theorem insertIndex_spec (M : Malloc) (hlen : s.chars.length < 2 ^ 29) {fileSuffix : Int}
    (hsuffix : fileSuffix = if 46 ∈ s.chars then ((dirOf 46 s.chars).length : Int) else -1) :
    (insertIndex M fileSuffix s.obj).Succeeds fun mem => strAt mem 0 = .ok (indexedOf s.chars) := by
  have hstr : strAt s.obj 0 = .ok s.chars := strAt_obj (Nat.zero_le _)
  obtain ⟨index, hrun, hindex⟩ := rstrIndex_obj (s := s) (show rlogParamFileIndex.chars ≠ [] by decide) (by omega)
  unfold insertIndex
  rw [hrun, indexedOf]
  simp only [bind, ok_bind]
  by_cases hin : rlogParamFileIndex.chars <:+: s.chars
  · rw [if_neg fun hneg => hindex.mp hneg hin, if_pos hin]
    exact Succeeds.ok hstr
  · rw [if_pos (hindex.mpr hin), if_neg hin]
    by_cases hdot : 46 ∈ s.chars
    · rw [if_pos hdot] at hsuffix ⊢
      rw [if_neg (by omega), hsuffix]
      exact indexed_dot M hlen hdot
    · rw [if_neg hdot] at hsuffix ⊢
      rw [if_pos (by omega)]
      have hjoin := rstrJoin_behind hstr [rlogParamFileIndexGap, rlogParamFileIndex]
        (by simp [rlogParamFileIndexGap, rlogParamFileIndex]; omega) M
      refine hjoin.mono fun mem hmem => hmem.trans ?_
      simp [indexPart]

theorem templateOf_eq (chars : Obj) : templateOf chars = if 46 ∈ chars then indexedOf chars else indexedOf chars ++ suffixPart := by
  rw [templateOf, indexedOf]
  split <;> simp

theorem indexedOf_length (chars : Obj) : (indexedOf chars).length ≤ chars.length + 9 := by
  rw [indexedOf]
  split
  · exact Nat.le_add_right _ _
  · split
    next hdot =>
      have hsize := congrArg List.length (dirOf_append_nameOf hdot)
      rw [← hsize]
      simp [indexPart, rlogParamFileIndexGap, rlogParamFileIndex]
      omega
    next => simp [indexPart, rlogParamFileIndexGap, rlogParamFileIndex]

/-- Nothing is left to format. -/
theorem templateOf_normal (hne : chars ≠ []) (hback : 92 ∉ chars) (hlast : chars.getLast? ≠ some 47) :
    templateOf chars ≠ [] ∧ 92 ∉ templateOf chars ∧ (templateOf chars).getLast? ≠ some 47 := by
  have hpart : 92 ∉ indexPart := by decide
  have hsuffix : 92 ∉ suffixPart := by decide
  rw [templateOf_eq, indexedOf]
  by_cases hdot : 46 ∈ chars
  · rw [if_pos hdot, if_pos hdot]
    split
    · exact ⟨hne, hback, hlast⟩
    · have hsplit := dirOf_append_nameOf hdot
      rw [← hsplit] at hback hlast
      rw [List.getLast?_append_cons] at hlast
      refine ⟨by simp, ?_, by rwa [List.getLast?_append_cons]⟩
      simp only [List.mem_append, not_or] at hback ⊢
      exact ⟨⟨hback.1, hpart⟩, hback.2⟩
  · rw [if_neg hdot, if_neg hdot]
    have hfront : 92 ∉ (if rlogParamFileIndex.chars <:+: chars then chars else chars ++ indexPart) := by
      split
      · exact hback
      · rw [List.mem_append, not_or]
        exact ⟨hback, hpart⟩
    refine ⟨by simp [suffixPart, rlogParamFileSuffixGap], ?_, ?_⟩
    · rw [List.mem_append, not_or]
      exact ⟨hfront, hsuffix⟩
    · rw [show suffixPart = [46, 108, 111] ++ [103] from rfl, ← List.append_assoc, List.getLast?_concat]
      decide

/-- The suffix, if there is none. -/
theorem insertSuffix_spec (M : Malloc) {format : Obj} (hstr : strAt format 0 = .ok (indexedOf chars)) (hlen : chars.length < 2 ^ 29)
    {fileSuffix : Int} (hsuffix : fileSuffix = if 46 ∈ chars then ((dirOf 46 chars).length : Int) else -1) :
    (insertSuffix M fileSuffix format).Succeeds fun mem => strAt mem 0 = .ok (templateOf chars) := by
  unfold insertSuffix
  rw [templateOf_eq]
  by_cases hdot : 46 ∈ chars
  · rw [if_pos hdot] at hsuffix ⊢
    rw [if_neg (by omega)]
    exact Succeeds.ok hstr
  · rw [if_neg hdot] at hsuffix ⊢
    rw [if_pos (by omega)]
    have hlen' := indexedOf_length chars
    have hjoin := rstrJoin_behind hstr [rlogParamFileSuffixGap, rlogParamFileSuffix]
      (by simp [rlogParamFileSuffixGap, rlogParamFileSuffix]; omega) M
    refine hjoin.mono fun mem hmem => hmem.trans ?_
    simp [suffixPart]

theorem template_halts (M : Malloc) (hlen : s.chars.length < 2 ^ 29) (hne : s.chars ≠ []) (hback : 92 ∉ s.chars)
    (hlast : s.chars.getLast? ≠ some 47) :
    Halts (fun fuel => rlogFormatFilepathTemplate M fuel s) fun mem => strAt mem 0 = .ok (templateOf s.chars) := by
  obtain ⟨fileSuffix, hsuffix⟩ : ∃ fileSuffix : Int,
      fileSuffix = if 46 ∈ s.chars then ((dirOf 46 s.chars).length : Int) else -1 := ⟨_, rfl⟩
  have hcpy : rstrCpy M s.obj 0 = .ok s.obj := rstrCpy_eq M (strAt_obj (Nat.zero_le _)) (Nat.lt_trans hlen (by decide))
  obtain ⟨format, hformat, hstr⟩ := insertIndex_spec M hlen hsuffix
  obtain ⟨mem, hmem, hstr'⟩ := insertSuffix_spec M hstr hlen hsuffix
  obtain ⟨rest, hrest⟩ := strAt_split hstr'
  rw [List.drop_zero] at hrest
  obtain ⟨hne', hback', hlast'⟩ := templateOf_normal hne hback hlast
  have hnorm : normPath (templateOf s.chars) = templateOf s.chars := norm_of_normal hback' hlast'
  simp only [rlogFormatFilepathTemplate, bind, hcpy, ok_bind, cstrAt_obj, lastDot_eq (show s.chars.length < 2147483648 by omega),
    ← hsuffix, hformat, hmem, hrest]
  refine (rfileFormatPath_halts (strAt_eq hstr').2.2 (segsFit_of_not_mem hback') (hnorm.symm ▸ hne') rest).mono ?_
  rintro mem' ⟨rest', rfl, -⟩
  rw [hnorm]
  exact strAt_of_append rfl (strAt_eq hstr').2.2

/-! ### The file name -/

/-- The file name has "${index}" and a '.'. -/
def Complete (chars : Obj) : Prop := rlogParamFileIndex.chars <:+: nameOf 47 chars ∧ 46 ∈ nameOf 47 chars

/-- What the directory has, the file name has, too. -/
def NameDecides (chars : Obj) : Prop :=
  (46 ∈ dirPart 47 chars → 46 ∈ nameOf 47 chars) ∧
    (rlogParamFileIndex.chars <:+: dirPart 47 chars → rlogParamFileIndex.chars <:+: nameOf 47 chars)

theorem dot_mem_iff (chars : Obj) : 46 ∈ chars ↔ 46 ∈ dirPart 47 chars ∨ 46 ∈ nameOf 47 chars := by
  rw [← List.mem_append, dirPart_append_nameOf]

theorem index_infix_iff (chars : Obj) : rlogParamFileIndex.chars <:+: chars ↔
    rlogParamFileIndex.chars <:+: dirPart 47 chars ∨ rlogParamFileIndex.chars <:+: nameOf 47 chars :=
  infix_parts_iff (by decide)

/-- What becomes of the file name. -/
theorem templateOf_name (h : NameDecides chars) : ∃ name, templateOf chars = dirPart 47 chars ++ name ∧ 47 ∉ name ∧
    rlogParamFileIndex.chars <:+: name ∧ 46 ∈ name ∧ (Complete chars → name = nameOf 47 chars) := by
  have hparts := dirPart_append_nameOf 47 chars
  have hslash := sep_not_mem_nameOf 47 chars
  have hindex := index_infix_iff chars
  rw [or_iff_right_of_imp h.2] at hindex
  have hdot := dot_mem_iff chars
  rw [or_iff_right_of_imp h.1] at hdot
  rw [templateOf_eq, indexedOf, if_congr hdot rfl rfl, if_congr hindex rfl rfl, if_congr hdot rfl rfl]
  by_cases hN : rlogParamFileIndex.chars <:+: nameOf 47 chars
  · rw [if_pos hN]
    by_cases hdotN : 46 ∈ nameOf 47 chars
    · rw [if_pos hdotN]
      exact ⟨_, hparts.symm, hslash, hN, hdotN, fun _ => rfl⟩
    · rw [if_neg hdotN]
      refine ⟨nameOf 47 chars ++ suffixPart, ?_, ?_, hN.trans (List.prefix_append _ _).isInfix, ?_,
        fun hcomplete => absurd hcomplete.2 hdotN⟩
      · rw [← List.append_assoc, hparts]
      · simp [hslash, suffixPart, rlogParamFileSuffixGap, rlogParamFileSuffix]
      · simp [suffixPart, rlogParamFileSuffixGap]
  · rw [if_neg hN]
    have hpart : rlogParamFileIndex.chars <:+: indexPart := (List.suffix_append _ _).isInfix
    by_cases hdotN : 46 ∈ nameOf 47 chars
    · rw [if_pos hdotN, if_pos hdotN]
      have hcut := dirOf_append_nameOf hdotN
      have hno := sep_not_mem_nameOf 46 (nameOf 47 chars)
      rw [← hcut, ← List.append_assoc] at hparts
      have hdir := dirOf_append hno (dirPart 47 chars ++ dirOf 46 (nameOf 47 chars))
      have hname := nameOf_append hno (dirPart 47 chars ++ dirOf 46 (nameOf 47 chars))
      rw [hparts] at hdir hname
      rw [← hcut] at hslash
      refine ⟨dirOf 46 (nameOf 47 chars) ++ indexPart ++ 46 :: nameOf 46 (nameOf 47 chars), ?_, ?_, ?_, by simp,
        fun hcomplete => absurd hcomplete.1 hN⟩
      · rw [hdir, hname]
        simp
      · simp only [List.mem_append, List.mem_cons, not_or] at hslash ⊢
        exact ⟨⟨hslash.1, by decide⟩, hslash.2⟩
      · exact hpart.trans ⟨dirOf 46 (nameOf 47 chars), 46 :: nameOf 46 (nameOf 47 chars), rfl⟩
    · rw [if_neg hdotN, if_neg hdotN]
      refine ⟨nameOf 47 chars ++ indexPart ++ suffixPart, ?_, ?_, hpart.trans ⟨nameOf 47 chars, suffixPart, rfl⟩, ?_,
        fun hcomplete => absurd hcomplete.1 hN⟩
      · rw [← List.append_assoc, ← List.append_assoc, hparts]
      · simp [hslash, indexPart, suffixPart, rlogParamFileIndexGap, rlogParamFileIndex, rlogParamFileSuffixGap, rlogParamFileSuffix]
      · simp [suffixPart, rlogParamFileSuffixGap]

/-- A '.' that only the directory has leaves the file name as it is. -/
theorem templateOf_dot (hdir : 46 ∈ dirPart 47 chars) (hname : 46 ∉ nameOf 47 chars) :
    nameOf 47 (templateOf chars) = nameOf 47 chars := by
  have hdot : 46 ∈ chars := (dot_mem_iff chars).mpr (Or.inl hdir)
  rw [templateOf, if_pos hdot]
  split
  · rfl
  · have hcut := dirOf_append_nameOf hdir
    have hlast := (dirPart_last 47 chars).resolve_left (List.ne_nil_of_mem hdir)
    have hno : 46 ∉ nameOf 46 (dirPart 47 chars) ++ nameOf 47 chars := by
      rw [List.mem_append, not_or]
      exact ⟨sep_not_mem_nameOf 46 _, hname⟩
    have hparts := dirPart_append_nameOf 47 chars
    rw [← hcut, List.append_assoc, List.cons_append] at hparts
    have hdirOf := dirOf_append hno (dirOf 46 (dirPart 47 chars))
    have hnameOf := nameOf_append hno (dirOf 46 (dirPart 47 chars))
    rw [hparts] at hdirOf hnameOf
    rw [hdirOf, hnameOf, ← List.cons_append, ← List.append_assoc]
    refine nameOf_behind (Or.inr ?_) (sep_not_mem_nameOf 47 chars)
    rw [List.getLast?_append_cons, ← List.getLast?_append_cons (dirOf 46 (dirPart 47 chars)), hcut, hlast]

theorem nameDecides_of_complete (h : Complete (templateOf chars)) : NameDecides chars := by
  constructor
  · intro hdir
    by_contra hname
    have hdot := h.2
    rw [templateOf_dot hdir hname] at hdot
    exact hname hdot
  · intro hdir
    by_contra hname
    have hin : rlogParamFileIndex.chars <:+: chars := (index_infix_iff chars).mpr (Or.inl hdir)
    have hindex := h.1
    rw [templateOf_eq, indexedOf, if_pos hin] at hindex
    split at hindex
    · exact hname hindex
    · -- the suffix has no part of the word
      have hslash : 47 ∉ nameOf 47 chars ++ suffixPart := by
        simp [sep_not_mem_nameOf, suffixPart, rlogParamFileSuffixGap, rlogParamFileSuffix]
      nth_rewrite 1 [← dirPart_append_nameOf 47 chars] at hindex
      rw [List.append_assoc, nameOf_behind (dirPart_last 47 chars) hslash] at hindex
      have hside : rlogParamFileIndex.chars <:+: nameOf 47 chars ∨ rlogParamFileIndex.chars <:+: rlogParamFileSuffix.chars :=
        (infix_append_cons_iff (c := 46) (by decide)).mp hindex
      exact hside.elim hname (by decide)

/-! ### The law -/

/-- The directory stays, the file name is complete, a complete one stays, too, and a second call changes nothing. -/
def TemplateLaw (M : Malloc) (s : CStr) : Prop :=
  Halts (fun fuel => rlogFormatFilepathTemplate M fuel s) fun mem => ∃ t : CStr, strAt mem 0 = .ok t.chars ∧
    dirPart 47 t.chars = dirPart 47 s.chars ∧ Complete t.chars ∧ (Complete s.chars → t.chars = s.chars) ∧
    Halts (fun fuel => rlogFormatFilepathTemplate M fuel t) fun mem' => strAt mem' 0 = .ok t.chars

theorem templateOf_length (chars : Obj) : (templateOf chars).length ≤ chars.length + 13 := by
  have hlen := indexedOf_length chars
  rw [templateOf_eq]
  split
  · omega
  · rw [List.length_append, show suffixPart.length = 4 from rfl]
    omega

theorem templateOf_complete (h : Complete chars) : templateOf chars = chars := by
  have hin : rlogParamFileIndex.chars <:+: chars := (index_infix_iff chars).mpr (Or.inr h.1)
  rw [templateOf, if_pos ((dot_mem_iff chars).mpr (Or.inr h.2)), if_pos hin]

/-- The template is normalised just when a '.' and an "${index}" of the directory part are in the file name, too.
`rlog_init_log` lets 1024 characters through. -/
theorem templateLaw_iff (M : Malloc) (s : CStr) (hne : s.chars ≠ []) (hback : 92 ∉ s.chars) (hlast : s.chars.getLast? ≠ some 47)
    (hlen : s.chars.length < 2 ^ 28) : TemplateLaw M s ↔ NameDecides s.chars := by
  have hhalts := template_halts M (by omega) hne hback hlast
  constructor
  · intro hlaw
    obtain ⟨mem, hstr, t, ht, -, hcomplete, -⟩ := (hhalts.and hlaw).exists
    rw [← Except.ok.inj (hstr.symm.trans ht)] at hcomplete
    exact nameDecides_of_complete hcomplete
  · intro hdecides
    obtain ⟨name, hname, hslash, hindex, hdot, hsame⟩ := templateOf_name hdecides
    have hdir := dirPart_last 47 s.chars
    refine hhalts.mono fun mem hmem => ?_
    have hsize := templateOf_length s.chars
    obtain ⟨t, ht⟩ : ∃ t : CStr, t.chars = templateOf s.chars := ⟨⟨templateOf s.chars, (strAt_eq hmem).2.2, by omega⟩, rfl⟩
    have hcomplete : Complete t.chars := by
      rw [Complete, ht, hname, nameOf_behind hdir hslash]
      exact ⟨hindex, hdot⟩
    obtain ⟨hne', hback', hlast'⟩ := templateOf_normal hne hback hlast
    have hagain := template_halts (s := t) M (by rw [ht]; omega) (ht ▸ hne') (ht ▸ hback') (ht ▸ hlast')
    rw [templateOf_complete hcomplete] at hagain
    refine ⟨t, ht ▸ hmem, ?_, hcomplete, fun hcomp => ht.trans (templateOf_complete hcomp), hagain⟩
    rw [ht, hname, dirPart_before hdir hslash]

/-- "d/a". -/
theorem templateLaw_iff_da : TemplateLaw .zeros ⟨[100, 47, 97], by decide, by decide⟩ ↔ NameDecides [100, 47, 97] :=
  templateLaw_iff .zeros ⟨[100, 47, 97], by decide, by decide⟩ (by decide) (by decide) (by decide) (by decide)

/-- "./a". -/
theorem template_dot_directory :
    ¬ ∀ (M : Malloc) (s : CStr), s.chars ≠ [] → 92 ∉ s.chars → s.chars.getLast? ≠ some 47 → TemplateLaw M s := by
  intro h
  have hlaw := h .zeros ⟨[46, 47, 97], by decide, by decide⟩ (by decide) (by decide) (by decide)
  obtain ⟨mem, hstr, t, ht, -, hcomplete, -⟩ :=
    ((template_halts .zeros (by decide) (by decide) (by decide) (by decide)).and hlaw).exists
  rw [← Except.ok.inj (hstr.symm.trans ht)] at hcomplete
  exact absurd (nameDecides_of_complete hcomplete).1 (by decide)

end Funra
