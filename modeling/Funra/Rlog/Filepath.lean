import Mathlib.Data.Nat.Digits.Lemmas
import Funra.Lib.Decimal
import Funra.Rfile.Listing
import Funra.Rfile.Names
import Funra.Rlog.Template

/-!
# The paths of the log files

`_rlog_get_filepath` puts the date, the time and the level into the template. For a file that is rolled away it counts the
files that are there: it takes the number between the prefix, the file name up to its last '_', and the first '.' behind it.
The place of that '.' is found from the end of the prefix, but the name is cut there from its beginning, so that as many
digits as the prefix is long are lost.
-/

namespace Funra

open Mem CInt Except Words Paths

/-- "${date}" -/
def rlogParamDate : CStr := ⟨[36, 123, 100, 97, 116, 101, 125], by decide, by decide⟩

/-- "${time}" -/
def rlogParamTime : CStr := ⟨[36, 123, 116, 105, 109, 101, 125], by decide, by decide⟩

/-- "${level}" -/
def rlogParamLevel : CStr := ⟨[36, 123, 108, 101, 118, 101, 108, 125], by decide, by decide⟩

def rlogLevel2Str (level : Fin 8) : CStr :=
  ⟨rlogStrs.get level, (rlogStrs_get level).1, by have hshort := (rlogStrs_get level).2; omega⟩

/-- What is in `date_str_temp` and `time_str_temp`, two buffers of 16 bytes. -/
structure ClockTexts where
  date : CStr
  time : CStr
  date_short : date.chars.length < 16
  time_short : time.chars.length < 16

/-- The string with every `oldStr` replaced. -/
def replStr (M : Malloc) (fuel : Nat) (src oldStr newStr : CStr) : Except Fault CStr := do
  cstrAt (← rstrRepl M fuel (some src) (some oldStr) (some newStr)) 0

def expandTemplate (M : Malloc) (fuel : Nat) (texts : ClockTexts) (template : CStr) (level : Fin 8) : Except Fault CStr := do
  let filepath ← replStr M fuel template rlogParamDate texts.date
  let filepath ← replStr M fuel filepath rlogParamTime texts.time
  replStr M fuel filepath rlogParamLevel (rlogLevel2Str level)

/-- `path_name` and `file_name`. -/
def pathParts (M : Malloc) (fuel : Nat) (filepath : CStr) : Except Fault (CStr × CStr) := do
  let (pathName, h) ← rdirGetPathDir M fuel [some filepath.obj] (some (.block 0))
  let (fileName, h) ← rdirGetPathFilename M fuel h (some (.block 0))
  return (← pathName.str h, ← fileName.str h)

def filePrefixOf (M : Malloc) (fuel : Nat) (fileName : CStr) : Except Fault CStr := do
  let last ← rstrLastIndex fuel fileName rlogParamFileIndexGap
  cstrAt (← rstrSub M fileName 0 (sizeT (last + rlogParamFileIndexGap.chars.length))) 0

/-- `rstr_is_digit` of the string at `src`. -/
def rstrIsDigit (mem : Obj) (src : Nat) (endIndex : Int) : Except Fault Bool := do
  let chars ← strAt mem src
  let endIndex := if endIndex ≤ 0 ∨ chars.length < endIndex then int32 chars.length else endIndex
  return chars ≠ [] ∧ (chars.take endIndex.toNat).all Decimal.IsDigit

/-- `isspace`. -/
def isSpace (c : UInt8) : Bool := c = 32 ∨ 9 ≤ c ∧ c ≤ 13

/-- `strtol` to the base 10. -/
def strtol (chars : Obj) : Int :=
  let number (digits : Obj) : Int := Decimal.value (digits.takeWhile Decimal.IsDigit)
  let value := match chars.dropWhile isSpace with
    | 45 :: digits => -number digits
    | 43 :: digits => number digits
    | digits => number digits
  max (-9223372036854775808) (min 9223372036854775807 value)

/-- `atoi` of the string at `src`. -/
def rstr2Int (mem : Obj) (src : Nat) : Except Fault Int := do
  return int32 (strtol (← strAt mem src))

/-- The place of the '.' is one behind the prefix, but the name is cut there from its beginning. -/
def countDigits (tempFileName : Obj) (filePrefixLen : Nat) (suffixIndex fileIdMax : Int) : Except Fault Int := do
  if (← rstrIsDigit tempFileName filePrefixLen suffixIndex) then
    let tempFileName ← store tempFileName suffixIndex [0]
    let fileId ← rstr2Int tempFileName filePrefixLen
    return if fileIdMax < fileId then fileId else fileIdMax
  else return fileIdMax

/-- The body of the loop over `file_list`. -/
def indexRound (filePrefix : CStr) (name : Obj) (fileIdMax : Int) : Except Fault Int := do
  let tempFileName := name ++ [0]
  let filePrefixLen := (int32 filePrefix.chars.length).toNat
  if (← rstrIndex tempFileName 0 filePrefix) ≠ 0 then return fileIdMax
  else
    let fileIdMax := if fileIdMax = -1 then 0 else fileIdMax
    let suffixIndex ← rstrIndex tempFileName filePrefixLen rlogParamFileSuffixGap
    if 0 < suffixIndex then countDigits tempFileName filePrefixLen suffixIndex fileIdMax
    else return fileIdMax

def fileIdMaxOf (M : Malloc) (w : Fs) (fuel : Nat) (pathName filePrefix : CStr) (needFileIndex : Bool) : Except Fault Int :=
  if needFileIndex then do
    let fileList ← rdirList M w fuel (some pathName) true false
    forEach (indexRound filePrefix) fileList (-1)
  else .ok (-1)

/-- `rnum2str`, or nothing. -/
def fileidxText (fileIdMax : Int) : Obj := if -1 < fileIdMax then fmtInt 1 (int32 (fileIdMax + 1)) else []

/-- `rdir_make` is left out: it stands in an `rassert`, which a release has not. -/
def rlogGetFilepath (M : Malloc) (w : Fs) (fuel : Nat) (texts : ClockTexts) (template : CStr) (level : Fin 8)
    (needFileIndex : Bool) :
    Except Fault CStr := do
  let filepath ← expandTemplate M fuel texts template level
  let (pathName, fileName) ← pathParts M fuel filepath
  let filePrefix ← filePrefixOf M fuel fileName
  let fileIdMax ← fileIdMaxOf M w fuel pathName filePrefix needFileIndex
  replStr M fuel filepath rlogParamFileIndex (← cstrAt (fileidxText fileIdMax ++ [0]) 0)

variable {M : Malloc} {w : Fs} {texts : ClockTexts} {template src oldStr newStr s : CStr} {level : Fin 8} {chars : Obj}

/-! ### The template -/

theorem replStr_halts (M : Malloc) (hold : oldStr.chars ≠ [])
    (hsize : (replaceAll oldStr.chars newStr.chars src.chars).length < 2 ^ 30) :
    Halts (fun fuel => replStr M fuel src oldStr newStr) fun s => s.chars = replaceAll oldStr.chars newStr.chars src.chars := by
  refine Halts.bind (replLaw_of_lt M src oldStr (some newStr) hold hsize) fun mem hmem => ?_
  exact (cstrAt_eq hmem (Nat.lt_of_lt_of_le (Nat.add_lt_add_right hsize 1) (by decide))).halts

/-- The template with the date, the time and the level. -/
def expanded (texts : ClockTexts) (template : Obj) (level : Fin 8) : Obj :=
  replaceAll rlogParamLevel.chars (rlogLevel2Str level).chars
    (replaceAll rlogParamTime.chars texts.time.chars (replaceAll rlogParamDate.chars texts.date.chars template))

theorem replaceAll_length_le_short (hold : oldStr.chars ≠ []) (hnew : newStr.chars.length < 16) (chars : Obj) :
    (replaceAll oldStr.chars newStr.chars chars).length ≤ 16 * chars.length := by
  have hpos := List.length_pos_iff.mpr hold
  exact replaceAll_length_le_mul hold (by decide) (by omega) chars

theorem rlogLevel2Str_short (level : Fin 8) : (rlogLevel2Str level).chars.length < 16 :=
  Nat.lt_of_le_of_lt (rlogStrs_get level).2 (by decide)

theorem expanded_length_le (texts : ClockTexts) (template : Obj) (level : Fin 8) :
    (expanded texts template level).length ≤ 4096 * template.length := by
  have hdate := replaceAll_length_le_short (show rlogParamDate.chars ≠ [] by decide) texts.date_short template
  have htime := replaceAll_length_le_short (show rlogParamTime.chars ≠ [] by decide) texts.time_short
    (replaceAll rlogParamDate.chars texts.date.chars template)
  have hlevel := replaceAll_length_le_short (show rlogParamLevel.chars ≠ [] by decide) (rlogLevel2Str_short level)
    (replaceAll rlogParamTime.chars texts.time.chars (replaceAll rlogParamDate.chars texts.date.chars template))
  unfold expanded
  omega

theorem expandTemplate_halts (M : Malloc) (hlen : template.chars.length < 16384) :
    Halts (fun fuel => expandTemplate M fuel texts template level) fun s => s.chars = expanded texts template.chars level := by
  have hdate := replaceAll_length_le_short (show rlogParamDate.chars ≠ [] by decide) texts.date_short template.chars
  have htime := replaceAll_length_le_short (show rlogParamTime.chars ≠ [] by decide) texts.time_short
    (replaceAll rlogParamDate.chars texts.date.chars template.chars)
  have hlevel := expanded_length_le texts template.chars level
  refine Halts.bind (replStr_halts M (by decide) (by omega)) fun s₁ h₁ => ?_
  refine Halts.bind (replStr_halts M (by decide) (by rw [h₁]; omega)) fun s₂ h₂ => ?_
  rw [h₁] at h₂
  have hsize : (replaceAll rlogParamLevel.chars (rlogLevel2Str level).chars s₂.chars).length < 2 ^ 30 := by
    rw [h₂]
    exact Nat.lt_of_le_of_lt hlevel (by omega)
  exact (replStr_halts M (by decide) hsize).mono fun s₃ h₃ => h₃.trans (by rw [h₂]; rfl)

/-! ### The parts -/

/-- A path as `rfile_format_path` leaves it, that is not of separators only. -/
structure Formatted (chars : Obj) : Prop where
  no_back : 92 ∉ chars
  named : nameOf 47 chars ≠ []
  short : chars.length < 2147483648

theorem Formatted.normPath_eq (h : Formatted chars) : normPath chars = chars := by
  refine norm_of_normal h.no_back fun hlast => ?_
  obtain ⟨t, rfl⟩ := List.getLast?_eq_some_iff.mp hlast
  exact h.named (nameOf_append List.not_mem_nil t)

theorem Formatted.formats (h : Formatted s.chars) : Formats s.chars := by
  have hshort := h.short
  refine ⟨s.noNul, by omega, segsFit_of_not_mem h.no_back, ?_⟩
  rw [h.normPath_eq]
  intro hnil
  exact h.named (by rw [hnil]; rfl)

theorem pathParts_halts (M : Malloc) (h : Formatted s.chars) :
    Halts (fun fuel => pathParts M fuel s) fun r => r.1.chars = dirOf 47 s.chars ∧ r.2.chars = nameOf 47 s.chars := by
  have hf := h.formats
  have hnorm := h.normPath_eq
  have hp : Points [some s.obj] (.block 0) s.chars := points_behind (strAt_obj (Nat.zero_le _)) s.fits [] []
  by_cases hslash : 47 ∈ s.chars
  · have hcut := (dirOf_append_nameOf hslash).symm
    have hlen := congrArg List.length hcut
    rw [List.length_append, List.length_cons] at hlen
    have hshort := h.short
    have hnul := s.noNul
    rw [hcut, List.mem_append, List.mem_cons, not_or, not_or] at hnul
    have hsplit : normPath s.chars = dirOf 47 s.chars ++ 47 :: nameOf 47 s.chars := hnorm.trans hcut
    refine Halts.bind (rdirGetPathDir_spec hp hf hsplit (sep_not_mem_nameOf 47 _) (by omega) M) ?_
    rintro _ ⟨rest, rfl⟩
    have hpre := List.prefix_append [some s.obj] [some (dirOf 47 s.chars ++ 0 :: rest)]
    refine Halts.bind (rdirGetPathFilename_spec (hp.of_prefix hpre) hf hsplit (sep_not_mem_nameOf 47 _) (by omega) M) ?_
    rintro _ rfl
    have hdir : Points ([some s.obj] ++ [some (dirOf 47 s.chars ++ 0 :: rest)] ++ [none, some (nameOf 47 s.chars ++ [0])]) (.block 1)
        (dirOf 47 s.chars) := points_behind (strAt_of_append rfl hnul.1) (by omega) [some s.obj] _
    have hname : Points ([some s.obj] ++ [some (dirOf 47 s.chars ++ 0 :: rest)] ++ [none, some (nameOf 47 s.chars ++ [0])]) (.block 3)
        (nameOf 47 s.chars) := points_behind (strAt_of_append rfl hnul.2.2) (by omega)
      [some s.obj, some (dirOf 47 s.chars ++ 0 :: rest), none] []
    obtain ⟨dir, hdirRun, hdirChars⟩ := hdir.str
    obtain ⟨name, hnameRun, hnameChars⟩ := hname.str
    simp only [bind, List.length_append, List.length_cons, List.length_nil, Nat.zero_add, Nat.reduceAdd, hdirRun, hnameRun, ok_bind]
    exact Halts.ok ⟨hdirChars, hnameChars⟩
  · have hno : 47 ∉ normPath s.chars := by rwa [hnorm]
    refine Halts.bind (rdirGetPathDir_flat hp hf hno M) ?_
    rintro _ rfl
    refine Halts.bind (rdirGetPathFilename_flat (hp.of_prefix (List.prefix_append _ [none])) hf hno M) ?_
    rintro _ ⟨rest, rfl⟩
    have hname : Points ([some s.obj] ++ [none] ++ [some (normPath s.chars ++ 0 :: rest)]) (.block 2) s.chars :=
      points_behind (strAt_of_append (congrArg (· ++ 0 :: rest) hnorm) s.noNul) s.fits [some s.obj, none] []
    obtain ⟨name, hnameRun, hnameChars⟩ := hname.str
    obtain ⟨dir, hdirRun, hdirChars⟩ :=
      cstrAt_eq (strAt_of_append (r := []) (rfl : rstrEmpty.drop 0 = [0]) List.not_mem_nil) (by decide)
    have hdirRun : CharPtr.str ([some s.obj] ++ [none] ++ [some (normPath s.chars ++ 0 :: rest)]) .empty = .ok dir := hdirRun
    simp only [bind, List.length_append, List.length_cons, List.length_nil, Nat.zero_add, Nat.reduceAdd, hdirRun, hnameRun, ok_bind]
    exact Halts.ok ⟨hdirChars.trans (dirOf_of_not_mem hslash).symm, hnameChars.trans (nameOf_of_not_mem hslash).symm⟩

theorem filePrefixOf_halts (M : Malloc) (hlen : s.chars.length < 2147483648) :
    Halts (fun fuel => filePrefixOf M fuel s) fun r => r.chars = dirPart 95 s.chars := by
  have hsize : (dirPart 95 s.chars).length ≤ s.chars.length := (List.rdropWhile_prefix _ _).length_le
  have hsub : ∀ n, n = (dirPart 95 s.chars).length → rstrSub M s 0 n = .ok (dirPart 95 s.chars ++ [0]) := by
    rintro _ rfl
    rw [rstrSub_ok (by omega), List.drop_zero]
    nth_rewrite 2 [← dirPart_append_nameOf 95 s.chars]
    rw [List.take_left]
  have hend : ∀ n, n = (dirPart 95 s.chars).length →
      Halts (fun _ => (rstrSub M s 0 n).bind fun mem => cstrAt mem 0) fun r => r.chars = dirPart 95 s.chars := by
    intro n hn
    have hnul : 0 ∉ dirPart 95 s.chars := fun hmem => s.noNul ((List.rdropWhile_prefix _ _).subset hmem)
    rw [hsub n hn]
    exact (cstrAt_eq (strAt_of_append rfl hnul) (by omega)).halts
  simp only [filePrefixOf, rstrLastIndex_char (show rlogParamFileIndexGap.chars = [95] from rfl), bind]
  by_cases hgap : 95 ∈ s.chars
  · have hcut := (dirOf_append_nameOf hgap).symm
    have hpart := congrArg List.length (dirPart_eq hgap)
    rw [List.length_append, List.length_singleton] at hpart
    rw [lastChar_some hcut (sep_not_mem_nameOf 95 _), int32_of_range (by omega) (by omega)]
    exact hend _ (by rw [sizeT_of_nonneg (by omega) (by simp [rlogParamFileIndexGap]; omega)]; simp [rlogParamFileIndexGap]; omega)
  · rw [lastChar_none hgap]
    exact hend _ (by rw [dirPart_of_not_mem hgap]; rfl)

/-! ### The numbers -/

section round

variable {P n : CStr} {t ds r : Obj} {m : Int}

theorem rstrIndex_eq_zero_iff (hlen : n.chars.length < 2147483648) :
    ∃ index, rstrIndex n.obj 0 P = .ok index ∧ (index = 0 ↔ P.chars <+: n.chars) := by
  rw [rstrIndex, strstr_obj (Nat.zero_le _), List.drop_zero, ← search_eq_zero_iff]
  rcases hfind : search P.chars n.chars with _ | k
  · exact ⟨-1, rfl, by simp⟩
  · refine ⟨int32 k, by simp [bind, Except.bind, pure, Except.pure], ?_⟩
    have hk : k ≤ n.chars.length := search_le hfind
    rw [int32_of_range (by omega) (by omega)]
    simp

theorem indexRound_other (hlen : n.chars.length < 2147483648) (h : ¬ P.chars <+: n.chars) (m : Int) :
    indexRound P n.chars m = .ok m := by
  obtain ⟨index, hindex, hzero⟩ := rstrIndex_eq_zero_iff (P := P) hlen
  unfold indexRound
  dsimp only
  rw [show n.chars ++ [0] = n.obj from rfl, hindex]
  exact if_pos fun heq => h (hzero.mp heq)

/-- No number is smaller than that of a file that has none. -/
def atLeast (fileIdMax : Int) : Int := if fileIdMax = -1 then 0 else fileIdMax

theorem indexRound_front (hlen : n.chars.length < 2147483648) (hn : n.chars = P.chars ++ t) (m : Int) :
    indexRound P n.chars m = (rstrIndex n.obj P.chars.length rlogParamFileSuffixGap).bind fun suffixIndex =>
      if 0 < suffixIndex then countDigits n.obj P.chars.length suffixIndex (atLeast m) else .ok (atLeast m) := by
  have hsize := congrArg List.length hn
  rw [List.length_append] at hsize
  have hp : (int32 P.chars.length).toNat = P.chars.length := by
    rw [int32_of_range (by omega) (by omega), Int.toNat_natCast]
  obtain ⟨index, hindex, hzero⟩ := rstrIndex_eq_zero_iff (P := P) hlen
  have hfront : index = 0 := hzero.mpr (hn ▸ List.prefix_append P.chars t)
  unfold indexRound
  dsimp only
  rw [hp, show n.chars ++ [0] = n.obj from rfl, hindex, hfront]
  rfl

theorem strAt_front (hn : n.chars = P.chars ++ t) : strAt n.obj P.chars.length = .ok t := by
  rw [strAt_obj (by rw [hn, List.length_append]; exact Nat.le_add_right _ _), hn, List.drop_left]

theorem suffixIndex_none (hn : n.chars = P.chars ++ t) (hdot : 46 ∉ t) :
    rstrIndex n.obj P.chars.length rlogParamFileSuffixGap = .ok (-1) := by
  rw [rstrIndex, strstr, strAt_front hn]
  simp only [Except.map]
  rw [show search rlogParamFileSuffixGap.chars t = none from search_singleton_none hdot]
  rfl

theorem suffixIndex_some (hlen : n.chars.length < 2147483648) (hn : n.chars = P.chars ++ (ds ++ 46 :: r)) (hdot : 46 ∉ ds) :
    rstrIndex n.obj P.chars.length rlogParamFileSuffixGap = .ok ds.length := by
  have hsize := congrArg List.length hn
  simp only [List.length_append, List.length_cons] at hsize
  rw [rstrIndex, strstr, strAt_front hn]
  simp only [Except.map]
  rw [show search rlogParamFileSuffixGap.chars (ds ++ 46 :: r) = some ds.length from search_singleton hdot r]
  simp only [Option.map_some, bind, Except.bind, pure, Except.pure]
  rw [Nat.cast_add, add_sub_cancel_left, int32_of_range (by omega) (by omega)]

theorem rstrIsDigit_eq (hn : n.chars = P.chars ++ (ds ++ 46 :: r)) (hne : ds ≠ []) :
    rstrIsDigit n.obj P.chars.length ds.length = .ok (ds.all Decimal.IsDigit) := by
  have hpos := List.length_pos_iff.mpr hne
  have hend : ¬ ((ds.length : Int) ≤ 0 ∨ ((ds ++ 46 :: r).length : Int) < ds.length) := by
    simp only [List.length_append, List.length_cons]
    omega
  unfold rstrIsDigit
  rw [strAt_front hn]
  simp only [bind, ok_bind, if_neg hend, Int.toNat_natCast, List.take_left]
  simp only [ne_eq, List.append_eq_nil_iff, hne, false_and, not_false_eq_true, true_and, Bool.decide_eq_true]
  rfl

theorem strtol_digits (hds : ∀ c ∈ ds, Decimal.IsDigit c) (hne : ds ≠ []) (hlt : Decimal.value ds < 2147483648)
    (ht : t = [] ∨ ∃ r, t = 46 :: r) : strtol (ds ++ t) = Decimal.value ds := by
  obtain ⟨c, ds, rfl⟩ := List.exists_cons_of_ne_nil hne
  have hc := hds c List.mem_cons_self
  have htake : (c :: ds ++ t).takeWhile (fun c => decide (Decimal.IsDigit c)) = c :: ds := by
    rw [List.takeWhile_append_of_pos fun d hd => decide_eq_true (hds d hd)]
    rcases ht with rfl | ⟨r, rfl⟩
    · simp
    · rw [List.takeWhile_cons_of_neg (by decide), List.append_nil]
  have hspace : ¬ isSpace c = true := by
    rw [isSpace, decide_eq_true_iff]
    rintro (rfl | ⟨-, hle⟩)
    · exact absurd hc (by decide)
    · exact absurd (UInt8.le_trans hc.1 hle) (by decide)
  have hvalue : max (-9223372036854775808) (min 9223372036854775807 (Decimal.value (c :: ds) : Int)) = Decimal.value (c :: ds) := by
    omega
  unfold strtol
  dsimp only
  rw [List.cons_append, List.dropWhile_cons_of_neg hspace]
  split
  next digits heq =>
    obtain rfl := (List.cons.inj heq).1
    exact absurd hc (by decide)
  next digits heq =>
    obtain rfl := (List.cons.inj heq).1
    exact absurd hc (by decide)
  next =>
    rw [← List.cons_append, htake]
    exact hvalue

/-- The number is whole when it has fewer digits than the prefix has characters. -/
theorem countDigits_eq (hn : n.chars = P.chars ++ (ds ++ 46 :: r)) (hds : ∀ c ∈ ds, Decimal.IsDigit c) (hne : ds ≠ [])
    (hcut : P.chars = [] ∨ ds.length < P.chars.length) (hlt : Decimal.value ds < 2147483648) (m : Int) :
    countDigits n.obj P.chars.length ds.length m = .ok (if m < Decimal.value ds then (Decimal.value ds : Int) else m) := by
  have hint : int32 (Decimal.value ds) = Decimal.value ds := int32_of_range (by omega) (by omega)
  have hcount : ∀ mem, store n.obj ds.length [0] = .ok mem → rstr2Int mem P.chars.length = .ok (Decimal.value ds) →
      countDigits n.obj P.chars.length ds.length m = .ok (if m < Decimal.value ds then (Decimal.value ds : Int) else m) := by
    intro mem hstore hnum
    unfold countDigits
    have hall : ds.all Decimal.IsDigit = true := List.all_eq_true.mpr fun c hc => decide_eq_true (hds c hc)
    rw [rstrIsDigit_eq hn hne, hall, hstore]
    simp only [bind, ok_bind, if_true]
    rw [hnum]
    rfl
  rcases hcut with hnil | hlong
  · refine hcount (ds ++ 0 :: (r ++ [0])) ?_ ?_
    · rw [CStr.obj, hn, hnil, List.nil_append, List.append_assoc, List.cons_append]
      exact store_char ds (r ++ [0]) 46 0
    · rw [rstr2Int, hnil, List.length_nil, strAt_of_append rfl (Decimal.not_mem_of_digits hds (by decide))]
      have hnum := strtol_digits hds hne hlt (Or.inl rfl)
      rw [List.append_nil] at hnum
      simp only [bind, ok_bind, hnum, hint]
      rfl
  · obtain ⟨front, x, back, hP, hfront⟩ : ∃ front x back, P.chars = front ++ x :: back ∧ front.length = ds.length := by
      refine ⟨P.chars.take ds.length, P.chars[ds.length], P.chars.drop (ds.length + 1), ?_, ?_⟩
      · rw [List.getElem_cons_drop, List.take_append_drop]
      · rw [List.length_take]
        omega
    have hobj : n.obj = front ++ x :: (back ++ (ds ++ 46 :: r) ++ [0]) := by
      rw [CStr.obj, hn, hP]
      simp
    refine hcount (front ++ 0 :: (back ++ (ds ++ 46 :: r) ++ [0])) ?_ ?_
    · rw [hobj, ← hfront]
      exact store_char front _ x 0
    · have hlen : P.chars.length = (front ++ 0 :: back).length := by
        rw [hP]
        simp
      have hdrop : (front ++ 0 :: (back ++ (ds ++ 46 :: r) ++ [0])).drop P.chars.length = ds ++ 46 :: r ++ [0] := by
        rw [hlen, List.append_assoc back, ← List.cons_append, ← List.append_assoc, List.drop_left]
      have hnul : 0 ∉ ds ++ 46 :: r := fun hmem => n.noNul (hn ▸ List.mem_append_right _ hmem)
      rw [rstr2Int, strAt_of_append hdrop hnul]
      simp only [bind, ok_bind, strtol_digits hds hne hlt (Or.inr ⟨r, rfl⟩), hint]
      rfl

theorem countDigits_no (hn : n.chars = P.chars ++ (ds ++ 46 :: r)) (hds : ¬ ∀ c ∈ ds, Decimal.IsDigit c) (m : Int) :
    countDigits n.obj P.chars.length ds.length m = .ok m := by
  have hne : ds ≠ [] := by
    rintro rfl
    exact hds (List.forall_mem_nil _)
  have hall : ds.all Decimal.IsDigit = false := by
    rw [Bool.eq_false_iff]
    exact fun hall => hds fun c hc => of_decide_eq_true (List.all_eq_true.mp hall c hc)
  unfold countDigits
  rw [rstrIsDigit_eq hn hne, hall]
  rfl

/-- The text up to the first '.' is the only one. -/
theorem dot_unique {ds' r' : Obj} (hds : ∀ c ∈ ds, Decimal.IsDigit c) (hdot : 46 ∉ ds')
    (heq : ds ++ 46 :: r = ds' ++ 46 :: r') : ds = ds' := by
  have hfirst := search_singleton (Decimal.not_mem_of_digits hds (by decide : ¬ Decimal.IsDigit 46)) r
  rw [heq, search_singleton hdot] at hfirst
  exact (List.append_inj heq (Option.some.inj hfirst).symm).1

/-- What a name adds to the numbers. -/
theorem indexRound_spec (hlen : n.chars.length < 2147483648) (hm : -1 ≤ m ∧ m < 2147483647)
    (hfits : ∀ ds r, (∀ c ∈ ds, Decimal.IsDigit c) → n.chars = P.chars ++ (ds ++ 46 :: r) →
      (P.chars = [] ∨ ds.length < P.chars.length) ∧ Decimal.value ds < 2147483647) :
    (indexRound P n.chars m).Succeeds fun m' => m ≤ m' ∧ m' < 2147483647 ∧ (P.chars <+: n.chars → 0 ≤ m') ∧
      ∀ ds r, (∀ c ∈ ds, Decimal.IsDigit c) → n.chars = P.chars ++ (ds ++ 46 :: r) → (Decimal.value ds : Int) ≤ m' := by
  by_cases hfront : P.chars <+: n.chars
  swap
  · rw [indexRound_other hlen hfront]
    exact Succeeds.ok ⟨le_rfl, hm.2, fun h => absurd h hfront, fun ds r _ heq => absurd (heq ▸ List.prefix_append _ _) hfront⟩
  obtain ⟨t, ht⟩ := hfront
  have hm' : m ≤ atLeast m ∧ atLeast m < 2147483647 ∧ 0 ≤ atLeast m := by
    unfold atLeast
    split <;> omega
  rw [indexRound_front hlen ht.symm]
  by_cases hdot : 46 ∈ t
  swap
  · rw [suffixIndex_none ht.symm hdot]
    refine Succeeds.ok ⟨hm'.1, hm'.2.1, fun _ => hm'.2.2, fun ds r _ heq => absurd ?_ hdot⟩
    rw [← ht] at heq
    rw [List.append_cancel_left heq]
    simp
  obtain ⟨ds, r, rfl, hno⟩ := List.eq_append_cons_of_mem hdot
  have honly : ∀ ds' r', (∀ c ∈ ds', Decimal.IsDigit c) → n.chars = P.chars ++ (ds' ++ 46 :: r') → ds' = ds := fun ds' r' hds' heq =>
    dot_unique hds' hno (List.append_cancel_left (heq.symm.trans ht.symm))
  rw [suffixIndex_some hlen ht.symm hno, ok_bind]
  by_cases hds : ∀ c ∈ ds, Decimal.IsDigit c
  swap
  · have hround : (if (0 : Int) < ds.length then countDigits n.obj P.chars.length ds.length (atLeast m) else
        .ok (atLeast m)) = .ok (atLeast m) := by
      rw [countDigits_no ht.symm hds, ite_self]
    rw [hround]
    exact Succeeds.ok ⟨hm'.1, hm'.2.1, fun _ => hm'.2.2, fun ds' r' hds' heq => absurd (honly ds' r' hds' heq ▸ hds') hds⟩
  obtain ⟨hcut, hlt⟩ := hfits ds r hds ht.symm
  by_cases hne : ds = []
  · rw [hne, List.length_nil]
    refine Succeeds.ok ⟨hm'.1, hm'.2.1, fun _ => hm'.2.2, fun ds' r' hds' heq => ?_⟩
    rw [honly ds' r' hds' heq, hne]
    exact hm'.2.2
  · have hpos := List.length_pos_iff.mpr hne
    rw [if_pos (by omega), countDigits_eq ht.symm hds hne hcut (by omega)]
    refine Succeeds.ok ⟨?_, ?_, ?_, ?_⟩
    · split <;> omega
    · split <;> omega
    · intro _
      split <;> omega
    · intro ds' r' hds' heq
      rw [honly ds' r' hds' heq]
      split <;> omega

/-- All the names. -/
theorem indexLoop_spec {names : List Obj} (hnames : ∀ name ∈ names, IsName name) (hm : -1 ≤ m ∧ m < 2147483647)
    (hfits : ∀ ds r, (∀ c ∈ ds, Decimal.IsDigit c) → P.chars ++ (ds ++ 46 :: r) ∈ names →
      (P.chars = [] ∨ ds.length < P.chars.length) ∧ Decimal.value ds < 2147483647) :
    (forEach (indexRound P) names m).Succeeds fun m' => m ≤ m' ∧ m' < 2147483647 ∧ ((∃ name ∈ names, P.chars <+: name) → 0 ≤ m') ∧
      ∀ ds r, (∀ c ∈ ds, Decimal.IsDigit c) → P.chars ++ (ds ++ 46 :: r) ∈ names → (Decimal.value ds : Int) ≤ m' := by
  induction names generalizing m with
  | nil => exact Succeeds.ok ⟨le_rfl, hm.2, by simp, by simp⟩
  | cons name names ih =>
    have hname := hnames name List.mem_cons_self
    have hshort := hname.short
    have hfirst := indexRound_spec (P := P) (n := hname.str) (Nat.lt_of_le_of_lt hshort (by decide)) hm
      fun ds r hds heq => hfits ds r hds (heq ▸ List.mem_cons_self)
    refine Succeeds.bind hfirst ?_
    rintro m₁ ⟨hle, hlt, hzero, hnum⟩
    refine (ih (fun x hx => hnames x (List.mem_cons_of_mem name hx)) ⟨by omega, hlt⟩ fun ds r hds hmem =>
      hfits ds r hds (List.mem_cons_of_mem name hmem)).mono ?_
    rintro m₂ ⟨hle', hlt', hzero', hnum'⟩
    refine ⟨by omega, hlt', ?_, ?_⟩
    · rintro ⟨x, hx, hfront⟩
      rcases List.mem_cons.mp hx with rfl | hx
      · exact (hzero hfront).trans hle'
      · exact hzero' ⟨x, hx, hfront⟩
    · intro ds r hds hmem
      rcases List.mem_cons.mp hmem with heq | hmem
      · exact (hnum ds r hds heq.symm).trans hle'
      · exact hnum' ds r hds hmem

end round

/-! ### The path -/

theorem fmtInt_length_le (n : Int) (hlo : -2147483648 ≤ n) (hhi : n < 2147483648) : (fmtInt 1 n).length ≤ 11 := by
  have hdigits : (Nat.digits 10 n.natAbs).length ≤ 10 := (Nat.digits_length_le_iff (by decide) _).mpr (by omega)
  rw [fmtInt, List.length_append, List.length_leftpad, List.length_map, List.length_reverse]
  split
  · simp only [List.length_singleton]
    omega
  · simp only [List.length_nil]
    omega

theorem fileidxText_spec (m : Int) :
    (cstrAt (fileidxText m ++ [0]) 0).Succeeds fun s => s.chars = fileidxText m ∧ s.chars.length < 16 := by
  have hrange := int32_range (m + 1)
  have hshort : (fileidxText m).length < 16 := by
    unfold fileidxText
    split
    · have hlen := fmtInt_length_le (int32 (m + 1)) hrange.1 hrange.2
      omega
    · exact Nat.succ_pos _
  have hnul : 0 ∉ fileidxText m := by
    unfold fileidxText
    split
    · exact zero_not_mem_fmtInt _ _
    · exact List.not_mem_nil
  refine (cstrAt_eq (strAt_of_append rfl hnul) (by omega)).mono fun s hs => ⟨hs, ?_⟩
  rw [hs]
  exact hshort

/-- `dir` of a path without a '/' is empty, and the current directory is listed. -/
theorem fileList_halts {pos : List Obj} {dir : CStr} (M : Malloc) (h : Formatted chars)
    (hnamed : dirPart 47 chars = [] ∨ ∃ c ∈ dirPart 47 chars, c ≠ 47) (hpos : w.resolve (dirPart 47 chars) = some pos)
    (hdir : dir.chars = dirOf 47 chars) :
    Halts (fun fuel => rdirList M w fuel (some dir) true false) (· = pushed true (w.readdir pos)) := by
  have hshort := h.short
  by_cases hslash : 47 ∈ chars
  · have hpart := dirPart_eq hslash
    rw [hpart] at hnamed hpos
    have hle : (dirPart 47 chars).length ≤ chars.length := (List.rdropWhile_prefix _ _).length_le
    rw [hpart, List.length_append] at hle
    have hback : 92 ∉ dirOf 47 chars := fun hmem =>
      h.no_back ((List.rdropWhile_prefix _ _).subset (show 92 ∈ dirPart 47 chars from hpart ▸ List.mem_append_left _ hmem))
    obtain ⟨c, hc, hne⟩ : ∃ c ∈ dirOf 47 chars, c ≠ 47 := by
      obtain ⟨c, hc, hne⟩ := hnamed.resolve_left (by simp)
      exact ⟨c, (List.mem_append.mp hc).resolve_right (by simpa using hne), hne⟩
    have hnorm : normPath dir.chars ≠ [] := by
      rw [hdir]
      intro hnil
      rcases norm_eq_nil_iff.mp hnil c hc with heq | heq
      · exact hne heq
      · exact hback (heq ▸ hc)
    refine rdirList_flat (by rw [hdir]; omega) hnorm ?_ (Or.inl rfl) M true
    rw [hdir, unslash_of_not_mem hback, ← hpos]
    have hhead : (dirOf 47 chars ++ [47]).head? = (dirOf 47 chars).head? := by
      obtain ⟨x, l, hcons⟩ := List.exists_cons_of_ne_nil (List.ne_nil_of_mem hc)
      rw [hcons]
      rfl
    rw [Fs.resolve, Fs.resolve, hhead, ← components_append_replicate (dirOf 47 chars) 1]
    rfl
  · rw [dirPart_of_not_mem hslash] at hpos
    rw [dirOf_of_not_mem hslash] at hdir
    have hhere : w.resolve (unslash 47 92 rlogParamFileSuffixGap.chars) = some pos := hpos
    have hcurrent : (fun fuel => rdirList M w fuel (some dir) true false) =
        fun fuel => rdirList M w fuel (some rlogParamFileSuffixGap) true false := by
      funext fuel
      simp only [rdirList, if_pos hdir]
      rfl
    rw [hcurrent]
    exact rdirList_flat (by decide) (by decide) hhere (Or.inl rfl) M true

theorem rlogGetFilepath_halts {needFileIndex : Bool} {Q : Int → Prop} (M : Malloc) (hlen : template.chars.length < 16384)
    (h : Formatted (expanded texts template.chars level))
    (hmax : ∀ pathName filePrefix : CStr, pathName.chars = dirOf 47 (expanded texts template.chars level) →
      filePrefix.chars = dirPart 95 (nameOf 47 (expanded texts template.chars level)) →
      Halts (fun fuel => fileIdMaxOf M w fuel pathName filePrefix needFileIndex) Q) :
    Halts (fun fuel => rlogGetFilepath M w fuel texts template level needFileIndex) fun s =>
      ∃ m, Q m ∧ s.chars = replaceAll rlogParamFileIndex.chars (fileidxText m) (expanded texts template.chars level) := by
  refine Halts.bind (expandTemplate_halts M hlen) fun filepath hfilepath => ?_
  rw [← hfilepath] at h hmax ⊢
  refine Halts.bind (pathParts_halts M h) ?_
  rintro ⟨pathName, fileName⟩ ⟨hpath, hname⟩
  have hshort : fileName.chars.length < 2147483648 := by
    rw [hname]
    exact Nat.lt_of_le_of_lt (List.rtakeWhile_suffix _ _).length_le h.short
  refine Halts.bind (filePrefixOf_halts M hshort) fun filePrefix hprefix => ?_
  refine Halts.bind (hmax pathName filePrefix hpath (hname ▸ hprefix)) fun m hm => ?_
  obtain ⟨text, htext, heq, hfew⟩ := fileidxText_spec m
  simp only [htext, bind, ok_bind]
  have hindex : rlogParamFileIndex.chars ≠ [] := List.cons_ne_nil _ _
  have hsize := expanded_length_le texts template.chars level
  rw [← hfilepath] at hsize
  have hbound := replaceAll_length_le_short hindex hfew filepath.chars
  exact (replStr_halts M hindex (by omega)).mono fun s hs => ⟨m, hm, hs.trans (by rw [heq])⟩

/-- The path of the file that is written. -/
theorem rlogGetFilepath_false (M : Malloc) (w : Fs) (hlen : template.chars.length < 16384)
    (h : Formatted (expanded texts template.chars level)) :
    Halts (fun fuel => rlogGetFilepath M w fuel texts template level false) fun s =>
      s.chars = replaceAll rlogParamFileIndex.chars [] (expanded texts template.chars level) := by
  have hmax : ∀ pathName filePrefix : CStr, Halts (fun fuel => fileIdMaxOf M w fuel pathName filePrefix false) (· = -1) :=
    fun pathName filePrefix => Halts.ok rfl
  refine (rlogGetFilepath_halts M hlen h fun pathName filePrefix _ _ => hmax pathName filePrefix).mono ?_
  rintro s ⟨m, rfl, hs⟩
  exact hs

/-- The path it is rolled away to. -/
theorem rlogGetFilepath_true {pos : List Obj} {Q : Int → Prop} (M : Malloc) (hlen : template.chars.length < 16384)
    (h : Formatted (expanded texts template.chars level))
    (hnamed : dirPart 47 (expanded texts template.chars level) = [] ∨ ∃ c ∈ dirPart 47 (expanded texts template.chars level), c ≠ 47)
    (hpos : w.resolve (dirPart 47 (expanded texts template.chars level)) = some pos)
    (hmax : ∀ P : CStr, P.chars = dirPart 95 (nameOf 47 (expanded texts template.chars level)) →
      (forEach (indexRound P) (pushed true (w.readdir pos)) (-1)).Succeeds Q) :
    Halts (fun fuel => rlogGetFilepath M w fuel texts template level true) fun s =>
      ∃ m, Q m ∧ s.chars = replaceAll rlogParamFileIndex.chars (fileidxText m) (expanded texts template.chars level) := by
  refine rlogGetFilepath_halts M hlen h fun pathName filePrefix hpath hprefix => ?_
  refine Halts.bind (fileList_halts M h hnamed hpos hpath) ?_
  rintro _ rfl
  exact (hmax filePrefix hprefix).halts

end Funra
