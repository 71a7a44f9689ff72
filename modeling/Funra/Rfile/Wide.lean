import Funra.Lib.Mem
import Funra.Rfile.Utf

/-!
# Long paths on Windows

A long path that begins with a drive or with two separators gets a prefix when it is converted to wide characters, so that
Windows takes it whatever its length, and every separator becomes a backslash. The way back knows the prefix by its characters
alone: no other path has them in front.
-/

namespace Funra

open Mem Transcode

/-- `L"\\\\?\\"` -/
def longPath : List UInt16 := [92, 92, 63, 92]

/-- `L"\\\\?\\UNC\\"` -/
def uncPath : List UInt16 := longPath ++ [85, 78, 67, 92]

/-- What is put in front, and what is left to convert. A string is given without its NUL. -/
def longForm (srcstr : List UInt8) : List UInt16 × List UInt8 :=
  let srcremains := srcstr.length + 1
  if 248 < srcremains then
    if srcstr.getD 1 0 = 58 ∧ (srcstr.getD 2 0 = 47 ∨ srcstr.getD 2 0 = 92) then (longPath, srcstr)
    else if (srcstr.getD 0 0 = 47 ∨ srcstr.getD 0 0 = 92) ∧ (srcstr.getD 1 0 = 47 ∨ srcstr.getD 1 0 = 92) ∧
        srcstr.getD 2 0 ≠ 63 then (uncPath, srcstr.drop 2)
    else ([], srcstr)
  else ([], srcstr)

/-- The loop over `*t`, which ends at the NUL. -/
def backslashLoop : List UInt16 → List UInt16
  | [] => []
  | w :: ws => if w = 0 then w :: ws else (if w = 47 then 92 else w) :: backslashLoop ws

/-- The return code, and what `retstr` begins with. `wcscpy` puts a NUL, too. -/
def pathUtf8ToUnicode (retlen : Nat) (srcstr : List UInt8) : Except Fault (Int × List UInt16) :=
  let (front, srcstr) := longForm srcstr
  if front ≠ [] ∧ retlen < front.length + 1 then .error .outOfBounds
  else
    let r := convertUtf8ToUcs2 (srcstr ++ [0]) (retlen - front.length)
    if r.code ≠ 0 then .ok (if r.code = -2 then -1 else r.code, front ++ r.out)
    else if r.left ≠ 0 then .ok (1, front ++ r.out)
    else .ok (0, front ++ backslashLoop r.out)

/-- What is put in front, and what is left to convert. -/
def shortForm (srcstr : List UInt16) : List UInt8 × List UInt16 :=
  if longPath <+: srcstr then
    if uncPath <+: srcstr then ([92, 92], srcstr.drop 8) else ([], srcstr.drop 4)
  else ([], srcstr)

def pathUnicodeToUtf8 (retlen : Nat) (srcstr : List UInt16) : Except Fault (Int × List UInt8) :=
  let (front, srcstr) := shortForm srcstr
  if retlen < front.length then .error .outOfBounds
  else
    let r := convertUcs2ToUtf8 (srcstr ++ [0]) (retlen - front.length)
    if r.code ≠ 0 then .ok (r.code, front ++ r.out)
    else if r.left ≠ 0 then .ok (-3, front ++ r.out)
    else .ok (0, front ++ r.out)

/-! ### Separators -/

theorem utf8_keepsAscii : KeepsAscii String.utf8EncodeChar UInt8.toNat where
  ascii hc := ⟨_, utf8_one hc, UInt8.toNat_ofNat_of_lt' (Nat.lt_trans hc (by decide))⟩
  above := by
    intro c b hc hb
    have hrange := scalar_range c
    have hnum (v : Nat) (hv : 128 ≤ v) (hlt : v < 256) (h : b = .ofNat v) : 128 ≤ b.toNat := by
      rw [h, UInt8.toNat_ofNat_of_lt' hlt]
      exact hv
    by_cases h₁ : c.val.toNat < 0x800
    · rw [utf8_two hc h₁, List.mem_pair] at hb
      rcases hb with hb | hb <;> exact hnum _ (by omega) (by omega) hb
    by_cases h₂ : c.val.toNat < 0x10000
    · rw [utf8_three (by omega) h₂, List.mem_cons, List.mem_pair] at hb
      rcases hb with hb | hb | hb <;> exact hnum _ (by omega) (by omega) hb
    · rw [utf8_four (by omega), List.mem_cons, List.mem_cons, List.mem_pair] at hb
      rcases hb with hb | hb | hb | hb <;> exact hnum _ (by omega) (by omega) hb
  ne_nil := utf8EncodeChar_ne_nil

def toBackslash (c : Char) : Char := if c = '/' then '\\' else c

variable {cs : List Char} {words : List UInt16} {bytes : List UInt8} {retlen : Nat}

theorem map_backslash_utf8 (cs : List Char) : (cs.flatMap String.utf8EncodeChar).map (fun b => if b = 47 then 92 else b) =
    (cs.map toBackslash).flatMap String.utf8EncodeChar :=
  utf8_keepsAscii.map_replace rfl rfl (by decide) cs

theorem map_backslash_utf16 (cs : List Char) : (cs.flatMap utf16Encode).map (fun w => if w = 47 then 92 else w) =
    (cs.map toBackslash).flatMap utf16Encode :=
  utf16_keepsAscii.map_replace rfl rfl (by decide) cs

theorem backslashLoop_eq (h : 0 ∉ words) : backslashLoop (words ++ [0]) = words.map (fun w => if w = 47 then 92 else w) ++ [0] := by
  induction words with
  | nil => rfl
  | cons w words ih =>
    rw [List.mem_cons, not_or] at h
    rw [List.cons_append, backslashLoop, if_neg (Ne.symm h.1), ih h.2]
    rfl

theorem zero_not_mem_utf16 (h : '\x00' ∉ cs) : 0 ∉ cs.flatMap utf16Encode := by
  intro hmem
  obtain ⟨c, hc, hzero⟩ := List.mem_flatMap.mp hmem
  obtain ⟨-, hnum⟩ := utf16_keepsAscii.of_mem hzero (by decide)
  obtain rfl : c = '\x00' := Char.ext (UInt32.toNat_inj.mp hnum)
  exact h hc

theorem zero_not_mem_utf8 (h : 0 ∉ cs.flatMap String.utf8EncodeChar) : '\x00' ∉ cs := fun hmem =>
  h (List.mem_flatMap.mpr ⟨'\x00', hmem, List.mem_singleton_self 0⟩)

/-! ### The conversions -/

theorem pathUtf8ToUnicode_ok {front : List UInt16} (hform : longForm bytes = (front, cs.flatMap String.utf8EncodeChar))
    (hnul : '\x00' ∉ cs) (hroom : (front ++ (cs.map toBackslash).flatMap utf16Encode).length < retlen) :
    pathUtf8ToUnicode retlen bytes = .ok (0, front ++ (cs.map toBackslash).flatMap utf16Encode ++ [0]) := by
  rw [List.length_append, ← map_backslash_utf16, List.length_map] at hroom
  obtain ⟨hcode, hleft, hout⟩ : (convertUtf8ToUcs2 (cs.flatMap String.utf8EncodeChar ++ [0]) (retlen - front.length)).Done
      (cs.flatMap utf16Encode ++ [0]) := by
    refine utf8_done_iff.mpr ⟨cs ++ ['\x00'], ?_, ?_, ?_⟩
    · rw [List.flatMap_append]
      rfl
    · rw [List.flatMap_append]
      rfl
    · rw [List.length_append, List.length_singleton]
      omega
  rw [pathUtf8ToUnicode, hform]
  dsimp only
  rw [if_neg (by omega), if_neg (not_not.mpr hcode), if_neg (not_not.mpr hleft), hout,
    backslashLoop_eq (zero_not_mem_utf16 hnul), map_backslash_utf16, List.append_assoc]

theorem pathUnicodeToUtf8_ok {front : List UInt8} (hform : shortForm words = (front, cs.flatMap utf16Encode))
    (hroom : (front ++ cs.flatMap String.utf8EncodeChar).length < retlen) :
    pathUnicodeToUtf8 retlen words = .ok (0, front ++ cs.flatMap String.utf8EncodeChar ++ [0]) := by
  rw [List.length_append] at hroom
  obtain ⟨hcode, hleft, hout⟩ : (convertUcs2ToUtf8 (cs.flatMap utf16Encode ++ [0]) (retlen - front.length)).Done
      (cs.flatMap String.utf8EncodeChar ++ [0]) := by
    refine ucs2_done_iff.mpr ⟨cs ++ ['\x00'], ?_, ?_, ?_⟩
    · rw [List.flatMap_append]
      rfl
    · rw [List.flatMap_append]
      rfl
    · rw [List.length_append, List.length_singleton]
      omega
  rw [pathUnicodeToUtf8, hform]
  dsimp only
  rw [if_neg (by omega), if_neg (not_not.mpr hcode), if_neg (not_not.mpr hleft), hout, List.append_assoc]

/-! ### The prefixes -/

theorem of_toBackslash {c d : Char} (h : toBackslash c = d) : c = d ∨ c = '/' ∧ d = '\\' := by
  unfold toBackslash at h
  split_ifs at h with hc
  · exact .inr ⟨hc, h.symm⟩
  · exact .inl h

/-- A path in its short form is taken as it is. -/
theorem shortForm_plain
    (hlong : ¬ ∃ a b rest, cs.flatMap String.utf8EncodeChar = a :: b :: 63 :: rest ∧ (a = 47 ∨ a = 92) ∧ (b = 47 ∨ b = 92)) :
    shortForm ((cs.map toBackslash).flatMap utf16Encode) = ([], (cs.map toBackslash).flatMap utf16Encode) := by
  refine if_neg fun hfront => hlong ?_
  have hchars : ['\\', '\\', '?', '\\'] <+: cs.map toBackslash := utf16_keepsAscii.of_isPrefix (by simp) hfront
  obtain ⟨tail, htail⟩ := hchars
  obtain ⟨a, cs₁, rfl, ha, hrest⟩ := List.map_eq_cons_iff.mp htail.symm
  obtain ⟨b, cs₂, rfl, hb, hrest⟩ := List.map_eq_cons_iff.mp hrest
  obtain ⟨c, cs₃, rfl, hc, -⟩ := List.map_eq_cons_iff.mp hrest
  obtain rfl : c = '?' := (of_toBackslash hc).resolve_right fun h => absurd h.2 (by decide)
  have hbyte (d : Char) (hd : toBackslash d = '\\') : ∃ x, String.utf8EncodeChar d = [x] ∧ (x = 47 ∨ x = 92) := by
    rcases of_toBackslash hd with rfl | ⟨rfl, -⟩
    · exact ⟨92, rfl, .inr rfl⟩
    · exact ⟨47, rfl, .inl rfl⟩
  obtain ⟨x, hx, hxsep⟩ := hbyte a ha
  obtain ⟨y, hy, hysep⟩ := hbyte b hb
  refine ⟨x, y, cs₃.flatMap String.utf8EncodeChar, ?_, hxsep, hysep⟩
  rw [List.flatMap_cons, List.flatMap_cons, List.flatMap_cons, hx, hy]
  rfl

/-- Behind a drive there is no "UNC". -/
theorem shortForm_drive (hcolon : (cs.flatMap String.utf8EncodeChar).getD 1 0 = 58) :
    shortForm (longPath ++ (cs.map toBackslash).flatMap utf16Encode) = ([], (cs.map toBackslash).flatMap utf16Encode) := by
  refine (if_pos (List.prefix_append _ _)).trans (if_neg fun hfront => ?_)
  have hchars : ['U', 'N', 'C', '\\'] <+: cs.map toBackslash :=
    utf16_keepsAscii.of_isPrefix (by simp) ((List.prefix_append_right_inj longPath).mp hfront)
  obtain ⟨tail, htail⟩ := hchars
  obtain ⟨a, cs₁, rfl, ha, hrest⟩ := List.map_eq_cons_iff.mp htail.symm
  obtain ⟨b, cs₂, rfl, hb, -⟩ := List.map_eq_cons_iff.mp hrest
  obtain rfl : a = 'U' := (of_toBackslash ha).resolve_right fun h => absurd h.2 (by decide)
  obtain rfl : b = 'N' := (of_toBackslash hb).resolve_right fun h => absurd h.2 (by decide)
  have hletter : (78 : UInt8) = 58 := hcolon
  exact absurd hletter (by decide)

theorem shortForm_unc (words : List UInt16) : shortForm (uncPath ++ words) = ([92, 92], words) :=
  (if_pos ((List.prefix_append longPath _).trans (List.prefix_append uncPath _))).trans (if_pos (List.prefix_append uncPath _))

/-- Two separators in front are two characters. -/
theorem separators_split (hlen : 2 ≤ (cs.flatMap String.utf8EncodeChar).length)
    (hfirst : (cs.flatMap String.utf8EncodeChar).getD 0 0 = 47 ∨ (cs.flatMap String.utf8EncodeChar).getD 0 0 = 92)
    (hsecond : (cs.flatMap String.utf8EncodeChar).getD 1 0 = 47 ∨ (cs.flatMap String.utf8EncodeChar).getD 1 0 = 92) :
    ∃ a b c d cs', cs = c :: d :: cs' ∧ cs.flatMap String.utf8EncodeChar = a :: b :: cs'.flatMap String.utf8EncodeChar ∧
      (a = 47 ∨ a = 92) ∧ (b = 47 ∨ b = 92) := by
  obtain ⟨a, b, rest, heq⟩ : ∃ a b rest, cs.flatMap String.utf8EncodeChar = a :: b :: rest := by
    rcases h : cs.flatMap String.utf8EncodeChar with _ | ⟨a, _ | ⟨b, rest⟩⟩
    · rw [h] at hlen
      exact absurd hlen (Nat.not_succ_le_zero 1)
    · rw [h] at hlen
      exact absurd hlen (Nat.not_succ_le_self 1)
    · exact ⟨a, b, rest, rfl⟩
  rw [heq] at hfirst hsecond
  have hascii (x : UInt8) (hx : x = 47 ∨ x = 92) : x.toNat < 128 := by
    rcases hx with rfl | rfl <;> decide
  obtain ⟨c, cs₁, rfl, -, -, hrest⟩ := utf8_keepsAscii.head heq (hascii a hfirst)
  obtain ⟨d, cs₂, rfl, -, -, rfl⟩ := utf8_keepsAscii.head hrest (hascii b hsecond)
  exact ⟨a, b, c, d, cs₂, rfl, heq, hfirst, hsecond⟩

/-- Both ways of a path: the prefix put in front, what comes back for it, and the characters that are converted. -/
structure Forms (bytes : List UInt8) (front : List UInt16) (back : List UInt8) (cs : List Char) : Prop where
  long : longForm bytes = (front, cs.flatMap String.utf8EncodeChar)
  short : shortForm (front ++ (cs.map toBackslash).flatMap utf16Encode) = (back, (cs.map toBackslash).flatMap utf16Encode)
  back_eq : back ++ (cs.map toBackslash).flatMap String.utf8EncodeChar = bytes.map fun b => if b = 47 then 92 else b
  no_zero : 0 ∉ front
  length_le : front.length ≤ back.length + 6

theorem exists_forms (cs : List Char)
    (hlong : ¬ ∃ a b rest, cs.flatMap String.utf8EncodeChar = a :: b :: 63 :: rest ∧ (a = 47 ∨ a = 92) ∧ (b = 47 ∨ b = 92)) :
    ∃ front back cs', Forms (cs.flatMap String.utf8EncodeChar) front back cs' ∧ cs' ⊆ cs := by
  have hplain (h : longForm (cs.flatMap String.utf8EncodeChar) = ([], cs.flatMap String.utf8EncodeChar)) :
      Forms (cs.flatMap String.utf8EncodeChar) [] [] cs :=
    ⟨h, shortForm_plain hlong, (map_backslash_utf8 cs).symm, List.not_mem_nil, Nat.zero_le _⟩
  by_cases hlen : 248 < (cs.flatMap String.utf8EncodeChar).length + 1
  · by_cases hdrive : (cs.flatMap String.utf8EncodeChar).getD 1 0 = 58 ∧
        ((cs.flatMap String.utf8EncodeChar).getD 2 0 = 47 ∨ (cs.flatMap String.utf8EncodeChar).getD 2 0 = 92)
    · refine ⟨longPath, [], cs, ⟨?_, shortForm_drive hdrive.1, (map_backslash_utf8 cs).symm, by decide, by decide⟩,
        List.Subset.refl cs⟩
      rw [longForm, if_pos hlen, if_pos hdrive]
    by_cases hunc : ((cs.flatMap String.utf8EncodeChar).getD 0 0 = 47 ∨ (cs.flatMap String.utf8EncodeChar).getD 0 0 = 92) ∧
        ((cs.flatMap String.utf8EncodeChar).getD 1 0 = 47 ∨ (cs.flatMap String.utf8EncodeChar).getD 1 0 = 92) ∧
        (cs.flatMap String.utf8EncodeChar).getD 2 0 ≠ 63
    · obtain ⟨a, b, c, d, cs', hcs, hbytes, ha, hb⟩ := separators_split (by omega) hunc.1 hunc.2.1
      refine ⟨uncPath, [92, 92], cs', ⟨?_, shortForm_unc _, ?_, by decide, by decide⟩, ?_⟩
      · rw [longForm, if_pos hlen, if_neg hdrive, if_pos hunc, hbytes]
        rfl
      · have hmap (x : UInt8) (hx : x = 47 ∨ x = 92) : (if x = 47 then 92 else x) = 92 := by
          rcases hx with rfl | rfl <;> rfl
        rw [hbytes, List.map_cons, List.map_cons, hmap a ha, hmap b hb, map_backslash_utf8]
        rfl
      · rw [hcs]
        exact fun x hx => List.mem_cons_of_mem c (List.mem_cons_of_mem d hx)
    · refine ⟨[], [], cs, hplain ?_, List.Subset.refl cs⟩
      rw [longForm, if_pos hlen, if_neg hdrive, if_neg hunc]
  · refine ⟨[], [], cs, hplain ?_, List.Subset.refl cs⟩
    rw [longForm, if_neg hlen]

/-- Every well-formed path comes back with backslashes, from the wide path that it is converted to. -/
theorem path_round_trip (bytes : List UInt8) (hformed : ∃ cs : List Char, bytes = cs.flatMap String.utf8EncodeChar)
    (hnul : 0 ∉ bytes) (hlong : ¬ ∃ a b rest, bytes = a :: b :: 63 :: rest ∧ (a = 47 ∨ a = 92) ∧ (b = 47 ∨ b = 92)) :
    ∃ words : List UInt16, 0 ∉ words ∧ words.length ≤ bytes.length + 6 ∧ ∀ retlen retlen' : Nat,
      words.length < retlen → bytes.length < retlen' → pathUtf8ToUnicode retlen bytes = .ok (0, words ++ [0]) ∧
        pathUnicodeToUtf8 retlen' words = .ok (0, bytes.map (fun b => if b = 47 then 92 else b) ++ [0]) := by
  obtain ⟨cs, rfl⟩ := hformed
  obtain ⟨front, back, cs', hforms, hsub⟩ := exists_forms cs hlong
  have hzero : '\x00' ∉ cs' := fun h => zero_not_mem_utf8 hnul (hsub h)
  have hback := congrArg List.length hforms.back_eq
  rw [List.length_append, List.length_map] at hback
  refine ⟨front ++ (cs'.map toBackslash).flatMap utf16Encode, ?_, ?_, ?_⟩
  · rw [List.mem_append, not_or]
    refine ⟨hforms.no_zero, zero_not_mem_utf16 fun h => ?_⟩
    obtain ⟨c, hc, hzero'⟩ := List.mem_map.mp h
    obtain rfl : c = '\x00' := (of_toBackslash hzero').resolve_right fun h => absurd h.2 (by decide)
    exact hzero hc
  · have hwide := flatMap_length_le utf16_length_le (cs'.map toBackslash)
    have hfront := hforms.length_le
    rw [List.length_append]
    omega
  · intro retlen retlen' hroom hroom'
    refine ⟨pathUtf8ToUnicode_ok hforms.long hzero hroom, ?_⟩
    rw [← hforms.back_eq]
    exact pathUnicodeToUtf8_ok hforms.short (by rw [List.length_append]; omega)

/-- A long path of a drive and one of a share, which get their prefixes and lose them again. -/
theorem path_round_trip_long :
    let name : List UInt8 := List.replicate 300 97
    (longForm ([67, 58, 47] ++ name)).1 = longPath ∧ (longForm ([47, 47, 115, 47] ++ name)).1 = uncPath ∧
      (∃ words, pathUtf8ToUnicode 320 ([67, 58, 47] ++ name) = .ok (0, words ++ [0]) ∧
        pathUnicodeToUtf8 320 words = .ok (0, [67, 58, 92] ++ name ++ [0])) ∧
      ∃ words, pathUtf8ToUnicode 320 ([47, 47, 115, 47] ++ name) = .ok (0, words ++ [0]) ∧
        pathUnicodeToUtf8 320 words = .ok (0, [92, 92, 115, 92] ++ name ++ [0]) := by
  intro name
  refine ⟨by decide +kernel, by decide +kernel, ?_⟩
  obtain ⟨cs, hcs⟩ : ∃ cs : List Char, name = cs.flatMap String.utf8EncodeChar :=
    ⟨List.replicate 300 'a', by decide +kernel⟩
  have hzero : (0 : UInt8) ∉ name := fun h => absurd (List.eq_of_mem_replicate h) (by decide)
  have hlength : name.length = 300 := List.length_replicate
  have hsame : name.map (fun b => if b = 47 then 92 else b) = name := List.map_replicate
  clear_value name
  have hboth (front back : List UInt8) (cs' : List Char) (hfront : front = cs'.flatMap String.utf8EncodeChar)
      (hback : front.map (fun b => if b = 47 then 92 else b) = back) (h0 : 0 ∉ front) (hlen : front.length < 10)
      (hquery : ¬ ∃ a b rest, front ++ name = a :: b :: 63 :: rest ∧ (a = 47 ∨ a = 92) ∧ (b = 47 ∨ b = 92)) :
      ∃ words, pathUtf8ToUnicode 320 (front ++ name) = .ok (0, words ++ [0]) ∧
        pathUnicodeToUtf8 320 words = .ok (0, back ++ name ++ [0]) := by
    obtain ⟨words, -, hwords, htrip⟩ := path_round_trip (front ++ name)
      ⟨cs' ++ cs, by rw [List.flatMap_append, ← hfront, ← hcs]⟩ (by simp [h0, hzero]) hquery
    rw [List.length_append, hlength] at hwords htrip
    obtain ⟨hto, hfrom⟩ := htrip 320 320 (by omega) (by omega)
    rw [List.map_append, hback, hsame] at hfrom
    exact ⟨words, hto, hfrom⟩
  exact ⟨hboth [67, 58, 47] _ ['C', ':', '/'] rfl rfl (by decide) (by decide) (by simp),
    hboth [47, 47, 115, 47] _ ['/', '/', 's', '/'] rfl rfl (by decide) (by decide) (by simp)⟩

end Funra
