import Funra.Lib.Moves
import Funra.Rfile.Items
import Funra.Rlog.Filepath

/-!
# Rolling a log away

`_rlog_build_items` renames the file it finds under the log's name and opens a new one. No earlier log is lost as long as the
name the old file gets is not there yet, which holds when the numbers in the directory are read in full.
-/

namespace Funra

open Mem CInt Except Words Paths Moves

instance : DecidablePred IsName := fun name =>
  decidable_of_iff (name ≠ [] ∧ 0 ∉ name ∧ 47 ∉ name ∧ name ≠ [46] ∧ name ≠ [46, 46] ∧ name.length ≤ 255)
    ⟨fun ⟨hne, hnul, hslash, hcurrent, hparent, hshort⟩ => ⟨hne, hnul, hslash, hcurrent, hparent, hshort⟩,
      fun h => ⟨h.ne_nil, h.noNul, h.noSlash, h.ne_current, h.ne_parent, h.short⟩⟩

/-! ### The files -/

/-- The directory, and the name in it. -/
abbrev Place := List Obj × Obj

def Fs.place (w : Fs) (path : Obj) : Option Place :=
  if path.length < 4096 ∧ IsName (nameOf 47 path) then (w.resolve (dirPart 47 path)).map fun pos => (pos, nameOf 47 path) else none

def Fs.isDir (w : Fs) (place : Place) : Bool := (w.top.walk (place.1 ++ [place.2])).isSome

/-- A file system, and what is in its files. -/
structure Disk (ι : Type) where
  fs : Fs
  logs : Place → Option ι
  shows : ∀ pos name, (logs (pos, name)).isSome ↔ ∃ d, fs.top.walk pos = some d ∧ (name, false) ∈ d.entries

/-- What a rolling finds: the clock is read twice, and `fresh` is what the new file gets. -/
structure Rolling (ι : Type) where
  texts : ClockTexts
  rollTexts : ClockTexts
  level : Fin 8
  fresh : ι

variable {ι : Type}

def Disk.access (disk : Disk ι) (path : Obj) : Int :=
  if path.length < 4096 ∧ ((disk.fs.resolve path).isSome ∨ ((disk.fs.place path).bind disk.logs).isSome) then 0 else -1

/-- What `rfile_exists` says. -/
def Disk.Found (disk : Disk ι) (path : Obj) : Prop := rfileExists (disk.access path) (some path) ≠ 0

instance (disk : Disk ι) (path : Obj) : Decidable (disk.Found path) := inferInstanceAs (Decidable (_ ≠ _))

/-- `rename` of a file, which changes nothing where it fails. -/
def rfileRename (disk : Disk ι) (src dst : Obj) : Place → Option ι :=
  match disk.fs.place src, disk.fs.place dst with
  | some old, some new =>
    if disk.fs.isDir new then disk.logs else Function.update (Function.update disk.logs old none) new (disk.logs old)
  | _, _ => disk.logs

/-- `fopen` with "w+". -/
def fopenNew (w : Fs) (logs : Place → Option ι) (path : Obj) (fresh : ι) : Place → Option ι :=
  match w.place path with
  | some place => if w.isDir place then logs else Function.update logs place (some fresh)
  | none => logs

/-- `log_item->filename`. -/
def rlogFilename (M : Malloc) (w : Fs) (fuel : Nat) (texts : ClockTexts) (template : CStr) (level : Fin 8) : Except Fault CStr := do
  let filename ← rlogGetFilepath M w fuel texts template level false
  cstrAt (← rfileFormatPath fuel filename.obj) 0

/-- What `_rlog_build_items` does to the files for a level that has no file in common with the one before. -/
def rlogBuildFile (M : Malloc) (disk : Disk ι) (fuel : Nat) (template : CStr) (r : Rolling ι) :
    Except Fault (Place → Option ι) := do
  let filename ← rlogFilename M disk.fs fuel r.texts template r.level
  if disk.Found filename.chars then
    let rollFilepath ← rlogGetFilepath M disk.fs fuel r.rollTexts template r.level true
    return fopenNew disk.fs (rfileRename disk filename.chars rollFilepath.chars) filename.chars r.fresh
  else return fopenNew disk.fs disk.logs filename.chars r.fresh

variable {M : Malloc} {w : Fs} {disk : Disk ι} {template : CStr} {r : Rolling ι} {level : Fin 8} {path P W R v : Obj} {pos : List Obj}
  {d : DirTree Obj}

/-! ### The new number -/

/-- The last part of a path: what stands before the index, up to the last '_', the text with the index, up to the first '.', and
the rest. With a number for the index, the text is a number. -/
structure Indexed (path P W R : Obj) : Prop where
  name : nameOf 47 path = P ++ (W ++ 46 :: R)
  gap : P = [] ∨ P.getLast? = some 95
  no_gap : 95 ∉ W ++ 46 :: R
  dir_fixed : ¬ rlogParamFileIndex.chars <:+: dirPart 47 path
  prefix_fixed : ¬ rlogParamFileIndex.chars <:+: P
  index : rlogParamFileIndex.chars <:+: W
  digits : ∀ c ∈ replaceAll rlogParamFileIndex.chars [] W, Decimal.IsDigit c

theorem index_ne_nil : rlogParamFileIndex.chars ≠ [] := List.cons_ne_nil _ _

/-- A part that ends in a letter the index has not is replaced on its own. -/
theorem replaceAll_part {u t : Obj} {c : UInt8} (hu : u = [] ∨ u.getLast? = some c) (hc : c ∉ rlogParamFileIndex.chars)
    (hfixed : ¬ rlogParamFileIndex.chars <:+: u) (v : Obj) :
    replaceAll rlogParamFileIndex.chars v (u ++ t) = u ++ replaceAll rlogParamFileIndex.chars v t := by
  rcases hu with rfl | hlast
  · rfl
  · obtain ⟨u, rfl⟩ := List.getLast?_eq_some_iff.mp hlast
    have hno : ¬ rlogParamFileIndex.chars <:+: u := fun h => hfixed (h.trans (List.infix_append' [] u [c]))
    rw [List.append_assoc, List.singleton_append, replaceAll_append_cons index_ne_nil hc, replaceAll_eq_self index_ne_nil hno,
      List.append_assoc, List.singleton_append]

theorem Indexed.digits_with (h : Indexed path P W R) (hv : ∀ c ∈ v, Decimal.IsDigit c) :
    ∀ c ∈ replaceAll rlogParamFileIndex.chars v W, Decimal.IsDigit c := fun c hc =>
  (mem_replaceAll hc).elim (hv c) (h.digits c)

/-- The path with a number for the index. -/
theorem Indexed.numbered (h : Indexed path P W R) (hv : ∀ c ∈ v, Decimal.IsDigit c) :
    dirPart 47 (replaceAll rlogParamFileIndex.chars v path) = dirPart 47 path ∧
    nameOf 47 (replaceAll rlogParamFileIndex.chars v path) =
      P ++ (replaceAll rlogParamFileIndex.chars v W ++ 46 :: replaceAll rlogParamFileIndex.chars v R) := by
  have hcut : replaceAll rlogParamFileIndex.chars v path =
      dirPart 47 path ++ (P ++ (replaceAll rlogParamFileIndex.chars v W ++ 46 :: replaceAll rlogParamFileIndex.chars v R)) := by
    conv_lhs => rw [← dirPart_append_nameOf 47 path, h.name]
    rw [replaceAll_part (dirPart_last 47 path) (by decide) h.dir_fixed, replaceAll_part h.gap (by decide) h.prefix_fixed,
      replaceAll_append_cons index_ne_nil (by decide)]
  have hname := sep_not_mem_nameOf 47 path
  rw [h.name, List.mem_append, List.mem_append, List.mem_cons, not_or, not_or, not_or] at hname
  have hdigit : ¬ Decimal.IsDigit 47 := by decide
  have hslash : 47 ∉ P ++ (replaceAll rlogParamFileIndex.chars v W ++ 46 :: replaceAll rlogParamFileIndex.chars v R) := by
    rw [List.mem_append, List.mem_append, List.mem_cons, not_or, not_or, not_or]
    refine ⟨hname.1, Decimal.not_mem_of_digits (h.digits_with hv) hdigit, hname.2.2.1, fun hmem => ?_⟩
    exact (mem_of_mem_replaceAll index_ne_nil hmem).elim (fun hnew => hdigit (hv 47 hnew)) hname.2.2.2
  rw [hcut]
  exact ⟨dirPart_before (dirPart_last 47 path) hslash, nameOf_behind (dirPart_last 47 path) hslash⟩

theorem Indexed.prefix_eq (h : Indexed path P W R) : dirPart 95 (nameOf 47 path) = P := by
  rw [h.name]
  exact dirPart_before h.gap h.no_gap

theorem fileidxText_nat {k : Nat} (hk : k < 2147483647) : fileidxText (k : Int) = Decimal.text (Nat.digits 10 (k + 1)) := by
  have hint : int32 ((k : Int) + 1) = ((k + 1 : Nat) : Int) := int32_of_range (by omega) (by omega)
  have hne : (Nat.digits 10 (k + 1)).length ≠ 0 := fun h => absurd (List.eq_nil_of_length_eq_zero h) (by simp)
  rw [fileidxText, if_pos (by omega), hint, fmtInt, if_neg (by omega), List.nil_append, Int.natAbs_natCast, List.leftpad,
    List.length_map, List.length_reverse, Nat.sub_eq_zero_of_le (Nat.one_le_iff_ne_zero.mpr hne), List.replicate_zero,
    List.nil_append]
  rfl

/-- The entries of a directory the numbers of which are read in full. -/
structure Countable (d : DirTree Obj) (P : Obj) : Prop where
  files : ∀ ds rest, (∀ c ∈ ds, Decimal.IsDigit c) → (P ++ (ds ++ 46 :: rest), false) ∈ d.entries →
    (P = [] ∨ ds.length < P.length) ∧ Decimal.value ds < 2147483647
  dirs : ∀ ds rest, (∀ c ∈ ds, Decimal.IsDigit c) → (P ++ (ds ++ 46 :: rest), true) ∉ d.entries

theorem mem_pushed_true {name : Obj} (hwalk : w.top.walk pos = some d) :
    name ∈ pushed true (w.readdir pos) ↔ (name, false) ∈ d.entries := by
  rw [(pushed_perm (w.valid.walk hwalk) (w.readdir_perm pos d hwalk) true).mem_iff, DirTree.children, List.mem_map]
  constructor
  · rintro ⟨⟨n, isDir⟩, hmem, rfl⟩
    obtain ⟨hentry, hfile⟩ := List.mem_filter.mp hmem
    obtain rfl : isDir = false := by simpa using hfile
    exact hentry
  · exact fun hentry => ⟨(name, false), List.mem_filter.mpr ⟨hentry, rfl⟩, rfl⟩

/-- With the number of `fileIdMax` the name is new. -/
structure FreshIndex (d : DirTree Obj) (path : Obj) (fileIdMax : Int) : Prop where
  digits : ∀ c ∈ fileidxText fileIdMax, Decimal.IsDigit c
  short : (fileidxText fileIdMax).length ≤ 10
  free : nameOf 47 (replaceAll rlogParamFileIndex.chars (fileidxText fileIdMax) path) ∉ d.names

/-- The new number is above every one that is there. -/
theorem fileIdMax_fresh {p : CStr} (h : Indexed path p.chars W R) (hwalk : w.top.walk pos = some d) (hcount : Countable d p.chars) :
    (forEach (indexRound p) (pushed true (w.readdir pos)) (-1)).Succeeds (FreshIndex d path) := by
  have hvalid := w.valid.walk hwalk
  have hnames : ∀ name ∈ pushed true (w.readdir pos), IsName name := fun name hmem => hvalid.mem _ ((mem_pushed_true hwalk).mp hmem)
  refine (indexLoop_spec hnames (by decide) fun ds rest hds hmem =>
    hcount.files ds rest hds ((mem_pushed_true hwalk).mp hmem)).mono ?_
  rintro m ⟨hlow, hhigh, hzero, hnum⟩
  have hfree : ∀ v, (∀ c ∈ v, Decimal.IsDigit c) →
      ((∃ name ∈ pushed true (w.readdir pos), p.chars <+: name) →
        ¬ (Decimal.value (replaceAll rlogParamFileIndex.chars v W) : Int) ≤ m) →
      nameOf 47 (replaceAll rlogParamFileIndex.chars v path) ∉ d.names := by
    intro v hv hbig hmem
    rw [(h.numbered hv).2] at hmem
    obtain ⟨⟨name, isDir⟩, hentry, rfl⟩ := List.mem_map.mp hmem
    cases isDir with
    | true => exact hcount.dirs _ _ (h.digits_with hv) hentry
    | false =>
      have hpushed := (mem_pushed_true hwalk).mpr hentry
      exact hbig ⟨_, hpushed, List.prefix_append _ _⟩ (hnum _ _ (h.digits_with hv) hpushed)
  rcases Int.lt_or_le m 0 with hneg | hnonneg
  · obtain rfl : m = -1 := by omega
    have htext : fileidxText (-1) = [] := rfl
    have hno := hfree [] (List.forall_mem_nil _) fun hfront => absurd (hzero hfront) (by decide)
    exact ⟨htext ▸ List.forall_mem_nil _, Nat.zero_le _, hno⟩
  · obtain ⟨k, rfl⟩ := Int.eq_ofNat_of_zero_le hnonneg
    have hk : k < 2147483647 := by omega
    have hdigits : ∀ c ∈ Decimal.text (Nat.digits 10 (k + 1)), Decimal.IsDigit c :=
      Decimal.isDigit_of_mem_text fun d hd => Nat.digits_lt_base (by decide) hd
    have htext := fileidxText_nat hk
    refine ⟨htext ▸ hdigits, ?_, htext ▸ hfree _ hdigits fun _ => ?_⟩
    · rw [htext, Decimal.text, List.length_map, List.length_reverse]
      exact (Nat.digits_length_le_iff (by decide) _).mpr (by omega)
    · have hvalue := Decimal.value_le_of_infix (infix_replaceAll index_ne_nil h.index (Decimal.text (Nat.digits 10 (k + 1))))
      rw [Decimal.value_digits] at hvalue
      omega

/-! ### One rolling -/

/-- A path in a directory that is there, the numbers of which are read in full, with a good name for every number. -/
structure Numberable (w : Fs) (path P W R : Obj) (pos : List Obj) (d : DirTree Obj) : Prop extends Indexed path P W R,
    Countable d P where
  no_back : 92 ∉ path
  named : dirPart 47 path = [] ∨ ∃ c ∈ dirPart 47 path, c ≠ 47
  leads : w.resolve (dirPart 47 path) = some pos
  found : w.top.walk pos = some d
  valid : ∀ v, v.length ≤ 10 → (∀ c ∈ v, Decimal.IsDigit c) →
    (replaceAll rlogParamFileIndex.chars v path).length < 4096 ∧ IsName (nameOf 47 (replaceAll rlogParamFileIndex.chars v path))

def Rollable (w : Fs) (path : Obj) : Prop := ∃ P W R pos d, Numberable w path P W R pos d

/-- The path of the file that is written. -/
def filenameOf (texts : ClockTexts) (template : CStr) (level : Fin 8) : Obj :=
  replaceAll rlogParamFileIndex.chars [] (expanded texts template.chars level)

/-- The name a file is rolled away to is not there yet. -/
def RollLaw (M : Malloc) (w : Fs) (template : CStr) (texts : ClockTexts) (level : Fin 8) : Prop :=
  Halts (fun fuel => rlogGetFilepath M w fuel texts template level true) fun roll =>
    ∃ pos d, w.resolve (dirPart 47 roll.chars) = some pos ∧ w.top.walk pos = some d ∧ nameOf 47 roll.chars ∉ d.names

theorem Numberable.formatted {texts : ClockTexts} (h : Numberable w (expanded texts template.chars level) P W R pos d)
    (hlen : template.chars.length < 16384) : Formatted (expanded texts template.chars level) := by
  have hsize := expanded_length_le texts template.chars level
  refine ⟨h.no_back, fun hnil => ?_, by omega⟩
  rw [h.name] at hnil
  simp at hnil

/-- The new path can be renamed to. -/
theorem roll_halts {texts : ClockTexts} (M : Malloc) (hlen : template.chars.length < 16384)
    (h : Rollable w (expanded texts template.chars level)) :
    Halts (fun fuel => rlogGetFilepath M w fuel texts template level true) fun roll =>
      ∃ pos name d, w.place roll.chars = some (pos, name) ∧ w.top.walk pos = some d ∧ name ∉ d.names := by
  obtain ⟨P, W, R, pos, d, hnum⟩ := h
  have hmax : ∀ p : CStr, p.chars = dirPart 95 (nameOf 47 (expanded texts template.chars level)) →
      (forEach (indexRound p) (pushed true (w.readdir pos)) (-1)).Succeeds (FreshIndex d (expanded texts template.chars level)) := by
    intro p hp
    obtain rfl : p.chars = P := hp.trans hnum.prefix_eq
    exact fileIdMax_fresh hnum.toIndexed hnum.found hnum.toCountable
  refine (rlogGetFilepath_true M hlen (hnum.formatted hlen) hnum.named hnum.leads hmax).mono ?_
  rintro roll ⟨m, hm, hroll⟩
  refine ⟨pos, nameOf 47 roll.chars, d, ?_, hnum.found, hroll ▸ hm.free⟩
  rw [hroll, Fs.place, if_pos (hnum.valid _ hm.short hm.digits), (hnum.numbered hm.digits).1, hnum.leads]
  rfl

theorem place_eq_some {name : Obj} (h : w.place path = some (pos, name)) :
    w.resolve (dirPart 47 path) = some pos ∧ nameOf 47 path = name := by
  unfold Fs.place at h
  split at h
  · obtain ⟨q, hq, heq⟩ := Option.map_eq_some_iff.mp h
    exact ⟨hq.trans (congrArg some (Prod.ext_iff.mp heq).1), (Prod.ext_iff.mp heq).2⟩
  · exact absurd h.symm (Option.some_ne_none _)

theorem rollLaw_of_rollable {texts : ClockTexts} (M : Malloc) (hlen : template.chars.length < 16384)
    (h : Rollable w (expanded texts template.chars level)) : RollLaw M w template texts level := by
  refine (roll_halts M hlen h).mono ?_
  rintro roll ⟨pos, name, d, hplace, hwalk, hfree⟩
  obtain ⟨hpos, rfl⟩ := place_eq_some hplace
  exact ⟨pos, d, hpos, hwalk, hfree⟩

theorem rlogFilename_halts {texts : ClockTexts} (M : Malloc) (w : Fs) (hlen : template.chars.length < 16384)
    (h : Formatted (expanded texts template.chars level)) (hname : Formatted (filenameOf texts template level)) :
    Halts (fun fuel => rlogFilename M w fuel texts template level) fun s => s.chars = filenameOf texts template level := by
  refine Halts.bind (rlogGetFilepath_false M w hlen h) fun s hs => ?_
  have hs : s.chars = filenameOf texts template level := hs
  rw [← hs] at hname ⊢
  have hnorm := hname.normPath_eq
  have hne : normPath s.chars ≠ [] := fun hnil => hname.named (by rw [← hnorm, hnil]; rfl)
  refine Halts.bind (rfileFormatPath_halts s.noNul (segsFit_of_not_mem hname.no_back) hne []) ?_
  rintro mem ⟨rest, hmem, -⟩
  rw [hnorm] at hmem
  exact (cstrAt_eq (strAt_of_append (List.drop_zero.trans hmem) s.noNul) s.fits).halts

/-- The files as they are before a rolling: the log's name is no directory, and if there is a file of that name it can be rolled
away. -/
structure CanRoll (disk : Disk ι) (template : CStr) (r : Rolling ι) : Prop where
  formatted : Formatted (expanded r.texts template.chars r.level)
  written : Formatted (filenameOf r.texts template r.level)
  file : ∀ place, disk.fs.place (filenameOf r.texts template r.level) = some place → ¬ disk.fs.isDir place
  roll : disk.Found (filenameOf r.texts template r.level) → Rollable disk.fs (expanded r.rollTexts template.chars r.level)

theorem Disk.logs_eq_none {name : Obj} (disk : Disk ι) (hwalk : disk.fs.top.walk pos = some d) (hname : name ∉ d.names) :
    disk.logs (pos, name) = none ∧ ¬ disk.fs.isDir (pos, name) := by
  constructor
  · rw [← Option.not_isSome_iff_eq_none, disk.shows]
    rintro ⟨d', hwalk', hmem⟩
    obtain rfl : d = d' := Option.some.inj (hwalk.symm.trans hwalk')
    exact hname (List.mem_map.mpr ⟨_, hmem, rfl⟩)
  · rw [Fs.isDir, DirTree.walk_concat, hwalk, Option.bind_some, DirTree.find_eq_none hname]
    exact Bool.false_ne_true

theorem noneLost_fopenNew {logs : Place → Option ι} (h : ∀ place, w.place path = some place → logs place = none) (fresh : ι) :
    NoneLost logs (fopenNew w logs path fresh) := by
  unfold fopenNew
  split
  next place hplace =>
    split
    · exact NoneLost.refl logs
    · exact noneLost_put (h place hplace) fresh
  next => exact NoneLost.refl logs

/-- No file is at the log's place after it has been renamed. -/
theorem noneLost_rename {new : Place} {roll : Obj} (path : Obj) (hroll : disk.fs.place roll = some new)
    (hnew : disk.logs new = none) (hdir : ¬ disk.fs.isDir new) : NoneLost disk.logs (rfileRename disk path roll) ∧
      ∀ place, disk.fs.place path = some place → rfileRename disk path roll place = none := by
  unfold rfileRename
  rw [hroll]
  rcases hpath : disk.fs.place path with _ | old
  · exact ⟨NoneLost.refl _, fun place hplace => absurd hplace.symm (Option.some_ne_none place)⟩
  · simp only [if_neg hdir]
    refine ⟨noneLost_move old hnew, fun place hplace => ?_⟩
    obtain rfl := Option.some.inj hplace
    by_cases hsame : old = new
    · rw [hsame, Function.update_self, hnew]
    · rw [Function.update_of_ne hsame, Function.update_self]

theorem Disk.logs_of_not_found {place : Place} (h : ¬ disk.Found path) (hplace : disk.fs.place path = some place) :
    disk.logs place = none := by
  have hgood : path.length < 4096 ∧ IsName (nameOf 47 path) := by
    by_contra hbad
    rw [Fs.place, if_neg hbad] at hplace
    exact Option.some_ne_none place hplace.symm
  obtain ⟨c, l, hcons⟩ : ∃ c l, path = c :: l := by
    refine List.exists_cons_of_ne_nil fun hnil => hgood.2.ne_nil ?_
    rw [hnil]
    rfl
  by_contra hlog
  have haccess : disk.access path = 0 := if_pos ⟨hgood.1, Or.inr (by rw [hplace]; exact Option.isSome_iff_ne_none.mpr hlog)⟩
  refine h ?_
  rw [Disk.Found, haccess, hcons]
  exact Int.one_ne_zero

/-- A rolling ends, and no log is lost. -/
theorem rlogBuildFile_halts (M : Malloc) (hlen : template.chars.length < 16384) (h : CanRoll disk template r) :
    Halts (fun fuel => rlogBuildFile M disk fuel template r) (NoneLost disk.logs) := by
  refine Halts.bind (rlogFilename_halts M disk.fs hlen h.formatted h.written) fun filename hfilename => ?_
  rw [hfilename]
  by_cases hexists : disk.Found (filenameOf r.texts template r.level)
  · simp only [if_pos hexists]
    refine Halts.bind (roll_halts M hlen (h.roll hexists)) ?_
    rintro roll ⟨pos, name, d, hplace, hwalk, hfree⟩
    obtain ⟨hnone, hdir⟩ := disk.logs_eq_none hwalk hfree
    obtain ⟨hkept, hgone⟩ := noneLost_rename (filenameOf r.texts template r.level) hplace hnone hdir
    exact Halts.ok (hkept.trans (noneLost_fopenNew hgone r.fresh))
  · simp only [if_neg hexists]
    exact Halts.ok (noneLost_fopenNew (fun place hplace => disk.logs_of_not_found hexists hplace) r.fresh)

/-! ### A directory of files -/

def flatTree (names : List Obj) : DirTree Obj := names.foldr DirTree.file .empty

theorem flatTree_entries (names : List Obj) : (flatTree names).entries = names.map fun name => (name, false) := by
  induction names with
  | nil => rfl
  | cons name names ih => exact congrArg _ ih

theorem flatTree_valid {names : List Obj} (hnames : ∀ name ∈ names, IsName name) (hnodup : names.Nodup) :
    (flatTree names).Valid IsName := by
  induction names with
  | nil => trivial
  | cons name names ih =>
    rw [List.forall_mem_cons] at hnames
    rw [List.nodup_cons] at hnodup
    refine ⟨hnames.1, fun hmem => hnodup.1 ?_, ih hnames.2 hnodup.2⟩
    have hmem : name ∈ (flatTree names).entries.map Prod.fst := hmem
    rwa [flatTree_entries, List.map_map, Function.comp_def, List.map_id'] at hmem

theorem flatTree_walk (names : List Obj) (c : Obj) (cs : List Obj) : (flatTree names).walk (c :: cs) = none := by
  have hfind : (flatTree names).find c = none := by
    induction names with
    | nil => rfl
    | cons name names ih => exact ih
  rw [DirTree.walk, List.foldlM_cons, hfind]
  rfl

/-- The current directory is the root, and has only files. -/
def Fs.flat (names : List Obj) (hnames : ∀ name ∈ names, IsName name) (hnodup : names.Nodup) : Fs where
  top := flatTree names
  valid := flatTree_valid hnames hnodup
  cwd := []
  cwd_exists := rfl
  readdir pos := ((flatTree names).walk pos).elim [] fun t => ([46], true) :: ([46, 46], true) :: t.entries
  readdir_perm pos t h := by rw [h]; exact List.Perm.refl _

def Disk.flat (files : List (Obj × ι)) (hnames : ∀ name ∈ files.map Prod.fst, IsName name) (hnodup : (files.map Prod.fst).Nodup) :
    Disk ι where
  fs := .flat (files.map Prod.fst) hnames hnodup
  logs place := if place.1 = [] then files.lookup place.2 else none
  shows pos name := by
    cases pos with
    | nil =>
      have hentries : (∃ d, (flatTree (files.map Prod.fst)).walk [] = some d ∧ (name, false) ∈ d.entries) ↔
          name ∈ files.map Prod.fst := by
        simp [flatTree_entries]
      rw [Fs.flat, hentries, if_pos rfl]
      simp
    | cons c cs =>
      rw [if_neg (List.cons_ne_nil c cs)]
      refine ⟨fun h => Bool.noConfusion h, ?_⟩
      rintro ⟨d, hwalk, -⟩
      exact absurd (hwalk.symm.trans (flatTree_walk _ c cs)) (Option.some_ne_none d)

/-- a_${index}.log -/
def indexTemplate : CStr := ⟨[97, 95, 36, 123, 105, 110, 100, 101, 120, 125, 46, 108, 111, 103], by decide, by decide⟩

/-- The clock at noon of a day. -/
def noonTexts : ClockTexts where
  date := ⟨[50, 48, 50, 54, 48, 49, 48, 49], by decide, by decide⟩
  time := ⟨[49, 50, 48, 48, 48, 48], by decide, by decide⟩
  date_short := by decide
  time_short := by decide

theorem indexTemplate_expanded : expanded noonTexts indexTemplate.chars 7 = indexTemplate.chars := by decide

theorem flat_pushed {names : List Obj} (hnames : ∀ name ∈ names, IsName name) (hnodup : names.Nodup) :
    pushed true ((Fs.flat names hnames hnodup).readdir []) = names := by
  have hfiles : ∀ e ∈ names.map fun name => (name, false), (!isDot e.1 && !(true && e.2)) = true := by
    intro e he
    obtain ⟨name, hname, rfl⟩ := List.mem_map.mp he
    simp [(hnames name hname).not_isDot]
  have hents : (Fs.flat names hnames hnodup).readdir [] = ([46], true) :: ([46, 46], true) :: names.map fun name => (name, false) :=
    congrArg (fun l => ([46], true) :: ([46, 46], true) :: l) (flatTree_entries names)
  rw [hents, pushed, List.filter_cons_of_neg (by decide), List.filter_cons_of_neg (by decide), List.filter_eq_self.mpr hfiles,
    List.map_map]
  exact List.map_id' names

/-- Where a file of a flat directory is rolled away to. -/
theorem flat_halts {names : List Obj} (hnames : ∀ name ∈ names, IsName name) (hnodup : names.Nodup) {m : Int} (M : Malloc)
    (hmax : forEach (indexRound ⟨[97, 95], by decide, by decide⟩) names (-1) = .ok m) :
    Halts (fun fuel => rlogGetFilepath M (.flat names hnames hnodup) fuel noonTexts indexTemplate 7 true) fun roll =>
      roll.chars = replaceAll rlogParamFileIndex.chars (fileidxText m) indexTemplate.chars := by
  have hform : Formatted (expanded noonTexts indexTemplate.chars 7) := by
    rw [indexTemplate_expanded]
    exact ⟨by decide, by decide, by decide⟩
  have hdir : dirPart 47 (expanded noonTexts indexTemplate.chars 7) = [] := by
    rw [indexTemplate_expanded]
    decide
  have hloop : ∀ P : CStr, P.chars = dirPart 95 (nameOf 47 (expanded noonTexts indexTemplate.chars 7)) →
      (forEach (indexRound P) (pushed true ((Fs.flat names hnames hnodup).readdir [])) (-1)).Succeeds (· = m) := by
    rintro ⟨chars, hnul, hfits⟩ hchars
    rw [indexTemplate_expanded] at hchars
    obtain rfl : chars = [97, 95] := hchars.trans (by decide)
    rw [flat_pushed]
    exact ⟨m, hmax, rfl⟩
  refine (rlogGetFilepath_true M (by decide) hform (Or.inl hdir) (hdir ▸ rfl) hloop).mono ?_
  rintro roll ⟨m, rfl, hroll⟩
  rwa [indexTemplate_expanded] at hroll

theorem roll_onto_ten : ¬ ∀ (M : Malloc) (w : Fs) (template : CStr) (texts : ClockTexts) (level : Fin 8),
    rlogParamFileIndex.chars <:+: nameOf 47 template.chars → RollLaw M w template texts level := by
  intro h
  have hlaw := h .zeros (.flat [[97, 95, 46, 108, 111, 103], [97, 95, 57, 46, 108, 111, 103], [97, 95, 49, 48, 46, 108, 111, 103]]
    (by decide) (by decide)) indexTemplate noonTexts 7 (by decide)
  obtain ⟨roll, hroll, pos, d, hpos, hwalk, hfree⟩ :=
    (Halts.and (flat_halts (by decide) (by decide) (m := 9) .zeros (by decide +kernel)) hlaw).exists
  have hten : roll.chars = [97, 95, 49, 48, 46, 108, 111, 103] := hroll.trans (by decide)
  rw [hten] at hpos hfree
  obtain rfl : [] = pos := Option.some.inj hpos
  obtain rfl := Option.some.inj hwalk
  exact hfree (by decide)

/-- a_.log -/
def baseName : Obj := [97, 95, 46, 108, 111, 103]

def onceBefore : Disk Nat := .flat [(baseName, 1)] (by decide) (by decide)

/-- a_1.log has the old file. -/
def onceAfter : Disk Nat := .flat [(baseName, 2), ([97, 95, 49, 46, 108, 111, 103], 1)] (by decide) (by decide)

def onceRolling : Rolling Nat := ⟨noonTexts, noonTexts, 7, 2⟩

theorem once_indexed : Indexed indexTemplate.chars [97, 95] rlogParamFileIndex.chars [108, 111, 103] where
  name := by decide
  gap := Or.inr rfl
  no_gap := by decide
  dir_fixed := by decide
  prefix_fixed := by decide
  index := List.infix_rfl
  digits := by
    rw [show replaceAll rlogParamFileIndex.chars [] rlogParamFileIndex.chars = [] by decide]
    exact List.forall_mem_nil _

theorem once_numbered (v : Obj) :
    replaceAll rlogParamFileIndex.chars v indexTemplate.chars = [97, 95] ++ (v ++ [46, 108, 111, 103]) := by
  have hcut : indexTemplate.chars = [97, 95] ++ (rlogParamFileIndex.chars ++ [46, 108, 111, 103]) := rfl
  rw [hcut, replaceAll_part once_indexed.gap (by decide) once_indexed.prefix_fixed, replaceAll_append index_ne_nil,
    replaceAll_eq_self index_ne_nil (by decide)]

theorem once_rollable : Rollable onceBefore.fs (expanded noonTexts indexTemplate.chars 7) := by
  rw [indexTemplate_expanded]
  refine ⟨[97, 95], rlogParamFileIndex.chars, [108, 111, 103], [], flatTree [baseName], { once_indexed with
    files := ?_, dirs := ?_, no_back := by decide, named := by decide, leads := rfl, found := rfl, valid := ?_ }⟩
  · intro ds rest hds hmem
    have hname : [97, 95] ++ (ds ++ 46 :: rest) = baseName := by simpa [flatTree_entries] using hmem
    have hrest : ds ++ 46 :: rest = [] ++ 46 :: [108, 111, 103] := List.append_cancel_left hname
    obtain rfl := dot_unique hds List.not_mem_nil hrest
    exact ⟨Or.inr (by decide), by decide⟩
  · intro ds rest hds hmem
    simp [flatTree_entries] at hmem
  · intro v hlen hv
    rw [once_numbered]
    have hno : ∀ c, ¬ Decimal.IsDigit c → c ∉ [97, 95, 46, 108, 111, 103] → c ∉ [97, 95] ++ (v ++ [46, 108, 111, 103]) := by
      intro c hc hnot
      have := Decimal.not_mem_of_digits hv hc
      simp at hnot ⊢
      tauto
    have hslash := hno 47 (by decide) (by decide)
    rw [nameOf_of_not_mem hslash]
    refine ⟨?_, by simp, hno 0 (by decide) (by decide), hslash, by simp, by simp, ?_⟩
    · simp
      omega
    · simp
      omega

theorem once_filename : filenameOf noonTexts indexTemplate 7 = baseName := by
  rw [filenameOf, indexTemplate_expanded, once_numbered]
  rfl

theorem once_place (name : Obj) (hlen : name.length < 4096) (hname : IsName name) :
    onceBefore.fs.place name = some ([], name) ∧ onceBefore.fs.isDir ([], name) = false := by
  have hflat := nameOf_of_not_mem hname.noSlash
  refine ⟨?_, rfl⟩
  rw [Fs.place, hflat, if_pos ⟨hlen, hname⟩, dirPart_of_not_mem hname.noSlash]
  rfl

theorem once_canRoll : CanRoll onceBefore indexTemplate onceRolling where
  formatted := by
    show Formatted (expanded noonTexts indexTemplate.chars 7)
    rw [indexTemplate_expanded]
    exact ⟨by decide, by decide, by decide⟩
  written := by
    show Formatted (filenameOf noonTexts indexTemplate 7)
    rw [once_filename]
    exact ⟨by decide, by decide, by decide⟩
  file := by
    show ∀ place, onceBefore.fs.place (filenameOf noonTexts indexTemplate 7) = some place → ¬ onceBefore.fs.isDir place
    rw [once_filename, (once_place baseName (by decide) (by decide)).1]
    rintro _ ⟨⟩
    decide
  roll _ := once_rollable

theorem once_logs :
    fopenNew onceBefore.fs (rfileRename onceBefore baseName [97, 95, 49, 46, 108, 111, 103]) baseName 2 = onceAfter.logs := by
  obtain ⟨hbase, hbaseDir⟩ := once_place baseName (by decide) (by decide)
  obtain ⟨hone, honeDir⟩ := once_place [97, 95, 49, 46, 108, 111, 103] (by decide) (by decide)
  simp only [fopenNew, rfileRename, hbase, hone, hbaseDir, honeDir, Bool.false_eq_true, if_false]
  funext ⟨pos, name⟩
  rcases pos with _ | ⟨c, cs⟩
  · by_cases hold : name = baseName
    · rw [hold]
      rfl
    · have holdEq : (name == baseName) = false := beq_false_of_ne hold
      by_cases hnew : name = [97, 95, 49, 46, 108, 111, 103]
      · rw [hnew]
        rfl
      · have hnewEq : (name == [97, 95, 49, 46, 108, 111, 103]) = false := beq_false_of_ne hnew
        simp [Function.update, onceBefore, onceAfter, Disk.flat, List.lookup_cons, hold, holdEq, hnew, hnewEq]
  · simp [Function.update, onceBefore, onceAfter, Disk.flat]

theorem once_step : Halts (fun fuel => rlogBuildFile .zeros onceBefore fuel indexTemplate onceRolling) (· = onceAfter.logs) := by
  have hname := rlogFilename_halts .zeros onceBefore.fs (by decide) once_canRoll.formatted once_canRoll.written
  refine Halts.bind hname fun filename hfilename => ?_
  have hfilename : filename.chars = baseName := hfilename.trans once_filename
  have hexists : onceBefore.Found baseName := by decide
  rw [hfilename]
  simp only [if_pos hexists]
  refine Halts.bind (flat_halts (by decide) (by decide) .zeros (m := 0) (by decide)) fun roll hroll => ?_
  have hroll : roll.chars = [97, 95, 49, 46, 108, 111, 103] := hroll.trans (once_numbered _)
  rw [hroll]
  exact Halts.ok once_logs

/-! ### Every run -/

/-- Rollings one after the other, each with the files it finds. The directories may be others from one to the next, as
`rdir_make` and other programs have made them. -/
inductive Rollings (M : Malloc) (template : CStr) : Disk ι → List (Disk ι × Rolling ι) → Disk ι → Prop
  | nil (disk : Disk ι) : Rollings M template disk [] disk
  | cons {disk next last : Disk ι} {r : Rolling ι} {rest : List (Disk ι × Rolling ι)}
      (hstep : Halts (fun fuel => rlogBuildFile M disk fuel template r) (· = next.logs))
      (hrest : Rollings M template next rest last) : Rollings M template disk ((disk, r) :: rest) last

theorem once_rollings : Rollings .zeros indexTemplate onceBefore [(onceBefore, onceRolling)] onceAfter :=
  .cons once_step (.nil onceAfter)

/-- As long as every rolling meets the condition, none renames a file to a name that is there, and no log is lost. -/
theorem rollings_keep {last : Disk ι} {trace : List (Disk ι × Rolling ι)} (hlen : template.chars.length < 16384)
    (hrun : Rollings M template disk trace last) (h : ∀ x ∈ trace, CanRoll x.1 template x.2) :
    NoneLost disk.logs last.logs ∧ ∀ x ∈ trace, x.1.Found (filenameOf x.2.texts template x.2.level) →
      RollLaw M x.1.fs template x.2.rollTexts x.2.level := by
  induction hrun with
  | nil disk => exact ⟨NoneLost.refl _, List.forall_mem_nil _⟩
  | cons hstep hrest ih =>
    rw [List.forall_mem_cons] at h ⊢
    obtain ⟨hkept, hlaws⟩ := ih h.2
    obtain ⟨logs, rfl, hfirst⟩ := (hstep.and (rlogBuildFile_halts M hlen h.1)).exists
    exact ⟨hfirst.trans hkept, fun hexists => rollLaw_of_rollable M hlen (h.1.roll hexists), hlaws⟩

theorem rollings_keep_once : NoneLost onceBefore.logs onceAfter.logs ∧ ∀ x ∈ [(onceBefore, onceRolling)],
    x.1.Found (filenameOf x.2.texts indexTemplate x.2.level) → RollLaw .zeros x.1.fs indexTemplate x.2.rollTexts x.2.level :=
  rollings_keep (by decide) once_rollings (List.forall_mem_singleton.mpr once_canRoll)

end Funra
