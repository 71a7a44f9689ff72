import Funra.Lib.DirTree
import Funra.Rfile.Path
import Funra.Rstring.Cat
import Funra.Rstring.Pointers

/-!
# Listing a directory

`_rdir_list` gives the formatted path, with a '/' behind it, to `opendir`, and pushes the names `readdir` returns, all but
"." and "..". It calls itself for a sub-directory with the name alone, not with the path.
-/

namespace Funra

open Mem CInt Except Paths

/-- What `d_name` can be, but for "." and "..". -/
structure IsName (name : Obj) : Prop where
  ne_nil : name ≠ []
  noNul : 0 ∉ name
  noSlash : 47 ∉ name
  ne_current : name ≠ [46]
  ne_parent : name ≠ [46, 46]
  short : name.length ≤ 255

/-- A file system, the current directory, and the entries of a directory, with their type, in the order of `readdir`. -/
structure Fs where
  top : DirTree Obj
  valid : top.Valid IsName
  cwd : List Obj
  cwd_exists : (top.walk cwd).isSome
  readdir : List Obj → List (Obj × Bool)
  readdir_perm : ∀ pos d, top.walk pos = some d → (readdir pos).Perm (([46], true) :: ([46, 46], true) :: d.entries)

/-- Where a path leads to. -/
def Fs.resolve (w : Fs) (path : Obj) : Option (List Obj) :=
  w.top.follow [46] [46, 46] (if path.head? = some 47 then [] else w.cwd) (components 47 path)

def Fs.opendir (w : Fs) (path : Obj) : Option (List Obj) := if path = [] then none else w.resolve path

/-- A handle that `opendir` has returned, or NULL. -/
def closedir : Option (List Obj) → Except Fault Unit
  | some _ => .ok ()
  | none => .error .nullDeref

/-- The formatted path gets its '/' at the end, and is copied. Nothing reads the copy. -/
def slashEnd (M : Malloc) (formatPath : Obj) : Except Fault Obj := do
  let pathLen ← rstrLen formatPath 0
  let formatPath ← store formatPath pathLen [47]
  let formatPath ← store formatPath ((pathLen + 1 : Nat) : Int) [0]
  let _ ← rstrCpy M formatPath 0
  strAt formatPath 0

/-- What `opendir` is given. -/
def dirPath (M : Malloc) (fuel : Nat) (path : Obj) : Except Fault Obj := do
  let pathLen ← rstrLen path 0
  let formatPath ← store (rstrNew M (pathLen + 3)) 0 [0]
  let (formatPath, _) ← rstrCat formatPath path (UInt64.ofNat pathLen)
  let formatPath ← if (← byteAt formatPath pathLen) = 42 then store formatPath pathLen [0] else .ok formatPath
  let formatPath ← rfileFormatPath fuel formatPath
  slashEnd M formatPath

/-- `rfile_path_current` and `rfile_path_parent`. -/
def isDot (name : Obj) : Bool := decide (name = [46] ∨ name = [46, 46])

/-- The body of the loop over the entries. `listDir` lists a directory into `ret_list`. -/
def listRound (onlyFile subDir : Bool) (listDir : Obj → List Obj → Except Fault (List Obj)) (ptr : Obj × Bool)
    (retList : List Obj) : Except Fault (List Obj) :=
  if isDot ptr.1 then .ok retList
  else if ptr.2 then
    let retList := if onlyFile then retList else retList ++ [ptr.1]
    if subDir then listDir (ptr.1 ++ [0]) retList else .ok retList
  else .ok (retList ++ [ptr.1])

/-- `_rdir_list`. -/
def rdirListInto (M : Malloc) (w : Fs) (onlyFile subDir : Bool) : Nat → Obj → List Obj → Except Fault (List Obj)
  | 0, _, _ => .error .outOfFuel
  | fuel + 1, path, retList => do
    let dirPtr := w.opendir (← dirPath M fuel path)
    let retList ← match dirPtr with
      | none => .ok retList
      | some dir => forEach (listRound onlyFile subDir (rdirListInto M w onlyFile subDir fuel)) (w.readdir dir) retList
    closedir dirPtr
    return retList

def rdirList (M : Malloc) (w : Fs) (fuel : Nat) (path : Option CStr) (onlyFile subDir : Bool) : Except Fault (List Obj) :=
  match path with
  | none => rdirListInto M w onlyFile subDir fuel [46, 0] []
  | some path => rdirListInto M w onlyFile subDir fuel (if path.chars = [] then [46, 0] else path.obj) []

variable {M : Malloc} {w : Fs} {path : CStr} {ents : List (Obj × Bool)} {d : DirTree Obj} {onlyFile subDir : Bool}

/-! ### The path -/

theorem dirPath_eq (M : Malloc) (hne : path.chars ≠ []) (hlen : path.chars.length < 2147483648) :
    ∃ rest, rest.length = 3 ∧ ∀ fuel, dirPath M fuel path.obj =
      (rfileFormatPath fuel (path.chars ++ 0 :: rest)).bind (slashEnd M) := by
  have hblock : (rstrNew M (path.chars.length + 3)).length = path.chars.length + 4 := by
    rw [rstrNew, M.length_block, ← Nat.cast_add_one, sizeT_of_nonneg (by omega) (by omega)]
    rfl
  obtain ⟨x, tail, htail⟩ := List.exists_cons_of_length_eq_add_one hblock
  rw [htail, List.length_cons] at hblock
  have hpos := List.length_pos_iff.mpr hne
  have hinit : store (rstrNew M (path.chars.length + 3)) 0 [0] = .ok (0 :: tail) := by
    rw [htail]
    exact store_char [] tail x 0
  have hsize : (UInt64.ofNat path.chars.length).toNat = path.chars.length := by
    rw [UInt64.toNat_ofNat']
    omega
  have hbound : catLen (UInt64.ofNat path.chars.length) (0 : Nat) path.chars.length = path.chars.length := by
    rw [catLen, if_neg, hsize, Nat.cast_zero, sub_zero, sizeT_of_nonneg (by omega) (by omega), Int.toNat_natCast, Nat.min_self]
    exact fun hzero => by simp [hzero] at hsize; omega
  have hcat : rstrCat (0 :: tail) path.obj (UInt64.ofNat path.chars.length) = _ :=
    rstrCat_ok (d := ⟨[], by decide, by decide⟩) tail hbound (by omega)
  rw [appended, List.nil_append, List.take_length] at hcat
  have hstar : byteAt (path.chars ++ 0 :: tail.drop path.chars.length) path.chars.length = .ok 0 := byteAt_eq (by simp)
  refine ⟨tail.drop path.chars.length, by rw [List.length_drop]; omega, fun fuel => ?_⟩
  unfold dirPath
  rw [rstrLen_obj (Nat.zero_le _), Nat.sub_zero]
  simp only [bind, ok_bind]
  rw [hinit, ok_bind, hcat, ok_bind, hstar, ok_bind, if_neg (by decide)]

theorem slashEnd_eq {chars : Obj} (hnul : 0 ∉ chars) (hlen : chars.length < 2147483648) (M : Malloc) {rest : Obj}
    (hroom : rest ≠ []) :
    slashEnd M (chars ++ 0 :: rest) = .ok (chars ++ [47]) := by
  obtain ⟨c, rest, rfl⟩ := List.exists_cons_of_ne_nil hroom
  have hpath : rstrLen (chars ++ 0 :: c :: rest) 0 = .ok chars.length := by
    rw [rstrLen, strAt_of_append rfl hnul]
    rfl
  have hslash : store (chars ++ 0 :: c :: rest) chars.length [47] = .ok (chars ++ [47] ++ c :: rest) := by
    rw [store_char, List.append_cons]
  have hend : store (chars ++ [47] ++ c :: rest) ((chars.length + 1 : Nat) : Int) [0] = .ok (chars ++ [47] ++ 0 :: rest) := by
    rw [show chars.length + 1 = (chars ++ [47]).length by rw [List.length_append]; rfl, store_char]
  have hstr : strAt (chars ++ [47] ++ 0 :: rest) 0 = .ok (chars ++ [47]) := strAt_of_append rfl (by simp [hnul])
  have hcopy := rstrCpy_eq M hstr (by rw [List.length_append, List.length_singleton]; omega)
  unfold slashEnd
  rw [hpath]
  simp only [bind, ok_bind]
  rw [hslash, ok_bind, hend, ok_bind, hcopy, ok_bind, hstr]

/-- The formatted path leaves room for the '/'. -/
theorem slashEnd_normPath (hlen : path.chars.length < 2147483648) (M : Malloc) {rest : Obj} (hrest : rest.length = 3) :
    ∀ mem, (∃ rest', mem = normPath path.chars ++ 0 :: rest' ∧ mem.length = (path.chars ++ 0 :: rest).length) →
      slashEnd M mem = .ok (normPath path.chars ++ [47]) := by
  rintro mem ⟨rest', rfl, hsize⟩
  have hle : (normPath path.chars).length ≤ path.chars.length := norm_length_le 47 92 path.chars
  simp only [List.length_append, List.length_cons] at hsize
  refine slashEnd_eq (zero_not_mem_normPath path.noNul) (by omega) M fun hnil => ?_
  rw [hnil, List.length_nil] at hsize
  omega

theorem dirPath_halts (M : Malloc) (hlen : path.chars.length < 2147483648) (hne : normPath path.chars ≠ []) :
    Halts (fun fuel => dirPath M fuel path.obj) fun chars => chars = normPath path.chars ++ [47] := by
  obtain ⟨rest, hrest, heq⟩ := dirPath_eq M (fun h => hne (by rw [h]; rfl)) hlen
  simp only [heq]
  refine Halts.bind (rfileFormatPath_halts path.noNul (segsFit_of_lt hlen) hne rest) fun mem hmem => ?_
  rw [slashEnd_normPath hlen M hrest mem hmem]
  exact Halts.ok rfl

theorem dirPath_returns (M : Malloc) (hnil : path.chars ≠ []) (hlen : path.chars.length < 2147483648) (fuel : Nat) :
    (dirPath M fuel path.obj).Returns fun chars => normPath path.chars ≠ [] ∧ chars = normPath path.chars ++ [47] := by
  obtain ⟨rest, hrest, heq⟩ := dirPath_eq M hnil hlen
  rw [heq]
  by_cases hne : normPath path.chars = []
  · exact Returns.bind (rfileFormatPath_nil path.noNul (segsFit_of_lt hlen) hne rest fuel) fun _ hfalse => hfalse.elim
  · refine Returns.bind (rfileFormatPath_returns path.noNul (segsFit_of_lt hlen) hne rest fuel) fun mem hmem => ?_
    rw [slashEnd_normPath hlen M hrest mem hmem]
    exact Returns.ok ⟨hne, rfl⟩

/-- The formatted path with its '/' leads where the path leads. -/
theorem opendir_normPath (w : Fs) (hne : normPath path.chars ≠ []) :
    w.opendir (normPath path.chars ++ [47]) = w.resolve (unslash 47 92 path.chars) := by
  obtain ⟨k, hk⟩ : ∃ k, unslash 47 92 path.chars = normPath path.chars ++ List.replicate k 47 := rdropWhile_append_replicate _
  have hhead : ∀ t, (normPath path.chars ++ t).head? = (normPath path.chars).head? := fun t => by
    rw [List.head?_append]
    obtain ⟨c, l, hcons⟩ := List.exists_cons_of_ne_nil hne
    rw [hcons]
    rfl
  rw [Fs.opendir, if_neg (by simp), Fs.resolve, Fs.resolve, hk, hhead, hhead, components_append_replicate]
  exact congrArg _ (components_append_replicate _ 1)

/-! ### The entries -/

/-- What the loop pushes when it lists no sub-directory. -/
def pushed (onlyFile : Bool) (ents : List (Obj × Bool)) : List Obj :=
  (ents.filter fun e => !isDot e.1 && !(onlyFile && e.2)).map Prod.fst

theorem pushed_cons (onlyFile : Bool) (e : Obj × Bool) (ents : List (Obj × Bool)) :
    pushed onlyFile (e :: ents) = pushed onlyFile [e] ++ pushed onlyFile ents := by
  rw [pushed, pushed, pushed, ← List.map_append, ← List.filter_append, List.singleton_append]

theorem listRound_eq {listDir : Obj → List Obj → Except Fault (List Obj)} {ptr : Obj × Bool}
    (h : subDir = false ∨ (ptr.2 = true → isDot ptr.1)) (retList : List Obj) :
    listRound onlyFile subDir listDir ptr retList = .ok (retList ++ pushed onlyFile [ptr]) := by
  obtain ⟨name, isDir⟩ := ptr
  rw [listRound, pushed]
  by_cases hdot : isDot name
  · simp [hdot]
  · rw [if_neg hdot]
    split
    next hisDir =>
      have hdir : isDir = true := hisDir
      have hsub : subDir = false := h.resolve_right fun hdots => hdot (hdots hdir)
      cases onlyFile <;> simp [hsub, hdot, hdir]
    next hisFile =>
      have hfile : isDir = false := Bool.eq_false_iff.mpr hisFile
      simp [hfile, hdot]

theorem listLoop_eq {listDir : Obj → List Obj → Except Fault (List Obj)}
    (h : subDir = false ∨ ∀ e ∈ ents, e.2 = true → isDot e.1) (retList : List Obj) :
    forEach (listRound onlyFile subDir listDir) ents retList = .ok (retList ++ pushed onlyFile ents) := by
  induction ents generalizing retList with
  | nil => simp [forEach, pushed]
  | cons e ents ih =>
    simp only [forEach, bind]
    rw [listRound_eq (h.imp_right fun hall => hall e List.mem_cons_self), ok_bind,
      ih (h.imp_right fun hall e he => hall e (List.mem_cons_of_mem _ he)), List.append_assoc, ← pushed_cons]

theorem pushed_perm (hvalid : d.Valid IsName) (h : ents.Perm (([46], true) :: ([46, 46], true) :: d.entries)) (onlyFile : Bool) :
    (pushed onlyFile ents).Perm (d.children onlyFile) := by
  have hperm : (pushed onlyFile ents).Perm (pushed onlyFile (([46], true) :: ([46, 46], true) :: d.entries)) :=
    (h.filter _).map _
  have hnames : pushed onlyFile d.entries = d.children onlyFile := by
    refine congrArg _ (List.filter_congr fun e he => ?_)
    have hname := hvalid.mem e he
    simp [isDot, hname.ne_current, hname.ne_parent]
  rw [pushed_cons, pushed_cons _ ([46, 46], true), hnames] at hperm
  exact hperm

/-! ### The law -/

/-- The path leads to this directory, and not to the current one. The C library takes no longer path. -/
structure Leads (w : Fs) (path : CStr) (d : DirTree Obj) : Prop where
  short : path.chars.length < 4096
  away : w.resolve (unslash 47 92 path.chars) ≠ some w.cwd
  found : ∃ pos, w.resolve (unslash 47 92 path.chars) = some pos ∧ w.top.walk pos = some d

/-- Every file and directory is listed once, and no handle is closed that was not opened. -/
def ListLaw (M : Malloc) (w : Fs) (path : CStr) (d : DirTree Obj) (onlyFile subDir : Bool) : Prop :=
  Halts (fun fuel => rdirList M w fuel (some path) onlyFile subDir) fun names =>
    names.Perm (if subDir then d.descendants onlyFile else d.children onlyFile)

theorem rdirList_eq (M : Malloc) (w : Fs) (hne : path.chars ≠ []) (fuel : Nat) :
    rdirList M w fuel (some path) onlyFile subDir = rdirListInto M w onlyFile subDir fuel path.obj [] := by
  rw [rdirList, if_neg hne]

theorem rdirList_flat {pos : List Obj} (hlen : path.chars.length < 2147483648) (hne : normPath path.chars ≠ [])
    (hpos : w.resolve (unslash 47 92 path.chars) = some pos) (hents : subDir = false ∨ ∀ e ∈ w.readdir pos, e.2 = true → isDot e.1)
    (M : Malloc) (onlyFile : Bool) :
    Halts (fun fuel => rdirList M w fuel (some path) onlyFile subDir) (· = pushed onlyFile (w.readdir pos)) := by
  simp only [rdirList_eq M w (fun h => hne (by rw [h]; rfl))]
  refine Halts.of_succ ?_
  simp only [rdirListInto, bind]
  refine Halts.bind (dirPath_halts M hlen hne) ?_
  rintro _ rfl
  rw [opendir_normPath w hne, hpos]
  simp only [listLoop_eq hents, ok_bind, closedir]
  exact Halts.ok (List.nil_append _)

theorem listLaw_of_flat (hlead : Leads w path d) (hne : normPath path.chars ≠ [])
    (hflat : subDir = false ∨ ∀ e ∈ d.entries, e.2 = false)
    (M : Malloc) (onlyFile : Bool) : ListLaw M w path d onlyFile subDir := by
  have hshort := hlead.short
  obtain ⟨pos, hpos, hwalk⟩ := hlead.found
  have hperm := w.readdir_perm pos d hwalk
  have hents : subDir = false ∨ ∀ e ∈ w.readdir pos, e.2 = true → isDot e.1 := by
    refine hflat.imp_right fun hfiles e he hdir => ?_
    rw [hperm.mem_iff, List.mem_cons, List.mem_cons] at he
    rcases he with rfl | rfl | he
    · rfl
    · rfl
    · exact absurd ((hfiles e he).symm.trans hdir) Bool.false_ne_true
  have hnames : (if subDir then d.descendants onlyFile else d.children onlyFile) = d.children onlyFile := by
    rcases hflat with rfl | hfiles
    · rfl
    · rw [DirTree.descendants_eq_children hfiles, ite_self]
  rw [ListLaw, hnames]
  refine (rdirList_flat (by omega) hne hpos hents M onlyFile).mono ?_
  rintro _ rfl
  exact pushed_perm (w.valid.walk hwalk) hperm onlyFile

/-- No path of separators only has a normal form. -/
theorem not_listLaw_of_root (hlead : Leads w path d) (hnil : normPath path.chars = []) (M : Malloc) :
    ¬ ListLaw M w path d onlyFile subDir := by
  have hne : path.chars ≠ [] := fun h => hlead.away (by rw [h]; rfl)
  have hshort := hlead.short
  rintro ⟨names, ⟨fuel, hrun⟩, -⟩
  have hrun : rdirList M w (fuel + 1) (some path) onlyFile subDir = .ok names := hrun (fuel + 1) (Nat.le_succ fuel)
  rw [rdirList_eq M w hne, rdirListInto] at hrun
  obtain ⟨chars, hchars, -⟩ := of_bind_ok hrun
  exact (dirPath_returns M hne (by omega) fuel chars hchars).1 hnil

/-! ### Sub-directories -/

theorem listLoop_false {listDir : Obj → List Obj → Except Fault (List Obj)} {n : Obj} (hmem : (n, true) ∈ ents) (hdot : ¬ isDot n)
    (h : ∀ retList, (listDir (n ++ [0]) retList).Returns fun _ => False) (retList : List Obj) :
    (forEach (listRound onlyFile true listDir) ents retList).Returns fun _ => False := by
  obtain ⟨front, back, rfl⟩ := List.append_of_mem hmem
  rw [forEach_append]
  refine Returns.bind_of_forall fun retList' => ?_
  simp only [forEach, bind]
  refine Returns.bind (P := fun _ => False) ?_ fun _ hfalse => hfalse.elim
  rw [listRound, if_neg hdot, if_pos rfl]
  exact h _

/-- A directory is not listed when one of its sub-directories is not. -/
theorem rdirListInto_false {fuel : Nat} (hne : path.chars ≠ []) (hshort : path.chars.length < 2147483648)
    (h : ∀ pos, w.resolve (unslash 47 92 path.chars) = some pos → ∃ n, (n, true) ∈ w.readdir pos ∧ ¬ isDot n ∧
      ∀ retList, (rdirListInto M w onlyFile true fuel (n ++ [0]) retList).Returns fun _ => False) (retList : List Obj) :
    (rdirListInto M w onlyFile true (fuel + 1) path.obj retList).Returns fun _ => False := by
  simp only [rdirListInto, bind]
  refine Returns.bind (dirPath_returns M hne hshort fuel) ?_
  rintro _ ⟨hnorm, rfl⟩
  rw [opendir_normPath w hnorm]
  rcases hpos : w.resolve (unslash 47 92 path.chars) with _ | pos
  · exact Returns.error
  · obtain ⟨n, hmem, hdot, hfalse⟩ := h pos hpos
    exact Returns.bind (listLoop_false hmem hdot hfalse retList) fun _ hno => hno.elim

/-- A file system with one directory in the root, which is the current directory. -/
def Fs.single (name : Obj) (d : DirTree Obj) (hname : IsName name) (hd : d.Valid IsName) : Fs where
  top := .dir name d .empty
  valid := ⟨hname, List.not_mem_nil, hd, trivial⟩
  cwd := []
  cwd_exists := rfl
  readdir pos := ((DirTree.dir name d .empty).walk pos).elim [] fun t => ([46], true) :: ([46, 46], true) :: t.entries
  readdir_perm pos t h := by rw [h]; exact List.Perm.refl _

/-- The string of a name. -/
def IsName.str {name : Obj} (h : IsName name) : CStr := ⟨name, h.noNul, by have hshort := h.short; omega⟩

section single

variable {name n : Obj} (hname : IsName name) (hd : d.Valid IsName)

theorem single_resolve (path : Obj) :
    (Fs.single name d hname hd).resolve path = (DirTree.dir name d .empty).follow [46] [46, 46] [] (components 47 path) := by
  rw [Fs.resolve]
  exact congrArg (DirTree.follow _ _ _ · _) (ite_self _)

theorem single_resolve_name (hback : 92 ∉ name) : (Fs.single name d hname hd).resolve (unslash 47 92 name) = some [name] := by
  rw [single_resolve, unslash_of_not_mem hback, components_of_not_mem hname.noSlash hname.ne_nil]
  exact DirTree.follow_name hname.ne_current hname.ne_parent (if_pos rfl)

theorem single_walk_name : (DirTree.dir name d .empty).walk [name] = some d := by
  rw [DirTree.walk_singleton]
  exact if_pos rfl

theorem single_leads (hback : 92 ∉ name) : Leads (Fs.single name d hname hd) hname.str d := by
  have hresolve := single_resolve_name hname hd hback
  have hshort := hname.short
  refine ⟨Nat.lt_of_le_of_lt hshort (by decide), ?_, [name], hresolve, single_walk_name⟩
  rw [IsName.str, hresolve]
  exact fun heq => List.cons_ne_nil _ _ (Option.some.inj heq)

theorem IsName.not_isDot (h : IsName name) : ¬ isDot name := by
  simp [isDot, h.ne_current, h.ne_parent]

/-- The name of a sub-directory leads to the current directory, or nowhere. -/
theorem single_false (hback : 92 ∉ name) (hmem : (n, true) ∈ d.entries) (hother : name ∉ components 47 (unslash 47 92 n))
    (fuel : Nat) (retList : List Obj) :
    (rdirListInto M (Fs.single name d hname hd) onlyFile true fuel (n ++ [0]) retList).Returns fun _ => False := by
  have hn : IsName n := hd.mem _ hmem
  have hshort := hn.short
  have hshort' := hname.short
  induction fuel using Nat.strongRecOn generalizing retList with
  | ind fuel ih =>
    rcases fuel with _ | fuel
    · exact Returns.error
    refine rdirListInto_false (show hn.str.chars ≠ [] from hn.ne_nil) (Nat.lt_of_le_of_lt hshort (by decide))
      (fun pos hpos => ?_) retList
    rw [single_resolve] at hpos
    have hfind : ∀ c ∈ components 47 (unslash 47 92 n), (DirTree.dir name d .empty).find c = none := fun c hc =>
      if_neg fun heq : name = c => hother (heq ▸ hc)
    rcases DirTree.follow_root hfind with hnone | hcwd
    · exact absurd (hpos.symm.trans hnone) (Option.some_ne_none pos)
    obtain rfl : pos = [] := Option.some.inj (hpos.symm.trans hcwd)
    refine ⟨name, by simp [Fs.single, DirTree.entries], hname.not_isDot, fun retList => ?_⟩
    rcases fuel with _ | fuel
    · exact Returns.error
    refine rdirListInto_false (show hname.str.chars ≠ [] from hname.ne_nil) (Nat.lt_of_le_of_lt hshort' (by decide))
      (fun pos hpos => ?_) retList
    obtain rfl : pos = [name] := Option.some.inj (hpos.symm.trans (single_resolve_name hname hd hback))
    refine ⟨n, ?_, hn.not_isDot, fun retList => ih fuel (by omega) retList⟩
    simp only [Fs.single, single_walk_name, Option.elim_some]
    exact List.mem_cons_of_mem _ (List.mem_cons_of_mem _ hmem)

theorem not_listLaw_single (hback : 92 ∉ name) (hmem : (n, true) ∈ d.entries) (hother : name ∉ components 47 (unslash 47 92 n))
    (M : Malloc) (onlyFile : Bool) : ¬ ListLaw M (Fs.single name d hname hd) hname.str d onlyFile true := by
  have hshort := hname.short
  rintro ⟨names, ⟨fuel, hrun⟩, -⟩
  have hrun : rdirList M (Fs.single name d hname hd) (fuel + 1) (some hname.str) onlyFile true = .ok names :=
    hrun (fuel + 1) (Nat.le_succ fuel)
  rw [rdirList_eq M _ hname.ne_nil] at hrun
  refine rdirListInto_false (show hname.str.chars ≠ [] from hname.ne_nil) (Nat.lt_of_le_of_lt hshort (by decide))
    (fun pos hpos => ?_) [] names hrun
  obtain rfl : pos = [name] := Option.some.inj (hpos.symm.trans (single_resolve_name hname hd hback))
  refine ⟨n, ?_, (hd.mem _ hmem).not_isDot, fun retList => single_false hname hd hback hmem hother fuel retList⟩
  simp only [Fs.single, single_walk_name, Option.elim_some]
  exact List.mem_cons_of_mem _ (List.mem_cons_of_mem _ hmem)

end single

/-- As long as a name can be, and no part of another. -/
theorem exists_other {n : Obj} (hn : IsName n) : ∃ name, IsName name ∧ 92 ∉ name ∧ name ∉ components 47 (unslash 47 92 n) := by
  obtain ⟨c, hc, hne⟩ : ∃ c : UInt8, (c = 97 ∨ c = 98) ∧ List.replicate 255 c ≠ n := by
    by_cases h : List.replicate 255 97 = n
    · exact ⟨98, Or.inr rfl, fun h' => absurd (List.replicate_right_injective (by decide) (h.trans h'.symm)) (by decide)⟩
    · exact ⟨97, Or.inl rfl, h⟩
  have hother : ∀ d : UInt8, d ≠ 97 → d ≠ 98 → d ∉ List.replicate 255 c := fun d ha hb hmem => by
    have heq := List.eq_of_mem_replicate hmem
    rcases hc with rfl | rfl
    · exact ha heq
    · exact hb heq
  refine ⟨List.replicate 255 c, ?_, hother 92 (by decide) (by decide), fun hmem => ?_⟩
  · have hlength : ∀ l : Obj, l.length ≠ 255 → List.replicate 255 c ≠ l := fun l hl heq => hl (heq ▸ List.length_replicate)
    exact ⟨hlength _ (by decide), hother 0 (by decide) (by decide), hother 47 (by decide) (by decide), hlength _ (by decide),
      hlength _ (by decide), Nat.le_of_eq List.length_replicate⟩
  · have hinfix := infix_of_mem_components hmem
    have hle := unslash_length_le 47 92 n
    have hle' := hinfix.length_le
    rw [List.length_replicate] at hle'
    have hshort := hn.short
    have heq := hinfix.eq_of_length (by rw [List.length_replicate]; omega)
    have hback : 92 ∉ n := fun hback => hother 47 (by decide) (by decide) (heq ▸ sep_mem_unslash_iff.mpr (Or.inr hback))
    exact hne (heq.trans (unslash_of_not_mem hback))

/-- One directory, its names what an entry can have. -/
abbrev Dir := {d : DirTree Obj // d.Valid IsName}

/-- `rdir_list` lists what it should of a directory without sub-directories, and of every directory when it is not to go into
them; with a path of separators only it never does. -/
theorem listLaw_iff (M : Malloc) (d : Dir) (onlyFile subDir : Bool) :
    ((∀ w path, Leads w path d.1 → normPath path.chars ≠ [] → ListLaw M w path d.1 onlyFile subDir) ↔
      subDir = false ∨ ∀ e ∈ d.1.entries, e.2 = false) ∧
    ∀ w path, Leads w path d.1 → normPath path.chars = [] → ¬ ListLaw M w path d.1 onlyFile subDir := by
  refine ⟨⟨fun h => ?_, fun hflat w path hlead hne => listLaw_of_flat hlead hne hflat M onlyFile⟩,
    fun w path hlead hnil => not_listLaw_of_root hlead hnil M⟩
  by_contra hdirs
  simp only [not_or, not_forall, Bool.not_eq_false] at hdirs
  obtain ⟨rfl, ⟨n, isDir⟩, hmem, rfl⟩ := hdirs
  obtain ⟨name, hname, hback, hother⟩ := exists_other (d.2.mem _ hmem)
  have hnorm : normPath hname.str.chars = name := norm_of_normal hback fun hlast =>
    hname.noSlash (List.mem_of_getLast? hlast)
  refine not_listLaw_single hname d.2 hback hmem hother M onlyFile (h _ _ (single_leads hname d.2 hback) ?_)
  rw [hnorm]
  exact hname.ne_nil

theorem isName_letter {c : UInt8} (h : 97 ≤ c) : IsName [c] := by
  have hother : ∀ d : UInt8, d < 97 → d ≠ c := by
    rintro d hd rfl
    exact absurd (UInt8.lt_of_lt_of_le hd h) (UInt8.lt_irrefl d)
  constructor
  · exact List.cons_ne_nil _ _
  · simpa using hother 0 (by decide)
  · simpa using hother 47 (by decide)
  · simpa using (hother 46 (by decide)).symm
  · simp
  · exact (by decide : 1 ≤ 255)

/-- "d", with the file "f" in the sub-directory "a". -/
theorem list_sub_directory : ¬ ∀ w path d onlyFile subDir, Leads w path d → ListLaw .zeros w path d onlyFile subDir := by
  intro h
  have hvalid : (DirTree.dir [97] (.file [102] .empty) .empty).Valid IsName :=
    ⟨isName_letter (by decide), List.not_mem_nil, ⟨isName_letter (by decide), List.not_mem_nil, trivial⟩, trivial⟩
  have hname : IsName [100] := isName_letter (by decide)
  exact not_listLaw_single hname hvalid (n := [97]) (by decide) (by simp [DirTree.entries]) (by decide) .zeros true
    (h _ _ _ true true (single_leads hname hvalid (by decide)))

end Funra
