import Funra.Rfile.Path
import Funra.Rstring.Pointers

/-!
# Directory and file name

`rdir_get_path_dir` and `rdir_get_path_filename` cut a formatted copy of the path at the last '/', and
`rfile_get_filepath` joins the two again. The place of the last '/' is an `int`, and the copy has a 32-bit length.
-/

namespace Funra

open Mem CInt Except Paths

def rfileSeperator : CStr := ⟨[47], by decide, by decide⟩

def rdirGetPathDir (M : Malloc) (fuel : Nat) (h : Heap) (dir : Option CharPtr) : Except Fault (CharPtr × Heap) := do
  match dir with
  | none => return (.empty, h)
  | some dir =>
    if (← dir.str h).chars = [] then return (.empty, h)
    else
      let (formatPath, h) ← CharPtr.cpy M h (some dir) 0
      let h ← formatPath.modify h (rfileFormatPath fuel)
      let index ← rstrLastIndex fuel (← formatPath.str h) rfileSeperator
      if index < 0 then return (.empty, ← formatPath.free h)
      else return (formatPath, ← formatPath.modify h fun mem => store mem index [0])

def rdirGetPathFilename (M : Malloc) (fuel : Nat) (h : Heap) (dir : Option CharPtr) : Except Fault (CharPtr × Heap) := do
  match dir with
  | none => return (.empty, h)
  | some dir =>
    let (formatPath, h) ← CharPtr.cpy M h (some dir) 0
    let h ← formatPath.modify h (rfileFormatPath fuel)
    let index ← rstrLastIndex fuel (← formatPath.str h) rfileSeperator
    if index < 0 then return (formatPath, h)
    else
      let (retPath, h) := CharPtr.alloc h (← rstrCpy M ((← formatPath.read h).drop (index + 1).toNat) 0)
      return (retPath, ← formatPath.free h)

def rfileGetFilepath (M : Malloc) (fuel : Nat) (h : Heap) (path filename : Option CharPtr) : Except Fault (CharPtr × Heap) := do
  let (formatPath, h) ← CharPtr.cpy M h path 0
  let h ← formatPath.modify h (rfileFormatPath fuel)
  let first ← formatPath.str h
  let second ← filename.mapM fun filename => filename.str h
  let (filePath, h) := CharPtr.alloc h (← rstrConcatArray M (some [some first.obj, second.map CStr.obj, none]) (some rfileSeperator) false)
  return (filePath, ← formatPath.free h)

variable {M : Malloc} {h : Heap} {p : CharPtr} {chars u v : Obj} {s : CStr}

/-- The copy is whole, and comes to its normal form. -/
structure Formats (chars : Obj) : Prop where
  noNul : 0 ∉ chars
  short : chars.length < 4294967295
  fit : SegsFit chars
  named : normPath chars ≠ []

theorem Formats.ne_nil (hf : Formats chars) : chars ≠ [] := by
  rintro rfl
  exact hf.named rfl

theorem Formats.modify (hf : Formats chars) (h : Heap) :
    Halts (fun fuel => CharPtr.modify (h ++ [some (chars ++ [0])]) (.block h.length) (rfileFormatPath fuel)) fun h' =>
      ∃ rest, h' = h ++ [some (normPath chars ++ 0 :: rest)] ∧ (normPath chars ++ 0 :: rest).length = chars.length + 1 := by
  simp only [CharPtr.modify, Heap.modify_behind]
  refine Halts.map ((rfileFormatPath_halts hf.noNul hf.fit hf.named []).mono ?_)
  rintro mem ⟨rest, rfl, hsize⟩
  exact ⟨rest, rfl, by simpa using hsize⟩

theorem lastSlash_eq (hp : Points h p (u ++ 47 :: v)) (hv : 47 ∉ v) (hu : u.length < 2147483648) :
    ∃ s, p.str h = .ok s ∧ ∀ fuel, rstrLastIndex fuel s rfileSeperator = .ok u.length := by
  obtain ⟨s, hs, hchars⟩ := hp.str
  refine ⟨s, hs, fun fuel => ?_⟩
  rw [rstrLastIndex_char (c := 47) rfl, lastChar_some hchars hv, int32_of_range (by omega) (by omega)]

theorem rdirGetPathDir_spec (hp : Points h p chars) (hf : Formats chars) (hsplit : normPath chars = u ++ 47 :: v) (hv : 47 ∉ v)
    (hu : u.length < 2147483648) (M : Malloc) :
    Halts (fun fuel => rdirGetPathDir M fuel h (some p)) fun x =>
      ∃ rest, x = (.block h.length, h ++ [some (u ++ 0 :: rest)]) := by
  obtain ⟨s, hs, hchars⟩ := hp.str
  have hshort := hf.short
  simp only [rdirGetPathDir, bind, hs, ok_bind, hchars, if_neg hf.ne_nil, hp.cpy hf.ne_nil hf.short]
  refine Halts.bind (hf.modify h) ?_
  rintro h' ⟨rest, rfl, hsize⟩
  have hnul := zero_not_mem_normPath hf.noNul
  rw [hsplit] at hsize hnul ⊢
  simp only [List.length_append, List.length_cons] at hsize
  obtain ⟨s', hs', hindex⟩ := lastSlash_eq (points_behind (strAt_of_append (r := rest) rfl hnul)
    (by rw [List.length_append, List.length_cons]; omega) h []) hv hu
  simp only [hs', ok_bind, hindex, if_neg (Int.not_lt.mpr (Int.natCast_nonneg u.length)), CharPtr.modify, Heap.modify_behind]
  rw [List.append_assoc, List.cons_append, store_char]
  exact Halts.ok ⟨v ++ 0 :: rest, rfl⟩

theorem rdirGetPathFilename_spec (hp : Points h p chars) (hf : Formats chars) (hsplit : normPath chars = u ++ 47 :: v) (hv : 47 ∉ v)
    (hu : u.length < 2147483648) (M : Malloc) :
    Halts (fun fuel => rdirGetPathFilename M fuel h (some p)) fun x =>
      x = (.block (h.length + 1), h ++ [none, some (v ++ [0])]) := by
  have hshort := hf.short
  simp only [rdirGetPathFilename, bind, ok_bind, hp.cpy hf.ne_nil hf.short]
  refine Halts.bind (hf.modify h) ?_
  rintro h' ⟨rest, rfl, hsize⟩
  have hnul := zero_not_mem_normPath hf.noNul
  rw [hsplit] at hsize hnul ⊢
  simp only [List.length_append, List.length_cons] at hsize
  obtain ⟨s', hs', hindex⟩ := lastSlash_eq (points_behind (strAt_of_append (r := rest) rfl hnul)
    (by rw [List.length_append, List.length_cons]; omega) h []) hv hu
  have hread : (CharPtr.block h.length).read (h ++ [some (u ++ 47 :: v ++ 0 :: rest)]) = .ok (u ++ 47 :: v ++ 0 :: rest) :=
    Heap.read_behind h _ []
  have hdrop : (u ++ 47 :: v ++ 0 :: rest).drop ((u.length : Int) + 1).toNat = v ++ 0 :: rest := by
    rw [show ((u.length : Int) + 1).toNat = u.length + 1 by omega, List.append_assoc, List.drop_length_add_append]
    rfl
  have hname : rstrCpy M (v ++ 0 :: rest) 0 = .ok (v ++ [0]) :=
    rstrCpy_eq M (strAt_of_append rfl fun hmem => hnul (by simp [hmem])) (by omega)
  have hfree : CharPtr.free (h ++ [some (u ++ 47 :: v ++ 0 :: rest)] ++ [some (v ++ [0])]) (.block h.length) =
      .ok (h ++ [none, some (v ++ [0])]) := by
    rw [List.append_assoc]
    exact Heap.free_behind h _ _
  simp only [hs', ok_bind, hindex, if_neg (Int.not_lt.mpr (Int.natCast_nonneg u.length)), hread, hdrop, hname, CharPtr.alloc,
    Heap.alloc, hfree]
  refine Halts.ok ?_
  rw [List.length_append]
  rfl

theorem noSlash_eq (hp : Points h p chars) (hno : 47 ∉ chars) :
    ∃ s, p.str h = .ok s ∧ ∀ fuel, rstrLastIndex fuel s rfileSeperator = .ok (-1) := by
  obtain ⟨s, hs, hchars⟩ := hp.str
  refine ⟨s, hs, fun fuel => ?_⟩
  rw [rstrLastIndex_char (c := 47) rfl, lastChar_none (hchars ▸ hno)]

/-- A path without a '/' has no directory. -/
theorem rdirGetPathDir_flat (hp : Points h p chars) (hf : Formats chars) (hno : 47 ∉ normPath chars) (M : Malloc) :
    Halts (fun fuel => rdirGetPathDir M fuel h (some p)) fun x => x = (.empty, h ++ [none]) := by
  obtain ⟨s, hs, hchars⟩ := hp.str
  have hshort := hf.short
  simp only [rdirGetPathDir, bind, hs, ok_bind, hchars, if_neg hf.ne_nil, hp.cpy hf.ne_nil hf.short]
  refine Halts.bind (hf.modify h) ?_
  rintro h' ⟨rest, rfl, hsize⟩
  simp only [List.length_append, List.length_cons] at hsize
  obtain ⟨s', hs', hindex⟩ := noSlash_eq (points_behind (strAt_of_append (r := rest) rfl (zero_not_mem_normPath hf.noNul))
    (by omega) h []) hno
  have hfree : CharPtr.free (h ++ [some (normPath chars ++ 0 :: rest)]) (.block h.length) = .ok (h ++ [none]) :=
    Heap.free_behind h _ []
  simp only [hs', ok_bind, hindex, if_pos (show (-1 : Int) < 0 by decide), hfree]
  exact Halts.ok rfl

theorem rdirGetPathFilename_flat (hp : Points h p chars) (hf : Formats chars) (hno : 47 ∉ normPath chars) (M : Malloc) :
    Halts (fun fuel => rdirGetPathFilename M fuel h (some p)) fun x =>
      ∃ rest, x = (.block h.length, h ++ [some (normPath chars ++ 0 :: rest)]) := by
  have hshort := hf.short
  simp only [rdirGetPathFilename, bind, ok_bind, hp.cpy hf.ne_nil hf.short]
  refine Halts.bind (hf.modify h) ?_
  rintro h' ⟨rest, rfl, hsize⟩
  simp only [List.length_append, List.length_cons] at hsize
  obtain ⟨s', hs', hindex⟩ := noSlash_eq (points_behind (strAt_of_append (r := rest) rfl (zero_not_mem_normPath hf.noNul))
    (by omega) h []) hno
  simp only [hs', ok_bind, hindex, if_pos (show (-1 : Int) < 0 by decide)]
  exact Halts.ok ⟨rest, rfl⟩

theorem rfileGetFilepath_spec {pu pv : CharPtr} (hpu : Points h pu u) (hpv : Points h pv v) (hf : Formats u) (hu : normPath u = u)
    (hlen : v.length < 4294967296) (M : Malloc) :
    Halts (fun fuel => rfileGetFilepath M fuel h (some pu) (some pv)) fun x => Points x.2 x.1 (u ++ 47 :: v) := by
  have hshort := hf.short
  simp only [rfileGetFilepath, bind, ok_bind, hpu.cpy hf.ne_nil hf.short]
  refine Halts.bind (hf.modify h) ?_
  rintro h' ⟨rest, rfl, -⟩
  rw [hu]
  obtain ⟨first, hfirst, hu'⟩ := (points_behind (strAt_of_append (r := rest) rfl hf.noNul) (by omega) h []).str
  obtain ⟨second, hsecond, hv'⟩ := (hpv.of_prefix (List.prefix_append h [some (u ++ 0 :: rest)])).str
  have hmap : Option.mapM (fun filename => CharPtr.str (h ++ [some (u ++ 0 :: rest)]) filename) (some pv) = .ok (some second) := by
    simp only [Option.mapM_some, hsecond]
    rfl
  have hconcat : ConcatLaw M [first, second] rfileSeperator false :=
    (concatLaw_iff M _ _ _).mpr ⟨.inl (by simp), by simp [hu', hv', rfileSeperator]; omega⟩
  obtain ⟨dest, hdest, htext⟩ := hconcat
  have hfree : CharPtr.free (h ++ [some (u ++ 0 :: rest)] ++ [some dest]) (.block h.length) = .ok (h ++ [none, some dest]) := by
    rw [List.append_assoc]
    exact Heap.free_behind h _ _
  simp only [hfirst, ok_bind, hmap, Option.map_some]
  rw [show [some first.obj, some second.obj, none] = rstrArray ([first, second].map CStr.chars) from rfl, hdest]
  simp only [ok_bind, CharPtr.alloc, Heap.alloc, hfree]
  have htext' : strAt dest 0 = .ok (u ++ 47 :: v) := by simpa [concatText, hu', hv', rfileSeperator, List.intercalate] using htext
  have hpoints := points_behind htext' (by rw [List.length_append, List.length_cons]; omega) (h ++ [none]) []
  rw [List.append_assoc, List.length_append] at hpoints
  refine Halts.ok ?_
  rw [List.length_append]
  exact hpoints

/-- The path is cut and joined again: the heap after each cut, the name, and the whole. -/
def rejoin (M : Malloc) (fuel : Nat) (h : Heap) (p : CharPtr) : Except Fault (Heap × Heap × CStr × CStr) := do
  let (dir, h₁) ← rdirGetPathDir M fuel h (some p)
  let (name, h₂) ← rdirGetPathFilename M fuel h₁ (some p)
  let (path, h₃) ← rfileGetFilepath M fuel h₂ (some dir) (some name)
  return (h₁, h₂, ← name.str h₂, ← path.str h₃)

/-- The whole is the normal form, the name has no '/', and no block that was there has changed. -/
def RejoinLaw (M : Malloc) (s : CStr) : Prop :=
  ∀ (h : Heap) (p : CharPtr), Points h p s.chars → Halts (fun fuel => rejoin M fuel h p) fun (h₁, h₂, name, path) =>
    h <+: h₁ ∧ h₁ <+: h₂ ∧ 47 ∉ name.chars ∧ path.chars = normPath s.chars

/-- A directory in front of the last '/' is its own normal form. -/
theorem Formats.dir (hf : Formats chars) (hdouble : ¬ [47, 47] <:+: normPath chars) (hsplit : normPath chars = u ++ 47 :: v)
    (hu : u ≠ []) : Formats u ∧ normPath u = u := by
  have hback : 92 ∉ u := fun hmem => back_not_mem_normPath chars (by simp [hsplit, hmem])
  have hlast : u.getLast? ≠ some 47 := by
    intro hlast
    obtain ⟨w, rfl⟩ := List.getLast?_eq_some_iff.mp hlast
    exact hdouble ⟨w, v, by rw [hsplit]; simp⟩
  have hnorm : normPath u = u := norm_of_normal hback hlast
  have hlen := norm_length_le 47 92 chars
  rw [show norm 47 92 chars = u ++ 47 :: v from hsplit, List.length_append] at hlen
  have hshort := hf.short
  have hnul : 0 ∉ u := fun hmem => zero_not_mem_normPath hf.noNul (by simp [hsplit, hmem])
  exact ⟨⟨hnul, by omega, segsFit_of_not_mem hback, hnorm.symm ▸ hu⟩, hnorm⟩

theorem rejoin_halts (hp : Points h p chars) (hf : Formats chars) (hdouble : ¬ [47, 47] <:+: normPath chars)
    (hsplit : normPath chars = u ++ 47 :: v) (hv : 47 ∉ v) (hne : u ≠ []) (hu : u.length < 2147483648) (M : Malloc) :
    Halts (fun fuel => rejoin M fuel h p) fun (h₁, h₂, name, path) =>
      h <+: h₁ ∧ h₁ <+: h₂ ∧ 47 ∉ name.chars ∧ path.chars = normPath chars := by
  obtain ⟨hfu, hnorm⟩ := hf.dir hdouble hsplit hne
  have hlen := norm_length_le 47 92 chars
  rw [show norm 47 92 chars = u ++ 47 :: v from hsplit, List.length_append, List.length_cons] at hlen
  have hshort := hf.short
  have hnul := zero_not_mem_normPath hf.noNul
  rw [hsplit] at hnul
  refine Halts.bind (rdirGetPathDir_spec hp hf hsplit hv hu M) ?_
  rintro _ ⟨rest, rfl⟩
  have hdir := points_behind (strAt_of_append (r := rest) rfl hfu.noNul) (by omega) h []
  have hpre := List.prefix_append h [some (u ++ 0 :: rest)]
  refine Halts.bind (rdirGetPathFilename_spec (hp.of_prefix hpre) hf hsplit hv hu M) ?_
  rintro _ rfl
  have hvnul : 0 ∉ v := fun hmem => hnul (by simp [hmem])
  have hpre' := List.prefix_append (h ++ [some (u ++ 0 :: rest)]) [none, some (v ++ [0])]
  have hname : Points (h ++ [some (u ++ 0 :: rest)] ++ [none, some (v ++ [0])])
      (.block ((h ++ [some (u ++ 0 :: rest)]).length + 1)) v := by
    have hpoints := points_behind (show strAt (v ++ [0]) 0 = .ok v from strAt_of_append rfl hvnul) (by omega)
      (h ++ [some (u ++ 0 :: rest)] ++ [none]) []
    rwa [List.length_append, List.append_assoc _ [none]] at hpoints
  obtain ⟨name, hread, hchars⟩ := hname.str
  refine Halts.bind (rfileGetFilepath_spec (hdir.of_prefix hpre') hname hfu hnorm (by omega) M) ?_
  rintro ⟨path, h₃⟩ hpath
  obtain ⟨whole, hread', hchars'⟩ := hpath.str
  simp only [bind, hread, ok_bind, hread']
  exact Halts.ok ⟨hpre, hpre', hchars ▸ hv, hchars'.trans hsplit.symm⟩

/-- The cut and the join of a path give its normal form back, if its length, the distances of its backslashes and the
place of its last '/' fit the integers they are kept in. -/
theorem rejoinLaw_of_fits (M : Malloc) (s : CStr) (hdouble : ¬ [47, 47] <:+: normPath s.chars)
    (hdir : ∃ u v, u ≠ [] ∧ normPath s.chars = u ++ 47 :: v) (hlen : s.chars.length < 4294967295) (hfit : SegsFit s.chars)
    (hlast : (dirOf 47 (normPath s.chars)).length < 2147483648) : RejoinLaw M s := by
  obtain ⟨u, v, hu, hsplit⟩ := hdir
  have hcut : normPath s.chars = dirOf 47 (normPath s.chars) ++ 47 :: nameOf 47 (normPath s.chars) :=
    (dirOf_append_nameOf (by simp [hsplit])).symm
  have hname := sep_not_mem_nameOf 47 (normPath s.chars)
  have hne : dirOf 47 (normPath s.chars) ≠ [] := by
    intro hnil
    rw [hnil, List.nil_append, hsplit] at hcut
    cases u with
    | nil => exact hu rfl
    | cons c u =>
      rw [hsplit, ← (List.cons.inj hcut).2] at hname
      exact hname (by simp)
  have hf : Formats s.chars := ⟨s.noNul, hlen, hfit, by simp [hsplit]⟩
  exact fun h p hp => rejoin_halts hp hf hdouble hcut hname hne hlast M

/-- "d/a" -/
theorem rejoinLaw_of_fits_da : RejoinLaw Malloc.zeros ⟨[100, 47, 97], by decide, by decide⟩ := by
  have hnorm : normPath [100, 47, 97] = [100, 47, 97] := norm_of_normal (by decide) (by decide)
  refine rejoinLaw_of_fits Malloc.zeros ⟨[100, 47, 97], by decide, by decide⟩ ?_ ⟨[100], [97], by decide, hnorm⟩ (by decide)
    (segsFit_of_not_mem (by decide)) ?_
  · rw [hnorm]
    decide
  · rw [hnorm]
    decide

/-! ### A directory that is too long -/

theorem rdirGetPathDir_long (hp : Points h p chars) (hf : Formats chars) (hsplit : normPath chars = u ++ 47 :: v) (hv : 47 ∉ v)
    (hu : 2147483648 ≤ u.length) (M : Malloc) : Halts (fun fuel => rdirGetPathDir M fuel h (some p)) fun x => x.1 = .empty := by
  obtain ⟨s, hs, hchars⟩ := hp.str
  have hshort := hf.short
  simp only [rdirGetPathDir, bind, hs, ok_bind, hchars, if_neg hf.ne_nil, hp.cpy hf.ne_nil hf.short]
  refine Halts.bind (hf.modify h) ?_
  rintro h' ⟨rest, rfl, hsize⟩
  have hnul := zero_not_mem_normPath hf.noNul
  rw [hsplit] at hsize hnul ⊢
  simp only [List.length_append, List.length_cons] at hsize
  obtain ⟨s', hs', hchars'⟩ := (points_behind (strAt_of_append (r := rest) rfl hnul)
    (by rw [List.length_append, List.length_cons]; omega) h []).str
  obtain ⟨index, hindex, hneg⟩ : ∃ index, (∀ fuel, rstrLastIndex fuel s' rfileSeperator = .ok index) ∧ index < 0 := by
    refine ⟨int32 u.length, fun fuel => ?_, by unfold int32; omega⟩
    rw [rstrLastIndex_char (c := 47) rfl, lastChar_some hchars' hv]
  have hfree : CharPtr.free (h ++ [some (u ++ 47 :: v ++ 0 :: rest)]) (.block h.length) = .ok (h ++ [none]) :=
    Heap.free_behind h _ []
  simp only [hs', ok_bind, hindex, if_pos hneg, hfree]
  exact Halts.ok rfl

/-- The empty string is not formatted. -/
theorem rfileGetFilepath_empty (M : Malloc) (fuel : Nat) (h : Heap) (filename : Option CharPtr) :
    (rfileGetFilepath M fuel h (some .empty) filename).Returns fun _ => False := by
  have hformat : (rfileFormatPath fuel rstrEmpty).Returns fun _ => False :=
    rfileFormatPath_nil List.not_mem_nil (segsFit_of_not_mem List.not_mem_nil) rfl [] fuel
  refine Returns.bind (hformat.bind fun mem => False.elim) fun x => False.elim

theorem not_rejoin_halts (hp : Points h p chars) (hf : Formats chars) (hsplit : normPath chars = u ++ 47 :: v) (hv : 47 ∉ v)
    (hu : 2147483648 ≤ u.length) (M : Malloc) (Q : Heap × Heap × CStr × CStr → Prop) :
    ¬ Halts (fun fuel => rejoin M fuel h p) Q := by
  rintro ⟨r, ⟨n, hrun⟩, -⟩
  obtain ⟨⟨dir, h₁⟩, ⟨m, hdir⟩, hempty⟩ := rdirGetPathDir_long hp hf hsplit hv hu M
  have hrun := hrun (max n m) (Nat.le_max_left n m)
  simp only [rejoin, hdir _ (Nat.le_max_right n m), bind, ok_bind] at hrun
  obtain ⟨⟨name, h₂⟩, -, hrest⟩ := of_bind_ok hrun
  obtain ⟨whole, hget, -⟩ := of_bind_ok hrest
  rw [show dir = .empty from hempty] at hget
  exact rfileGetFilepath_empty M _ _ _ _ hget

/-- `n` characters in front of "/b". -/
def deepPath (n : Nat) (hn : n < 4294967290) : CStr where
  chars := List.replicate n 97 ++ 47 :: [98]
  noNul := by simp
  fits := by
    rw [List.length_append, List.length_replicate]
    simp only [List.length_cons, List.length_nil]
    omega

theorem normPath_deepPath (n : Nat) (hn : n < 4294967290) : normPath (deepPath n hn).chars = List.replicate n 97 ++ 47 :: [98] := by
  refine norm_of_normal ?_ ?_
  · simp [deepPath]
  · simp [deepPath]

theorem deepPath_single (n : Nat) (hn : n < 4294967290) : ¬ [47, 47] <:+: normPath (deepPath n hn).chars := by
  rw [normPath_deepPath]
  rintro ⟨a, b, hab⟩
  have hcount := congrArg (List.count 47) hab
  simp [List.count_replicate] at hcount
  omega

theorem not_rejoinLaw_deepPath (M : Malloc) (n : Nat) (hn : n < 4294967290) (hlong : 2147483648 ≤ n) :
    ¬ RejoinLaw M (deepPath n hn) := by
  intro hlaw
  have hnorm := normPath_deepPath n hn
  have hback : 92 ∉ (deepPath n hn).chars := by simp [deepPath]
  have hlen : (deepPath n hn).chars.length = n + 2 := by simp [deepPath]
  have hstr : strAt (deepPath n hn).obj 0 = .ok (deepPath n hn).chars := strAt_obj (Nat.zero_le _)
  have hp : Points [some (deepPath n hn).obj] (.block 0) (deepPath n hn).chars := points_behind hstr (by omega) [] []
  have hf : Formats (deepPath n hn).chars := ⟨(deepPath n hn).noNul, by omega, segsFit_of_not_mem hback, by simp [hnorm]⟩
  exact not_rejoin_halts hp hf hnorm (by decide) (by rwa [List.length_replicate]) M _ (hlaw _ _ hp)

/-- 2^31 characters in front of "/b". -/
theorem rejoin_deep_path : ¬ ∀ (M : Malloc) (s : CStr), ¬ [47, 47] <:+: normPath s.chars →
    (∃ u v, u ≠ [] ∧ normPath s.chars = u ++ 47 :: v) → RejoinLaw M s := by
  intro hall
  have hn : 2147483648 < 4294967290 := by decide
  refine not_rejoinLaw_deepPath Malloc.zeros 2147483648 hn (Nat.le_refl _) ?_
  refine hall Malloc.zeros (deepPath 2147483648 hn) (deepPath_single 2147483648 hn)
    ⟨List.replicate 2147483648 97, [98], ?_, normPath_deepPath 2147483648 hn⟩
  exact fun hnil => absurd ((List.replicate_eq_nil_iff 97).mp hnil) (by decide)

end Funra
