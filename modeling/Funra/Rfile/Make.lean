import Funra.Rfile.Names
import Funra.Rstring.Cat

/-!
# Making a directory with its parents

`rdir_make` replaces the backslashes in copies of the path, splits what it gets at '/', frees the copies, and asks
`_rdir_make_self` for one directory after the other. The components are put together again from the first one that is
not empty: a '/' in front is lost.
-/

namespace Funra

open Mem CInt Except Words Paths

variable {σ : Type}

/-- `access`, `mkdir` and the last error. -/
structure DirOs (σ : Type) where
  access : Obj → σ → Int
  mkdir : Obj → σ → Int × σ
  osErr : σ → Int

def rdirMakeSelf (O : DirOs σ) (path : Obj) (os : σ) : Int × σ :=
  if O.access path os = 0 then (0, os)
  else if (O.mkdir path os).1 = 0 then (0, (O.mkdir path os).2)
  else (O.osErr (O.mkdir path os).2, (O.mkdir path os).2)

/-- The last return value, and the paths `_rdir_make_self` has been asked for. -/
structure DirRun (σ : Type) where
  rv : Int
  os : σ
  asked : List Obj

def DirRun.start (os : σ) : DirRun σ := ⟨0, os, []⟩

def DirRun.ask (O : DirOs σ) (path : Obj) (r : DirRun σ) : DirRun σ :=
  ⟨(rdirMakeSelf O path r.os).1, (rdirMakeSelf O path r.os).2, r.asked ++ [path]⟩

/-- "\\\\" -/
def twoBackslashes : CStr := ⟨[92, 92], by decide, by decide⟩

/-- A copy of the path without `oldStr`, if it is there. -/
def slashed (M : Malloc) (fuel : Nat) (h : Heap) (path : CharPtr) (oldStr : CStr) : Except Fault (Option CharPtr × Heap) := do
  let src ← path.str h
  if -1 < (← rstrIndex src.obj 0 oldStr) then
    let (temp, h) := CharPtr.alloc h (← rstrRepl M fuel (some src) (some oldStr) (some rfileSeperator))
    return (some temp, h)
  else return (none, h)

/-- `rstr_free` of a pointer that may be NULL. -/
def freeTemp (h : Heap) : Option CharPtr → Except Fault Heap
  | none => .ok h
  | some p => p.free h

/-- The loop over the components. -/
def makeDirs (O : DirOs σ) (pathLen : UInt64) : List (Option Obj) → Obj → DirRun σ → Except Fault (DirRun σ)
  | [], _, _ => .error .outOfBounds
  | none :: _, _, r => .ok r
  | some dirCur :: rest, formatPath, r => do
    if (← strAt dirCur 0) = [] then makeDirs O pathLen rest formatPath r
    else
      let (formatPath, _) ← rstrCat formatPath dirCur pathLen
      let (formatPath, _) ← rstrCat formatPath rfileSeperator.obj pathLen
      let r := r.ask O (← strAt formatPath 0)
      if r.rv ≠ 0 then return r else makeDirs O pathLen rest formatPath r

def rdirMake (M : Malloc) (O : DirOs σ) (fuel : Nat) (h : Heap) (path : Option CharPtr) (recursive : Bool) (os : σ) :
    Except Fault (DirRun σ) := do
  match path with
  | none => return .start os
  | some path =>
    let src ← path.str h
    if src.chars = [] then return .start os
    else if ¬ recursive then return (DirRun.start os).ask O src.chars
    else
      let (tempPath, h) ← slashed M fuel h path twoBackslashes
      let (tempPath2, h) ← slashed M fuel h (tempPath.getD path) backslash
      let destPath := (tempPath2 <|> tempPath).getD path
      let dest ← destPath.str h
      let dirs ← rstrSplit M fuel dest rfileSeperator
      let pathLen := int32 (← rstrLen dest.obj 0)
      let h ← freeTemp h tempPath
      let h ← freeTemp h tempPath2
      match dirs with
      | some dirs => makeDirs O (UInt64.ofNat (sizeT pathLen)) dirs (← store (rstrNewUint M pathLen) 0 [0]) (.start os)
      | none => return (DirRun.start os).ask O (← destPath.str h).chars

/-! ### The loop -/

variable {O : DirOs σ} {M : Malloc} {h : Heap} {p : CharPtr} {chars F c : Obj} {cs ts : List Obj} {r : DirRun σ} {s : CStr} {L : Nat}

/-- One after the other, until one fails. -/
def askUntil (O : DirOs σ) : List Obj → DirRun σ → DirRun σ
  | [], r => r
  | path :: rest, r => if (r.ask O path).rv ≠ 0 then r.ask O path else askUntil O rest (r.ask O path)

/-- What the loop asks for behind `F`: a separator is appended while there is room. -/
def dirPaths (L : Nat) : Obj → List Obj → List Obj
  | _, [] => []
  | F, c :: cs => (F ++ c ++ [47].take (L - (F ++ c).length)) :: dirPaths L (F ++ c ++ [47].take (L - (F ++ c).length)) cs

/-- The components behind `F` fit, but for the last separator. -/
def Fits (L : Nat) (F : Obj) (cs : List Obj) : Prop := F.length + (delimited [47] cs).length ≤ L + 1

theorem Fits.cons (hfit : Fits L F (c :: cs)) : (F ++ c).length ≤ L := by
  rw [Fits, delimited_cons] at hfit
  simp only [List.length_append, List.length_singleton] at hfit ⊢
  omega

theorem Fits.next (hfit : Fits L F (c :: cs)) : Fits L (F ++ c ++ [47].take (L - (F ++ c).length)) cs := by
  rw [Fits, delimited_cons] at *
  simp only [List.length_append, List.length_singleton, List.length_take] at hfit ⊢
  omega

/-- A bounded append to a string within the bound. -/
theorem rstrCat_within {rest : Obj} {n : UInt64} (hF : 0 ∉ F) (hc : 0 ∉ c) (hcl : c.length + 1 < 9223372036854775808)
    (hn : n.toNat = L) (hpos : 0 < L) (hL : L < 2147483648) (hlen : F.length ≤ L) (hroom : L + 1 ≤ (F ++ 0 :: rest).length) :
    ∃ rest' k, rstrCat (F ++ 0 :: rest) (c ++ [0]) n = .ok (F ++ c.take (L - F.length) ++ 0 :: rest', k) ∧
      (F ++ c.take (L - F.length) ++ 0 :: rest').length = (F ++ 0 :: rest).length := by
  obtain ⟨d, hd⟩ : ∃ d : CStr, d.chars = F := ⟨⟨F, hF, by omega⟩, rfl⟩
  obtain ⟨src, hsrc⟩ : ∃ src : CStr, src.chars = c := ⟨⟨c, hc, hcl⟩, rfl⟩
  have hlt : 0 < n := by
    rw [UInt64.lt_iff_toNat_lt, hn]
    exact hpos
  have hcat : catLen n d.chars.length src.chars.length = _ := catLen_fits hlt (by rw [hd, hn]; exact hlen)
  rw [hd, hsrc, hn] at hcat
  rw [List.length_append, List.length_cons] at hroom
  have htake : c.take (min c.length (L - F.length)) = c.take (L - F.length) := by
    rw [Nat.min_comm, ← List.take_take, List.take_length]
  have hrun : rstrCat (d.chars ++ 0 :: rest) src.obj n = _ :=
    rstrCat_ok (c := min c.length (L - F.length)) rest (by rw [hd, hsrc]; exact hcat) (by omega)
  rw [appended, hd, hsrc, htake, CStr.obj, hsrc] at hrun
  refine ⟨_, _, hrun, ?_⟩
  simp only [List.length_append, List.length_take, List.length_cons, List.length_drop]
  omega

theorem makeDirs_eq {rest : Obj} {n : UInt64} (hts : ∀ t ∈ ts, 0 ∉ t) (hF : 0 ∉ F) (hn : n.toNat = L) (hL : L < 2147483648)
    (hfit : Fits L F (ts.filter (· ≠ []))) (hroom : L + 1 ≤ (F ++ 0 :: rest).length) (r : DirRun σ) :
    makeDirs O n (rstrArray ts) (F ++ 0 :: rest) r = .ok (askUntil O (dirPaths L F (ts.filter (· ≠ []))) r) := by
  induction ts generalizing F rest r with
  | nil => rfl
  | cons t ts ih =>
    have ht := hts t List.mem_cons_self
    have hstr : strAt (t ++ [0]) 0 = .ok t := strAt_of_append (r := []) rfl ht
    have hrest : ∀ t ∈ ts, 0 ∉ t := fun u hu => hts u (List.mem_cons_of_mem t hu)
    rw [show rstrArray (t :: ts) = some (t ++ [0]) :: rstrArray ts from rfl, makeDirs, hstr]
    simp only [bind, ok_bind]
    by_cases hnil : t = []
    · rw [if_pos hnil]
      rw [List.filter_cons_of_neg (by simpa using hnil)] at hfit ⊢
      exact ih hrest hF hfit hroom r
    · rw [if_neg hnil]
      rw [List.filter_cons_of_pos (by simpa using hnil)] at hfit ⊢
      have hle := hfit.cons
      have hpos := List.length_pos_iff.mpr hnil
      rw [List.length_append] at hle
      obtain ⟨rest₁, k₁, hcat₁, hroom₁⟩ := rstrCat_within hF ht (by omega) hn (by omega) hL (by omega) hroom
      rw [List.take_of_length_le (by omega)] at hcat₁ hroom₁
      have hFt : 0 ∉ F ++ t := by simp [hF, ht]
      obtain ⟨rest₂, k₂, hcat₂, hroom₂⟩ := rstrCat_within (c := [47]) hFt (by decide) (by decide) hn (by omega) hL
        (by rw [List.length_append]; omega) (hroom₁ ▸ hroom)
      have hnext : 0 ∉ F ++ t ++ [47].take (L - (F ++ t).length) := by
        rw [List.mem_append, not_or]
        exact ⟨hFt, fun hmem => absurd (List.mem_of_mem_take hmem) (by decide)⟩
      rw [hcat₁, ok_bind]
      dsimp only
      rw [show rfileSeperator.obj = [47] ++ [0] from rfl, hcat₂, ok_bind]
      dsimp only
      rw [strAt_of_append rfl hnext, ok_bind, dirPaths, askUntil]
      split
      · rfl
      · exact ih hrest hnext hfit.next (hroom₂ ▸ hroom₁ ▸ hroom) _

theorem rdropWhile_take (hc : 47 ∉ c) (hne : c ≠ []) (F : Obj) (k : Nat) :
    (F ++ c ++ [47].take k).rdropWhile (· = 47) = F ++ c := by
  rw [show [(47 : UInt8)] = List.replicate 1 47 from rfl, List.take_replicate, rdropWhile_replicate, rdropWhile_eq_self_iff]
  intro hlast
  rw [List.getLast?_append_of_ne_nil _ hne] at hlast
  exact hc (List.mem_of_getLast? hlast)

/-- Up to the separators at their ends, the paths the loop asks for are the components put together one by one. -/
theorem dirPaths_strip (hcs : ∀ c ∈ cs, 47 ∉ c ∧ c ≠ []) (hfit : Fits L F cs) :
    (dirPaths L F cs).map (List.rdropWhile (· = 47)) = cs.inits.tail.map fun t => F ++ [47].intercalate t := by
  induction cs generalizing F with
  | nil => rfl
  | cons c cs ih =>
    obtain ⟨hc, hne⟩ := hcs c List.mem_cons_self
    have hrest := ih (fun d hd => hcs d (List.mem_cons_of_mem c hd)) hfit.next
    rw [dirPaths, List.map_cons, rdropWhile_take hc hne, hrest]
    rcases cs with _ | ⟨d, cs⟩
    · simp [List.intercalate_singleton]
    · have hlt : 1 ≤ L - (F ++ c).length := by
        have hd := List.length_pos_iff.mpr (hcs d (by simp)).2
        rw [Fits, delimited_cons, delimited_cons] at hfit
        simp only [List.length_append, List.length_singleton] at hfit ⊢
        omega
      rw [List.take_of_length_le (l := [47]) hlt]
      simp [List.intercalate_cons_of_ne_nil, List.intercalate_singleton, Function.comp_def]

/-! ### The copies -/

theorem rstrSplit_slash (M : Malloc) (hlen : s.chars.length < 2147483648) (hcount : s.chars.count 47 ≤ 1342177280) :
    Halts (fun fuel => rstrSplit M fuel s rfileSeperator) fun dirs =>
      dirs = if 47 ∈ s.chars then some (rstrArray (s.chars.splitOn 47)) else none := by
  have hne : rfileSeperator.chars ≠ [] := by decide
  have hsearch : Halts (fun fuel => kmpSearch fuel s rfileSeperator 0) fun ret =>
      IntArray 10 27 ret (toInts (found s rfileSeperator)) :=
    kmpSearch_halts (by decide) (by decide)
  have hfound : found s rfileSeperator = occurrences [47] s.chars := by
    rw [found_of_pos (by decide), counted_of_lt (by decide), counted_of_lt (by omega)]
    rfl
  by_cases hmem : 47 ∈ s.chars
  · have hleft : occurrences [47] s.chars = leftmost [47] s.chars :=
      leftmost_eq_occurrences.mpr ((occurrences_sorted [47] s.chars).imp fun h => h)
    have hsome : found s rfileSeperator ≠ [] := by
      rw [hfound]
      obtain ⟨a, b, hsplit, -⟩ := List.eq_append_cons_of_mem hmem
      exact (contains_iff (List.cons_ne_nil _ _)).mp ⟨a, b, by simp [hsplit]⟩
    have hfew : (found s rfileSeperator).length ≤ 1342177280 := by
      rwa [hfound, occurrences_singleton_length]
    rw [if_pos hmem, ← pieces_singleton, pieces, ← hleft]
    rw [← hfound]
    refine rstrSplit_some hsearch hsome hfew ?_ ?_
    · rw [hfound, hleft]
      exact greedy_spaced _ _ _
    · rw [hfound]
      exact fun q hq => occurrence_le hne hq
  · rw [if_neg hmem]
    exact rstrSplit_none hsearch (hfound.trans (occurrences_singleton_nil hmem))

theorem rstrIndex_nonneg (hold : c ≠ []) {oldStr : CStr} (hc : oldStr.chars = c) (hlen : s.chars.length < 2147483648) :
    (rstrIndex s.obj 0 oldStr).Succeeds fun index => -1 < index ↔ c <:+: s.chars := by
  subst hc
  rw [contains_iff hold]
  cases hfind : (occurrences oldStr.chars s.chars).find? (0 ≤ ·) with
  | none =>
    have hnil : occurrences oldStr.chars s.chars = [] := by
      simpa [List.eq_nil_iff_forall_not_mem] using hfind
    exact ⟨-1, rstrIndex_none hold (Nat.zero_le _) hfind, by simp [hnil]⟩
  | some k =>
    have hmem := List.mem_of_find?_eq_some hfind
    have hle := occurrence_le hold hmem
    rw [← Nat.zero_add k] at hfind
    have hk : int32 k = k := int32_of_range (by omega) (by omega)
    refine ⟨int32 k, rstrIndex_some hold (Nat.zero_le _) hfind, ?_⟩
    rw [hk]
    exact iff_of_true (by omega) (List.ne_nil_of_mem hmem)

/-- A new block holds the string without `oldStr`, or it is not there. -/
theorem slashed_spec (hp : Points h p chars) {oldStr : CStr} (hold : oldStr.chars ≠ []) (hlen : chars.length < 2147483648)
    (hcopy : oldStr.chars <:+: chars → chars.length < 1073741824) (M : Malloc) :
    Halts (fun fuel => slashed M fuel h p oldStr) fun x => Points x.2 (x.1.getD p) (replaceAll oldStr.chars [47] chars) ∧
      (x = (none, h) ∨ oldStr.chars <:+: chars ∧ ∃ mem, x = (some (.block h.length), h ++ [some mem])) := by
  obtain ⟨src, hsrc, rfl⟩ := hp.str
  obtain ⟨index, hindex, hiff⟩ := rstrIndex_nonneg hold rfl hlen
  have hshort := replaceAll_length_le hold (v := [47]) (List.length_pos_iff.mpr hold) src.chars
  simp only [slashed, bind, hsrc, ok_bind, hindex]
  by_cases hin : oldStr.chars <:+: src.chars
  · have hlt := hcopy hin
    simp only [if_pos (hiff.mpr hin)]
    refine Halts.bind (replLaw_of_lt M src oldStr (some rfileSeperator) hold ?_) fun dest hdest =>
      Halts.ok ⟨?_, .inr ⟨hin, dest, rfl⟩⟩
    · exact Nat.lt_of_le_of_lt hshort hlt
    · exact points_behind hdest (by change (replaceAll oldStr.chars [47] src.chars).length + 1 < _; omega) h []
  · simp only [if_neg fun hpos => hin (hiff.mp hpos)]
    rw [replaceAll_eq_self hold hin] at *
    exact Halts.ok ⟨hp, .inl rfl⟩

/-- Both copies are freed. -/
theorem freeTemps_ok {x y : Option CharPtr × Heap} (hx : x = (none, h) ∨ ∃ mem, x = (some (.block h.length), h ++ [some mem]))
    (hy : y = (none, x.2) ∨ ∃ mem, y = (some (.block x.2.length), x.2 ++ [some mem])) :
    ∃ h₁ h₂, freeTemp y.2 x.1 = .ok h₁ ∧ freeTemp h₁ y.1 = .ok h₂ := by
  rcases hx with rfl | ⟨mem, rfl⟩
  · rcases hy with rfl | ⟨mem', rfl⟩
    · exact ⟨h, h, rfl, rfl⟩
    · exact ⟨_, _, rfl, Heap.free_behind h mem' []⟩
  · rcases hy with rfl | ⟨mem', rfl⟩
    · exact ⟨_, _, Heap.free_behind h mem [], rfl⟩
    · refine ⟨h ++ none :: [some mem'], h ++ [none] ++ none :: [], ?_, ?_⟩
      · have hfree := Heap.free_behind h mem [some mem']
        rwa [List.append_cons] at hfree
      · have hfree := Heap.free_behind (h ++ [none]) mem' []
        rw [List.append_assoc, List.length_append] at hfree
        rw [List.length_append]
        exact hfree

/-- The paths that are asked for, until one fails. -/
def makePaths (path : Obj) : List Obj := if 47 ∈ path then dirPaths path.length [] (components 47 path) else [path]

theorem delimited_filter_length (f : Obj → Bool) (ts : List Obj) :
    (delimited [47] (ts.filter f)).length ≤ (delimited [47] ts).length := by
  induction ts with
  | nil => exact Nat.le_refl _
  | cons t ts ih =>
    by_cases ht : f t
    · rw [List.filter_cons_of_pos ht, delimited_cons, delimited_cons]
      simp only [List.length_append]
      omega
    · rw [List.filter_cons_of_neg ht, delimited_cons]
      simp only [List.length_append]
      omega

theorem fits_components (path : Obj) : Fits path.length [] (components 47 path) := by
  have hsplit : [47].intercalate (path.splitOn 47) = path := by
    rw [← pieces_singleton]
    exact intercalate_pieces (List.cons_ne_nil _ _) path
  have hall := congrArg List.length (delimited_eq [47] (List.splitOn_ne_nil 47 path))
  rw [hsplit, List.length_append, List.length_singleton] at hall
  have hle : (delimited [47] (components 47 path)).length ≤ _ := delimited_filter_length _ (path.splitOn 47)
  rw [Fits, List.length_nil]
  omega

theorem makeDirs_path (M : Malloc) {path : Obj} (hnul : 0 ∉ path) (hlen : path.length < 2147483648) (r : DirRun σ) :
    ((store (rstrNewUint M path.length) 0 [0]).bind fun formatPath =>
      makeDirs O (UInt64.ofNat (sizeT path.length)) (rstrArray (path.splitOn 47)) formatPath r) =
      .ok (askUntil O (dirPaths path.length [] (components 47 path)) r) := by
  have hblock : (rstrNewUint M path.length).length = path.length + 1 := by
    rw [rstrNewUint, M.length_block, uint32_of_range (by omega) (by omega)]
    omega
  obtain ⟨b, bs, hbs⟩ : ∃ b bs, rstrNewUint M path.length = b :: bs :=
    List.exists_cons_of_ne_nil (List.ne_nil_of_length_pos (by omega))
  have hsize : (UInt64.ofNat (sizeT path.length)).toNat = path.length := by
    rw [sizeT_eq, UInt64.toNat_ofNat']
    omega
  rw [hbs] at hblock ⊢
  rw [show store (b :: bs) 0 [0] = .ok (0 :: bs) from store_char [] bs b 0, ok_bind]
  exact makeDirs_eq (F := []) (fun t ht hmem => hnul ((mem_splitOn ht).2 hmem)) List.not_mem_nil hsize (by omega)
    (fits_components path) (by rw [List.nil_append, ← hblock]; rfl) r

/-- An `int` holds the sizes: of the copies, which are made where there is a backslash, and of the list of separators. -/
structure PathSized (path : Obj) : Prop where
  length_lt : path.length < 2147483648
  seps_le : path.count 47 ≤ 1342177280
  copy_lt : 92 ∈ path → path.length < 1073741824

theorem PathSized.of_lt (hlen : chars.length < 1073741824) : PathSized chars := by
  have hcount := List.count_le_length (a := 47) (l := chars)
  exact ⟨by omega, by omega, fun _ => hlen⟩

theorem PathSized.unslash_count (h : PathSized chars) : (unslash 47 92 chars).count 47 ≤ 1342177280 := by
  by_cases hmem : 92 ∈ chars
  · have hlen := h.copy_lt hmem
    have hshort := unslash_length_le 47 92 chars
    have hcount := List.count_le_length (a := 47) (l := unslash 47 92 chars)
    omega
  · rw [unslash_of_not_mem hmem]
    exact h.seps_le

theorem rdirMake_halts (hp : Points h p chars) (hnul : 0 ∉ chars) (hne : chars ≠ []) (hsized : PathSized chars) (M : Malloc)
    (O : DirOs σ) (os : σ) : Halts (fun fuel => rdirMake M O fuel h (some p) true os) fun r =>
      r = askUntil O (makePaths (unslash 47 92 chars)) (.start os) := by
  obtain ⟨src, hsrc, hchars⟩ := hp.str
  have hlen := hsized.length_lt
  have htwo := replaceAll_length_le (w := [92, 92]) (by decide) (v := [47]) (by decide) chars
  simp only [rdirMake, bind, hsrc, ok_bind, hchars, if_neg hne, not_true_eq_false, if_false]
  refine Halts.bind (slashed_spec hp (show twoBackslashes.chars ≠ [] by decide) hlen
    (fun hin => hsized.copy_lt (hin.subset (List.mem_cons_self ..))) M) ?_
  rintro x ⟨hpx, hx⟩
  have hback : backslash.chars <:+: replaceAll [92, 92] [47] chars → 92 ∈ chars := fun hin =>
    (mem_of_mem_replaceAll (by decide) (hin.subset (List.mem_cons_self ..))).resolve_left (by decide)
  refine Halts.bind (slashed_spec hpx (show backslash.chars ≠ [] by decide) (Nat.lt_of_le_of_lt htwo hlen)
    (fun hin => Nat.lt_of_le_of_lt htwo (hsized.copy_lt (hback hin))) M) ?_
  rintro y ⟨hpy, hy⟩
  have hpath : replaceAll [92] [47] (replaceAll [92, 92] [47] chars) = unslash 47 92 chars :=
    unslash_eq_replaceAll (by decide) chars
  rw [show backslash.chars = [92] from rfl, show twoBackslashes.chars = [92, 92] from rfl, hpath] at hpy
  have hshort := unslash_length_le 47 92 chars
  have hzero := zero_not_mem_unslash hnul
  have hdestPath : (y.1 <|> x.1).getD p = y.1.getD (x.1.getD p) := by cases y.1 <;> rfl
  obtain ⟨h₁, h₂, hfree, hfree'⟩ := freeTemps_ok (hx.imp_right And.right) (hy.imp_right And.right)
  obtain ⟨dest, hdest, hchars'⟩ := hpy.str
  have hlen' : rstrLen dest.obj 0 = .ok (unslash 47 92 chars).length := by
    rw [rstrLen_obj (Nat.zero_le _), hchars', Nat.sub_zero]
  have hint : int32 (unslash 47 92 chars).length = (unslash 47 92 chars).length := int32_of_range (by omega) (by omega)
  simp only [hdestPath, hdest, ok_bind]
  refine Halts.bind (rstrSplit_slash M (by rw [hchars']; omega) (by rw [hchars']; exact hsized.unslash_count)) ?_
  rintro _ rfl
  rw [hchars']
  simp only [hlen', ok_bind, hint, hfree, hfree']
  by_cases hmem : 47 ∈ unslash 47 92 chars
  · simp only [if_pos hmem, makePaths]
    rw [makeDirs_path M hzero (by omega)]
    exact Halts.ok rfl
  · -- nothing was replaced
    rw [sep_mem_unslash_iff, not_or] at hmem
    have hx' : x = (none, h) := hx.resolve_right fun hin => hmem.2 (hin.1.subset (List.mem_cons_self ..))
    have hsame : replaceAll twoBackslashes.chars [47] chars = chars :=
      replaceAll_eq_self (List.cons_ne_nil _ _) (fun hin => hmem.2 (hin.subset (List.mem_cons_self ..))) _
    have hy' : y = (none, x.2) := hy.resolve_right fun hin => hmem.2 (hsame ▸ hin.1.subset (List.mem_cons_self ..))
    subst hx' hy'
    obtain rfl := Except.ok.inj hfree
    obtain rfl := Except.ok.inj hfree'
    have hunslash : unslash 47 92 chars = chars := unslash_of_not_mem hmem.2
    simp only [hunslash, if_neg hmem.1, makePaths, Option.getD_none, hsrc, ok_bind, hchars]
    refine Halts.ok ?_
    rw [askUntil, askUntil, ite_self]

/-! ### The directories on the way -/

/-- All of these directories can be made. -/
def AllMade (O : DirOs σ) : List Obj → σ → Prop
  | [], _ => True
  | path :: rest, os => (rdirMakeSelf O path os).1 = 0 ∧ AllMade O rest (rdirMakeSelf O path os).2

/-- `_rdir_make_self` is asked for the directories on the way, until one fails; separators at their ends do not count. The
result is `rcode_ok` just when all can be made. -/
def MakeLaw (M : Malloc) (s : CStr) : Prop :=
  ∃ paths : List Obj, paths.map (List.rdropWhile (· = 47)) = prefixes 47 (unslash 47 92 s.chars) ∧
    ∀ (σ : Type) (O : DirOs σ) (os : σ) (h : Heap) (p : CharPtr), Points h p s.chars →
      Halts (fun fuel => rdirMake M O fuel h (some p) true os) fun r =>
        r = askUntil O paths (.start os) ∧ (r.rv = 0 ↔ AllMade O paths os)

theorem askUntil_rv (O : DirOs σ) (paths : List Obj) (hr : r.rv = 0) : (askUntil O paths r).rv = 0 ↔ AllMade O paths r.os := by
  induction paths generalizing r with
  | nil => simp [askUntil, AllMade, hr]
  | cons path paths ih =>
    rw [askUntil, AllMade]
    by_cases hok : (r.ask O path).rv = 0
    · rw [if_neg (not_not.mpr hok), ih hok]
      exact (and_iff_right hok).symm
    · rw [if_pos hok]
      exact iff_of_false hok fun h => hok h.1

/-- A system in which every directory exists. -/
def everyDir : DirOs Unit := ⟨fun _ _ => 0, fun _ _ => (0, ()), fun _ => 0⟩

theorem askUntil_everyDir (paths : List Obj) (r : DirRun Unit) : (askUntil everyDir paths r).asked = r.asked ++ paths := by
  induction paths generalizing r with
  | nil => simp [askUntil]
  | cons path paths ih =>
    have hok : (r.ask everyDir path).rv = 0 := rfl
    rw [askUntil, if_neg (not_not.mpr hok), ih]
    simp [DirRun.ask]

theorem makePaths_strip (path : Obj) (hne : path ≠ []) :
    (makePaths path).map (List.rdropWhile (· = 47)) = (components 47 path).inits.tail.map fun cs => [47].intercalate cs := by
  rw [makePaths]
  split
  next hmem => exact dirPaths_strip (fun c hc => mem_components hc) (fits_components path)
  next hmem =>
    have hlast : path.getLast? ≠ some 47 := fun hlast => hmem (List.mem_of_getLast? hlast)
    simp [components_of_not_mem hmem hne, rdropWhile_eq_self_iff.mpr hlast, List.intercalate_singleton]

theorem makeLaw_iff_prefixes (M : Malloc) (s : CStr) (hne : s.chars ≠ []) (hsized : PathSized s.chars) :
    MakeLaw M s ↔ (makePaths (unslash 47 92 s.chars)).map (List.rdropWhile (· = 47)) = prefixes 47 (unslash 47 92 s.chars) := by
  constructor
  · rintro ⟨paths, hpaths, hlaw⟩
    have hp : Points [some s.obj] (.block 0) s.chars := points_behind (strAt_obj (Nat.zero_le _)) s.fits [] []
    obtain ⟨r, hr, hr'⟩ := ((hlaw Unit everyDir () _ _ hp).and (rdirMake_halts hp s.noNul hne hsized M everyDir ())).exists
    have hasked := congrArg DirRun.asked (hr.1.symm.trans hr')
    rw [askUntil_everyDir, askUntil_everyDir] at hasked
    rw [← hpaths, List.append_cancel_left hasked]
  · intro h
    refine ⟨_, h, fun σ O os heap p hp => (rdirMake_halts hp s.noNul hne hsized M O os).mono ?_⟩
    rintro _ rfl
    exact ⟨rfl, askUntil_rv O _ rfl⟩

/-- While the sizes are those of an `int`, the law holds if the path is not from the root, or is the root. -/
theorem makeLaw_iff (M : Malloc) (s : CStr) (hne : s.chars ≠ []) (hsized : PathSized s.chars) :
    MakeLaw M s ↔ (∀ c, s.chars.head? = some c → c ≠ 47 ∧ c ≠ 92) ∨ ∀ c ∈ s.chars, c = 47 ∨ c = 92 := by
  have hpath : unslash 47 92 s.chars ≠ [] := by
    intro hnil
    have hhead := unslash_head 47 92 s.chars
    rw [hnil, List.head?_nil, eq_comm, Option.map_eq_none_iff] at hhead
    exact hne (List.head?_eq_none_iff.mp hhead)
  rw [makeLaw_iff_prefixes M s hne hsized, makePaths_strip _ hpath, prefixes_eq_iff, unslash_all_sep_iff, unslash_head]
  refine or_congr_left ?_
  cases s.chars.head? with
  | none => simp
  | some c => by_cases hc : c = 92 <;> simp [hc]

/-- "a/b" -/
theorem makeLaw_iff_ab : MakeLaw Malloc.zeros ⟨[97, 47, 98], by decide, by decide⟩ :=
  (makeLaw_iff Malloc.zeros ⟨[97, 47, 98], by decide, by decide⟩ (by decide) (.of_lt (by decide))).mpr
    (Or.inl fun c hc => by obtain rfl := Option.some.inj hc; decide)

/-- "/a" -/
theorem make_from_root : ¬ ∀ (M : Malloc) (s : CStr), s.chars ≠ [] → MakeLaw M s := by
  intro hall
  have hlaw := hall Malloc.zeros ⟨[47, 97], by decide, by decide⟩ (by decide)
  have hpaths := (makeLaw_iff_prefixes _ _ (by decide) (.of_lt (by decide))).mp hlaw
  exact absurd hpaths (by decide)

end Funra
