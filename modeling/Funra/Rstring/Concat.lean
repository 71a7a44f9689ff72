import Funra.Rstring.Basic

/-!
# Concatenation of an array

`rstr_concat_array` counts each string with a delimiter behind it, and takes the last delimiter off again. With no
string there is none to take off: the terminator is written before the buffer (`concatLaw_iff`).
-/

namespace Funra

open Mem CInt Except

/-- `rstr_array_for`: the strings before the end of the array. -/
def rstrArrayFor {σ : Type} (body : Obj → σ → Except Fault σ) : List (Option Obj) → σ → Except Fault σ
  | [], _ => .error .outOfBounds
  | none :: _, s => .ok s
  | some item :: rest, s => do
    let s ← body item s
    rstrArrayFor body rest s

structure ConcatDest where
  dest : Obj
  appendLen : Nat

def concatAppend (delim : CStr) (delimLen : Nat) (strCur : Obj) (s : ConcatDest) : Except Fault ConcatDest := do
  let curLen ← rstrLen strCur 0
  let dest ← store s.dest s.appendLen (← Mem.load strCur 0 curLen)
  let appendLen := sizeT (s.appendLen + curLen)
  let dest ← store dest appendLen (← Mem.load delim.obj 0 delimLen)
  return ⟨dest, sizeT (appendLen + delimLen)⟩

/-- `dest_len` is a `size_t`. -/
def concatCount (delimLen : Nat) (strCur : Obj) (destLen : Nat) : Except Fault Nat := do
  return sizeT (destLen + sizeT ((← rstrLen strCur 0) + delimLen))

def rstrConcatArray (M : Malloc) (src : Option (List (Option Obj))) (delim : Option CStr) (suffix : Bool) :
    Except Fault Obj :=
  match src, delim with
  | some src, some delim => do
    let delimLen ← rstrLen delim.obj 0
    let destLen ← rstrArrayFor (concatCount delimLen) src 0
    let s ← rstrArrayFor (concatAppend delim delimLen) src ⟨rstrNew M destLen, 0⟩
    let destLen := if suffix then destLen else sizeT (destLen - delimLen)
    store s.dest destLen [0]
  | _, _ => .ok rstrEmpty

/-- An array of these strings. -/
def rstrArray (ts : List Obj) : List (Option Obj) := ts.map (fun t => some (t ++ [0])) ++ [none]

/-! ### The two passes -/

variable {M : Malloc} {ts : List Obj} {t text : Obj} {delim : CStr} {s : ConcatDest}

/-- The strings with a delimiter behind each. -/
def delimited (delim : Obj) (ts : List Obj) : Obj := (ts.map (· ++ delim)).flatten

theorem delimited_cons (delim t : Obj) (ts : List Obj) :
    delimited delim (t :: ts) = t ++ (delim ++ delimited delim ts) := by
  simp [delimited]

/-- Without the last delimiter they are the intercalation. -/
theorem delimited_eq (delim : Obj) (h : ts ≠ []) : delimited delim ts = delim.intercalate ts ++ delim := by
  induction ts with
  | nil => exact absurd rfl h
  | cons t ts ih =>
    rw [delimited_cons]
    by_cases hts : ts = []
    · subst hts
      simp [delimited, List.intercalate_singleton]
    · rw [ih hts, List.intercalate_cons_of_ne_nil hts]
      simp

theorem delimited_length (delim : Obj) (ts : List Obj) :
    (delimited delim ts).length = (ts.map fun t => t.length + delim.length).sum := by
  rw [delimited, List.length_flatten, List.map_map]
  congr 1
  apply List.map_congr_left
  intro t _
  exact List.length_append

theorem sizeT_eq (n : Nat) : sizeT n = n % 18446744073709551616 := by
  unfold sizeT
  omega

theorem sizeT_add {m n : Nat} (h : m + n < 18446744073709551616) : sizeT (m + n) = m + n := by
  rw [← Nat.cast_add, sizeT_eq, Nat.mod_eq_of_lt h]

theorem rstrLen_text (hnul : 0 ∉ t) : rstrLen (t ++ [0]) 0 = .ok t.length := by
  rw [rstrLen, strAt_of_append (r := []) rfl hnul]
  rfl

theorem concatCount_eq (hnul : ∀ t ∈ ts, 0 ∉ t) (n : Nat) :
    rstrArrayFor (concatCount delim.chars.length) (rstrArray ts) (sizeT n) =
      .ok (sizeT (n + (delimited delim.chars ts).length : Nat)) := by
  induction ts generalizing n with
  | nil => simp [rstrArray, rstrArrayFor, delimited]
  | cons t ts ih =>
    change (Except.bind (concatCount delim.chars.length (t ++ [0]) (sizeT n)) fun s => rstrArrayFor _ (rstrArray ts) s) = _
    have hcount : concatCount delim.chars.length (t ++ [0]) (sizeT n) =
        .ok (sizeT ((n + (t.length + delim.chars.length) : Nat))) := by
      rw [concatCount, rstrLen_text (hnul t List.mem_cons_self)]
      simp only [bind, Except.bind, pure, Except.pure]
      rw [← Nat.cast_add, sizeT_eq, sizeT_eq, ← Nat.cast_add, sizeT_eq, sizeT_eq, Nat.add_mod_mod, Nat.mod_add_mod]
    rw [hcount]
    refine (ih (fun t' h => hnul t' (List.mem_cons_of_mem t h)) _).trans ?_
    rw [delimited_cons, List.length_append, List.length_append]
    congr 3
    omega

/-- One string and one delimiter more. -/
theorem concatAppend_spec (hnul : 0 ∉ t) (hpre : text <+: s.dest) (hlen : s.appendLen = text.length)
    (hfit : text.length + (t.length + delim.chars.length) ≤ s.dest.length)
    (hsize : s.dest.length < 18446744073709551616) :
    (concatAppend delim delim.chars.length (t ++ [0]) s).Succeeds fun s' =>
      text ++ (t ++ delim.chars) <+: s'.dest ∧ s'.appendLen = (text ++ (t ++ delim.chars)).length ∧
        s'.dest.length = s.dest.length := by
  unfold concatAppend
  rw [rstrLen_text hnul, CStr.obj, load_text, hlen]
  simp only [bind, Except.bind, load_text]
  refine Succeeds.bind (store_append hpre (by omega)) fun dest hdest => ?_
  have hnext : sizeT ((text.length : Int) + t.length) = (text ++ t).length := by
    rw [← Nat.cast_add, sizeT_eq, List.length_append]
    omega
  rw [hnext]
  refine Succeeds.bind (store_append hdest.1 (by rw [List.length_append]; omega)) fun dest' hdest' => ?_
  refine Succeeds.ok ⟨by simpa using hdest'.1, ?_, hdest'.2.trans hdest.2⟩
  dsimp only
  rw [← Nat.cast_add, sizeT_eq]
  simp only [List.length_append]
  omega

theorem concatAppend_beyond (hnul : 0 ∉ t) (hpre : text <+: s.dest) (hlen : s.appendLen = text.length)
    (hfit : s.dest.length < text.length + (t.length + delim.chars.length))
    (hsize : s.dest.length < 18446744073709551616) :
    (concatAppend delim delim.chars.length (t ++ [0]) s).Returns fun _ => False := by
  unfold concatAppend
  rw [rstrLen_text hnul, CStr.obj, load_text, hlen]
  simp only [bind, Except.bind, load_text]
  by_cases hfirst : text.length + t.length ≤ s.dest.length
  · refine (store_append hpre hfirst).returns.bind fun dest hdest => ?_
    have hnext : sizeT ((text.length : Int) + t.length) = (text ++ t).length := by
      rw [← Nat.cast_add, sizeT_eq, List.length_append]
      omega
    rw [hnext, store_beyond (by rw [List.length_append]; omega)]
    exact Returns.error
  · rw [store_beyond (by omega)]
    exact Returns.error

theorem concatFill_spec (hnul : ∀ t ∈ ts, 0 ∉ t) (hpre : text <+: s.dest) (hlen : s.appendLen = text.length)
    (hfit : text.length + (delimited delim.chars ts).length ≤ s.dest.length)
    (hsize : s.dest.length < 18446744073709551616) :
    (rstrArrayFor (concatAppend delim delim.chars.length) (rstrArray ts) s).Succeeds fun s' =>
      text ++ delimited delim.chars ts <+: s'.dest ∧ s'.dest.length = s.dest.length := by
  induction ts generalizing s text with
  | nil => exact Succeeds.ok ⟨by simpa [delimited] using hpre, rfl⟩
  | cons t ts ih =>
    rw [delimited_cons, List.length_append, List.length_append] at hfit
    refine Succeeds.bind (concatAppend_spec (hnul t List.mem_cons_self) hpre hlen (by omega) hsize) ?_
    rintro s' ⟨hpre', hlen', hdest⟩
    refine (ih (fun t' h => hnul t' (List.mem_cons_of_mem t h)) hpre' hlen' ?_ (by omega)).mono ?_
    · simp only [List.length_append]
      omega
    · rintro s'' ⟨hpre'', hdest'⟩
      rw [delimited_cons]
      exact ⟨by simpa using hpre'', hdest'.trans hdest⟩

theorem concatFill_beyond (hnul : ∀ t ∈ ts, 0 ∉ t) (hpre : text <+: s.dest) (hlen : s.appendLen = text.length)
    (hfit : s.dest.length < text.length + (delimited delim.chars ts).length)
    (hsize : s.dest.length < 18446744073709551616) :
    (rstrArrayFor (concatAppend delim delim.chars.length) (rstrArray ts) s).Returns fun _ => False := by
  induction ts generalizing s text with
  | nil =>
    have hle := hpre.length_le
    simp [delimited] at hfit
    omega
  | cons t ts ih =>
    rw [delimited_cons, List.length_append, List.length_append] at hfit
    by_cases hfirst : text.length + (t.length + delim.chars.length) ≤ s.dest.length
    · refine (concatAppend_spec (hnul t List.mem_cons_self) hpre hlen hfirst hsize).returns.bind ?_
      rintro s' ⟨hpre', hlen', hdest⟩
      refine ih (fun t' h => hnul t' (List.mem_cons_of_mem t h)) hpre' hlen' ?_ (by omega)
      simp only [List.length_append]
      omega
    · refine (concatAppend_beyond (hnul t List.mem_cons_self) hpre hlen (by omega) hsize).bind ?_
      exact fun _ hfalse => hfalse.elim

/-! ### The call -/

/-- What the call is for. -/
def concatText (delim : Obj) (ts : List Obj) (suffix : Bool) : Obj :=
  delim.intercalate ts ++ if suffix = true ∧ ts ≠ [] then delim else []

theorem zero_not_mem_delimited (hnul : ∀ t ∈ ts, 0 ∉ t) (delim : CStr) : 0 ∉ delimited delim.chars ts := by
  intro hmem
  obtain ⟨l, hl, hzero⟩ := List.mem_flatten.mp hmem
  obtain ⟨t, ht, rfl⟩ := List.mem_map.mp hl
  rcases List.mem_append.mp hzero with h | h
  · exact hnul t ht h
  · exact delim.noNul h

theorem rstrNew_length (M : Malloc) (n : Nat) :
    (rstrNew M (sizeT n)).length = (n % 18446744073709551616 + 1) % 18446744073709551616 := by
  rw [rstrNew, M.length_block, ← Nat.cast_succ, sizeT_eq, sizeT_eq]

/-- The call up to the terminator. -/
theorem rstrConcatArray_eq (hnul : ∀ t ∈ ts, 0 ∉ t) (suffix : Bool) :
    rstrConcatArray M (some (rstrArray ts)) (some delim) suffix =
      (rstrArrayFor (concatAppend delim delim.chars.length) (rstrArray ts)
        ⟨rstrNew M (sizeT (delimited delim.chars ts).length), 0⟩).bind fun s =>
          store s.dest (if suffix = true then (sizeT (delimited delim.chars ts).length : Int) else
            sizeT (sizeT (delimited delim.chars ts).length - delim.chars.length)) [0] := by
  have hcount : rstrArrayFor (concatCount delim.chars.length) (rstrArray ts) (sizeT (0 : Nat)) = _ := concatCount_eq hnul 0
  rw [Nat.zero_add, show sizeT ((0 : Nat) : Int) = 0 from rfl] at hcount
  unfold rstrConcatArray
  dsimp only
  rw [show rstrLen delim.obj 0 = .ok delim.chars.length from rstrLen_text delim.noNul]
  simp only [bind, Except.bind]
  rw [hcount]
  cases suffix with
  | true => rfl
  | false => rfl

theorem rstrConcatArray_spec {suffix : Bool} (hnul : ∀ t ∈ ts, 0 ∉ t) (hne : ts ≠ [] ∨ suffix = true ∨ delim.chars = [])
    (htotal : (delimited delim.chars ts).length < 18446744073709551615) :
    (rstrConcatArray M (some (rstrArray ts)) (some delim) suffix).Succeeds fun dest =>
      strAt dest 0 = .ok (concatText delim.chars ts suffix) := by
  have hzero := zero_not_mem_delimited hnul delim
  rw [rstrConcatArray_eq hnul]
  have hlen := rstrNew_length M (delimited delim.chars ts).length
  have hsize : sizeT (delimited delim.chars ts).length = (delimited delim.chars ts).length := by
    rw [sizeT_eq]
    omega
  refine Succeeds.bind (concatFill_spec hnul List.nil_prefix rfl ?_ ?_) ?_
  · dsimp only [List.length_nil]
    omega
  · dsimp only
    omega
  · rintro s ⟨hpre, hdest⟩
    dsimp only at hdest
    rw [List.nil_append] at hpre
    -- the terminator goes behind the first `k` bytes
    obtain ⟨k, hk, hoff, htext⟩ : ∃ k ≤ (delimited delim.chars ts).length,
        (if suffix = true then (sizeT (delimited delim.chars ts).length : Int) else
          sizeT (sizeT (delimited delim.chars ts).length - delim.chars.length)) = k ∧
        (delimited delim.chars ts).take k = concatText delim.chars ts suffix := by
      rw [hsize]
      by_cases hts : ts = []
      · subst hts
        refine ⟨0, Nat.zero_le _, ?_, by simp [concatText, List.intercalate_nil]⟩
        rcases hne with hne | hsuffix | hdelim
        · exact absurd rfl hne
        · rw [if_pos hsuffix]
          rfl
        · rw [hdelim]
          cases suffix <;> rfl
      · have htext := delimited_eq delim.chars hts
        cases suffix with
        | true => exact ⟨_, Nat.le_refl _, rfl, by rw [List.take_length, htext, concatText, if_pos ⟨rfl, hts⟩]⟩
        | false =>
          have hlen' := congrArg List.length htext
          rw [List.length_append] at hlen'
          refine ⟨(delim.chars.intercalate ts).length, by omega, ?_, ?_⟩
          · rw [if_neg (by decide), hlen']
            unfold sizeT
            omega
          · rw [htext, List.take_left', concatText, if_neg (by simp), List.append_nil]
            rfl
    rw [hoff]
    have hstore := store_prefix (b := [0]) hpre hk (by rw [List.length_singleton]; omega)
    refine hstore.mono fun dest hdest' => ?_
    rw [htext] at hdest'
    refine strAt_of_prefix hdest'.1 ?_
    rw [← htext]
    exact fun hmem => hzero (List.mem_of_mem_take hmem)

def ConcatLaw (M : Malloc) (src : List CStr) (delim : CStr) (suffix : Bool) : Prop :=
  (rstrConcatArray M (some (rstrArray (src.map CStr.chars))) (some delim) suffix).Succeeds fun dest =>
    strAt dest 0 = .ok (concatText delim.chars (src.map CStr.chars) suffix)

/-- There is a delimiter to take off, or none is wanted, and the count of all bytes does not wrap. -/
theorem concatLaw_iff (M : Malloc) (src : List CStr) (delim : CStr) (suffix : Bool) : ConcatLaw M src delim suffix ↔
    (src ≠ [] ∨ suffix = true ∨ delim.chars = []) ∧
      (src.map fun s => s.chars.length + delim.chars.length).sum < 18446744073709551615 := by
  have hnul : ∀ t ∈ src.map CStr.chars, 0 ∉ t := by
    intro t ht
    obtain ⟨s, -, rfl⟩ := List.mem_map.mp ht
    exact s.noNul
  have hsum : (delimited delim.chars (src.map CStr.chars)).length =
      (src.map fun s => s.chars.length + delim.chars.length).sum := by
    rw [delimited_length, List.map_map]
    rfl
  rw [← hsum]
  constructor
  · rintro ⟨dest, hrun, -⟩
    rw [rstrConcatArray_eq hnul] at hrun
    obtain ⟨s, hfill, hstore⟩ := of_bind_ok hrun
    have hlen := rstrNew_length M (delimited delim.chars (src.map CStr.chars)).length
    have hfits : (delimited delim.chars (src.map CStr.chars)).length ≤
        (rstrNew M (sizeT (delimited delim.chars (src.map CStr.chars)).length)).length := by
      by_contra hlt
      refine concatFill_beyond hnul List.nil_prefix rfl ?_ ?_ s hfill
      · dsimp only [List.length_nil]
        omega
      · dsimp only
        omega
    refine ⟨?_, by omega⟩
    by_contra hempty
    rw [not_or, not_or, not_not] at hempty
    obtain ⟨rfl, hsuffix, hdelim⟩ := hempty
    have hpos := List.length_pos_iff.mpr hdelim
    have hfits := delim.fits
    have hdest : s.dest.length = 1 := by
      obtain rfl := Except.ok.inj hfill
      exact hlen
    rw [if_neg hsuffix] at hstore
    have hoff : sizeT ((sizeT ((delimited delim.chars (List.map CStr.chars [])).length : Int) : Int) -
        delim.chars.length) = 18446744073709551616 - delim.chars.length := by
      change sizeT (0 - (delim.chars.length : Int)) = _
      unfold sizeT
      omega
    rw [hoff, store_beyond (by rw [hdest]; simp; omega)] at hstore
    cases hstore
  · rintro ⟨hne, htotal⟩
    exact rstrConcatArray_spec hnul (hne.imp_left fun h => by simpa using h) htotal

/-- No string, and "," as the delimiter. -/
theorem concat_empty_before_buffer : ¬ ∀ (M : Malloc) (src : List CStr) (delim : CStr) (suffix : Bool),
    ConcatLaw M src delim suffix := by
  intro h
  obtain ⟨dest, hrun, -⟩ := h Malloc.zeros [] ⟨[44], by decide, by decide⟩ false
  have hfault : rstrConcatArray Malloc.zeros (some (rstrArray [])) (some ⟨[44], by decide, by decide⟩) false =
    .error .outOfBounds := rfl
  cases hfault.symm.trans hrun

end Funra
