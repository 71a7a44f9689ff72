import Funra.Lib.Paths
import Funra.Rstring.Basic

/-!
# The normal form of a path

`rfile_format_path` works in place: from one backslash to the next it writes a '/', and pulls the rest of the string over
a second one; then it cuts the '/' at the end off. When nothing is left it reads the byte before the string. The distance
to the next backslash is an `int`.
-/

namespace Funra

open Mem CInt Except Words Paths

/-- "\\". -/
def backslash : CStr := ⟨[92], by decide, by decide⟩

/-- `while (p[0] != rstr_end) *p++ = *(q++)`, with `n` bytes of the object from `p` on. -/
def pullLeft : Nat → Obj → Nat → Except Fault Obj
  | 0, _, _ => .error .outOfBounds
  | n + 1, mem, p => do
    if (← byteAt mem p) = 0 then return mem
    let mem ← store mem p [← byteAt mem (p + 1)]
    pullLeft n mem (p + 1)

/-- `format_str` is an offset into the string. -/
def formatRound (s : Obj × Nat) : Except Fault ((Obj × Nat) ⊕ Obj) := do
  let index ← rstrIndex s.1 s.2 backslash
  if 0 ≤ index then
    let mem ← store s.1 (s.2 + index) [47]
    let formatStr := s.2 + index.toNat + 1
    if (← byteAt mem formatStr) = 92 then
      return .inl (← pullLeft (mem.length - formatStr) mem formatStr, formatStr)
    else return .inl (mem, formatStr)
  else return .inr s.1

def trimRound (mem : Obj) : Except Fault (Obj ⊕ Obj) := do
  let pathLen ← rstrLen mem 0
  if (← byteAt mem (pathLen - 1)) = 47 then return .inl (← store mem (pathLen - 1) [0])
  else return .inr mem

def rfileFormatPath (fuel : Nat) (filePath : Obj) : Except Fault Obj := do
  loop .outOfFuel trimRound fuel (← loop .outOfFuel formatRound fuel (filePath, 0))

/-- Every backslash is at a distance from the one before it, or from the beginning, that is an `int`. -/
def SegsFit (chars : Obj) : Prop := ∀ seg ∈ (chars.splitOn 92).dropLast, seg.length < 2147483648

variable {chars text a t rest : Obj} {s : CStr}

/-! ### From one backslash to the next -/

theorem segsFit_of_not_mem (h : 92 ∉ chars) : SegsFit chars := by
  rw [SegsFit, List.splitOn_eq_singleton h]
  simp

theorem segsFit_of_lt (h : chars.length < 2147483648) : SegsFit chars := fun seg hseg => by
  have hinfix := infix_intercalate (List.dropLast_subset _ hseg) [92]
  rw [List.intercalate_splitOn] at hinfix
  exact Nat.lt_of_le_of_lt hinfix.length_le h

theorem segsFit_append (h : 92 ∉ a) (t : Obj) : SegsFit (a ++ 92 :: t) ↔ a.length < 2147483648 ∧ SegsFit t := by
  rw [SegsFit, List.splitOn_append_cons_self_of_not_mem h, List.dropLast_cons_of_ne_nil (List.splitOn_ne_nil _ _),
    List.forall_mem_cons]
  rfl

theorem pullLeft_spec (a t rest : Obj) (c : UInt8) (n : Nat) (hnul : 0 ∉ c :: t) (hn : t.length + 2 ≤ n) :
    ∃ rest', rest'.length = rest.length + 1 ∧
      pullLeft n (a ++ c :: (t ++ 0 :: rest)) a.length = .ok (a ++ t ++ 0 :: rest') := by
  induction t generalizing a c n with
  | nil =>
    obtain ⟨n, rfl⟩ := Nat.exists_eq_add_of_le' (show 2 ≤ n from hn)
    have hc : c ≠ 0 := fun hzero => hnul (hzero ▸ List.mem_cons_self)
    refine ⟨0 :: rest, rfl, ?_⟩
    have hbyte : byteAt (a ++ c :: ([] ++ 0 :: rest)) a.length = .ok c := byteAt_eq (by simp)
    have hnext : byteAt (a ++ c :: ([] ++ 0 :: rest)) ((a.length + 1 : Nat) : Int) = .ok 0 := byteAt_eq (by simp)
    have hend : byteAt (a ++ 0 :: ([] ++ 0 :: rest)) ((a.length + 1 : Nat) : Int) = .ok 0 := byteAt_eq (by simp)
    rw [pullLeft, hbyte]
    simp only [bind, ok_bind, if_neg hc]
    rw [show ((a.length : Int) + 1) = ((a.length + 1 : Nat) : Int) from rfl, hnext, ok_bind, store_char, ok_bind, pullLeft, hend]
    simp only [bind, ok_bind, if_pos, List.nil_append, List.append_nil]
    rfl
  | cons d t ih =>
    obtain ⟨n, rfl⟩ := Nat.exists_eq_add_of_le' (Nat.le_trans (Nat.le_add_left 1 _) hn)
    have hc : c ≠ 0 := fun hzero => hnul (hzero ▸ List.mem_cons_self)
    have hbyte : byteAt (a ++ c :: (d :: t ++ 0 :: rest)) a.length = .ok c := byteAt_eq (by simp)
    have hnext : byteAt (a ++ c :: (d :: t ++ 0 :: rest)) ((a.length + 1 : Nat) : Int) = .ok d := byteAt_eq (by simp)
    obtain ⟨rest', hlen, hpull⟩ := ih (a ++ [d]) d n (fun hmem => hnul (List.mem_cons_of_mem c hmem))
      (by rw [List.length_cons] at hn; omega)
    refine ⟨rest', hlen, ?_⟩
    rw [pullLeft, hbyte]
    simp only [bind, ok_bind, if_neg hc]
    rw [show ((a.length : Int) + 1) = ((a.length + 1 : Nat) : Int) from rfl, hnext, ok_bind, store_char, ok_bind]
    simpa using hpull

/-- The loop with the pointer behind `done`. -/
def formatting (done todo rest : Obj) : Obj × Nat := (done ++ todo ++ 0 :: rest, done.length)

theorem formatRound_end {done todo rest : Obj} (hnul : 0 ∉ todo) (h : 92 ∉ todo) :
    formatRound (formatting done todo rest) = .ok (.inr (done ++ todo ++ 0 :: rest)) := by
  have hindex : rstrIndex (done ++ todo ++ 0 :: rest) done.length backslash = .ok (-1) := by
    rw [rstrIndex, strstr, strAt_of_append (r := rest) (by simp) hnul]
    simp only [backslash, Except.map, search_singleton_none h]
    rfl
  simp only [formatRound, formatting, bind]
  rw [hindex, ok_bind, if_neg (by decide)]
  rfl

theorem index_eq {done a t rest : Obj} (hnul : 0 ∉ a ++ 92 :: t) (h : 92 ∉ a) :
    rstrIndex (done ++ (a ++ 92 :: t) ++ 0 :: rest) done.length backslash = .ok (int32 a.length) := by
  rw [rstrIndex, strstr, strAt_of_append (r := rest) (by simp) hnul]
  simp only [backslash, Except.map, search_singleton h, bind, ok_bind, Option.map_some]
  rw [show ((done.length + a.length : Nat) : Int) - done.length = a.length by omega]
  rfl

/-- The distance is too long for an `int`. -/
theorem formatRound_stop {done a t rest : Obj} (hnul : 0 ∉ a ++ 92 :: t) (h : 92 ∉ a) (hneg : int32 a.length < 0) :
    formatRound (formatting done (a ++ 92 :: t) rest) = .ok (.inr (done ++ (a ++ 92 :: t) ++ 0 :: rest)) := by
  simp only [formatRound, formatting, bind]
  rw [index_eq hnul h, ok_bind, if_neg (by omega)]
  rfl

/-- A character at the distance becomes a '/'. -/
theorem formatRound_write {done b t rest : Obj} {c : UInt8} {k : Int} (hk : k = b.length)
    (hindex : rstrIndex (done ++ (b ++ c :: t) ++ 0 :: rest) done.length backslash = .ok k) :
    formatRound (formatting done (b ++ c :: t) rest) =
      (byteAt (done ++ b ++ [47] ++ t ++ 0 :: rest) (done ++ b ++ [47]).length).bind fun next =>
        if next = 92 then
          (pullLeft (t.length + 1 + rest.length) (done ++ b ++ [47] ++ t ++ 0 :: rest) (done ++ b ++ [47]).length).bind fun mem =>
            .ok (.inl (mem, (done ++ b ++ [47]).length))
        else .ok (.inl (formatting (done ++ b ++ [47]) t rest)) := by
  have hstore := store_char (done ++ b) (t ++ 0 :: rest) c 47
  have hpos : done.length + k.toNat + 1 = (done ++ b ++ [47]).length := by
    rw [hk, Int.toNat_natCast]
    simp [Nat.add_assoc]
  have hlen : (done ++ b ++ [47] ++ t ++ 0 :: rest).length - (done ++ b ++ [47]).length = t.length + 1 + rest.length := by
    simp only [List.length_append, List.length_cons]
    omega
  simp only [formatRound, formatting, bind]
  rw [hindex, ok_bind, if_pos (by omega), hpos, hk, ← Nat.cast_add, ← List.length_append,
    show done ++ (b ++ c :: t) ++ 0 :: rest = done ++ b ++ c :: (t ++ 0 :: rest) by simp, hstore, ok_bind,
    show done ++ b ++ 47 :: (t ++ 0 :: rest) = done ++ b ++ [47] ++ t ++ 0 :: rest by simp, hlen]
  rfl

/-- What a round leaves to do once it has got to a backslash. -/
theorem formatRound_next {done a t rest : Obj} (hnul : 0 ∉ a ++ 92 :: t) (h : 92 ∉ a) (hlen : a.length < 2147483648) :
    ∃ todo rest', formatRound (formatting done (a ++ 92 :: t) rest) = .ok (.inl (formatting (done ++ a ++ [47]) todo rest')) ∧
      todo <:+ t ∧ rest'.length + todo.length = rest.length + t.length ∧ unslash 47 92 (92 :: t) = 47 :: unslash 47 92 todo ∧
      (SegsFit todo ↔ SegsFit t) := by
  have hindex := @index_eq done a t rest hnul h
  rw [int32_of_range (by omega) (by omega)] at hindex
  rw [formatRound_write rfl hindex]
  have hnul' : 0 ∉ t := fun hmem => hnul (by simp [hmem])
  rcases t with _ | ⟨d, t⟩
  · have hbyte : byteAt (done ++ a ++ [47] ++ [] ++ 0 :: rest) (done ++ a ++ [47]).length = .ok 0 := byteAt_eq (by simp)
    refine ⟨[], rest, ?_, List.suffix_rfl, rfl, rfl, Iff.rfl⟩
    rw [hbyte, ok_bind, if_neg (by decide)]
  · have hbyte : byteAt (done ++ a ++ [47] ++ d :: t ++ 0 :: rest) (done ++ a ++ [47]).length = .ok d := by
      refine byteAt_eq ?_
      rw [List.append_assoc, List.getElem?_append_right (Nat.le_refl _), Nat.sub_self]
      rfl
    rw [hbyte, ok_bind]
    by_cases hd : d = 92
    · subst hd
      obtain ⟨rest', hrest, hpull⟩ := pullLeft_spec (done ++ a ++ [47]) t rest 92 ((92 :: t).length + 1 + rest.length) hnul'
        (by rw [List.length_cons]; omega)
      refine ⟨t, rest', ?_, List.suffix_cons 92 t, ?_, unslash_pair 47 92 t, ?_⟩
      · rw [if_pos rfl, List.append_assoc _ (92 :: t), List.cons_append, hpull]
        rfl
      · rw [List.length_cons]
        omega
      · have hseg := segsFit_append (a := []) List.not_mem_nil t
        simp only [List.nil_append, List.length_nil] at hseg
        rw [hseg, and_iff_right (by decide)]
    · refine ⟨d :: t, rest, if_neg hd, List.suffix_rfl, rfl, unslash_back ?_, Iff.rfl⟩
      simpa using hd

theorem exists_wrapped (hnonneg : 0 ≤ int32 a.length) (hlen : 2147483648 ≤ a.length) :
    ∃ b c d t, a = b ++ c :: d :: t ∧ int32 a.length = b.length ∧ 2147483648 ≤ (d :: t).length := by
  obtain ⟨k, hk, hwrap⟩ : ∃ k : Nat, int32 a.length = k ∧ k + 4294967296 ≤ a.length := by
    refine ⟨(int32 a.length).toNat, (Int.toNat_of_nonneg hnonneg).symm, ?_⟩
    unfold int32 at hnonneg ⊢
    omega
  obtain ⟨c, d, t, hdrop⟩ : ∃ c d t, a.drop k = c :: d :: t := by
    rw [List.drop_eq_getElem_cons (by omega), List.drop_eq_getElem_cons (by omega)]
    exact ⟨_, _, _, rfl⟩
  have hsize := congrArg List.length hdrop
  rw [List.length_drop, List.length_cons] at hsize
  refine ⟨a.take k, c, d, t, ?_, ?_, by omega⟩
  · rw [← hdrop, List.take_append_drop]
  · rw [hk, List.length_take, Nat.min_eq_left (by omega)]

/-- The distance is too long by a multiple of 2^32: what is left is still too long. -/
theorem formatRound_wraps {done a t rest : Obj} (hnul : 0 ∉ done ++ (a ++ 92 :: t)) (h : 92 ∉ a) (hnonneg : 0 ≤ int32 a.length)
    (hlen : 2147483648 ≤ a.length) :
    ∃ done' a', formatRound (formatting done (a ++ 92 :: t) rest) = .ok (.inl (formatting done' (a' ++ 92 :: t) rest)) ∧
      0 ∉ done' ++ (a' ++ 92 :: t) ∧ 92 ∉ a' ∧ 2147483648 ≤ a'.length := by
  have hindex := @index_eq done a t rest (fun hmem => hnul (List.mem_append_right done hmem)) h
  obtain ⟨b, c, d, a', rfl, hb, hlong⟩ := exists_wrapped hnonneg hlen
  have hsplit : b ++ c :: d :: a' ++ 92 :: t = b ++ c :: (d :: a' ++ 92 :: t) := List.append_assoc _ _ _
  rw [hb, hsplit] at hindex
  have hwrite := formatRound_write rfl hindex
  have hbyte : byteAt (done ++ b ++ [47] ++ (d :: a' ++ 92 :: t) ++ 0 :: rest) (done ++ b ++ [47]).length = .ok d := by
    refine byteAt_eq ?_
    rw [List.append_assoc, List.getElem?_append_right (Nat.le_refl _), Nat.sub_self]
    rfl
  refine ⟨done ++ b ++ [47], d :: a', ?_, ?_, fun hmem => h (by simp [hmem]), hlong⟩
  · rw [hsplit, hwrite, hbyte, ok_bind, if_neg fun heq => h (by simp [heq])]
  · simp only [List.mem_append, List.mem_cons, not_or] at hnul ⊢
    simp [hnul]

/-! ### The two loops -/

theorem noNul_next {done a t todo : Obj} (hnul : 0 ∉ done ++ (a ++ 92 :: t)) (h : todo <:+ t) :
    0 ∉ done ++ a ++ [47] ++ todo := by
  simp only [List.mem_append, List.mem_cons, not_or] at hnul ⊢
  have htodo : 0 ∉ todo := fun hzero => hnul.2.2.2 (h.subset hzero)
  simp [hnul, htodo]

theorem formatLoop_halts (hnul : 0 ∉ chars) (hfit : SegsFit chars) (rest : Obj) :
    Halts (fun fuel => loop .outOfFuel formatRound fuel (chars ++ 0 :: rest, 0)) fun mem =>
      ∃ rest', mem = unslash 47 92 chars ++ 0 :: rest' ∧ mem.length = (chars ++ 0 :: rest).length := by
  refine Halts.loop (I := fun s => ∃ done todo rest', s = formatting done todo rest' ∧ 0 ∉ done ++ todo ∧
      done ++ unslash 47 92 todo = unslash 47 92 chars ∧ SegsFit todo ∧ s.1.length = (chars ++ 0 :: rest).length)
    (μ := fun s => s.1.length - s.2) ?_ ⟨[], chars, rest, rfl, hnul, rfl, hfit, rfl⟩
  rintro _ ⟨done, todo, rest', rfl, hnul, hdone, hfit, hsize⟩
  by_cases hmem : 92 ∈ todo
  · obtain ⟨a, t, rfl, ha⟩ := List.eq_append_cons_of_mem hmem
    rw [segsFit_append ha] at hfit
    obtain ⟨todo', rest'', hround, hsuffix, hlen, hunslash, hsegs⟩ :=
      @formatRound_next done a t rest' (fun hzero => hnul (List.mem_append_right done hzero)) ha hfit.1
    refine ⟨_, hround, ⟨_, _, _, rfl, noNul_next hnul hsuffix, ?_, hsegs.mpr hfit.2, ?_⟩, ?_⟩
    · rw [← hdone, unslash_append ha, hunslash]
      simp
    · rw [← hsize]
      simp only [formatting, List.length_append, List.length_cons, List.length_nil]
      omega
    · simp only [formatting, List.length_append, List.length_cons, List.length_nil]
      omega
  · refine ⟨_, formatRound_end (fun hzero => hnul (List.mem_append_right done hzero)) hmem, rest', ?_, hsize⟩
    rw [← hdone, unslash_of_not_mem hmem]

/-- A backslash is left when an `int` does not reach it. -/
theorem formatLoop_long (hnul : 0 ∉ chars) (hlong : ¬ SegsFit chars) (rest : Obj) (fuel : Nat) :
    (loop .outOfFuel formatRound fuel (chars ++ 0 :: rest, 0)).Returns fun mem =>
      ∃ text rest', mem = text ++ 0 :: rest' ∧ 0 ∉ text ∧ 92 ∈ text := by
  refine Returns.loop (I := fun s => ∃ done todo rest', s = formatting done todo rest' ∧ 0 ∉ done ++ todo ∧ ¬ SegsFit todo)
    ?_ ⟨[], chars, rest, rfl, hnul, hlong⟩ fuel
  rintro _ ⟨done, todo, rest', rfl, hnul, hlong⟩
  have hmem : 92 ∈ todo := not_not.mp fun hmem => hlong (segsFit_of_not_mem hmem)
  obtain ⟨a, t, rfl, ha⟩ := List.eq_append_cons_of_mem hmem
  have hnul' : 0 ∉ a ++ 92 :: t := fun hzero => hnul (List.mem_append_right done hzero)
  by_cases hneg : int32 a.length < 0
  · rw [formatRound_stop hnul' ha hneg]
    exact Returns.ok ⟨_, rest', rfl, hnul, by simp⟩
  · by_cases hlen : a.length < 2147483648
    · obtain ⟨todo', rest'', hround, hsuffix, -, -, hsegs⟩ := @formatRound_next done a t rest' hnul' ha hlen
      rw [hround]
      exact Returns.ok ⟨_, _, _, rfl, noNul_next hnul hsuffix, fun hfit => hlong ((segsFit_append ha t).mpr ⟨hlen, hsegs.mp hfit⟩)⟩
    · obtain ⟨done', a', hround, hzero, hback, hstill⟩ := @formatRound_wraps done a t rest' hnul ha (not_lt.mp hneg) (not_lt.mp hlen)
      rw [hround]
      exact Returns.ok ⟨_, _, _, rfl, hzero, fun hfit => absurd ((segsFit_append hback t).mp hfit).1 (not_lt.mpr hstill)⟩

theorem trimRound_nil (rest : Obj) : trimRound (0 :: rest) = .error .outOfBounds := by
  have hlen : rstrLen (0 :: rest) 0 = .ok 0 := by
    rw [rstrLen, show strAt (0 :: rest) 0 = .ok [] from strAt_of_append rfl List.not_mem_nil]
    rfl
  simp only [trimRound, bind]
  rw [hlen, ok_bind, byteAt_neg (by decide)]
  rfl

theorem trimRound_concat {c : UInt8} (hnul : 0 ∉ t ++ [c]) (rest : Obj) : trimRound (t ++ [c] ++ 0 :: rest) =
    .ok (if c = 47 then .inl (t ++ 0 :: 0 :: rest) else .inr (t ++ [c] ++ 0 :: rest)) := by
  have hlen : rstrLen (t ++ [c] ++ 0 :: rest) 0 = .ok (t.length + 1) := by
    rw [rstrLen, strAt_of_append rfl hnul]
    simp [Except.map]
  have hbyte : byteAt (t ++ [c] ++ 0 :: rest) t.length = .ok c := byteAt_eq (by simp)
  simp only [trimRound, bind]
  rw [hlen, ok_bind, show ((t.length + 1 : Nat) : Int) - 1 = t.length by omega, hbyte, ok_bind]
  split
  · rw [List.append_assoc, List.singleton_append, store_char, ok_bind]
    rfl
  · rfl

theorem trimLoop_halts (hnul : 0 ∉ text) (hne : text.rdropWhile (· = 47) ≠ []) (rest : Obj) :
    Halts (fun fuel => loop .outOfFuel trimRound fuel (text ++ 0 :: rest)) fun mem =>
      ∃ rest', mem = text.rdropWhile (· = 47) ++ 0 :: rest' ∧ mem.length = (text ++ 0 :: rest).length := by
  induction text using List.reverseRecOn generalizing rest with
  | nil => exact absurd rfl hne
  | append_singleton t c ih =>
    have hround := trimRound_concat hnul rest
    by_cases hc : c = 47
    · rw [if_pos hc] at hround
      rw [List.rdropWhile_concat_pos _ _ _ (by simp [hc])] at hne ⊢
      refine Halts.again hround ((ih (fun hmem => hnul (by simp [hmem])) hne (0 :: rest)).mono ?_)
      rintro mem ⟨rest', hmem, hsize⟩
      exact ⟨rest', hmem, by simpa using hsize⟩
    · rw [if_neg hc] at hround
      rw [List.rdropWhile_concat_neg _ _ _ (by simp [hc])]
      exact Halts.leave hround ⟨rest, rfl, rfl⟩

/-- It gets to the byte before the string. -/
theorem trimLoop_nil (hnul : 0 ∉ text) (hnil : text.rdropWhile (· = 47) = []) (rest : Obj) (fuel : Nat) :
    (loop .outOfFuel trimRound fuel (text ++ 0 :: rest)).Returns fun _ => False := by
  refine Returns.loop (I := fun mem => ∃ u rest', mem = u ++ 0 :: rest' ∧ 0 ∉ u ∧ ∀ c ∈ u, c = 47) ?_
    ⟨text, rest, rfl, hnul, by simpa using hnil⟩ fuel
  rintro _ ⟨u, rest', rfl, hnul, hall⟩
  induction u using List.reverseRecOn with
  | nil =>
    rw [List.nil_append, trimRound_nil]
    exact Returns.error
  | append_singleton u c ih =>
    rw [trimRound_concat hnul, if_pos (hall c (by simp))]
    exact Returns.ok ⟨u, 0 :: rest', rfl, fun hmem => hnul (by simp [hmem]), fun d hd => hall d (by simp [hd])⟩

/-! ### The normal form -/

abbrev normPath (chars : Obj) : Obj := norm 47 92 chars

theorem zero_not_mem_unslash (hnul : 0 ∉ chars) : 0 ∉ unslash 47 92 chars := fun hmem =>
  (mem_unslash hmem).elim (by decide) hnul

theorem zero_not_mem_normPath (hnul : 0 ∉ chars) : 0 ∉ normPath chars := fun hmem =>
  zero_not_mem_unslash hnul ((List.rdropWhile_prefix _ _).subset hmem)

theorem back_not_mem_normPath (chars : Obj) : 92 ∉ normPath chars := back_not_mem_norm (by decide) chars

theorem rfileFormatPath_halts (hnul : 0 ∉ chars) (hfit : SegsFit chars) (hne : normPath chars ≠ []) (rest : Obj) :
    Halts (fun fuel => rfileFormatPath fuel (chars ++ 0 :: rest)) fun mem =>
      ∃ rest', mem = normPath chars ++ 0 :: rest' ∧ mem.length = (chars ++ 0 :: rest).length := by
  refine Halts.bind (formatLoop_halts hnul hfit rest) ?_
  rintro mem ⟨rest', rfl, hsize⟩
  refine (trimLoop_halts (zero_not_mem_unslash hnul) hne rest').mono ?_
  rintro mem ⟨rest'', rfl, hsize'⟩
  exact ⟨rest'', rfl, hsize'.trans hsize⟩

theorem rfileFormatPath_mono {n m : Nat} {filePath mem : Obj} (h : rfileFormatPath n filePath = .ok mem) (hle : n ≤ m) :
    rfileFormatPath m filePath = .ok mem := by
  obtain ⟨slashed, hformat, htrim⟩ := of_bind_ok h
  rw [rfileFormatPath, loop_mono hformat hle]
  exact loop_mono htrim hle

theorem rfileFormatPath_returns (hnul : 0 ∉ chars) (hfit : SegsFit chars) (hne : normPath chars ≠ []) (rest : Obj) (fuel : Nat) :
    (rfileFormatPath fuel (chars ++ 0 :: rest)).Returns fun mem =>
      ∃ rest', mem = normPath chars ++ 0 :: rest' ∧ mem.length = (chars ++ 0 :: rest).length :=
  (rfileFormatPath_halts hnul hfit hne rest).returns_of_mono (fun _ _ _ hn hle => rfileFormatPath_mono hn hle) fuel

theorem rfileFormatPath_nil (hnul : 0 ∉ chars) (hfit : SegsFit chars) (hnil : normPath chars = []) (rest : Obj) (fuel : Nat) :
    (rfileFormatPath fuel (chars ++ 0 :: rest)).Returns fun _ => False := by
  refine Returns.bind ((formatLoop_halts hnul hfit rest).loop_returns fuel) ?_
  rintro mem ⟨rest', rfl, -⟩
  exact trimLoop_nil (zero_not_mem_unslash hnul) hnil rest' fuel

theorem rfileFormatPath_long (hnul : 0 ∉ chars) (hlong : ¬ SegsFit chars) (rest : Obj) (fuel : Nat) :
    (rfileFormatPath fuel (chars ++ 0 :: rest)).Returns fun mem => ∃ t, strAt mem 0 = .ok t ∧ 92 ∈ t := by
  refine Returns.bind (formatLoop_long hnul hlong rest fuel) ?_
  rintro mem ⟨text, rest', rfl, hnul, hmem⟩
  have hback : 92 ∈ text.rdropWhile (· = 47) := by
    obtain ⟨k, hk⟩ : ∃ k, text = text.rdropWhile (· = 47) ++ List.replicate k 47 := rdropWhile_append_replicate text
    rw [hk, List.mem_append] at hmem
    exact hmem.resolve_right fun hrep => absurd (List.eq_of_mem_replicate hrep) (by decide)
  refine ((trimLoop_halts hnul (List.ne_nil_of_mem hback) rest').loop_returns fuel).mono ?_
  rintro mem ⟨rest'', rfl, -⟩
  exact ⟨_, strAt_of_append rfl fun hzero => hnul ((List.rdropWhile_prefix _ _).subset hzero), hback⟩

/-- The string that a call leaves is a normal form of `s`, and another call leaves it as it is. -/
def PathLaw (s : CStr) : Prop :=
  Halts (fun fuel => rfileFormatPath fuel s.obj) fun mem => ∃ t, strAt mem 0 = .ok t ∧ 92 ∉ t ∧ t.getLast? ≠ some 47 ∧
    (∃ k, unslash 47 92 s.chars = t ++ List.replicate k 47) ∧
    Halts (fun fuel => rfileFormatPath fuel mem) fun mem' => strAt mem' 0 = .ok t

theorem pathLaw_of (hfit : SegsFit s.chars) (hne : normPath s.chars ≠ []) : PathLaw s := by
  have hnul := zero_not_mem_normPath s.noNul
  have hback := back_not_mem_normPath s.chars
  have hlast : (normPath s.chars).getLast? ≠ some 47 := norm_getLast s.chars
  refine (rfileFormatPath_halts s.noNul hfit hne []).mono ?_
  rintro mem ⟨rest, rfl, -⟩
  refine ⟨normPath s.chars, strAt_of_append rfl hnul, hback, hlast, (eq_norm_iff hlast).mpr rfl, ?_⟩
  have hagain : normPath (normPath s.chars) = normPath s.chars := norm_norm (by decide) s.chars
  refine (rfileFormatPath_halts hnul (segsFit_of_not_mem hback) (by rwa [hagain]) rest).mono ?_
  rintro mem ⟨rest', rfl, -⟩
  rw [hagain]
  exact strAt_of_append rfl hnul

/-- `rfile_format_path` does what it should to the strings with a character that is no separator, in which every backslash
is within reach of an `int`. -/
theorem pathLaw_iff (s : CStr) : PathLaw s ↔ (∃ c ∈ s.chars, c ≠ 47 ∧ c ≠ 92) ∧ SegsFit s.chars := by
  have hne : normPath s.chars ≠ [] ↔ ∃ c ∈ s.chars, c ≠ 47 ∧ c ≠ 92 := by
    rw [Ne, norm_eq_nil_iff]
    simp
  rw [← hne]
  refine ⟨?_, fun h => pathLaw_of h.2 h.1⟩
  rintro ⟨mem, ⟨fuel, hrun⟩, t, ht, hback, -⟩
  have hrun := hrun fuel (Nat.le_refl fuel)
  have hfit : SegsFit s.chars := by
    by_contra hlong
    obtain ⟨u, hu, hmem⟩ := rfileFormatPath_long s.noNul hlong [] fuel mem hrun
    exact hback (Except.ok.inj (ht.symm.trans hu) ▸ hmem)
  exact ⟨fun hnil => rfileFormatPath_nil s.noNul hfit hnil [] fuel mem hrun, hfit⟩

/-- "d:\temp\\test\" -/
example : rfileFormatPath 20 [100, 58, 92, 116, 101, 109, 112, 92, 92, 116, 101, 115, 116, 92, 0] =
    .ok [100, 58, 47, 116, 101, 109, 112, 47, 116, 101, 115, 116, 0, 0, 0] := by decide

/-- "/". -/
theorem format_path_root : ¬ ∀ s : CStr, PathLaw s := by
  intro h
  obtain ⟨mem, ⟨fuel, hrun⟩, -⟩ := h ⟨[47], by decide, by decide⟩
  exact rfileFormatPath_nil (by decide) (segsFit_of_not_mem (by decide)) (by decide) [] fuel mem (hrun fuel (Nat.le_refl fuel))

end Funra
