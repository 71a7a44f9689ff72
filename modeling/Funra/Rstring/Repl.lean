import Funra.Rstring.Buffer

/-!
# Replacing

`rstr_repl` copies what lies before each occurrence of the old string, and the new string, into a growing buffer, until
the search behind the last occurrence finds no other. Up to 2^30 bytes the counts are exact and every access is inside
the buffer (`rstrRepl_replaceAll`); no buffer is longer than 2^31 + 1 bytes (`rstrRepl_returns`).
-/

namespace Funra

open Mem CInt Except Words

/-- `src` is an offset into the source. -/
structure RstrRepl where
  buf : RstrBuf
  bufPos : Int
  src : Nat
  findIndex : Int

def replRound (M : Malloc) (src oldStr : CStr) (newStr : Obj) (oldLen newLen : Nat) (s : RstrRepl) :
    Except Fault (RstrRepl ⊕ RstrRepl) :=
  if 0 ≤ s.findIndex then do
    let need := sizeT (int32 (s.bufPos + s.findIndex) + newLen)
    let buf ← s.buf.room M (fun size => need < sizeT size) (fun size => sizeT size < need) s.bufPos
    let ext ← store buf.ext s.bufPos (← Mem.load src.obj s.src s.findIndex)
    let ext ← store ext (s.bufPos + s.findIndex) (← Mem.load newStr 0 newLen)
    let next := s.src + sizeT (s.findIndex + oldLen)
    return .inl ⟨{ buf with ext }, int32 (s.bufPos + sizeT (s.findIndex + newLen)), next,
      ← rstrIndex src.obj next oldStr⟩
  else .ok (.inr s)

/-- What lies behind the last occurrence. Here the sizes are compared as `int`. -/
def replLast (M : Malloc) (src : CStr) (s : RstrRepl) : Except Fault RstrRepl := do
  if (← strAt src.obj s.src) ≠ [] then
    let lastLen := int32 (← rstrLen src.obj s.src)
    let need := int32 (s.bufPos + lastLen)
    let buf ← s.buf.room M (fun size => need < size) (fun size => size < need) s.bufPos
    let ext ← store buf.ext s.bufPos (← Mem.load src.obj s.src lastLen)
    return { s with buf := { buf with ext }, bufPos := need }
  else return s

def rstrRepl (M : Malloc) (fuel : Nat) (src oldStr newStr : Option CStr) : Except Fault Obj :=
  match src, oldStr with
  | some src, some oldStr => do
    let newStr := newStr.elim rstrEmpty CStr.obj
    let oldLen ← rstrLen oldStr.obj 0
    let newLen ← rstrLen newStr 0
    let s ← loop .outOfFuel (replRound M src oldStr newStr oldLen newLen) fuel
      ⟨.init M, 0, 0, ← rstrIndex src.obj 0 oldStr⟩
    let s ← replLast M src s
    s.buf.finish M s.bufPos
  | _, _ => .ok rstrEmpty

variable {M : Malloc} {src oldStr newStr : CStr} {s : RstrRepl} {text result : Obj}

theorem rstrIndex_none (hold : oldStr.chars ≠ []) {n : Nat} (hn : n ≤ src.chars.length)
    (h : (occurrences oldStr.chars src.chars).find? (n ≤ ·) = none) : rstrIndex src.obj n oldStr = .ok (-1) := by
  rw [rstrIndex, strstr_obj hn, search_drop hold, h]
  rfl

/-- The first occurrence from `n` on. -/
theorem rstrIndex_some (hold : oldStr.chars ≠ []) {n k : Nat} (hn : n ≤ src.chars.length)
    (h : (occurrences oldStr.chars src.chars).find? (n ≤ ·) = some (n + k)) :
    rstrIndex src.obj n oldStr = .ok (int32 k) := by
  rw [rstrIndex, strstr_obj hn, search_drop hold, h]
  simp only [Option.map_some, bind, Except.bind, pure, Except.pure, Nat.cast_add, add_sub_cancel_left,
    Nat.add_sub_cancel_left]

theorem rstrIndex_ok {n : Nat} (hn : n ≤ src.chars.length) (key : CStr) : ∃ index, rstrIndex src.obj n key = .ok index := by
  rw [rstrIndex, strstr_obj hn]
  cases search key.chars (src.chars.drop n) with
  | none => exact ⟨_, rfl⟩
  | some p => exact ⟨_, rfl⟩

/-- What `cuts` and a new word between the pieces make of the source from `n` on. -/
def replaceFrom (src oldStr newStr : CStr) (n : Nat) : Obj :=
  newStr.chars.intercalate (cuts oldStr.chars.length src.chars n
    (greedy oldStr.chars.length n (occurrences oldStr.chars src.chars)))

/-- The text so far, and what is still to come of the result. -/
structure ReplHolds (src oldStr newStr : CStr) (result : Obj) (s : RstrRepl) (text : Obj) : Prop where
  buf : BufHolds s.buf text
  bufPos : s.bufPos = text.length
  src_le : s.src ≤ src.chars.length
  find : rstrIndex src.obj s.src oldStr = .ok s.findIndex
  result : result = text ++ replaceFrom src oldStr newStr s.src

theorem replaceFrom_none {n : Nat} (h : (occurrences oldStr.chars src.chars).find? (n ≤ ·) = none) :
    replaceFrom src oldStr newStr n = src.chars.drop n := by
  rw [replaceFrom, greedy_none h]
  exact List.intercalate_singleton

theorem replaceFrom_some (hold : oldStr.chars ≠ []) {n p : Nat}
    (h : (occurrences oldStr.chars src.chars).find? (n ≤ ·) = some p) :
    replaceFrom src oldStr newStr n = (src.chars.drop n).take (p - n) ++ newStr.chars ++
      replaceFrom src oldStr newStr (p + oldStr.chars.length) := by
  rw [replaceFrom, greedy_some (List.length_pos_iff.mpr hold) h, cuts,
    List.intercalate_cons_of_ne_nil (cuts_ne_nil _ _ _ _)]
  rfl

theorem sizeT_pow {k : Nat} (hk : k ≤ 22) : sizeT (256 * 2 ^ k : Nat) = 256 * 2 ^ k := by
  have hle : 2 ^ k ≤ 2 ^ 22 := Nat.pow_le_pow_right (by decide) hk
  rw [sizeT_eq, Nat.mod_eq_of_lt (by omega)]

theorem replRound_none (h : ReplHolds src oldStr newStr result s text) (hold : oldStr.chars ≠ [])
    (hfind : (occurrences oldStr.chars src.chars).find? (s.src ≤ ·) = none) (newObj : Obj) (oldLen newLen : Nat) :
    replRound M src oldStr newObj oldLen newLen s = .ok (.inr s) := by
  have hindex := Except.ok.inj (h.find.symm.trans (rstrIndex_none hold h.src_le hfind))
  rw [replRound, hindex, if_neg (by decide)]

theorem replRound_some (h : ReplHolds src oldStr newStr result s text) (hold : oldStr.chars ≠ []) (hsize : result.length < 2 ^ 30)
    {p : Nat} (hfind : (occurrences oldStr.chars src.chars).find? (s.src ≤ ·) = some p) :
    (replRound M src oldStr newStr.obj oldStr.chars.length newStr.chars.length s).Succeeds fun next =>
      ∃ s' text', next = .inl s' ∧ ReplHolds src oldStr newStr result s' text' ∧ s'.src = p + oldStr.chars.length := by
  have hfits := src.fits
  have hpos := List.length_pos_iff.mpr hold
  have hle : s.src ≤ p := by simpa using List.find?_some hfind
  have hin := occurrence_le hold (List.mem_of_find?_eq_some hfind)
  obtain ⟨k, rfl⟩ := Nat.exists_eq_add_of_le hle
  have hpiece : ((src.chars.drop s.src).take k).length = k := by
    rw [List.length_take, List.length_drop]
    omega
  have hresult := h.result
  rw [replaceFrom_some hold hfind, Nat.add_sub_cancel_left] at hresult
  have hlen := congrArg List.length hresult
  simp only [List.length_append, hpiece] at hlen
  have hindex : s.findIndex = k := by
    rw [Except.ok.inj (h.find.symm.trans (rstrIndex_some hold h.src_le hfind))]
    exact int32_of_range (by omega) (by omega)
  have hload : Mem.load src.obj s.src k = .ok ((src.chars.drop s.src).take k) := load_obj (by omega)
  have hn : text.length + k + newStr.chars.length < 2 ^ 30 := by omega
  have htext : text.length ≤ text.length + k + newStr.chars.length := by omega
  have hneed : sizeT (int32 (text.length + k) + newStr.chars.length) = text.length + k + newStr.chars.length := by
    rw [int32_of_range (by omega) (by omega), ← Nat.cast_add, sizeT_add (by omega)]
  have hnext : s.src + sizeT (k + oldStr.chars.length) = s.src + k + oldStr.chars.length := by
    rw [sizeT_add (by omega), Nat.add_assoc]
  have hbufPos : int32 (text.length + (sizeT (k + newStr.chars.length) : Nat)) = (text.length + k + newStr.chars.length : Nat) := by
    rw [sizeT_add (by omega), int32_of_range (by omega) (by omega)]
    omega
  unfold replRound
  dsimp only
  rw [hindex, h.bufPos, if_pos (Int.natCast_nonneg k), hload, show newStr.obj = newStr.chars ++ [0] from rfl, load_text,
    hneed, hnext, hbufPos]
  simp only [bind, ok_bind]
  refine Succeeds.bind (room_spec h.buf (n := text.length + k + newStr.chars.length) ?_ ?_ htext hn) ?_
  · exact fun j hj => by simp only [sizeT_pow hj]
  · exact fun j hj => by simp only [sizeT_pow hj]
  rintro buf ⟨hbuf, hroom⟩
  refine Succeeds.bind (hbuf.store (Nat.lt_of_le_of_lt (by rw [hpiece]; exact Nat.le_add_right _ _) hroom)) ?_
  rintro ext ⟨hext, hextlen⟩
  have hpos : ((text.length : Int) + k) = (text ++ (src.chars.drop s.src).take k).length := by
    rw [List.length_append, hpiece, Nat.cast_add]
  rw [hpos]
  refine Succeeds.bind (hext.store ?_) ?_
  · rw [List.length_append, hpiece]
    dsimp only
    rw [hextlen]
    exact hroom
  rintro ext' ⟨hext', -⟩
  obtain ⟨index, hfound⟩ := rstrIndex_ok hin oldStr
  rw [hfound, ok_bind]
  refine Succeeds.ok ⟨_, _, rfl, ⟨hext', ?_, hin, hfound, ?_⟩, rfl⟩
  · rw [List.length_append, List.length_append, hpiece]
  · rw [hresult, List.append_assoc, List.append_assoc, List.append_assoc]

theorem replLast_spec (h : ReplHolds src oldStr newStr result s text) (hsize : result.length < 2 ^ 30)
    (hnone : (occurrences oldStr.chars src.chars).find? (s.src ≤ ·) = none) :
    (replLast M src s).Succeeds fun s' => BufHolds s'.buf result ∧ s'.bufPos = result.length := by
  have hfits := src.fits
  have hresult := h.result
  rw [replaceFrom_none hnone] at hresult
  unfold replLast
  dsimp only
  rw [strAt_obj h.src_le]
  simp only [bind, ok_bind]
  by_cases hempty : src.chars.drop s.src = []
  · rw [hempty, List.append_nil] at hresult
    rw [if_neg (not_not.mpr hempty), hresult]
    exact Succeeds.ok ⟨h.buf, h.bufPos⟩
  · have hlen := congrArg List.length hresult
    rw [List.length_append, List.length_drop] at hlen
    have hn : text.length + (src.chars.length - s.src) < 2 ^ 30 := by omega
    have hlast : int32 (src.chars.length - s.src : Nat) = (src.chars.length - s.src : Nat) :=
      int32_of_range (by omega) (by omega)
    have hneed : int32 (text.length + (src.chars.length - s.src : Nat)) = (text.length + (src.chars.length - s.src) : Nat) := by
      rw [int32_of_range (by omega) (by omega), Nat.cast_add]
    have hload : Mem.load src.obj s.src (src.chars.length - s.src : Nat) = .ok (src.chars.drop s.src) := by
      have hsrc := h.src_le
      rw [load_obj (by omega), List.take_of_length_le (by rw [List.length_drop])]
    rw [if_pos hempty, rstrLen_obj h.src_le]
    rw [ok_bind, hlast, h.bufPos, hneed, hload]
    refine Succeeds.bind (room_spec h.buf (n := text.length + (src.chars.length - s.src)) ?_ ?_ (Nat.le_add_right _ _) hn) ?_
    · exact fun k _ => decide_eq_decide.mpr Nat.cast_lt
    · exact fun k _ => decide_eq_decide.mpr Nat.cast_lt
    rintro buf ⟨hbuf, hroom⟩
    rw [ok_bind]
    refine Succeeds.bind (hbuf.store (by rw [List.length_drop]; exact hroom)) ?_
    rintro ext ⟨hext, -⟩
    rw [hresult]
    refine Succeeds.ok ⟨hext, ?_⟩
    rw [List.length_append, List.length_drop]

/-- The rounds up to the last occurrence. -/
theorem replRounds_halt (hold : oldStr.chars ≠ []) (hsize : result.length < 2 ^ 30)
    (h : ReplHolds src oldStr newStr result s text) :
    Halts (fun fuel => loop .outOfFuel (replRound M src oldStr newStr.obj oldStr.chars.length newStr.chars.length) fuel s)
      fun s' => (∃ text', ReplHolds src oldStr newStr result s' text') ∧
        (occurrences oldStr.chars src.chars).find? (s'.src ≤ ·) = none := by
  refine Halts.loop (I := fun s => ∃ text, ReplHolds src oldStr newStr result s text)
    (μ := fun s => src.chars.length - s.src) ?_ ⟨text, h⟩
  rintro s ⟨text, h⟩
  cases hfind : (occurrences oldStr.chars src.chars).find? (s.src ≤ ·) with
  | none =>
    rw [replRound_none h hold hfind]
    exact Succeeds.ok ⟨⟨text, h⟩, hfind⟩
  | some p =>
    refine (replRound_some h hold hsize hfind).mono ?_
    rintro _ ⟨s', text', rfl, h', hsrc⟩
    refine ⟨⟨text', h'⟩, ?_⟩
    have hle : s.src ≤ p := by simpa using List.find?_some hfind
    have hin := occurrence_le hold (List.mem_of_find?_eq_some hfind)
    have hpos := List.length_pos_iff.mpr hold
    omega

theorem zero_not_mem_replaceAll (src oldStr newStr : CStr) : 0 ∉ replaceAll oldStr.chars newStr.chars src.chars := by
  intro hmem
  apply zero_not_mem_delimited (cuts_noNul src _ _ (leftmost oldStr.chars src.chars)) newStr
  rw [delimited_eq _ (cuts_ne_nil _ _ _ _)]
  exact List.mem_append_left _ hmem

/-- `new_str` of NULL is the empty string. -/
def newText (newStr : Option CStr) : Obj := newStr.elim [] CStr.chars

theorem exists_newStr (newStr : Option CStr) : ∃ new : CStr, newStr.elim rstrEmpty CStr.obj = new.obj ∧
    newText newStr = new.chars := by
  cases newStr with
  | none => exact ⟨⟨[], by decide, by decide⟩, rfl, rfl⟩
  | some new => exact ⟨new, rfl, rfl⟩

def ReplLaw (M : Malloc) (src oldStr : CStr) (newStr : Option CStr) : Prop :=
  Halts (fun fuel => rstrRepl M fuel (some src) (some oldStr) newStr) fun dest =>
    strAt dest 0 = .ok (replaceAll oldStr.chars (newText newStr) src.chars)

theorem rstrRepl_spec {new : CStr} {newStr : Option CStr} (hobj : newStr.elim rstrEmpty CStr.obj = new.obj)
    (hold : oldStr.chars ≠ []) (hsize : (replaceAll oldStr.chars new.chars src.chars).length < 2 ^ 30) :
    Halts (fun fuel => rstrRepl M fuel (some src) (some oldStr) newStr) fun dest =>
      strAt dest 0 = .ok (replaceAll oldStr.chars new.chars src.chars) := by
  obtain ⟨index, hfind⟩ := rstrIndex_ok (Nat.zero_le src.chars.length) oldStr
  have hstart : ReplHolds src oldStr new (replaceAll oldStr.chars new.chars src.chars) ⟨.init M, 0, 0, index⟩ [] :=
    ⟨BufHolds.init M, rfl, Nat.zero_le _, hfind, rfl⟩
  simp only [rstrRepl, bind]
  rw [hobj, rstrLen_obj (Nat.zero_le _), rstrLen_obj (Nat.zero_le _)]
  simp only [hfind, ok_bind, Nat.sub_zero]
  refine Halts.bind (replRounds_halt hold hsize hstart) ?_
  rintro s ⟨⟨text, h⟩, hnone⟩
  have hend : ((replLast M src s).bind fun s => s.buf.finish M s.bufPos).Succeeds fun dest =>
      strAt dest 0 = .ok (replaceAll oldStr.chars new.chars src.chars) := by
    refine Succeeds.bind (replLast_spec h hsize hnone) ?_
    rintro s' ⟨hbuf, hpos⟩
    rw [hpos]
    exact finish_spec hbuf (zero_not_mem_replaceAll src oldStr new) hsize
  exact hend.halts

/-- Up to 2^30 bytes the result is the source with the leftmost occurrences replaced. -/
theorem replLaw_of_lt (M : Malloc) (src oldStr : CStr) (newStr : Option CStr) (hold : oldStr.chars ≠ [])
    (hsize : (replaceAll oldStr.chars (newText newStr) src.chars).length < 2 ^ 30) : ReplLaw M src oldStr newStr := by
  obtain ⟨new, hobj, htext⟩ := exists_newStr newStr
  rw [ReplLaw, htext]
  exact rstrRepl_spec hobj hold (htext ▸ hsize)

/-- "aba" with "xy" for "a". -/
theorem replLaw_of_lt_aba : ReplLaw Malloc.zeros ⟨[97, 98, 97], by decide, by decide⟩ ⟨[97], by decide, by decide⟩
    (some ⟨[120, 121], by decide, by decide⟩) :=
  replLaw_of_lt Malloc.zeros ⟨[97, 98, 97], by decide, by decide⟩ ⟨[97], by decide, by decide⟩
    (some ⟨[120, 121], by decide, by decide⟩) (by decide) (by decide)

/-! ### Results that are too long -/

theorem rstrNewUint_lt (M : Malloc) (n : Int) : (rstrNewUint M n).length < 4294967296 := by
  rw [rstrNewUint, M.length_block]
  unfold uint32
  omega

theorem expand_returns (more : Int → Bool) (buf : RstrBuf) (pos : Int) :
    (RstrBuf.expand M more buf pos).Returns fun buf' => buf'.ext.length < 4294967296 := by
  unfold RstrBuf.expand
  refine Returns.bind_of_forall fun count => Returns.bind_of_forall fun bytes => ?_
  refine Returns.bind (store_returns _ _ _) fun temp htemp => Returns.ok ?_
  exact htemp.trans_lt (rstrNewUint_lt M _)

/-- No buffer has more bytes than 32 bits count. -/
theorem room_returns {fits more : Int → Bool} {buf : RstrBuf} (h : buf.ext.length < 4294967296) (pos : Int) :
    (RstrBuf.room M fits more buf pos).Returns fun buf' => buf'.ext.length < 4294967296 := by
  rw [RstrBuf.room]
  split
  · exact Returns.ok h
  · exact expand_returns more buf pos

theorem rstrCpy_returns (mem : Obj) (len : Nat) : (rstrCpy M mem len).Returns fun dest => dest.length < 4294967296 := by
  unfold rstrCpy
  refine Returns.bind_of_forall fun n => Returns.bind_of_forall fun bytes => ?_
  refine Returns.bind (store_returns _ _ _) fun copy hcopy => ?_
  refine (store_returns _ _ _).mono fun dest hdest => ?_
  rw [hdest, hcopy]
  exact rstrNewUint_lt M _

theorem replRound_returns {oldLen newLen : Nat} {newObj : Obj} (h : s.buf.ext.length < 4294967296) :
    (replRound M src oldStr newObj oldLen newLen s).Returns
      (Sum.elim (fun s' => s'.buf.ext.length < 4294967296) fun s' => s'.buf.ext.length < 4294967296) := by
  unfold replRound
  split
  · refine Returns.bind (room_returns h _) fun buf hbuf => Returns.bind_of_forall fun piece => ?_
    refine Returns.bind (store_returns _ _ _) fun ext hext => Returns.bind_of_forall fun bytes => ?_
    refine Returns.bind (store_returns _ _ _) fun ext' hext' => Returns.bind_of_forall fun index => Returns.ok ?_
    change ext'.length < 4294967296
    omega
  · exact Returns.ok h

theorem replLast_returns (h : s.buf.ext.length < 4294967296) :
    (replLast M src s).Returns fun s' => s'.buf.ext.length < 4294967296 := by
  unfold replLast
  refine Returns.bind_of_forall fun chars => ?_
  split
  · refine Returns.bind_of_forall fun n => ?_
    refine Returns.bind (room_returns h _) fun buf hbuf => Returns.bind_of_forall fun bytes => ?_
    refine Returns.bind (store_returns _ _ _) fun ext hext => Returns.ok ?_
    change ext.length < 4294967296
    omega
  · exact Returns.ok h

theorem finish_returns {buf : RstrBuf} (h : buf.ext.length < 4294967296) (pos : Int) :
    (RstrBuf.finish M buf pos).Returns fun dest => dest.length < 4294967296 := by
  unfold RstrBuf.finish
  refine Returns.bind (store_returns _ _ _) fun ext hext => ?_
  split
  · exact rstrCpy_returns ext 0
  · exact Returns.ok (hext.trans_lt h)

theorem rstrRepl_returns (fuel : Nat) (newStr : Option CStr) :
    (rstrRepl M fuel (some src) (some oldStr) newStr).Returns fun dest => dest.length < 4294967296 := by
  simp only [rstrRepl, bind]
  refine Returns.bind_of_forall fun oldLen => Returns.bind_of_forall fun newLen => Returns.bind_of_forall fun index => ?_
  have hstart : (RstrBuf.init M).ext.length < 4294967296 := by
    rw [show (RstrBuf.init M).ext.length = 256 from M.length_block 256]
    decide
  refine Returns.bind (Returns.loop (I := fun s => s.buf.ext.length < 4294967296)
    (fun s hs => replRound_returns hs) hstart fuel) fun s hs => ?_
  exact Returns.bind (replLast_returns hs) fun s' hs' => finish_returns hs' _

/-- A short source, and a string of 2^30 - 16 bytes for each of its five characters. -/
theorem repl_long_result : ¬ ∀ (M : Malloc) (src oldStr : CStr) (newStr : Option CStr), oldStr.chars ≠ [] →
    src.chars.length + oldStr.chars.length + (newText newStr).length < 2 ^ 30 → ReplLaw M src oldStr newStr := by
  intro h
  obtain ⟨long, hlong⟩ : ∃ long : CStr, long.chars.length = 1073741808 := by
    refine ⟨⟨List.replicate 1073741808 98, fun hmem => ?_, ?_⟩, List.length_replicate⟩
    · exact absurd (List.eq_of_mem_replicate hmem) (by decide)
    · rw [List.length_replicate]
      decide
  obtain ⟨dest, ⟨fuel, hrun⟩, htext⟩ := h Malloc.zeros ⟨[97, 97, 97, 97, 97], by decide, by decide⟩
    ⟨[97], by decide, by decide⟩ (some long) (by decide) (by
      change 5 + 1 + long.chars.length < 2 ^ 30
      omega)
  have hpieces : pieces [97] ([97, 97, 97, 97, 97] : Obj) = [[], [], [], [], [], []] := by decide
  have hlen : (replaceAll [97] long.chars [97, 97, 97, 97, 97]).length = 5 * long.chars.length := by
    rw [replaceAll, hpieces]
    simp only [List.intercalate_cons_cons, List.intercalate_singleton, List.length_append, List.length_nil]
    omega
  have hlt := strAt_lt htext
  have hdest := rstrRepl_returns fuel (some long) dest (hrun fuel (Nat.le_refl fuel))
  change 0 + (replaceAll [97] long.chars [97, 97, 97, 97, 97]).length < dest.length at hlt
  omega

end Funra
