import Funra.Rstring.Concat

/-!
# Growing buffers

`rstr_repl` and `rstr_join` build their result in an array of 256 bytes. Where it becomes too small, a block of twice
the size takes its place, or of the first power of two times 256 that is not below what is needed; a block has one byte
more, so that a text that fills it has a terminator (`BufHolds`). Sizes are products of type `int`. From the 32nd
doubling on the count is zero.
-/

namespace Funra

open Mem CInt Except

/-- `buf_ext` and `expand_count`. -/
structure RstrBuf where
  ext : Obj
  expandCount : Int

namespace RstrBuf

/-- The array, with the bytes that are found there. -/
def init (M : Malloc) : RstrBuf := ⟨M.block 256, 1⟩

/-- `max_len * expand_count`. -/
def size (expandCount : Int) : Int := int32 (256 * expandCount)

def doubleRound (more : Int → Bool) (expandCount : Int) : Except Fault (Int ⊕ Int) :=
  let expandCount := int32 (expandCount * 2)
  .ok (if more (size expandCount) then .inl expandCount else .inr expandCount)

/-- The `do` loop, and the new block with a copy of the first `pos` bytes. -/
def expand (M : Malloc) (more : Int → Bool) (buf : RstrBuf) (pos : Int) : Except Fault RstrBuf := do
  let expandCount ← loop .outOfFuel (doubleRound more) 33 buf.expandCount
  let temp ← store (rstrNewUint M (size expandCount)) 0 (← Mem.load buf.ext 0 pos)
  return ⟨temp, expandCount⟩

/-- The buffer to write behind `pos`: the same one where `fits` holds of its size. -/
def room (M : Malloc) (fits more : Int → Bool) (buf : RstrBuf) (pos : Int) : Except Fault RstrBuf :=
  if fits (size buf.expandCount) then .ok buf else expand M more buf pos

/-- The end of both functions. -/
def finish (M : Malloc) (buf : RstrBuf) (pos : Int) : Except Fault Obj := do
  let ext ← store buf.ext pos [0]
  if buf.expandCount = 1 then rstrCpy M ext 0 else return ext

end RstrBuf

/-- The text is in the buffer, with room for a terminator. -/
structure BufHolds (buf : RstrBuf) (text : Obj) : Prop where
  count : ∃ k ≤ 22, buf.expandCount = (2 ^ k : Nat) ∧ 256 * 2 ^ k ≤ buf.ext.length
  holds : text <+: buf.ext
  lt : text.length < buf.ext.length

variable {M : Malloc} {fits more : Int → Bool} {buf : RstrBuf} {text bs : Obj} {n k : Nat}

theorem size_pow (hk : k ≤ 22) : RstrBuf.size (2 ^ k : Nat) = (256 * 2 ^ k : Nat) := by
  have hle : 2 ^ k ≤ 2 ^ 22 := Nat.pow_le_pow_right (by decide) hk
  generalize 2 ^ k = p at hle ⊢
  rw [RstrBuf.size, int32_of_range (by omega) (by omega)]
  omega

theorem BufHolds.init (M : Malloc) : BufHolds (RstrBuf.init M) [] := by
  have hlen : (RstrBuf.init M).ext.length = 256 := M.length_block 256
  exact ⟨⟨0, by decide, rfl, hlen.ge⟩, List.nil_prefix, by rw [hlen]; decide⟩

/-- The loop ends with the first power of two that is large enough. -/
theorem double_spec (hmore : ∀ k ≤ 22, more (256 * 2 ^ k : Nat) = decide (256 * 2 ^ k < n)) (hn : n ≤ 2 ^ 30)
    {rounds : Nat} (hk : k < 22) (hrounds : 22 ≤ k + rounds) :
    (loop .outOfFuel (RstrBuf.doubleRound more) rounds (2 ^ k : Nat)).Succeeds fun count =>
      ∃ j ≤ 22, count = (2 ^ j : Nat) ∧ n ≤ 256 * 2 ^ j := by
  induction rounds generalizing k with
  | zero => omega
  | succ rounds ih =>
    have hnext : int32 ((2 ^ k : Nat) * 2) = (2 ^ (k + 1) : Nat) := by
      have hle : 2 ^ k ≤ 2 ^ 21 := Nat.pow_le_pow_right (by decide) (by omega)
      rw [Nat.pow_succ]
      generalize 2 ^ k = p at hle ⊢
      rw [int32_of_range (by omega) (by omega)]
      omega
    have hround : RstrBuf.doubleRound more (2 ^ k : Nat) = .ok (if 256 * 2 ^ (k + 1) < n then .inl (2 ^ (k + 1) : Nat) else
        .inr (2 ^ (k + 1) : Nat)) := by
      rw [RstrBuf.doubleRound, hnext, size_pow (by omega), hmore (k + 1) (by omega)]
      simp only [decide_eq_true_eq]
    by_cases hlt : 256 * 2 ^ (k + 1) < n
    · rw [if_pos hlt] at hround
      rw [loop_again hround]
      refine ih ?_ (by omega)
      by_contra hge
      have hle : 2 ^ 22 ≤ 2 ^ (k + 1) := Nat.pow_le_pow_right (by decide) (by omega)
      omega
    · rw [if_neg hlt] at hround
      rw [loop_leave hround]
      exact Succeeds.ok ⟨k + 1, hk, rfl, not_lt.mp hlt⟩

theorem rstrNewUint_length (M : Malloc) (hk : k ≤ 22) :
    (rstrNewUint M (RstrBuf.size (2 ^ k : Nat))).length = 256 * 2 ^ k + 1 := by
  have hle : 2 ^ k ≤ 2 ^ 22 := Nat.pow_le_pow_right (by decide) hk
  rw [rstrNewUint, M.length_block, size_pow hk, uint32_of_range (by omega) (by omega)]
  omega

/-- The first bytes of a text are read where the text is. -/
theorem load_prefix {mem : Obj} (h : text <+: mem) : Mem.load mem 0 text.length = .ok text := by
  obtain ⟨rest, rfl⟩ := h
  exact load_text

theorem bufExpand_spec (h : BufHolds buf text) (hlarge : ∀ k ≤ 22, buf.expandCount = (2 ^ k : Nat) → 256 * 2 ^ k ≤ n)
    (hmore : ∀ k ≤ 22, more (256 * 2 ^ k : Nat) = decide (256 * 2 ^ k < n)) (htext : text.length ≤ n) (hn : n < 2 ^ 30) :
    (RstrBuf.expand M more buf text.length).Succeeds fun buf' => BufHolds buf' text ∧ n < buf'.ext.length := by
  obtain ⟨k, hk, hcount, -⟩ := h.count
  have hsmall := hlarge k hk hcount
  have hk' : k < 22 := by
    by_contra hge
    have hle : 2 ^ 22 ≤ 2 ^ k := Nat.pow_le_pow_right (by decide) (not_lt.mp hge)
    omega
  unfold RstrBuf.expand
  rw [hcount, load_prefix h.holds]
  simp only [bind, Except.bind]
  refine Succeeds.bind (double_spec hmore hn.le hk' (by omega)) ?_
  rintro count ⟨j, hj, rfl, hle⟩
  have hlen := rstrNewUint_length M hj
  refine Succeeds.bind (store_append (t := []) List.nil_prefix (by rw [hlen, List.length_nil]; omega)) fun temp htemp => ?_
  rw [List.nil_append, hlen] at htemp
  refine Succeeds.ok ⟨⟨⟨j, hj, rfl, ?_⟩, htemp.1, ?_⟩, ?_⟩
  · dsimp only
    omega
  · dsimp only
    omega
  · dsimp only
    omega

/-- Behind the text there is room for `n` bytes in all and the terminator. -/
theorem room_spec (h : BufHolds buf text)
    (hfits : ∀ k ≤ 22, fits (256 * 2 ^ k : Nat) = decide (n < 256 * 2 ^ k))
    (hmore : ∀ k ≤ 22, more (256 * 2 ^ k : Nat) = decide (256 * 2 ^ k < n)) (htext : text.length ≤ n) (hn : n < 2 ^ 30) :
    (RstrBuf.room M fits more buf text.length).Succeeds fun buf' => BufHolds buf' text ∧ n < buf'.ext.length := by
  obtain ⟨k, hk, hcount, hlen⟩ := h.count
  rw [RstrBuf.room, hcount, size_pow hk, hfits k hk]
  by_cases hlt : n < 256 * 2 ^ k
  · rw [if_pos (by simpa using hlt)]
    exact Succeeds.ok ⟨h, by omega⟩
  · rw [if_neg (by simpa using hlt)]
    refine bufExpand_spec h (fun k' _ hcount' => ?_) hmore htext hn
    rw [hcount] at hcount'
    have heq : 2 ^ k = 2 ^ k' := by exact_mod_cast hcount'
    omega

/-- The text grows by what is written behind it. -/
theorem BufHolds.store (h : BufHolds buf text) (hlt : text.length + bs.length < buf.ext.length) :
    (Mem.store buf.ext text.length bs).Succeeds fun ext => BufHolds ⟨ext, buf.expandCount⟩ (text ++ bs) ∧
      ext.length = buf.ext.length := by
  refine (store_append h.holds hlt.le).mono fun ext hext => ?_
  refine ⟨⟨?_, hext.1, ?_⟩, hext.2⟩
  · rw [hext.2]
    exact h.count
  · rw [hext.2, List.length_append]
    exact hlt

theorem rstrCpy_spec {mem : Obj} (h : text ++ [0] <+: mem) (hnul : 0 ∉ text) (hlen : text.length < 4294967295) :
    (rstrCpy M mem 0).Succeeds fun dest => strAt dest 0 = .ok text := by
  have hstr : rstrLen mem 0 = .ok text.length := by
    rw [rstrLen, strAt_of_prefix h hnul]
    rfl
  have hnew : (rstrNewUint M text.length).length = text.length + 1 := by
    rw [rstrNewUint, M.length_block, uint32_of_range (by omega) (by omega)]
    omega
  have hcount : (uint32 text.length).toNat = text.length := by
    rw [uint32_of_range (by omega) (by omega), Int.toNat_natCast]
  unfold rstrCpy
  rw [hstr]
  simp only [bind, Except.bind]
  rw [hcount, if_neg (by omega), load_prefix ((List.prefix_append text [0]).trans h)]
  refine Succeeds.bind (store_append (t := []) List.nil_prefix (by rw [hnew, List.length_nil]; omega)) fun dest hdest => ?_
  refine (store_append (b := [0]) hdest.1 ?_).mono fun dest' hdest' => strAt_of_prefix hdest'.1 hnul
  rw [hdest.2, hnew]
  exact Nat.le_refl _

theorem finish_spec (h : BufHolds buf text) (hnul : 0 ∉ text) (hlen : text.length < 2 ^ 30) :
    (RstrBuf.finish M buf text.length).Succeeds fun dest => strAt dest 0 = .ok text := by
  unfold RstrBuf.finish
  refine Succeeds.bind (store_append (b := [0]) h.holds h.lt) fun ext hext => ?_
  have htext := strAt_of_prefix hext.1 hnul
  split
  · exact rstrCpy_spec hext.1 hnul (by omega)
  · exact Succeeds.ok htext

/-! ### Joining -/

structure RstrJoin where
  buf : RstrBuf
  pos : Int

def joinRound (M : Malloc) (temp : Obj) (s : RstrJoin) : Except Fault RstrJoin := do
  let tempLen := int32 (← rstrLen temp 0)
  let pos := int32 (s.pos + tempLen)
  let buf ← s.buf.room M (fun size => pos < size) (fun size => size < pos) (int32 (pos - tempLen))
  let ext ← store buf.ext (pos - tempLen) (← Mem.load temp 0 tempLen)
  return ⟨{ buf with ext }, pos⟩

/-- The arguments are read as the strings of an array are, up to `rstr_array_end`. -/
def rstrJoin (M : Malloc) (args : List (Option Obj)) : Except Fault Obj := do
  let s ← rstrArrayFor (joinRound M) args ⟨.init M, 0⟩
  s.buf.finish M s.pos

structure JoinHolds (s : RstrJoin) (text : Obj) : Prop where
  buf : BufHolds s.buf text
  pos : s.pos = text.length

theorem joinRound_spec {s : RstrJoin} {t : Obj} (h : JoinHolds s text) (hnul : 0 ∉ t) (hn : text.length + t.length < 2 ^ 30) :
    (joinRound M (t ++ [0]) s).Succeeds fun s' => JoinHolds s' (text ++ t) := by
  have hlen : int32 t.length = t.length := int32_of_range (by omega) (by omega)
  have hpos : int32 (s.pos + t.length) = (text.length + t.length : Nat) := by
    rw [h.pos, int32_of_range (by omega) (by omega), Nat.cast_add]
  have hback : ((text.length + t.length : Nat) : Int) - t.length = text.length := by omega
  unfold joinRound
  dsimp only
  rw [rstrLen_text hnul]
  simp only [bind, ok_bind]
  rw [hlen, hpos, hback, int32_of_range (by omega) (by omega), load_text]
  refine Succeeds.bind (room_spec h.buf (n := text.length + t.length) ?_ ?_ (by omega) hn) fun buf hbuf => ?_
  · exact fun k _ => decide_eq_decide.mpr Nat.cast_lt
  · exact fun k _ => decide_eq_decide.mpr Nat.cast_lt
  rw [ok_bind]
  refine Succeeds.bind (hbuf.1.store hbuf.2) fun ext hext => ?_
  exact Succeeds.ok ⟨hext.1, by rw [List.length_append]⟩

theorem joinRounds_spec {s : RstrJoin} {ts : List Obj} (h : JoinHolds s text) (hnul : ∀ t ∈ ts, 0 ∉ t)
    (hn : text.length + ts.flatten.length < 2 ^ 30) :
    (rstrArrayFor (joinRound M) (rstrArray ts) s).Succeeds fun s' => JoinHolds s' (text ++ ts.flatten) := by
  induction ts generalizing s text with
  | nil =>
    rw [List.flatten_nil, List.append_nil]
    exact Succeeds.ok h
  | cons t ts ih =>
    rw [List.flatten_cons, List.length_append] at hn
    refine Succeeds.bind (joinRound_spec h (hnul t List.mem_cons_self) (by omega)) fun s' hs' => ?_
    rw [List.flatten_cons, ← List.append_assoc]
    refine ih hs' (fun t' ht' => hnul t' (List.mem_cons_of_mem t ht')) ?_
    rw [List.length_append]
    omega

/-- No access is outside a buffer, and the result is the concatenation. -/
theorem rstrJoin_concat (M : Malloc) (ts : List CStr) (htotal : (ts.map fun t => t.chars.length).sum < 2 ^ 30) :
    (rstrJoin M (rstrArray (ts.map CStr.chars))).Succeeds fun dest =>
      strAt dest 0 = .ok (ts.map CStr.chars).flatten := by
  have hnul : ∀ t ∈ ts.map CStr.chars, 0 ∉ t := by
    intro t ht
    obtain ⟨s, -, rfl⟩ := List.mem_map.mp ht
    exact s.noNul
  have hlen : (ts.map CStr.chars).flatten.length = (ts.map fun t => t.chars.length).sum := by
    rw [List.length_flatten, List.map_map]
    rfl
  have hstart : JoinHolds ⟨.init M, 0⟩ [] := ⟨BufHolds.init M, rfl⟩
  unfold rstrJoin
  refine Succeeds.bind (joinRounds_spec hstart hnul (by rw [hlen, List.length_nil]; omega)) fun s hs => ?_
  rw [List.nil_append] at hs
  rw [hs.pos]
  refine finish_spec hs.buf ?_ (by omega)
  intro hmem
  obtain ⟨t, ht, hzero⟩ := List.mem_flatten.mp hmem
  exact hnul t ht hzero

/-- Only the string counts that the object holds. -/
theorem rstrJoin_string {temp t : Obj} (h : strAt temp 0 = .ok t) (hlen : t.length < 2147483648) (M : Malloc)
    (args : List (Option Obj)) :
    rstrJoin M (some temp :: args) = rstrJoin M (some (t ++ [0]) :: args) := by
  obtain ⟨-, hpre, hnul⟩ := strAt_eq h
  rw [List.drop_zero] at hpre
  have hround : joinRound M temp = joinRound M (t ++ [0]) := by
    funext s
    unfold joinRound
    have hdata : rstrLen temp 0 = .ok t.length := by
      rw [rstrLen, h]
      rfl
    rw [hdata, rstrLen_text hnul]
    simp only [bind, ok_bind]
    rw [show int32 t.length = t.length from int32_of_range (by omega) (by omega), load_text, load_prefix hpre]
  unfold rstrJoin rstrArrayFor
  rw [hround]

/-- The result of a call is joined with more strings. -/
theorem rstrJoin_behind {temp t : Obj} (h : strAt temp 0 = .ok t) (ts : List CStr)
    (htotal : t.length + (ts.map fun t => t.chars.length).sum < 2 ^ 30)
    (M : Malloc) : (rstrJoin M (some temp :: rstrArray (ts.map CStr.chars))).Succeeds fun dest =>
      strAt dest 0 = .ok (t ++ (ts.map CStr.chars).flatten) := by
  rw [rstrJoin_string h (by omega)]
  exact rstrJoin_concat M (⟨t, (strAt_eq h).2.2, by omega⟩ :: ts) htotal

/-- "ab" and "c". -/
theorem rstrJoin_concat_abc : (rstrJoin Malloc.zeros (rstrArray [[97, 98], [99]])).Succeeds fun dest =>
    strAt dest 0 = .ok [97, 98, 99] :=
  rstrJoin_concat Malloc.zeros [⟨[97, 98], by decide, by decide⟩, ⟨[99], by decide, by decide⟩] (by decide)

end Funra
