import Funra.Rbuffer.Basic
import Mathlib.Tactic.Lift

/-!
# What the buffer operations do to the unread bytes

One specification for each operation of `rbuffer.c`, on a well-formed buffer: which bytes are unread
afterwards, where the cursors are, and that the call stays inside the block. `read_ok` and `put_spec`
carry the rest: a read takes a prefix of the unread bytes, a write appends a prefix of its argument,
and only a full buffer is rewound.
-/

namespace Funra

open CInt Mem

namespace Rbuffer

variable {d : Rbuffer}

/-! ### Consequences of the invariant -/

theorem Wf.size_nonneg (h : d.Wf) : 0 ≤ d.size := by
  have := h.offset_le_pos
  unfold size
  omega

theorem Wf.left_nonneg (h : d.Wf) : 0 ≤ d.left := by
  have := h.pos_le_capacity
  unfold left
  omega

theorem Wf.size_add_left (h : d.Wf) : d.size + d.left ≤ d.capacity := by
  have := h.offset_nonneg
  unfold size left
  omega

theorem Wf.length_unread (h : d.Wf) : (d.unread.length : Int) = d.size := by
  obtain ⟨h1, h2, h3, h4, h5⟩ := h
  simp only [unread, window_length, size]
  omega

theorem Wf.unread_eq_nil (h : d.Wf) (hs : d.size = 0) : d.unread = [] := by
  have := h.length_unread
  rw [← List.length_eq_zero_iff]
  omega

theorem create_wf {c : Int} {block : Obj} (hc : 0 ≤ c) (hlt : c < 2147483648)
    (hb : block.length = c) : (create c block).Wf :=
  ⟨by simp [create], by simp [create], hc, hlt, hb⟩

@[simp] theorem unread_create (c : Int) (block : Obj) : (create c block).unread = [] := by
  simp [create, unread, size, window]

/-! ### `rbuffer_read` -/

theorem advance_capacity (d : Rbuffer) (k : Int) : (d.advance k).capacity = d.capacity := by
  simp only [advance]
  split <;> rfl

theorem advance_wf (h : d.Wf) {k : Int} (h0 : 0 ≤ k) (hk : k ≤ d.size) : (d.advance k).Wf := by
  obtain ⟨h1, h2, h3, h4, h5⟩ := h
  unfold size at hk
  simp only [advance, isEmpty, beq_iff_eq]
  by_cases hdrained : d.pos = d.offset + k
  · rw [if_pos hdrained]
    exact ⟨le_refl _, le_refl _, by dsimp only; omega, h4, h5⟩
  · rw [if_neg hdrained]
    exact ⟨by dsimp only; omega, by dsimp only; omega, h3, h4, h5⟩

theorem advance_size (d : Rbuffer) (k : Int) : (d.advance k).size = d.size - k := by
  unfold size
  simp only [advance, isEmpty, beq_iff_eq]
  split <;> dsimp only <;> omega

/-- Part of the buffer stays: only `offset` moves. -/
theorem advance_of_lt {k : Int} (hk : k < d.size) :
    d.advance k = { d with offset := d.offset + k } := by
  unfold size at hk
  simp only [advance, isEmpty, beq_iff_eq]
  rw [if_neg (by omega)]

/-- The whole buffer is read: both cursors go back to the front. -/
theorem advance_all : d.advance d.size = { d with offset := 0, pos := 0 } := by
  simp only [advance, isEmpty, size, beq_iff_eq]
  rw [if_pos (by omega)]

theorem unread_advance (h : d.Wf) {k : Int} (h0 : 0 ≤ k) (hk : k ≤ d.size) :
    (d.advance k).unread = d.unread.drop k.toNat := by
  by_cases heq : k = d.size
  · subst heq
    have hlen := h.length_unread
    rw [advance_all, List.drop_eq_nil_of_le (by omega)]
    simp [unread, size, window]
  · rw [advance_of_lt (by omega)]
    obtain ⟨h1, h2, h3, h4, h5⟩ := h
    simp only [unread, window, size] at hk heq ⊢
    rw [List.drop_take, List.drop_drop]
    congr 1
    · omega
    · congr 1
      omega

theorem read_ok (h : d.Wf) {room : Nat} {n : Int} (h0 : 0 ≤ n) (hroom : min n d.size ≤ room) :
    d.read (some room) n = .ok (min n d.size, d.unread.take n.toNat, d.advance (min n d.size)) := by
  have hlen := h.length_unread
  have hs := h.size_nonneg
  have hmin : (if n > d.size then d.size else n) = min n d.size := by
    split <;> omega
  have hload : load d.data d.offset (min n d.size) = .ok (d.unread.take n.toNat) := by
    obtain ⟨h1, h2, h3, h4, h5⟩ := h
    unfold size at *
    rw [load, if_pos (by omega)]
    simp only [unread, window, List.take_take, size]
    congr 2
    omega
  simp only [read, hmin, hload]
  rw [if_neg (by rw [List.length_take]; omega)]

theorem read_null (n : Int) : d.read none n = .ok (0, [], d) := rfl

/-- A negative size reaches `memcpy` as a huge one. -/
theorem read_neg {room : Nat} {n : Int} (hn : n < 0) (hs : n ≤ d.size) :
    d.read (some room) n = .error .outOfBounds := by
  have hmin : (if n > d.size then d.size else n) = n := if_neg (by omega)
  simp only [read, hmin, load_neg hn]

/-! ### `rbuffer_rewind` -/

/-- A block that the loop has cut still moves a byte, and none behind the end. -/
theorem clip_spec {moveSize size block : Int} (hlt : moveSize < size) (hb : 0 < block) :
    ∃ k, (if moveSize + block > size then size - moveSize else block) = k ∧ 0 < k ∧ k ≤ block ∧ moveSize + k ≤ size := by
  refine ⟨_, rfl, ?_⟩
  split <;> omega

/-- The loop invariant: the first `m` bytes are in place, the others still wait at `o + m`. -/
theorem rewindLoop_spec {o s : Nat} (fuel : Nat) (data : Obj) (m b : Nat) (bytes : Obj)
    (hfuel : s ≤ m + fuel) (hm : m ≤ s) (hb : 0 < b) (hbo : b ≤ o) (hlen : o + s ≤ data.length)
    (hfront : window data 0 m ++ window data (o + m) (s - m) = bytes) :
    ∃ data', rewindLoop o s fuel data m b = .ok ((s : Int), data') ∧ data'.length = data.length ∧
      window data' 0 s = bytes := by
  induction fuel generalizing data m b with
  | zero =>
    obtain rfl : m = s := by omega
    refine ⟨data, ?_, rfl, ?_⟩
    · rw [rewindLoop, if_neg (by omega)]
    · simpa [window_zero] using hfront
  | succ fuel ih =>
    by_cases hlt : m < s
    · -- the block of this round, clipped at the end of the unread bytes
      obtain ⟨k, hk, hkpos, hkb, hks⟩ := clip_spec (Int.ofNat_lt.mpr hlt) (Int.natCast_pos.mpr hb)
      obtain ⟨k, rfl⟩ := Int.eq_ofNat_of_zero_le hkpos.le
      have hcopy := @copyWithin_ok data m (o + m) k (by omega) (by omega)
      have hwlen : (window data (o + m) k).length = k := by simp; omega
      have hinv : window (overwrite data m (window data (o + m) k)) 0 (m + k) ++
          window (overwrite data m (window data (o + m) k)) (o + (m + k)) (s - (m + k)) = bytes := by
        have hpre := window_overwrite_append data 0 m (window data (o + m) k) (by omega)
        simp only [hwlen, Nat.zero_add] at hpre
        rw [hpre, window_overwrite_after _ _ _ _ _ (by omega) (by omega), ← hfront,
          List.append_assoc, show s - m = k + (s - (m + k)) by omega, ← window_append_window]
        simp [Nat.add_assoc]
      obtain ⟨data', hrun, hlen', hres⟩ := ih (overwrite data m (window data (o + m) k)) (m + k) k
        (by omega) (by omega) (by omega) (by omega) (by rw [overwrite_length _ _ _ (by omega)]; omega) hinv
      refine ⟨data', ?_, by rw [hlen', overwrite_length _ _ _ (by omega)], hres⟩
      rw [rewindLoop, if_pos (by omega)]
      dsimp only
      rw [hk, show (o : Int) + m = ((o + m : Nat) : Int) by omega, hcopy]
      exact_mod_cast hrun
    · obtain rfl : m = s := by omega
      refine ⟨data, ?_, rfl, ?_⟩
      · rw [rewindLoop, if_neg (by omega)]
      · simpa [window_zero] using hfront

theorem rewind_spec (h : d.Wf) :
    ∃ n d', d.rewind = .ok (n, d') ∧ d'.Wf ∧ d'.unread = d.unread ∧ d'.offset = 0 ∧
      d'.pos = d.size ∧ d'.capacity = d.capacity := by
  have hs := h.size_nonneg
  by_cases hpos : d.offset > 0
  · obtain ⟨data, o, p, c⟩ := d
    obtain ⟨h1, h2, h3, h4, h5⟩ := h
    dsimp only [size] at *
    lift o to Nat using h1
    lift p to Nat using by omega
    obtain ⟨s, hseq⟩ : ∃ s : Nat, (p : Int) - o = s := ⟨p - o, by omega⟩
    obtain ⟨data', hrun, hlen, hwin⟩ := rewindLoop_spec (o := o) (s := s) s data 0 o
      (window data o s) (by omega) (by omega) (by omega) (le_refl _) (by omega)
      (by simp [window_zero])
    refine ⟨s, ⟨data', 0, p - o, c⟩, ?_, ⟨?_, ?_, ?_, h4, ?_⟩, ?_, rfl, rfl, rfl⟩
    · simp only [rewind, size]
      rw [if_pos hpos, hseq, Int.toNat_natCast, show (0 : Int) = ((0 : Nat) : Int) from rfl, hrun]
    · exact le_refl _
    · dsimp only; omega
    · dsimp only; omega
    · rw [hlen]
      exact h5
    · simp only [unread, size, Int.sub_zero, hseq, Int.toNat_natCast]
      exact hwin
  · have h1 := h.offset_nonneg
    have ho : d.offset = 0 := by omega
    refine ⟨0, d, ?_, h, rfl, ho, ?_, rfl⟩
    · rw [rewind, if_neg hpos]
    · simp [size, ho]

/-! ### `rbuffer_write` -/

/-- The buffer after `bs` went behind `pos`. -/
def appended (d : Rbuffer) (bs : Obj) : Rbuffer :=
  { d with data := overwrite d.data d.pos.toNat bs, pos := d.pos + bs.length }

theorem appended_wf (h : d.Wf) {bs : Obj} (hfit : bs.length ≤ d.left) : (d.appended bs).Wf := by
  obtain ⟨h1, h2, h3, h4, h5⟩ := h
  unfold left at hfit
  refine ⟨h1, ?_, ?_, h4, ?_⟩ <;> simp only [appended]
  · omega
  · omega
  · rw [overwrite_length _ _ _ (by omega)]
    exact h5

theorem unread_appended (h : d.Wf) {bs : Obj} (hfit : bs.length ≤ d.left) :
    (d.appended bs).unread = d.unread ++ bs := by
  obtain ⟨h1, h2, h3, h4, h5⟩ := h
  unfold left at hfit
  have hext := window_overwrite_append d.data d.offset.toNat (d.pos - d.offset).toNat bs (by omega)
  simp only [unread, appended, size]
  rw [← hext]
  congr 1
  · congr 1
    omega
  · omega

theorem append_ok (h : d.Wf) {val : Obj} {n : Int} (h0 : 0 ≤ n) (hval : n ≤ val.length)
    (hfit : n ≤ d.left) : d.append val n = .ok (n, d.appended (val.take n.toNat)) := by
  obtain ⟨h1, h2, h3, h4, h5⟩ := h
  unfold left at hfit
  have hload : load val 0 n = .ok (val.take n.toNat) := by
    rw [load, if_pos (by omega)]
    simp [window]
  have hlen : ((val.take n.toNat).length : Int) = n := by
    rw [List.length_take]
    omega
  have hstore : store d.data d.pos (val.take n.toNat) =
      .ok (overwrite d.data d.pos.toNat (val.take n.toNat)) := by
    rw [store, if_pos (by omega)]
  simp only [append, hload, hstore, appended, hlen]

/-- Enough room behind `pos`: the bytes are appended in place. -/
theorem put_of_le (h : d.Wf) {val : Obj} {n : Int} (h0 : 0 ≤ n) (hval : n ≤ val.length)
    (hfit : n ≤ d.left) : d.put val n = .ok (n, d.appended (val.take n.toNat)) := by
  rw [put, if_neg (by omega)]
  dsimp only
  rw [if_pos hfit, append_ok h h0 hval hfit]

/-- Not enough room behind `pos`: the buffer is rewound first, and what fits is appended. -/
theorem put_of_lt (h : d.Wf) {val : Obj} {n : Int} (hval : n ≤ val.length) (hfit : d.left < n) :
    ∃ d', d.put val n = .ok (min n (d.capacity - d.size), d') ∧ d'.Wf ∧ d'.offset = 0 ∧
      d'.capacity = d.capacity ∧
      d'.unread = d.unread ++ val.take (min n (d.capacity - d.size)).toNat := by
  have hl := h.left_nonneg
  have hsl := h.size_add_left
  obtain ⟨m, d1, hrw, hwf, hun, ho, hp, hc⟩ := rewind_spec h
  have hleft : d1.left = d.capacity - d.size := by
    unfold left
    omega
  have hput : d.put val n = .ok (min n (d.capacity - d.size),
      d1.appended (val.take (min n (d.capacity - d.size)).toNat)) := by
    rw [put, if_pos hfit, hrw]
    dsimp only
    rw [hleft]
    split
    · rw [append_ok hwf (by omega) hval (by omega), min_eq_left (by omega)]
    · rw [append_ok hwf (by omega) (by omega) (by omega), min_eq_right (by omega)]
  have hlen : ((val.take (min n (d.capacity - d.size)).toNat).length : Int) ≤ d1.left := by
    rw [List.length_take]
    omega
  exact ⟨_, hput, appended_wf hwf hlen, ho, hc, by rw [unread_appended hwf hlen, hun]⟩

/-- Both cases at once: how much is taken, and where the read cursor is then. -/
theorem put_spec (h : d.Wf) {val : Obj} {n : Int} (h0 : 0 ≤ n) (hval : n ≤ val.length) :
    ∃ d', d.put val n = .ok (min n (d.capacity - d.size), d') ∧ d'.Wf ∧
      d'.capacity = d.capacity ∧ d'.offset = (if n ≤ d.left then d.offset else 0) ∧
      d'.unread = d.unread ++ val.take (min n (d.capacity - d.size)).toNat := by
  have hsl := h.size_add_left
  by_cases hfit : n ≤ d.left
  · have hmin : min n (d.capacity - d.size) = n := by omega
    have hlen : ((val.take n.toNat).length : Int) ≤ d.left := by
      rw [List.length_take]
      omega
    rw [hmin, if_pos hfit]
    exact ⟨_, put_of_le h h0 hval hfit, appended_wf h hlen, rfl, rfl, unread_appended h hlen⟩
  · obtain ⟨d', hput, hwf, ho, hc, hun⟩ := put_of_lt h hval (by omega)
    rw [if_neg hfit]
    exact ⟨d', hput, hwf, hc, ho, hun⟩

theorem put_neg {val : Obj} {n : Int} (h : d.Wf) (hn : n < 0) :
    d.put val n = .error .outOfBounds := by
  have hl := h.left_nonneg
  rw [put, if_neg (by omega)]
  dsimp only
  rw [if_pos (by omega), append, load_neg hn]

theorem write_null (n : Int) : d.write none n = .ok (0, d) := rfl

theorem write_pos {val : Obj} {n : Int} (hn : 0 < n) : d.write (some val) n = d.put val n := by
  rw [write, if_neg (by omega)]

theorem strlen_lt {val : Obj} {n : Nat} (h : strlen val = some n) : n < val.length :=
  (List.findIdx?_eq_some_iff_getElem.mp h).1

/-! ### The cursor moves -/

theorem readExt_eq (h : d.Wf) {k : Int} (hlo : 0 ≤ k) (hhi : k ≤ 2147483648) :
    d.readExt (-k) = { d with
      offset := max 0 (min (int32 (2 * d.offset - k)) d.pos) } := by
  obtain ⟨h1, h2, h3, h4, h5⟩ := h
  have hin : int32 (d.offset + -k) = d.offset - k := by
    rw [int32_of_range (by omega) (by omega)]
    omega
  have hsum : d.offset + (d.offset - k) = 2 * d.offset - k := by omega
  simp only [readExt, skip, hin, hsum]
  congr 1
  split <;> split <;> omega

theorem clamp_cases (x q : Int) : max 0 (min x q) = 0 ∨ max 0 (min x q) = q ∨ max 0 (min x q) = x := by
  omega

/-- A cursor that is moved back by what it has been moved on, twice. -/
theorem offset_of_clamp {a q w x : Int} (ha : 0 ≤ a) (hw : 0 ≤ w) (hx : x = 2 * a - w ∨ x < 0) (hq : a + w ≤ q)
    (ho : max 0 (min x q) = a + w) (hnil : a + w = q → a = 0) : a = 2 * w := by
  rcases clamp_cases x q with hzero | hend | hcursor
  · omega
  · have hzero := hnil (ho.symm.trans hend)
    omega
  · omega

/-- Taking back `w` with `readExt` restores the unread bytes `p` only by coincidence: the read cursor
must be at twice the length of `w`, and `p` must repeat with that period. -/
theorem unread_readExt_neg (h : d.Wf) {p w : Obj} (hun : d.unread = p ++ w)
    (hnil : p = [] → d.offset = 0) :
    (d.readExt (-w.length)).unread = p ↔
      d.offset = 2 * w.length ∧ (p ++ w).drop w.length = p := by
  have hlen := h.length_unread
  rw [hun, List.length_append] at hlen
  obtain ⟨h1, h2, h3, h4, h5⟩ := h
  unfold size at hlen
  rw [readExt_eq ⟨h1, h2, h3, h4, h5⟩ (by omega) (by omega), ← hun]
  -- the new read cursor, and the unread bytes seen from it
  obtain ⟨o, ho⟩ : ∃ o : Int, o = max 0 (min (int32 (2 * d.offset - w.length)) d.pos) := ⟨_, rfl⟩
  rw [← ho]
  have hlen' : (({ d with offset := o } : Rbuffer).unread.length : Int) = d.pos - o := by
    have hnonneg : 0 ≤ o := ho ▸ le_max_left _ _
    have hle : o ≤ d.pos := ho ▸ max_le (by omega) (min_le_right _ _)
    clear ho
    simp only [unread, window_length, size]
    omega
  constructor
  · intro heq
    rw [heq] at hlen'
    have hmoved : o = d.offset + w.length := by
      clear ho
      omega
    have hwrap : int32 (2 * d.offset - w.length) = 2 * d.offset - w.length ∨ int32 (2 * d.offset - w.length) < 0 := by
      clear ho
      unfold int32
      omega
    rw [hmoved] at ho
    have h2w : d.offset = 2 * w.length := by
      refine offset_of_clamp h1 (Int.natCast_nonneg _) hwrap ?_ ho.symm fun hend => hnil (List.eq_nil_of_length_eq_zero ?_)
      · clear ho hwrap
        omega
      · clear ho hwrap
        omega
    refine ⟨h2w, ?_⟩
    clear ho hwrap
    rw [← heq]
    simp only [unread, size, window, List.drop_take, List.drop_drop]
    congr 1
    · omega
    · congr 1
      omega
  · rintro ⟨h2w, hper⟩
    have h3w : o = d.offset + w.length := by
      rw [ho, int32_of_range (by omega) (by omega)]
      omega
    clear ho
    refine Eq.trans ?_ hper
    simp only [unread, size, window, List.drop_take, List.drop_drop]
    congr 1
    · omega
    · congr 1
      omega

/-- The bytes put behind `pos` from outside join the unread ones. -/
theorem writeExt_spec (h : d.Wf) {n : Int} (h0 : 0 ≤ n) (hfit : n < d.left) :
    d.writeExt n = { d with pos := d.pos + n } ∧ (d.writeExt n).Wf ∧
      (d.writeExt n).unread = d.unread ++ window d.data d.pos.toNat n.toNat := by
  obtain ⟨h1, h2, h3, h4, h5⟩ := h
  unfold left at hfit
  have heq : d.writeExt n = { d with pos := d.pos + n } := by
    rw [writeExt, seek, int32_of_range (by omega) (by omega), if_pos ⟨by omega, by omega⟩]
  rw [heq]
  refine ⟨rfl, ⟨h1, by dsimp only; omega, by dsimp only; omega, h4, h5⟩, ?_⟩
  simp only [unread, size]
  rw [show d.pos.toNat = d.offset.toNat + (d.pos - d.offset).toNat by omega, window_append_window]
  congr 1
  omega

theorem skip_spec (h : d.Wf) {n : Int} (h0 : 0 ≤ n) (hn : n ≤ d.size) :
    d.skip n = { d with offset := d.offset + n } := by
  obtain ⟨h1, h2, h3, h4, h5⟩ := h
  unfold size at hn
  simp only [skip]
  rw [int32_of_range (by omega) (by omega), if_neg (by omega), if_neg (by omega)]

theorem unread_skip (h : d.Wf) {n : Int} (h0 : 0 ≤ n) (hn : n ≤ d.size) :
    (d.skip n).unread = d.unread.drop n.toNat := by
  rw [skip_spec h h0 hn]
  obtain ⟨h1, h2, h3, h4, h5⟩ := h
  simp only [unread, window, size] at hn ⊢
  rw [List.drop_take, List.drop_drop]
  congr 1
  · omega
  · congr 1
    omega

end Rbuffer

end Funra
