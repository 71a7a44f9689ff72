import Funra.Rbuffer.Runs

/-!
# Committing a receive, taking a read back

`rbuffer_write_ext` after a receive to `rbuffer_write_start_dest`, and `rbuffer_read_ext` with the negated
count of a read. The first goes through the clamp of `rbuffer_seek`, which is one for positions inside the
block, so that the last byte of a filled block is lost (`commits_iff`). The second adds `offset` twice, and
a draining read has put the cursors back to the front (`takesBack_iff`).
-/

namespace Funra

open CInt Mem

namespace Rbuffer

variable {d : Rbuffer}

/-! ### Bytes from outside -/

/-- The receive stores `bs` at `rbuffer_write_start_dest`. -/
def fill (d : Rbuffer) (bs : Obj) : Except Fault Rbuffer :=
  (store d.data d.pos bs).map fun data => { d with data }

/-- The receive, and the commit of the bytes received. -/
def fillCommit (d : Rbuffer) (bs : Obj) : Except Fault Rbuffer :=
  (d.fill bs).map fun d => d.writeExt bs.length

/-- The unread bytes grow by `bs`. -/
def Commits (d : Rbuffer) (bs : Obj) : Prop :=
  ∃ d', d.fillCommit bs = .ok d' ∧ d'.pos = d.pos + bs.length ∧ d'.unread = d.unread ++ bs

theorem fill_ok (h : d.Wf) {bs : Obj} (hfit : bs.length ≤ d.left) :
    d.fill bs = .ok { d.appended bs with pos := d.pos } := by
  obtain ⟨h1, h2, h3, h4, h5⟩ := h
  unfold left at hfit
  have hstore : store d.data d.pos bs = .ok (overwrite d.data d.pos.toNat bs) := by
    rw [store, if_pos (by omega)]
  rw [fill, hstore]
  rfl

/-- The commit of `n` bytes that fit moves `pos` by `n`, but never onto the end of the block. -/
theorem writeExt_pos (h : d.Wf) {n : Int} (h0 : 0 ≤ n) (hfit : n ≤ d.left) :
    d.writeExt n = { d with pos := min (d.pos + n) (d.capacity - 1) } := by
  obtain ⟨h1, h2, h3, h4, h5⟩ := h
  unfold left at hfit
  rw [writeExt, int32_of_range (by omega) (by omega), seek]
  by_cases hlt : d.pos + n < d.capacity
  · rw [if_pos ⟨by omega, hlt⟩, min_eq_left (by omega)]
  · rw [if_neg (by omega), if_neg (by omega), min_eq_right (by omega)]

theorem fillCommit_ok (h : d.Wf) {bs : Obj} (hfit : bs.length ≤ d.left) :
    d.fillCommit bs =
      .ok { d.appended bs with pos := min (d.pos + bs.length) (d.capacity - 1) } := by
  obtain ⟨h1, h2, h3, h4, h5⟩ := id h
  have hwf : ({ d.appended bs with pos := d.pos } : Rbuffer).Wf := by
    have hdata := (appended_wf h hfit).length_data
    exact ⟨h1, h2, h3, h4, hdata⟩
  have hcommit := writeExt_pos (n := bs.length) hwf (by omega) hfit
  rw [fillCommit, fill_ok h hfit]
  exact congrArg Except.ok hcommit

/-- The bytes received are committed exactly when they do not fill the block. -/
theorem commits_iff (h : d.Wf) {bs : Obj} (hfit : bs.length ≤ d.left) :
    d.Commits bs ↔ d.pos + bs.length < d.capacity := by
  have hrun := fillCommit_ok h hfit
  constructor
  · rintro ⟨d', hok, hpos, -⟩
    rw [hrun] at hok
    obtain rfl := Except.ok.inj hok
    dsimp only at hpos
    omega
  · intro hlt
    rw [min_eq_left (by omega)] at hrun
    exact ⟨d.appended bs, hrun, rfl, unread_appended h hfit⟩

theorem commits_iff_byte : Commits ⟨[7, 0], 0, 0, 2⟩ [7] ↔ (0 : Int) + ([7] : Obj).length < 2 :=
  commits_iff (d := ⟨[7, 0], 0, 0, 2⟩) ⟨by decide, by decide, by decide, by decide, by decide⟩ (by decide)

/-- A receive of two bytes into an empty block of two commits one. -/
theorem full_block_loses_byte : ¬ ∀ (d : Rbuffer) (bs : Obj), d.Wf → bs.length ≤ d.left → d.Commits bs := by
  intro hall
  obtain ⟨d', hok, hpos, -⟩ := hall ⟨[0, 0], 0, 0, 2⟩ [7, 8]
    ⟨by decide, by decide, by decide, by decide, by decide⟩ (by decide)
  have hrun : fillCommit ⟨[0, 0], 0, 0, 2⟩ [7, 8] = .ok ⟨[7, 8], 0, 1, 2⟩ := by decide
  rw [hrun] at hok
  obtain rfl := Except.ok.inj hok
  exact absurd hpos (by decide)

/-! ### A read taken back -/

/-- After the read and its inverse the same bytes are unread, and the same read returns the same again. -/
def TakesBack (d : Rbuffer) (val : Option Nat) (n : Int) : Prop :=
  ∃ r bytes d', d.read val n = .ok (r, bytes, d') ∧ (d'.readExt (-r)).unread = d.unread ∧
    ∃ d'', (d'.readExt (-r)).read val n = .ok (r, bytes, d'')

/-- For `NULL` nothing is read, but `rbuffer_read_ext` still moves the cursor, to twice its place. -/
def Restored (d : Rbuffer) (val : Option Nat) (n : Int) : Prop :=
  match val with
  | some _ => d.unread = [] ∨ (n = 0 ∧ d.offset = 0)
  | none => d.offset = 0 ∨ (d.unread = [] ∧ 2 * d.offset < 2147483648)

instance (d : Rbuffer) (val : Option Nat) (n : Int) : Decidable (d.Restored val n) := by
  unfold Restored
  cases val <;> exact inferInstance

theorem Wf.unread_nil_iff (h : d.Wf) : d.unread = [] ↔ d.size = 0 := by
  have hlen := h.length_unread
  rw [← List.length_eq_zero_iff]
  omega

/-- A moved read cursor leaves the same bytes unread only at its old place. -/
theorem unread_moved_iff (h : d.Wf) {o : Int} (ho : ({ d with offset := o } : Rbuffer).Wf) :
    ({ d with offset := o } : Rbuffer).unread = d.unread ↔ o = d.offset := by
  constructor
  · intro hsame
    have hlen := h.length_unread
    have hlen' := ho.length_unread
    rw [hsame, hlen] at hlen'
    dsimp only [size] at hlen'
    omega
  · rintro rfl
    rfl

/-- Where `rbuffer_read_ext` with `-k` leaves the unread bytes of another state `e` of the block. -/
theorem unread_readExt_iff (h : d.Wf) {k o : Int} (hlo : 0 ≤ k) (hhi : k ≤ 2147483648)
    (ho : ({ d with offset := o } : Rbuffer).Wf) :
    (d.readExt (-k)).unread = ({ d with offset := o } : Rbuffer).unread ↔
      max 0 (min (int32 (2 * d.offset - k)) d.pos) = o := by
  have hwf : (d.readExt (-k)).Wf := skip_wf h _
  rw [readExt_eq h hlo hhi] at hwf ⊢
  exact unread_moved_iff ho hwf

/-- The read of `NULL` returns 0, and the cursor goes from `offset` to `2 * offset`. -/
theorem unread_readExt_null (h : d.Wf) : (d.readExt (-0)).unread = d.unread ↔ d.Restored none 0 := by
  have hiff := unread_readExt_iff (k := 0) (o := d.offset) h (le_refl _) (by decide) h
  obtain ⟨h1, h2, h3, h4, h5⟩ := id h
  rw [hiff, Restored, h.unread_nil_iff, size]
  unfold int32
  omega

/-- Part of the bytes is read: `-n` moves the cursor from `offset + n` to `2 * offset + n`. -/
theorem unread_readExt_part (h : d.Wf) {n : Int} (h0 : 0 ≤ n) (hn : n < d.size) :
    ((d.advance n).readExt (-n)).unread = d.unread ↔ n = 0 ∧ d.offset = 0 := by
  have hwf := advance_wf h h0 hn.le
  rw [advance_of_lt hn] at hwf ⊢
  obtain ⟨h1, h2, h3, h4, h5⟩ := id h
  unfold size at hn
  rw [unread_readExt_iff (o := d.offset) hwf h0 (by omega) h]
  dsimp only
  unfold int32
  omega

/-- All bytes are read: both cursors are at the front, and stay there. -/
theorem unread_readExt_drained (h : d.Wf) :
    ((d.advance d.size).readExt (-d.size)).unread = d.unread ↔ d.unread = [] := by
  have hs := h.size_nonneg
  have hwf : ((d.advance d.size).readExt (-d.size)).Wf := skip_wf (advance_wf h hs (le_refl _)) _
  have hpos : ((d.advance d.size).readExt (-d.size)).pos = 0 := by
    rw [advance_all]
    rfl
  have hnil : ((d.advance d.size).readExt (-d.size)).unread = [] := by
    refine hwf.unread_eq_nil ?_
    have h1 := hwf.offset_nonneg
    have h2 := hwf.offset_le_pos
    rw [size, hpos]
    omega
  rw [hnil]
  exact eq_comm

/-- The same unread bytes give the same read. -/
theorem read_of_unread (h : d.Wf) {e : Rbuffer} (he : e.Wf) (hun : e.unread = d.unread) {room : Nat} {n : Int}
    (h0 : 0 ≤ n) (hroom : min n d.size ≤ room) :
    e.read (some room) n = .ok (min n d.size, d.unread.take n.toNat, e.advance (min n d.size)) := by
  have hsize : e.size = d.size := by
    rw [← h.length_unread, ← he.length_unread, hun]
  rw [← hun, ← hsize]
  exact read_ok he h0 (by rw [hsize]; exact hroom)

theorem unread_readExt_some (h : d.Wf) {n : Int} (h0 : 0 ≤ n) (room : Nat) :
    ((d.advance (min n d.size)).readExt (-min n d.size)).unread = d.unread ↔ d.Restored (some room) n := by
  rw [Restored]
  by_cases hn : n < d.size
  · have hne : d.unread ≠ [] := by
      rw [ne_eq, h.unread_nil_iff]
      omega
    rw [min_eq_left hn.le, unread_readExt_part h h0 hn]
    simp only [hne, false_or]
  · rw [min_eq_right (by omega), unread_readExt_drained h, h.unread_nil_iff]
    have hs := h.size_nonneg
    constructor
    · exact Or.inl
    · rintro (hnil | ⟨rfl, -⟩)
      · exact hnil
      · omega

/-- Exactly when a read is taken back: nothing was unread, or nothing was read at the front. -/
theorem takesBack_iff (h : d.Wf) {val : Option Nat} {n : Int} (hvalid : (RbufferCall.read val n).Valid d) :
    d.TakesBack val n ↔ d.Restored val n := by
  obtain ⟨h0, hroom⟩ := hvalid
  rcases val with _ | room
  · rw [show d.Restored none n = d.Restored none 0 from rfl, ← unread_readExt_null h]
    constructor
    · rintro ⟨r, bytes, d', hread, hun, -⟩
      cases hread
      exact hun
    · intro hun
      exact ⟨0, [], d, rfl, hun, d.readExt (-0), rfl⟩
  · rw [← unread_readExt_some h h0 room]
    have hread := read_ok h h0 (hroom room rfl)
    constructor
    · rintro ⟨r, bytes, d', hread', hun, -⟩
      rw [hread] at hread'
      cases hread'
      exact hun
    · intro hun
      have hs := h.size_nonneg
      have hwf := skip_wf (advance_wf h (k := min n d.size) (by omega) (by omega))
      exact ⟨_, _, _, hread, hun, _, read_of_unread h (hwf _) hun h0 (hroom room rfl)⟩

theorem takesBack_iff_byte : TakesBack ⟨[7, 8], 0, 2, 2⟩ (some 1) 1 ↔ Restored ⟨[7, 8], 0, 2, 2⟩ (some 1) 1 :=
  takesBack_iff (d := ⟨[7, 8], 0, 2, 2⟩) ⟨by decide, by decide, by decide, by decide, by decide⟩
    ⟨by decide, by simp [size]⟩

/-- One byte of two is read and taken back: the cursor stays behind it. -/
theorem read_not_taken_back : ¬ ∀ (d : Rbuffer) (val : Option Nat) (n : Int), d.Wf →
    (RbufferCall.read val n).Valid d → d.TakesBack val n := by
  intro hall
  obtain ⟨r, bytes, d', hread, hun, -⟩ := hall ⟨[7, 8], 0, 2, 2⟩ (some 1) 1
    ⟨by decide, by decide, by decide, by decide, by decide⟩ ⟨by decide, by simp [size]⟩
  have hrun : read ⟨[7, 8], 0, 2, 2⟩ (some 1) 1 = .ok (1, [7], ⟨[7, 8], 1, 2, 2⟩) := by decide
  rw [hrun] at hread
  cases hread
  exact absurd hun (by decide)

end Rbuffer

end Funra
