import Funra.Lib.BoundedQueue
import Funra.Lib.System
import Funra.Rbuffer.Spec

/-!
# Runs of the buffer

* All nine operations: the cursors stay ordered and every access stays inside the block, in every run
  that does not seek a drained buffer of full length beyond its end (`cursorsKept_run`). There
  `rbuffer_seek` clamps `pos` to `capacity - 1`, before `offset`.
* Writes, reads and rewinds: the buffer is a lossless byte queue (`lossless_run`), as it refines a
  `BoundedQueue` (`QueueCall.step_represents`).
-/

namespace Funra

open CInt Mem System

/-! ## The cursors -/

inductive RbufferCall
  | read (val : Option Nat) (size : Int)
  | write (val : Option Obj) (size : Int)
  | rewind
  | seek (pos : Int)
  | skip (size : Int)
  | revert
  | clear
  | readExt (len : Int)
  | writeExt (len : Int)
  deriving DecidableEq

namespace RbufferCall

def run (d : Rbuffer) : RbufferCall → Except Fault Rbuffer
  | .read val size => (d.read val size).map fun r => r.2.2
  | .write val size => (d.write val size).map fun r => r.2
  | .rewind => d.rewind.map fun r => r.2
  | .seek pos => .ok (d.seek pos)
  | .skip size => .ok (d.skip size)
  | .revert => .ok d.revert
  | .clear => .ok d.clear
  | .readExt len => .ok (d.readExt len)
  | .writeExt len => .ok (d.writeExt len)

/-- What a caller owes: a read of no negative size into a destination with room for it, a write from a
pointer to as many bytes as it announces, to a string when it announces none. -/
def Valid (d : Rbuffer) : RbufferCall → Prop
  | .read val size => 0 ≤ size ∧ ∀ room, val = some room → min size d.size ≤ room
  | .write (some bs) size => if size ≤ 0 then strlen bs ≠ none else size ≤ bs.length
  | _ => True

/-- The length of a string fits an `int`; with the read cursor at the end of the block, nothing seeks
there or beyond. -/
def Harmless (d : Rbuffer) : RbufferCall → Prop
  | .write (some bs) size => size ≤ 0 → ∀ n : Nat, strlen bs = some n → 0 ≤ int32 n
  | .seek pos => d.offset = d.capacity → pos < d.capacity
  | .writeExt len => d.offset = d.capacity → int32 (d.pos + len) < d.capacity
  | _ => True

/-- The calls that return; a run ends at a fault. -/
def Step (d : Rbuffer) (call : RbufferCall) (d' : Rbuffer) : Prop :=
  call.Valid d ∧ call.run d = .ok d'

end RbufferCall

/-- The cursors in order, so that `rbuffer_size` and `rbuffer_left` are not negative. -/
def CursorsOrdered (d : Rbuffer) : Prop :=
  0 ≤ d.offset ∧ d.offset ≤ d.pos ∧ d.pos ≤ d.capacity ∧ 0 ≤ d.size ∧ 0 ≤ d.left

/-- The call stays inside the block, and leaves the cursors in order. -/
def CursorsKept (d : Rbuffer) (call : RbufferCall) : Prop :=
  ∃ d', call.run d = .ok d' ∧ CursorsOrdered d' ∧ d'.capacity = d.capacity

namespace Rbuffer

variable {d : Rbuffer}

theorem Wf.ordered (h : d.Wf) : CursorsOrdered d :=
  ⟨h.offset_nonneg, h.offset_le_pos, h.pos_le_capacity, h.size_nonneg, h.left_nonneg⟩

/-! ### The moves of a cursor -/

theorem skip_wf (h : d.Wf) (n : Int) : (d.skip n).Wf := by
  obtain ⟨h1, h2, h3, h4, h5⟩ := h
  have hle : (d.skip n).offset ≤ d.pos ∧ 0 ≤ (d.skip n).offset := by
    simp only [skip]
    split <;> split <;> omega
  exact ⟨hle.2, hle.1, h3, h4, h5⟩

theorem seek_wf (h : d.Wf) {p : Int} (hp : d.offset = d.capacity → p < d.capacity) :
    (d.seek p).Wf := by
  obtain ⟨h1, h2, h3, h4, h5⟩ := h
  have hcap : (d.seek p).capacity = d.capacity ∧ (d.seek p).data = d.data ∧
      (d.seek p).offset = d.offset := by
    unfold seek
    split
    · simp
    · split <;> simp
  have hpos : d.offset ≤ (d.seek p).pos ∧ (d.seek p).pos ≤ d.capacity := by
    unfold seek
    split
    · dsimp only; omega
    · split <;> dsimp only <;> omega
  obtain ⟨hc, hd, ho⟩ := hcap
  exact ⟨by omega, by omega, by omega, by omega, by rw [hd, hc]; exact h5⟩

/-- The clamp of `rbuffer_seek` puts `pos` before an `offset` at the end of the block. -/
theorem seek_end {p : Int} (ho : d.offset = d.capacity) (hp : d.capacity ≤ p) :
    ¬ CursorsOrdered (d.seek p) := by
  have hseek : d.seek p = { d with pos := d.capacity - 1 } := by
    rw [seek, if_neg (by omega), if_neg (by omega)]
  rw [hseek]
  rintro ⟨-, hle, -⟩
  dsimp only at hle
  omega

/-- Exactly when a seek keeps the cursors in order. -/
theorem seek_ordered_iff (h : d.Wf) (p : Int) :
    CursorsOrdered (d.seek p) ↔ (d.offset = d.capacity → p < d.capacity) := by
  constructor
  · intro hord ho
    by_contra hp
    exact seek_end ho (by omega) hord
  · intro hp
    exact (seek_wf h hp).ordered

theorem seek_capacity (d : Rbuffer) (p : Int) : (d.seek p).capacity = d.capacity := by
  unfold seek
  split
  · rfl
  · split <;> rfl

end Rbuffer

/-! ### One call -/

namespace RbufferCall

open Rbuffer

variable {d : Rbuffer}

theorem read_wf (h : d.Wf) {val : Option Nat} {n : Int} (hvalid : (read val n).Valid d) :
    ∃ d', (read val n).run d = .ok d' ∧ d'.Wf ∧ d'.capacity = d.capacity := by
  have hs := h.size_nonneg
  rcases val with _ | room
  · exact ⟨d, rfl, h, rfl⟩
  · refine ⟨d.advance (min n d.size), ?_, ?_, advance_capacity d _⟩
    · rw [run, read_ok h hvalid.1 (hvalid.2 room rfl)]
      rfl
    · have := hvalid.1
      exact advance_wf h (by omega) (by omega)

/-- The size `rbuffer_write` works with is one of bytes behind the pointer, or negative: that of a string
too long for an `int`. -/
theorem write_cases {bs : Obj} {n : Int} (hvalid : (write (some bs) n).Valid d) :
    ∃ k : Int, (write (some bs) n).run d = (d.put bs k).map (fun r => r.2) ∧ k ≤ bs.length ∧
      ((write (some bs) n).Harmless d ↔ 0 ≤ k) := by
  simp only [Valid, Harmless, run, Rbuffer.write] at *
  by_cases hn : n ≤ 0
  · rw [if_pos hn] at hvalid
    obtain ⟨k, hk⟩ := Option.ne_none_iff_exists'.mp hvalid
    have hlt := strlen_lt hk
    refine ⟨int32 k, by simp only [if_pos hn, hk], by unfold int32; omega, ?_⟩
    simp [hn, hk]
  · rw [if_neg hn] at hvalid
    refine ⟨n, by rw [if_neg hn], hvalid, ?_⟩
    exact iff_of_true (fun hc => absurd hc hn) (by omega)

theorem write_wf (h : d.Wf) {val : Option Obj} {n : Int} (hvalid : (write val n).Valid d)
    (hharm : (write val n).Harmless d) :
    ∃ d', (write val n).run d = .ok d' ∧ d'.Wf ∧ d'.capacity = d.capacity := by
  rcases val with _ | bs
  · exact ⟨d, rfl, h, rfl⟩
  obtain ⟨k, hrun, hle, hiff⟩ := write_cases hvalid
  obtain ⟨d', hput, hwf, hcap, -, -⟩ := put_spec h (hiff.mp hharm) hle
  exact ⟨d', by rw [hrun, hput]; rfl, hwf, hcap⟩

theorem write_fault (h : d.Wf) {val : Option Obj} {n : Int} (hvalid : (write val n).Valid d)
    (hharm : ¬ (write val n).Harmless d) : (write val n).run d = .error .outOfBounds := by
  rcases val with _ | bs
  · exact absurd trivial hharm
  obtain ⟨k, hrun, hle, hiff⟩ := write_cases hvalid
  have hneg : k < 0 := not_le.mp fun h0 => hharm (hiff.mpr h0)
  rw [hrun, put_neg h hneg]
  rfl

/-- A harmless call keeps the whole invariant. -/
theorem run_wf (h : d.Wf) {call : RbufferCall} (hvalid : call.Valid d) (hharm : call.Harmless d) :
    ∃ d', call.run d = .ok d' ∧ d'.Wf ∧ d'.capacity = d.capacity := by
  obtain ⟨h1, h2, h3, h4, h5⟩ := id h
  cases call with
  | read val n => exact read_wf h hvalid
  | write val n => exact write_wf h hvalid hharm
  | rewind =>
    obtain ⟨n, d', hrw, hwf, -, -, -, hcap⟩ := rewind_spec h
    exact ⟨d', by rw [run, hrw]; rfl, hwf, hcap⟩
  | seek p => exact ⟨_, rfl, seek_wf h hharm, seek_capacity d p⟩
  | skip n => exact ⟨_, rfl, skip_wf h n, rfl⟩
  | revert => exact ⟨_, rfl, ⟨le_trans h1 h2, le_refl _, h3, h4, h5⟩, rfl⟩
  | clear => exact ⟨_, rfl, ⟨le_refl _, le_refl _, le_trans h1 (le_trans h2 h3), h4, h5⟩, rfl⟩
  | readExt len => exact ⟨_, rfl, skip_wf h _, rfl⟩
  | writeExt len => exact ⟨_, rfl, seek_wf h hharm, seek_capacity d _⟩

/-- Exactly when a call keeps the cursors in order and stays inside the block. -/
theorem cursorsKept_iff (h : d.Wf) {call : RbufferCall} (hvalid : call.Valid d) :
    CursorsKept d call ↔ call.Harmless d := by
  constructor
  · rintro ⟨d', hrun, hord, -⟩
    cases call with
    | write val n =>
      by_contra hharm
      rw [write_fault h hvalid hharm] at hrun
      cases hrun
    | seek p =>
      obtain rfl := Except.ok.inj hrun
      exact (seek_ordered_iff h p).mp hord
    | writeExt len =>
      obtain rfl := Except.ok.inj hrun
      exact (seek_ordered_iff h _).mp hord
    | _ => trivial
  · intro hharm
    obtain ⟨d', hrun, hwf, hcap⟩ := run_wf h hvalid hharm
    exact ⟨d', hrun, hwf.ordered, hcap⟩

end RbufferCall

/-! ### Runs -/

theorem rbuffer_run_wf {d d' : Rbuffer} {calls : List RbufferCall}
    (hrun : Steps (Guarded (fun d call => call.Harmless d) RbufferCall.Step) d calls d')
    (h : d.Wf) : d'.Wf := by
  refine hrun.invariant (fun {d call d'} hwf hstep => ?_) h
  obtain ⟨hharm, hvalid, hok⟩ := hstep
  obtain ⟨d'', hrun', hwf', -⟩ := RbufferCall.run_wf hwf hvalid hharm
  rw [hrun'] at hok
  rwa [← Except.ok.inj hok]

/-- In every state reached by harmless calls the cursors are in order, and the next call keeps them so and
stays inside the block exactly when it is harmless too. -/
theorem cursorsKept_run {c : Int} {block : Obj} (hc : 0 < c) (hlt : c < 2147483648)
    (hblock : block.length = c) {calls : List RbufferCall} {d : Rbuffer}
    (hrun : Steps (Guarded (fun d call => call.Harmless d) RbufferCall.Step)
      (Rbuffer.create c block) calls d) :
    CursorsOrdered d ∧ ∀ call : RbufferCall, call.Valid d →
      (CursorsKept d call ↔ call.Harmless d) := by
  have hwf := rbuffer_run_wf hrun (Rbuffer.create_wf (by omega) hlt hblock)
  exact ⟨hwf.ordered, fun call hvalid => RbufferCall.cursorsKept_iff hwf hvalid⟩

/-- A block of four bytes, filled. -/
def filledBuffer : Rbuffer := ⟨[1, 2, 3, 4], 0, 4, 4⟩

theorem fill_step : RbufferCall.Step (Rbuffer.create 4 [0, 0, 0, 0])
    (.write (some [1, 2, 3, 4]) 4) filledBuffer :=
  ⟨by simp [RbufferCall.Valid], by decide⟩

theorem cursorsKept_run_filled : CursorsOrdered filledBuffer ∧ ∀ call : RbufferCall,
    call.Valid filledBuffer → (CursorsKept filledBuffer call ↔ call.Harmless filledBuffer) :=
  cursorsKept_run (by decide) (by decide) (by decide)
    (.cons ⟨by simp [RbufferCall.Harmless], fill_step⟩ (.nil _))

/-- Drained at its end, the buffer is sought to the end: `pos` is 3 then, and the size -1. -/
theorem cursors_crossed : ∃ calls d, Steps RbufferCall.Step (Rbuffer.create 4 [0, 0, 0, 0]) calls d ∧
    ¬ CursorsOrdered d := by
  refine ⟨[.write (some [1, 2, 3, 4]) 4, .skip 4, .seek 4], ⟨[1, 2, 3, 4], 4, 3, 4⟩, ?_, ?_⟩
  · have hskip : RbufferCall.Step filledBuffer (.skip 4) ⟨[1, 2, 3, 4], 4, 4, 4⟩ :=
      ⟨trivial, by decide⟩
    have hseek : RbufferCall.Step ⟨[1, 2, 3, 4], 4, 4, 4⟩ (.seek 4) ⟨[1, 2, 3, 4], 4, 3, 4⟩ :=
      ⟨trivial, by decide⟩
    exact .cons fill_step (.cons hskip (.cons hseek (.nil _)))
  · rintro ⟨-, hle, -⟩
    exact absurd hle (by decide)

/-! ## The byte queue -/

inductive QueueCall
  | write (val : Obj) (size : Int)
  | read (room : Nat) (size : Int)
  | rewind
  deriving DecidableEq

/-- The buffer beside the prefixes its writes have reported as taken and the bytes its reads have
returned. -/
structure QueueHistory where
  buffer : Rbuffer
  taken : Obj
  given : Obj
  deriving DecidableEq

namespace QueueCall

open BoundedQueue

def run (s : QueueHistory) : QueueCall → Except Fault (Int × QueueHistory)
  | .write val size => do
    let (n, d) ← s.buffer.write (some val) size
    return (n, { s with buffer := d, taken := s.taken ++ val.take n.toNat })
  | .read room size => do
    let (n, bytes, d) ← s.buffer.read (some room) size
    return (n, { s with buffer := d, given := s.given ++ bytes.take n.toNat })
  | .rewind => do
    let (n, d) ← s.buffer.rewind
    return (n, { s with buffer := d })

/-- An explicit positive size with as many bytes behind the pointer; a destination with room. -/
def Valid (s : QueueHistory) : QueueCall → Prop
  | .write val size => 0 < size ∧ size ≤ val.length
  | .read room size => 0 ≤ size ∧ min size s.buffer.size ≤ room
  | .rewind => True

def Step (s : QueueHistory) (call : QueueCall) (s' : QueueHistory) : Prop :=
  call.Valid s ∧ ∃ n, call.run s = .ok (n, s')

/-- What the call is for a queue. -/
def action : QueueCall → Action UInt8
  | .write val size => .push (val.take size.toNat)
  | .read _ size => .pop size.toNat
  | .rewind => .idle

/-- The queue the buffer stands for, with its history. -/
structure Represents (s : QueueHistory) (l : Ledger UInt8) : Prop where
  wf : s.buffer.Wf
  capacity : s.buffer.capacity = l.queue.capacity
  items : s.buffer.unread = l.queue.items
  taken : s.taken = l.accepted
  given : s.given = l.delivered

variable {s : QueueHistory} {l : Ledger UInt8}

theorem Represents.room_eq (h : Represents s l) :
    s.buffer.capacity - s.buffer.size = l.queue.room := by
  have hlen := h.wf.length_unread
  have hfits := l.queue.fits
  rw [h.items] at hlen
  rw [BoundedQueue.room, h.capacity]
  omega

theorem take_min_take {α : Type*} (xs : List α) (n k : Nat) :
    xs.take (min n k) = (xs.take n).take k := by
  rw [List.take_take, Nat.min_comm]

/-- Every valid call returns, and does to the buffer what its action does to the queue; what it reports
is the number of elements the queue takes or delivers. -/
theorem run_represents (h : Represents s l) {call : QueueCall} (hvalid : call.Valid s) :
    ∃ n s', call.run s = .ok (n, s') ∧ Represents s' (l.next call.action) ∧
      ∀ val size, call = .write val size → n = min size (s.buffer.capacity - s.buffer.size) := by
  have hroom := h.room_eq
  cases call with
  | write val size =>
    obtain ⟨hpos, hle⟩ := hvalid
    obtain ⟨d', hput, hwf, hcap, -, hun⟩ := Rbuffer.put_spec h.wf (by omega) hle
    have hmin : (min size (s.buffer.capacity - s.buffer.size)).toNat =
        min size.toNat l.queue.room := by omega
    rw [hmin, take_min_take] at hun
    refine ⟨min size (s.buffer.capacity - s.buffer.size),
      ⟨d', s.taken ++ (val.take size.toNat).take l.queue.room, s.given⟩, ?_,
      ⟨hwf, by rw [hcap, h.capacity]; rfl, by rw [hun, h.items]; rfl, by rw [h.taken]; rfl, h.given⟩, ?_⟩
    · simp only [run, Rbuffer.write_pos hpos, hput, bind, Except.bind, hmin, take_min_take]
      rfl
    · rintro _ _ ⟨⟩
      rfl
  | read room size =>
    obtain ⟨h0, hroomy⟩ := hvalid
    have hs := h.wf.size_nonneg
    have hlen := h.wf.length_unread
    have htake : s.buffer.unread.take (min size s.buffer.size).toNat =
        s.buffer.unread.take size.toNat := by
      rw [show (min size s.buffer.size).toNat = min size.toNat s.buffer.unread.length by omega,
        take_min_take, List.take_of_length_le (by rw [List.length_take]; omega)]
    have hdrop : s.buffer.unread.drop (min size s.buffer.size).toNat =
        s.buffer.unread.drop size.toNat := by
      by_cases hall : size ≤ s.buffer.size
      · rw [min_eq_left hall]
      · rw [List.drop_eq_nil_of_le (by omega), List.drop_eq_nil_of_le (by omega)]
    refine ⟨min size s.buffer.size, ⟨s.buffer.advance (min size s.buffer.size), s.taken,
      s.given ++ s.buffer.unread.take size.toNat⟩, ?_,
      ⟨Rbuffer.advance_wf h.wf (by omega) (by omega), ?_, ?_, h.taken, ?_⟩, ?_⟩
    · simp only [run, Rbuffer.read_ok h.wf h0 hroomy, bind, Except.bind, List.take_take]
      rw [show min (min size s.buffer.size).toNat size.toNat = (min size s.buffer.size).toNat by omega,
        htake]
      rfl
    · rw [Rbuffer.advance_capacity, h.capacity]
      rfl
    · rw [Rbuffer.unread_advance h.wf (by omega) (by omega), hdrop, h.items]
      rfl
    · rw [h.given, h.items]
      rfl
    · intro _ _ hc
      cases hc
  | rewind =>
    obtain ⟨n, d', hrw, hwf, hun, -, -, hcap⟩ := Rbuffer.rewind_spec h.wf
    refine ⟨n, ⟨d', s.taken, s.given⟩, ?_,
      ⟨hwf, by rw [hcap, h.capacity]; rfl, by rw [hun, h.items]; rfl, h.taken, h.given⟩, ?_⟩
    · simp only [run, hrw, bind, Except.bind]
      rfl
    · intro _ _ hc
      cases hc

theorem step_represents (h : Represents s l) {call : QueueCall} {s' : QueueHistory}
    (hstep : Step s call s') : Represents s' (l.next call.action) := by
  obtain ⟨hvalid, n, hok⟩ := hstep
  obtain ⟨n', s'', hrun, hrep, -⟩ := run_represents h hvalid
  rw [hok] at hrun
  cases hrun
  exact hrep

end QueueCall

/-- The bytes returned and the bytes still held are the bytes taken, in order; every valid call returns,
and a write falls short only when the unread bytes and the block exceed the capacity. -/
theorem lossless_run {c : Int} {block : Obj} (hc : 0 < c) (hlt : c < 2147483648)
    (hblock : block.length = c) {calls : List QueueCall} {s : QueueHistory}
    (hrun : Steps QueueCall.Step ⟨Rbuffer.create c block, [], []⟩ calls s) :
    s.given ++ s.buffer.unread = s.taken ∧ ∀ call : QueueCall, call.Valid s →
      ∃ n s', call.run s = .ok (n, s') ∧ ∀ val size, call = .write val size → n < size →
        s.buffer.capacity < s.buffer.unread.length + size := by
  have hstart : QueueCall.Represents ⟨Rbuffer.create c block, [], []⟩
      (BoundedQueue.Ledger.start c.toNat) := by
    refine ⟨Rbuffer.create_wf (by omega) hlt hblock, ?_, ?_, rfl, rfl⟩
    · exact (Int.toNat_of_nonneg hc.le).symm
    · exact Rbuffer.unread_create c block
  have hrep := @Steps.simulate _ _ _ QueueCall.Step QueueCall.Represents
    (fun l call => l.next call.action) (fun h hstep => QueueCall.step_represents h hstep) _ _ _ hrun
    _ hstart
  have hcons := BoundedQueue.Ledger.foldl_conserved
    (BoundedQueue.Ledger.start_conserved c.toNat) (calls.map QueueCall.action)
  rw [List.foldl_map] at hcons
  refine ⟨?_, fun call hvalid => ?_⟩
  · rw [hrep.given, hrep.items, hrep.taken]
    exact hcons
  · obtain ⟨n, s', hok, -, hn⟩ := QueueCall.run_represents hrep hvalid
    refine ⟨n, s', hok, fun val size hw hshort => ?_⟩
    have hlen := hrep.wf.length_unread
    have hval := hn val size hw
    omega

/-- Three bytes are written and two read; after the rewind three more of four fit. -/
theorem lossless_run_rewind :
    let calls : List QueueCall := [.write [7, 8, 9] 3, .read 4 2, .rewind, .write [1, 2, 3, 4] 4]
    let s : QueueHistory := ⟨⟨[9, 1, 2, 3], 0, 4, 4⟩, [7, 8, 9, 1, 2, 3], [7, 8]⟩
    Steps QueueCall.Step ⟨Rbuffer.create 4 [0, 0, 0, 0], [], []⟩ calls s ∧
      s.given ++ s.buffer.unread = s.taken ∧ ∀ call : QueueCall, call.Valid s →
        ∃ n s', call.run s = .ok (n, s') ∧ ∀ val size, call = .write val size → n < size →
          s.buffer.capacity < s.buffer.unread.length + size := by
  intro calls s
  have hrun : Steps QueueCall.Step ⟨Rbuffer.create 4 [0, 0, 0, 0], [], []⟩ calls s :=
    .cons ⟨by simp [QueueCall.Valid], 3, rfl⟩ (.cons ⟨by simp [QueueCall.Valid], 2, rfl⟩
      (.cons ⟨trivial, _, rfl⟩ (.cons ⟨by simp [QueueCall.Valid], 3, rfl⟩ (.nil _))))
  exact ⟨hrun, lossless_run (by decide) (by decide) (by decide) hrun⟩

end Funra
