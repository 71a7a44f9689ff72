import Funra.Lib.Except
import Funra.Rbuffer.Spec

/-!
# Moving the unread bytes to the front

`rbuffer_rewind` moves the bytes in blocks as long as the gap before them, the last one cut short. A block is read before any
block is written there, since every block ends where the next one is read at the latest. The blocks do not depend on the bytes:
`rewindCopies` lists them, and the call does nothing to the bytes but these copies.
-/

namespace Funra

open CInt Mem Except

namespace Rbuffer

/-- The arguments of a `memcpy` inside the block. -/
structure Move where
  dst : Int
  src : Int
  n : Int
  deriving DecidableEq, Repr

def Move.run (c : Move) (data : Obj) : Except Fault Obj := copyWithin data c.dst c.src c.n

/-- The copies of the loop of `rbuffer_rewind`. -/
def copiesLoop (offset size : Int) : Nat → Int → Int → List Move
  | 0, _, _ => []
  | fuel + 1, moveSize, block =>
    if moveSize < size then
      let block := if moveSize + block > size then size - moveSize else block
      ⟨moveSize, offset + moveSize, block⟩ :: copiesLoop offset size fuel (moveSize + block) block
    else []

def rewindCopies (d : Rbuffer) : List Move := if d.offset > 0 then copiesLoop d.offset d.size d.size.toNat 0 d.offset else []

variable {d : Rbuffer} {offset size moveSize block : Int}

/-- The loop is its copies, one after the other. -/
theorem rewindLoop_eq (fuel : Nat) (data : Obj) (hb : 0 < block) (hm : moveSize ≤ size) (hfuel : size ≤ moveSize + fuel) :
    rewindLoop offset size fuel data moveSize block =
      (forEach Move.run (copiesLoop offset size fuel moveSize block) data).map fun data => (size, data) := by
  induction fuel generalizing data moveSize block with
  | zero =>
    obtain rfl : moveSize = size := by omega
    rw [rewindLoop, if_neg (by omega)]
    rfl
  | succ fuel ih =>
    by_cases hlt : moveSize < size
    · obtain ⟨k, hk, hpos, -, hle⟩ := clip_spec hlt hb
      rw [rewindLoop, if_pos hlt, copiesLoop, if_pos hlt]
      dsimp only
      rw [hk, forEach]
      simp only [bind]
      rw [Move.run]
      cases copyWithin data moveSize (offset + moveSize) k with
      | error f => rfl
      | ok data => exact ih data hpos hle (by omega)
    · obtain rfl : moveSize = size := by omega
      rw [rewindLoop, if_neg hlt, copiesLoop, if_neg hlt]
      rfl

/-- Every copy ends before its source begins, and the source in front of `pos`. -/
theorem copiesLoop_ranges (fuel : Nat) (h0 : 0 ≤ moveSize) (hb : 0 < block) (hbo : block ≤ offset) :
    ∀ c ∈ copiesLoop offset size fuel moveSize block, 0 < c.n ∧ 0 ≤ c.dst ∧ c.dst + c.n ≤ c.src ∧ c.src + c.n ≤ offset + size := by
  induction fuel generalizing moveSize block with
  | zero => simp [copiesLoop]
  | succ fuel ih =>
    rw [copiesLoop]
    split
    next hlt =>
      obtain ⟨k, hk, hpos, hkb, hle⟩ := clip_spec hlt hb
      dsimp only
      rw [hk, List.forall_mem_cons]
      refine ⟨⟨hpos, h0, ?_, ?_⟩, ih (by omega) hpos (by omega)⟩
      · show moveSize + k ≤ offset + moveSize
        omega
      · show offset + moveSize + k ≤ offset + size
        omega
    next => simp

/-- The buffer after its unread bytes have been moved. -/
structure Rewound (d d' : Rbuffer) : Prop where
  front : window d'.data 0 d.size.toNat = window d.data d.offset.toNat d.size.toNat
  offset : d'.offset = 0
  pos : d'.pos = d.size
  capacity : d'.capacity = d.capacity
  unread : d'.unread = d.unread
  left : d'.left = d.left + d.offset

theorem rewound_of_unread {d' : Rbuffer} (hun : d'.unread = d.unread) (hoff : d'.offset = 0) (hpos : d'.pos = d.size)
    (hcap : d'.capacity = d.capacity) : Rewound d d' where
  front := by
    have hsize : d'.size = d.size := by
      unfold Rbuffer.size at hpos ⊢
      omega
    rw [Rbuffer.unread, hoff, hsize] at hun
    exact hun
  offset := hoff
  pos := hpos
  capacity := hcap
  unread := hun
  left := by
    unfold Rbuffer.left Rbuffer.size at *
    omega

/-- The call is its copies. -/
theorem rewind_copies (h : d.Wf) : forEach Move.run d.rewindCopies d.data = d.rewind.map fun r => r.2.data := by
  unfold rewindCopies rewind
  split
  next hpos =>
    have hsize := h.size_nonneg
    rw [rewindLoop_eq d.size.toNat d.data hpos hsize (by omega)]
    cases forEach Move.run (copiesLoop d.offset d.size d.size.toNat 0 d.offset) d.data with
    | error f => rfl
    | ok data => rfl
  next => rfl

/-- The call ends with the unread bytes at the front, and its copies do not overlap and stay inside the block. -/
theorem rewind_moves (h : d.Wf) :
    ∃ n d', d.rewind = .ok (n, d') ∧ Rewound d d' ∧ forEach Move.run d.rewindCopies d.data = .ok d'.data ∧
    ∀ c ∈ d.rewindCopies, 0 < c.n ∧ 0 ≤ c.dst ∧ c.dst + c.n ≤ c.src ∧ c.src + c.n ≤ d.capacity := by
  obtain ⟨n, d', hrun, hwf, hun, hoff, hpos, hcap⟩ := rewind_spec h
  refine ⟨n, d', hrun, rewound_of_unread hun hoff hpos hcap, ?_, ?_⟩
  · rw [rewind_copies h, hrun]
    rfl
  · intro c hc
    unfold rewindCopies at hc
    split at hc
    next hgap =>
      have hrange := copiesLoop_ranges d.size.toNat (le_refl 0) hgap (le_refl _) c hc
      have hcapacity := h.pos_le_capacity
      unfold size at hrange
      exact ⟨hrange.1, hrange.2.1, hrange.2.2.1, by omega⟩
    next => exact absurd hc List.not_mem_nil

theorem rewind_moves_five : ∃ n d', (⟨[0, 0, 1, 2, 3, 4, 5], 2, 7, 7⟩ : Rbuffer).rewind = .ok (n, d') ∧
    Rewound ⟨[0, 0, 1, 2, 3, 4, 5], 2, 7, 7⟩ d' ∧
    forEach Move.run (rewindCopies ⟨[0, 0, 1, 2, 3, 4, 5], 2, 7, 7⟩) [0, 0, 1, 2, 3, 4, 5] = .ok d'.data ∧
    ∀ c ∈ rewindCopies ⟨[0, 0, 1, 2, 3, 4, 5], 2, 7, 7⟩, 0 < c.n ∧ 0 ≤ c.dst ∧ c.dst + c.n ≤ c.src ∧ c.src + c.n ≤ 7 :=
  rewind_moves (d := ⟨[0, 0, 1, 2, 3, 4, 5], 2, 7, 7⟩) ⟨by decide, by decide, by decide, by decide, by decide⟩

end Rbuffer

end Funra
