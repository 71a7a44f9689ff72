import Funra.Codec.Basic
import Funra.Lib.System
import Funra.Rbuffer.Spec

/-!
# The rounds of the decoder

What one round of `decode_process` does to a well-formed `read_cache`, one equation for each way it can
end, and the inversion `decodeIter_sound` that sums them up: a round that goes on has taken a whole
frame off the front of the unread bytes, a round that stops has dropped all of them or at least a
header.

`decodeLoop_total` turns a property of single rounds into termination: as long as no round faults, the
loop ends within its fuel.
-/

namespace Funra

open CInt Mem System

/-- The header at the front of `bytes`, in host byte order. -/
def headerOf (bytes : Obj) : RipcDataDefault := ntohHeader (ofHeaderBytes (bytes.take 32))

/-- A complete header with the right magic is there. -/
def HasHeader (bytes : Obj) : Prop :=
  32 ≤ bytes.length ∧ (headerOf bytes).magic = ripcHeadDefaultMagic

instance (bytes : Obj) : Decidable (HasHeader bytes) := inferInstanceAs (Decidable (_ ∧ _))

variable {d : Rbuffer} {malloc : Nat → Bool}

namespace Rbuffer

theorem clear_wf (h : d.Wf) : d.clear.Wf := by
  have h1 := h.offset_nonneg
  have h2 := h.offset_le_pos
  have h3 := h.pos_le_capacity
  exact ⟨le_refl _, le_refl _, by simp only [clear]; omega, h.capacity_lt, h.length_data⟩

@[simp] theorem clear_size (d : Rbuffer) : d.clear.size = 0 := rfl

@[simp] theorem clear_capacity (d : Rbuffer) : d.clear.capacity = d.capacity := rfl

/-- Nothing can be taken back from a drained buffer. -/
theorem readExt_clear (h : d.Wf) {k : Int} (hlo : 0 ≤ k) (hhi : k < 2147483648) :
    d.clear.readExt (-k) = d.clear := by
  rw [readExt_eq (clear_wf h) hlo (by omega)]
  simp only [clear]
  rw [int32_of_range (by omega) (by omega)]
  congr 1
  omega

/-- Taking back nothing moves the read cursor, inside the bytes written. -/
theorem readExt_zero_wf (h : d.Wf) : (d.readExt 0).Wf := by
  have heq := readExt_eq h (k := 0) (le_refl _) (by decide)
  rw [Int.neg_zero] at heq
  obtain ⟨h1, h2, h3, h4, h5⟩ := h
  rw [heq]
  exact ⟨by dsimp only; omega, by dsimp only; omega, h3, h4, h5⟩

end Rbuffer

/-! ### The header -/

theorem read_header (h : d.Wf) : d.read (some 40) headerLen =
    .ok (min 32 d.size, d.unread.take 32, d.advance (min 32 d.size)) :=
  Rbuffer.read_ok h (by decide) (by rw [headerLen]; omega)

theorem decodeIter_short (h : d.Wf) (hs : d.size < 32) :
    decodeIter malloc d = ⟨none, .ok (.halt d.clear)⟩ := by
  have h0 := h.size_nonneg
  have hcut := Rbuffer.readExt_clear h h0 (by omega)
  simp only [decodeIter, read_header h, min_eq_right (le_of_lt hs), Rbuffer.advance_all]
  rw [if_pos (by rw [headerLen]; omega)]
  simp only [Rbuffer.clear] at hcut ⊢
  rw [hcut]

theorem advance_header_clear (d : Rbuffer) (k : Int) : (d.advance k).clear = d.clear := by
  simp only [Rbuffer.advance, Rbuffer.clear]
  split <;> rfl

theorem decodeIter_badMagic (h : d.Wf) (hs : 32 ≤ d.size) (hbad : ¬ HasHeader d.unread) :
    decodeIter malloc d = ⟨none, .ok (.badMagic d.clear)⟩ := by
  have hlen := h.length_unread
  have hmagic : (ofHeaderBytes (d.unread.take 32)).magic ≠ ripcHeadDefaultMagic :=
    fun hm => hbad ⟨by omega, hm⟩
  simp only [decodeIter, read_header h, min_eq_left hs]
  rw [if_neg (by simp [headerLen]), if_pos hmagic, advance_header_clear]

theorem decodeIter_header (h : d.Wf) (hh : HasHeader d.unread) :
    decodeIter malloc d = ⟨some (requireLenOf (headerOf d.unread)),
      decodePayload malloc (d.advance 32) (headerOf d.unread)
        (requireLenOf (headerOf d.unread))⟩ := by
  have hlen := h.length_unread
  obtain ⟨hs, hmagic⟩ := hh
  have hmagic' : ¬ (ofHeaderBytes (d.unread.take 32)).magic ≠ ripcHeadDefaultMagic := not_not.mpr hmagic
  simp only [decodeIter, read_header h, min_eq_left (show 32 ≤ d.size by omega)]
  rw [if_neg (by simp [headerLen]), if_neg hmagic']
  rfl

/-! ### The payload -/

section payload

variable {m : RipcDataDefault}

/-- A negative size that `malloc` serves goes to `memcpy`. -/
theorem decodePayload_neg (h : d.Wf) {n : Int} (hn : n < 0)
    (hm : malloc (sizeT (int32 (n + 1))) = true) :
    decodePayload malloc d m n = .error .outOfBounds := by
  have hs := h.size_nonneg
  simp only [decodePayload, hm, if_true, Rbuffer.read_neg hn (show n ≤ d.size by omega)]
  rfl

/-- Without memory nothing is read: an empty payload is terminated through `NULL`, every other one
looks incomplete. -/
theorem decodePayload_null {n : Int} (hm : malloc (sizeT (int32 (n + 1))) = false) :
    decodePayload malloc d m n = if n = 0 then .error .nullDeref else .ok (.halt (d.readExt 0)) := by
  simp only [decodePayload, hm, Bool.false_eq_true, if_false, Rbuffer.read_null, bind, Except.bind]
  by_cases h0 : n = 0
  · rw [if_pos h0, if_neg (by simp [h0])]
    rfl
  · rw [if_neg h0, if_pos (Ne.symm h0)]
    rfl

theorem sizeT_room {n : Int} (h0 : 0 ≤ n) (hn : n < 2147483647) :
    sizeT (int32 (n + 1)) = (n + 1).toNat := by
  rw [int32_of_range (by omega) (by omega), sizeT_of_nonneg (by omega) (by omega)]

/-- More bytes than there are: what is there is dropped. -/
theorem decodePayload_short (h : d.Wf) {n : Int} (hn : d.size < n) (hmax : n < 2147483648)
    (hm : malloc (sizeT (int32 (n + 1))) = true) :
    decodePayload malloc d m n = .ok (.halt d.clear) := by
  have h0 := h.size_nonneg
  have hlt := h.size_add_left
  have hl := h.left_nonneg
  have hcap := h.capacity_lt
  have hroom : min n d.size ≤ (sizeT (int32 (n + 1)) : Int) := by
    unfold sizeT int32
    omega
  have hread := Rbuffer.read_ok h (n := n) (by omega) hroom
  rw [min_eq_right (by omega)] at hread
  simp only [decodePayload, hm, if_true, hread, bind, Except.bind]
  rw [if_pos (by omega), Rbuffer.advance_all]
  have hcut := Rbuffer.readExt_clear h h0 (by omega)
  simp only [Rbuffer.clear] at hcut ⊢
  rw [hcut]
  rfl

/-- The whole payload is there. -/
theorem decodePayload_whole (h : d.Wf) {n : Nat} (hn : n ≤ d.size) (hlt : n < 2147483647)
    (hm : malloc (n + 1) = true) : decodePayload malloc d m n =
      .ok (.accept (d.advance n) { m with data := some (d.unread.take n) }) := by
  have hroom : sizeT (int32 ((n : Int) + 1)) = n + 1 := by
    rw [sizeT_room (by omega) (by omega)]
    omega
  have hread := @Rbuffer.read_ok d h (n + 1) n (by omega) (by omega)
  rw [min_eq_left hn, Int.toNat_natCast] at hread
  simp only [decodePayload, hroom, hm, if_true, hread, bind, Except.bind]
  rw [if_neg (by simp), if_neg (by omega)]
  rfl

end payload

/-! ### A whole round -/

/-- The buffer after a frame with a payload of `n` bytes has been taken off. -/
def afterFrame (d : Rbuffer) (n : Nat) : Rbuffer := (d.advance 32).advance n

/-- The message of a frame with a payload of `n` bytes at the front of `bytes`. -/
def frameMessage (bytes : Obj) (n : Nat) : RipcDataDefault :=
  { headerOf bytes with data := some (window bytes 32 n) }

section frame

variable {n : Nat}

theorem afterFrame_wf (h : d.Wf) (hn : 32 + n ≤ d.size) : (afterFrame d n).Wf := by
  refine Rbuffer.advance_wf (Rbuffer.advance_wf h (by decide) (by omega)) (by omega) ?_
  rw [Rbuffer.advance_size]
  omega

theorem afterFrame_size (d : Rbuffer) (n : Nat) : (afterFrame d n).size = d.size - (32 + n) := by
  rw [afterFrame, Rbuffer.advance_size, Rbuffer.advance_size]
  omega

theorem afterFrame_capacity (d : Rbuffer) (n : Nat) : (afterFrame d n).capacity = d.capacity := by
  rw [afterFrame, Rbuffer.advance_capacity, Rbuffer.advance_capacity]

theorem afterFrame_unread (h : d.Wf) (hn : 32 + n ≤ d.size) :
    (afterFrame d n).unread = d.unread.drop (32 + n) := by
  rw [afterFrame, Rbuffer.unread_advance (Rbuffer.advance_wf h (by decide) (by omega)) (by omega)
    (by rw [Rbuffer.advance_size]; omega), Rbuffer.unread_advance h (by decide) (by omega),
    List.drop_drop]
  rfl

/-- The read cursor moves past the frame, or is back at the front of a drained buffer. -/
theorem afterFrame_offset (hn : 32 + n < d.size) : (afterFrame d n).offset = d.offset + 32 + n := by
  have h1 := Rbuffer.advance_of_lt (d := d) (k := 32) (by omega)
  have hs := Rbuffer.advance_size d 32
  rw [afterFrame, Rbuffer.advance_of_lt (by omega), h1]

theorem decodeIter_accept (h : d.Wf) (hh : HasHeader d.unread)
    (hreq : requireLenOf (headerOf d.unread) = n) (hn : 32 + n ≤ d.size)
    (hm : malloc (n + 1) = true) : decodeIter malloc d =
      ⟨some n, .ok (.accept (afterFrame d n) (frameMessage d.unread n))⟩ := by
  have hl := h.left_nonneg
  have hcap := h.size_add_left
  have hlt := h.capacity_lt
  have hwf := Rbuffer.advance_wf h (k := 32) (by decide) (by omega)
  have hs := Rbuffer.advance_size d 32
  rw [decodeIter_header h hh, hreq, decodePayload_whole hwf (by omega) (by omega) hm,
    Rbuffer.unread_advance h (by decide) (by omega)]
  rfl

end frame

/-- Every way a round ends without a fault. -/
def DecodeOutcome.Sound (malloc : Nat → Bool) (d : Rbuffer) : DecodeOutcome → Prop
  | .halt d' => d'.Wf ∧ (d' = d.clear ∨ (32 ≤ d.size ∧ d' = (d.advance 32).readExt 0))
  | .badMagic d' => d' = d.clear
  | .accept d' m => HasHeader d.unread ∧ ∃ n : Nat, requireLenOf (headerOf d.unread) = n ∧
      malloc (n + 1) = true ∧ 32 + n ≤ d.size ∧ d' = afterFrame d n ∧ m = frameMessage d.unread n

theorem decodeIter_sound (h : d.Wf) {o : DecodeOutcome} (ho : (decodeIter malloc d).outcome = .ok o) :
    o.Sound malloc d := by
  have hs := h.size_nonneg
  have hl := h.left_nonneg
  have hcap := h.size_add_left
  have hlt := h.capacity_lt
  have hlen := h.length_unread
  by_cases hshort : d.size < 32
  · rw [decodeIter_short h hshort] at ho
    cases ho
    exact ⟨Rbuffer.clear_wf h, .inl rfl⟩
  by_cases hh : HasHeader d.unread
  swap
  · rw [decodeIter_badMagic h (by omega) hh] at ho
    cases ho
    rfl
  have hwf := Rbuffer.advance_wf h (k := 32) (by decide) (by omega)
  have hsize := Rbuffer.advance_size d 32
  rw [decodeIter_header h hh] at ho
  dsimp only at ho
  obtain ⟨r, hr⟩ : ∃ r, requireLenOf (headerOf d.unread) = r := ⟨_, rfl⟩
  have hrange : r < 2147483648 := by
    rw [← hr]
    exact (int32_range _).2
  rw [hr] at ho
  cases hm : malloc (sizeT (int32 (r + 1))) with
  | false =>
    rw [decodePayload_null hm] at ho
    split at ho
    · cases ho
    · cases ho
      exact ⟨Rbuffer.readExt_zero_wf hwf, .inr ⟨by omega, rfl⟩⟩
  | true =>
    by_cases hneg : r < 0
    · rw [decodePayload_neg hwf hneg hm] at ho
      cases ho
    by_cases hfit : (d.advance 32).size < r
    · rw [decodePayload_short hwf hfit hrange hm] at ho
      cases ho
      rw [advance_header_clear]
      exact ⟨Rbuffer.clear_wf h, .inl rfl⟩
    · -- the whole frame is there
      lift r to Nat using by omega
      rw [sizeT_room (by omega) (by omega), show ((r : Int) + 1).toNat = r + 1 by omega] at hm
      rw [decodePayload_whole hwf (by omega) (by omega) hm,
        Rbuffer.unread_advance h (by decide) (by omega)] at ho
      cases ho
      exact ⟨hh, r, hr, hm, by omega, rfl, rfl⟩

/-- A round that goes on has taken off at least a header. -/
theorem decodeIter_progress (h : d.Wf) {d' : Rbuffer} {m : RipcDataDefault}
    (ho : (decodeIter malloc d).outcome = .ok (.accept d' m)) :
    d'.Wf ∧ d'.capacity = d.capacity ∧ d'.size + 32 ≤ d.size ∧
      (d.offset + 32 ≤ d'.offset ∨ d'.size = 0) := by
  obtain ⟨-, n, -, -, hn, rfl, -⟩ := decodeIter_sound h ho
  have hsize := afterFrame_size d n
  refine ⟨afterFrame_wf h hn, afterFrame_capacity d n, by omega, ?_⟩
  by_cases hlt : 32 + n < d.size
  · rw [afterFrame_offset hlt]
    exact .inl (by omega)
  · exact .inr (by omega)

/-! ### The loop -/

/-- The rounds that go on, from buffer to buffer. -/
def AcceptStep (malloc : Nat → Bool) (d : Rbuffer) (m : RipcDataDefault) (d' : Rbuffer) : Prop :=
  (decodeIter malloc d).outcome = .ok (.accept d' m)

/-- The loop ends within its fuel when no round it gets to faults. -/
theorem decodeLoop_total {dsType : RipcDataSourceType} (fuel : Nat) (h : d.Wf)
    (hfuel : d.size < fuel) (hok : ∀ ms d', Steps (AcceptStep malloc) d ms d' →
      ∃ o, (decodeIter malloc d').outcome = .ok o) :
    ∃ code d' events, decodeLoop malloc dsType fuel d = .ok (code, d', events) ∧ d'.Wf := by
  induction fuel generalizing d with
  | zero =>
    have := h.size_nonneg
    omega
  | succ fuel ih =>
    obtain ⟨o, ho⟩ := hok [] d (.nil d)
    have hsound := decodeIter_sound h ho
    cases o with
    | halt d' => exact ⟨none, d', [], by rw [decodeLoop, ho]; rfl, hsound.1⟩
    | badMagic d' =>
      obtain rfl : d' = d.clear := hsound
      exact ⟨_, _, [], by rw [decodeLoop, ho]; rfl, Rbuffer.clear_wf h⟩
    | accept d' m =>
      obtain ⟨hwf, -, hsize, -⟩ := decodeIter_progress h ho
      obtain ⟨code, d'', events, hrun, hwf'⟩ := ih hwf (by omega)
        (fun ms e hsteps => hok (m :: ms) e (.cons ho hsteps))
      refine ⟨code, d'', frameEvents dsType m ++ events, ?_, hwf'⟩
      rw [decodeLoop, ho]
      simp [hrun, bind, Except.bind, pure, Except.pure]

/-! ### After the loop -/

theorem rewindUsed_spec (h : d.Wf) : ∃ k rc, rewindUsed d = .ok (k, rc) ∧ rc.Wf ∧
    rc.unread = d.unread ∧ rc.capacity = d.capacity ∧ rc.size = d.size ∧ (d.size = 0 → rc.pos = 0) := by
  unfold rewindUsed
  by_cases hs : d.size = 0 ∨ d.left < d.capacity / 2
  · obtain ⟨k, rc, hrw, hwf, hun, ho, hp, hc⟩ := Rbuffer.rewind_spec h
    rw [if_pos hs]
    refine ⟨k, rc, hrw, hwf, hun, hc, ?_, fun h0 => by rw [hp, h0]⟩
    unfold Rbuffer.size at *
    omega
  · rw [if_neg hs]
    exact ⟨0, d, rfl, h, rfl, rfl, rfl, fun h0 => absurd (.inl h0) hs⟩

theorem decodeOnAfter_spec (next : NextHandler) (ds : RipcDataSource) (h : ds.readCache.Wf) :
    ∃ (code : Int) (rc : Rbuffer), decodeOnAfter next ds = .ok (code, { ds with readCache := rc }) ∧
      rc.Wf ∧ rc.unread = ds.readCache.unread ∧ rc.capacity = ds.readCache.capacity ∧
      rc.size = ds.readCache.size ∧ (ds.readCache.size = 0 → rc.pos = 0) := by
  obtain ⟨k, rc, hrw, hspec⟩ := rewindUsed_spec h
  simp only [decodeOnAfter, hrw, bind, Except.bind]
  split
  · exact ⟨_, rc, rfl, hspec⟩
  · cases next with
    | none => exact ⟨_, rc, rfl, hspec⟩
    | some code => exact ⟨_, rc, rfl, hspec⟩

/-- What the loop leaves is tidied up; its events are those of the call. -/
theorem decodeProcess_of_loop (next : NextHandler) (ds : RipcDataSource) (rawLen : UInt32)
    {code : Option Int} {events : List DecodeEvent}
    (hrun : decodeLoop malloc ds.dsType ((decodeOnBefore ds rawLen).readCache.size.toNat + 1)
      (decodeOnBefore ds rawLen).readCache = .ok (code, d, events)) (h : d.Wf) :
    ∃ (code' : Int) (rc : Rbuffer), decodeProcess malloc next ds rawLen =
        .ok (code', { ds with readCache := rc }, events) ∧ rc.Wf ∧ rc.unread = d.unread ∧
      rc.capacity = d.capacity ∧ rc.size = d.size ∧ (code = none → d.size = 0 → rc.pos = 0) := by
  have hty : (decodeOnBefore ds rawLen).dsType = ds.dsType := rfl
  simp only [decodeProcess, hty, hrun, bind, Except.bind]
  cases code with
  | some code => exact ⟨code, d, rfl, h, rfl, rfl, rfl, fun hc => by cases hc⟩
  | none =>
    obtain ⟨code', rc, hafter, hwf, hun, hc, hs, hp⟩ := decodeOnAfter_spec next
      { ds with readCache := d } h
    refine ⟨code', rc, ?_, hwf, hun, hc, hs, fun _ => hp⟩
    have hds : decodeOnAfter next { decodeOnBefore ds rawLen with readCache := d } =
        .ok (code', { ds with readCache := rc }) := hafter
    dsimp only at hds ⊢
    rw [hty] at hds
    rw [hds]
    rfl

end Funra
