import Funra.Codec.Decode
import Funra.Codec.Append

/-!
# The decoder on hostile input

`DecodesSafely` is what a decoder owes to a peer that sends any bytes: it ends, every size it computes
from a header is between 0 and `ripc_data_default_len_max`, and every round stops or gets on by at
least a header. The code checks no length, so this depends on the headers it gets to
(`decodesSafely_iff`).
-/

namespace Funra

open CInt Mem System

/-- The round on `d` passes on a payload size in bounds only, and it stops or makes progress. -/
structure RoundSafe (malloc : Nat → Bool) (d : Rbuffer) : Prop where
  size_ok : ∀ n, (decodeIter malloc d).requireLen = some n → 0 ≤ n ∧ n ≤ ripcDataDefaultLenMax
  ends : ∃ o, (decodeIter malloc d).outcome = .ok o
  progress : ∀ d' m, (decodeIter malloc d).outcome = .ok (.accept d' m) →
    d'.size + 32 ≤ d.size ∧ (d.offset + 32 ≤ d'.offset ∨ d'.size = 0)

/-- `decode_process` returns, and every round it gets to is safe. -/
def DecodesSafely (malloc : Nat → Bool) (next : NextHandler) (ds : RipcDataSource)
    (rawLen : UInt32) : Prop :=
  (∃ r, decodeProcess malloc next ds rawLen = .ok r) ∧
    ∀ ms d, Steps (AcceptStep malloc) (decodeOnBefore ds rawLen).readCache ms d → RoundSafe malloc d

/-- The headers the decoder gets to in `bytes`: the one at the front, and those behind a whole frame
that it finds memory for. -/
inductive ReachedHeader (malloc : Nat → Bool) : Obj → RipcDataDefault → Prop
  | front {bytes : Obj} (h : HasHeader bytes) : ReachedHeader malloc bytes (headerOf bytes)
  | behind {bytes : Obj} {m : RipcDataDefault} {n : Nat} (h : HasHeader bytes)
      (hlen : (headerOf bytes).len.toNat = 24 + n) (hfit : 32 + n ≤ bytes.length)
      (hm : malloc (n + 1) = true) (hrest : ReachedHeader malloc (bytes.drop (32 + n)) m) :
      ReachedHeader malloc bytes m

/-- A length of 24 up to 24 + `ripc_data_default_len_max`, and memory for the terminator of an empty
payload. -/
def HeaderUsable (malloc : Nat → Bool) (m : RipcDataDefault) : Prop :=
  24 ≤ m.len.toNat ∧ m.len.toNat ≤ 24 + 2048000 ∧ (m.len.toNat = 24 → malloc 1 = true)

/-- The read cursor is inside the buffer, and every header the decoder gets to is usable. -/
def HeadersUsable (malloc : Nat → Bool) (ds : RipcDataSource) (rawLen : UInt32) : Prop :=
  ds.readCache.offset < ds.readCache.capacity ∧
    ∀ m, ReachedHeader malloc (decodeOnBefore ds rawLen).readCache.unread m → HeaderUsable malloc m

variable {malloc : Nat → Bool} {d : Rbuffer}

theorem requireLenOf_eq_iff {m : RipcDataDefault} {n : Nat} (hn : n < 2147483648) :
    requireLenOf m = n ↔ m.len.toNat = 24 + n := by
  have := m.len.toNat_lt
  unfold requireLenOf transLen int32 uint32
  omega

/-- The sizes in bounds are those of the lengths in bounds. -/
theorem requireLenOf_range (m : RipcDataDefault) :
    (0 ≤ requireLenOf m ∧ requireLenOf m ≤ ripcDataDefaultLenMax) ↔
      (24 ≤ m.len.toNat ∧ m.len.toNat ≤ 24 + 2048000) := by
  have := m.len.toNat_lt
  unfold requireLenOf transLen ripcDataDefaultLenMax int32 uint32
  omega

/-! ### The rounds see the reached headers -/

/-- A round on a usable header, or on none, is safe. -/
theorem roundSafe_of_usable (h : d.Wf)
    (hu : HasHeader d.unread → HeaderUsable malloc (headerOf d.unread)) : RoundSafe malloc d := by
  refine ⟨fun n hn => ?_, ?_, fun d' m ho => ?_⟩
  · by_cases hh : HasHeader d.unread
    · rw [decodeIter_header h hh] at hn
      cases hn
      exact (requireLenOf_range _).mpr ⟨(hu hh).1, (hu hh).2.1⟩
    · have hnone : (decodeIter malloc d).requireLen = none := by
        by_cases hs : d.size < 32
        · rw [decodeIter_short h hs]
        · rw [decodeIter_badMagic h (by omega) hh]
      rw [hnone] at hn
      cases hn
  · by_cases hs : d.size < 32
    · exact ⟨_, by rw [decodeIter_short h hs]⟩
    by_cases hh : HasHeader d.unread
    swap
    · exact ⟨_, by rw [decodeIter_badMagic h (by omega) hh]⟩
    obtain ⟨hlo, hhi, hempty⟩ := hu hh
    have hwf := Rbuffer.advance_wf h (k := 32) (by decide) (by omega)
    obtain ⟨n, hlen⟩ : ∃ n, (headerOf d.unread).len.toNat = 24 + n := ⟨_, (Nat.add_sub_of_le hlo).symm⟩
    have hreq := (requireLenOf_eq_iff (by omega)).mpr hlen
    have hroom : sizeT (int32 ((n : Int) + 1)) = n + 1 := by
      rw [sizeT_room (by omega) (by omega)]
      omega
    rw [decodeIter_header h hh, hreq]
    cases hm : malloc (n + 1) with
    | false =>
      rw [decodePayload_null (by rw [hroom, hm])]
      refine ⟨_, if_neg fun h0 => ?_⟩
      obtain rfl : n = 0 := by omega
      rw [hempty (by omega)] at hm
      cases hm
    | true =>
      by_cases hfit : (n : Int) ≤ (d.advance 32).size
      · exact ⟨_, decodePayload_whole hwf hfit (by omega) hm⟩
      · exact ⟨_, decodePayload_short hwf (by omega) (by omega) (by rw [hroom, hm])⟩
  · have hprog := decodeIter_progress h ho
    exact ⟨hprog.2.2.1, hprog.2.2.2⟩

/-- Behind an accepted frame, the decoder gets to headers it had in front of it. -/
theorem reachedHeader_behind (h : d.Wf) {d' : Rbuffer} {m m' : RipcDataDefault}
    (hstep : AcceptStep malloc d m d') (hr : ReachedHeader malloc d'.unread m') :
    ReachedHeader malloc d.unread m' := by
  have hlen := h.length_unread
  have hl := h.left_nonneg
  have hcap := h.size_add_left
  have hlt := h.capacity_lt
  obtain ⟨hh, n, hreq, hm, hn, rfl, -⟩ := decodeIter_sound h hstep
  rw [afterFrame_unread h hn] at hr
  exact .behind hh ((requireLenOf_eq_iff (by omega)).mp hreq) (by omega) hm hr

theorem steps_wf {d' : Rbuffer} {ms : List RipcDataDefault} (h : d.Wf)
    (hsteps : Steps (AcceptStep malloc) d ms d') : d'.Wf :=
  hsteps.invariant (I := Rbuffer.Wf) (fun hwf hstep => (decodeIter_progress hwf hstep).1) h

/-- The headers in front of any round of the loop were in front of the first. -/
theorem reachedHeader_steps {d' : Rbuffer} {ms : List RipcDataDefault} {m : RipcDataDefault}
    (h : d.Wf) (hsteps : Steps (AcceptStep malloc) d ms d')
    (hr : ReachedHeader malloc d'.unread m) : ReachedHeader malloc d.unread m := by
  induction hsteps with
  | nil _ => exact hr
  | cons hstep _ ih => exact reachedHeader_behind h hstep (ih (decodeIter_progress h hstep).1 hr)

/-- Every reached header is the header of some round. -/
theorem steps_of_reachedHeader {bytes : Obj} {m : RipcDataDefault} (hr : ReachedHeader malloc bytes m)
    (h : d.Wf) (hb : d.unread = bytes) : ∃ ms d', Steps (AcceptStep malloc) d ms d' ∧ d'.Wf ∧
      HasHeader d'.unread ∧ headerOf d'.unread = m := by
  induction hr generalizing d with
  | front hh =>
    subst hb
    exact ⟨[], d, .nil d, h, hh, rfl⟩
  | @behind bytes m n hh hlen hfit hm _ ih =>
    subst hb
    have hsize := h.length_unread
    have hl := h.left_nonneg
    have hcap := h.size_add_left
    have hlt := h.capacity_lt
    have hreq := (requireLenOf_eq_iff (n := n) (by omega)).mpr hlen
    have hacc := decodeIter_accept h hh hreq (by omega) hm
    obtain ⟨ms, d', hsteps, hspec⟩ := ih (afterFrame_wf h (by omega))
      (afterFrame_unread h (by omega))
    exact ⟨_, d', .cons (by rw [AcceptStep, hacc]) hsteps, hspec⟩

/-- A safe round on a header makes it usable. -/
theorem usable_of_roundSafe (h : d.Wf) (hh : HasHeader d.unread) (hsafe : RoundSafe malloc d) :
    HeaderUsable malloc (headerOf d.unread) := by
  have hiter : decodeIter malloc d = _ := decodeIter_header h hh
  obtain ⟨hlo, hhi⟩ := (requireLenOf_range _).mp (hsafe.size_ok _ (by rw [hiter]))
  refine ⟨hlo, hhi, fun hlen => ?_⟩
  obtain ⟨o, ho⟩ := hsafe.ends
  have hreq := (requireLenOf_eq_iff (n := 0) (by omega)).mpr hlen
  cases hm : malloc 1 with
  | true => rfl
  | false =>
    rw [hiter, hreq] at ho
    dsimp only at ho
    rw [decodePayload_null (by exact hm), if_pos (by rfl)] at ho
    cases ho

/-! ### The whole call -/

/-- Bytes announced for the room behind `pos` leave a well-formed buffer, unless the read cursor is at
the end of it already. -/
theorem writeExt_wf (h : d.Wf) {n : Int} (h0 : 0 ≤ n) (hfit : n ≤ d.left)
    (hin : d.offset < d.capacity) : (d.writeExt n).Wf := by
  obtain ⟨h1, h2, h3, h4, h5⟩ := h
  unfold Rbuffer.left at hfit
  rw [Rbuffer.writeExt, int32_of_range (by omega) (by omega), Rbuffer.seek]
  by_cases hlt : d.pos + n < d.capacity
  · rw [if_pos ⟨by omega, hlt⟩]
    exact ⟨h1, by dsimp only; omega, by dsimp only; omega, h4, h5⟩
  · rw [if_neg (fun hc => hlt hc.2), if_neg (by omega)]
    exact ⟨h1, by dsimp only; omega, by dsimp only; omega, h4, h5⟩

/-- With the read cursor at the end, the write cursor is put before it, and the first round copies a
negative number of bytes. -/
theorem decodeIter_behind_end (h : d.Wf) {n : Int} (h0 : 0 ≤ n) (hfit : n ≤ d.left)
    (hend : ¬ d.offset < d.capacity) :
    (decodeIter malloc (d.writeExt n)).outcome = .error .outOfBounds := by
  obtain ⟨h1, h2, h3, h4, h5⟩ := h
  unfold Rbuffer.left at hfit
  have hext : d.writeExt n = { d with pos := d.capacity - 1 } := by
    rw [Rbuffer.writeExt, int32_of_range (by omega) (by omega), Rbuffer.seek,
      if_neg (fun hc => by omega), if_neg (by omega)]
  have hneg : ({ d with pos := d.capacity - 1 } : Rbuffer).size < 0 := by
    unfold Rbuffer.size
    dsimp only
    omega
  have hread : ({ d with pos := d.capacity - 1 } : Rbuffer).read (some 40) headerLen =
      .error .outOfBounds := by
    simp only [Rbuffer.read]
    rw [if_pos (by rw [headerLen]; omega), load_neg hneg]
  rw [hext, decodeIter, hread]

/-- Exactly when the decoder is safe on what it is given. -/
theorem decodesSafely_iff (malloc : Nat → Bool) (next : NextHandler) (ds : RipcDataSource)
    (rawLen : UInt32) (h : ds.readCache.Wf) (hraw : (rawLen.toNat : Int) ≤ ds.readCache.left) :
    DecodesSafely malloc next ds rawLen ↔ HeadersUsable malloc ds rawLen := by
  have h0 : (0 : Int) ≤ rawLen.toNat := by omega
  by_cases hin : ds.readCache.offset < ds.readCache.capacity
  swap
  · refine iff_of_false (fun hsafe => ?_) (fun hu => hin hu.1)
    obtain ⟨o, ho⟩ := (hsafe.2 [] _ (.nil _)).ends
    have herr : (decodeIter malloc _).outcome = _ := decodeIter_behind_end h h0 hraw hin
    rw [decodeOnBefore, herr] at ho
    cases ho
  have hwf : (decodeOnBefore ds rawLen).readCache.Wf := writeExt_wf h h0 hraw hin
  constructor
  · rintro ⟨-, hsafe⟩
    refine ⟨hin, fun m hr => ?_⟩
    obtain ⟨ms, d, hsteps, hd, hh, rfl⟩ := steps_of_reachedHeader hr hwf rfl
    exact usable_of_roundSafe hd hh (hsafe ms d hsteps)
  · rintro ⟨-, hu⟩
    have hround : ∀ ms d, Steps (AcceptStep malloc) (decodeOnBefore ds rawLen).readCache ms d →
        RoundSafe malloc d := by
      intro ms d hsteps
      refine roundSafe_of_usable (steps_wf hwf hsteps) (fun hh => ?_)
      exact hu _ (reachedHeader_steps hwf hsteps (.front hh))
    refine ⟨?_, hround⟩
    obtain ⟨code, d, events, hrun, hd⟩ := @decodeLoop_total _ malloc ds.dsType
      ((decodeOnBefore ds rawLen).readCache.size.toNat + 1) hwf (by omega)
      (fun ms d hsteps => (hround ms d hsteps).ends)
    obtain ⟨code', rc, hcall, -⟩ := decodeProcess_of_loop next ds rawLen hrun hd
    exact ⟨_, hcall⟩

/-- Two whole frames are safe; behind the first one, a header with length 0 is not. -/
theorem decodesSafely_iff_frames :
    DecodesSafely (fun n => n ≤ 65536) none { freshSource 1 128 with
        readCache := Rbuffer.create 128 (byteFrame.bytes ++ textFrame.bytes ++ List.replicate 60 0) } 68 ∧
      ¬ DecodesSafely (fun n => n ≤ 65536) none { freshSource 1 128 with
        readCache := Rbuffer.create 128
          (byteFrame.bytes ++ [0, 0x52, 0x61, 0x79] ++ List.replicate 91 0) } 65 := by
  constructor
  · refine (decodesSafely_iff _ none _ 68 (Rbuffer.create_wf (by decide) (by decide)
      (by simp [byteFrame, textFrame])) (by decide)).2 ⟨by decide, fun m hr => ?_⟩
    have hbytes : (decodeOnBefore { freshSource 1 128 with
        readCache := Rbuffer.create 128 (byteFrame.bytes ++ textFrame.bytes ++ List.replicate 60 0) }
        68).readCache.unread = byteFrame.bytes ++ textFrame.bytes := by decide +kernel
    rw [hbytes] at hr
    -- the headers in front of the two frames, and nothing behind the second
    cases hr with
    | front => exact ⟨by decide +kernel, by decide +kernel, fun _ => rfl⟩
    | @behind _ _ n _ hlen _ _ hr =>
      obtain rfl : n = 1 := by
        rw [show (headerOf (byteFrame.bytes ++ textFrame.bytes)).len.toNat = 25 by decide +kernel] at hlen
        omega
      cases hr with
      | front => exact ⟨by decide +kernel, by decide +kernel, fun _ => rfl⟩
      | @behind _ _ n' _ hlen' _ _ hr =>
        obtain rfl : n' = 3 := by
          rw [show (headerOf ((byteFrame.bytes ++ textFrame.bytes).drop 33)).len.toNat = 27 by
            decide +kernel] at hlen'
          omega
        cases hr with
        | front hh => exact absurd hh.1 (by decide +kernel)
        | behind hh => exact absurd hh.1 (by decide +kernel)
  · intro hsafe
    have hu := (decodesSafely_iff _ none _ 65 (Rbuffer.create_wf (by decide) (by decide)
      (by simp [byteFrame])) (by decide)).1 hsafe
    have hzero := (hu.2 _ (.behind (n := 1) (by decide +kernel) (by decide +kernel) (by decide +kernel) rfl
      (.front (by decide +kernel)))).1
    exact absurd hzero (by decide +kernel)
/-- A header with length 0 makes the payload size -24. -/
theorem decodesSafely_length_zero :
    ∃ ds : RipcDataSource, ds.readCache.Wf ∧ ds.readCache.unread = [] ∧ (32 : Int) ≤ ds.readCache.left ∧
      ¬ DecodesSafely (fun n => n ≤ 65536) none ds 32 := by
  refine ⟨{ freshSource 1 64 with
      readCache := Rbuffer.create 64 ([0, 0x52, 0x61, 0x79] ++ List.replicate 60 0) },
    Rbuffer.create_wf (by decide) (by decide) rfl, Rbuffer.unread_create _ _, by decide, ?_⟩
  rintro ⟨-, hsafe⟩
  have hsize := (hsafe [] _ (.nil _)).size_ok (-24) (by decide +kernel)
  exact absurd hsize.1 (by decide)

end Funra
