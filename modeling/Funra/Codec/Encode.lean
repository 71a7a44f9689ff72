import Funra.Codec.Frame
import Funra.Rbuffer.Spec

/-!
# The exits of the encoder

`encodeProcess` on a well-formed `write_buff`, exit by exit: the refusal of the space check
(`encodeProcess_refused`), a header that does not fit (`encodeProcess_short`), a payload `memcpy` that
leaves its object (`encodeProcess_fault`), and everything behind a written header
(`encodeProcess_written`). The exits are told apart by four numbers of the buffer before the call and
by `payloadRequest`, the size `rbuffer_write` works with for the payload.
-/

namespace Funra

open CInt Mem

/-! ### The numbers that select the exit -/

/-- The free space behind `pos`, after the rewind of an empty buffer. -/
def Rbuffer.freeAfterRewind (d : Rbuffer) : Int := if d.size = 0 then d.capacity else d.left

def Rbuffer.offsetAfterRewind (d : Rbuffer) : Int := if d.size = 0 then 0 else d.offset

/-- The free space once everything unread is at the front. -/
def Rbuffer.room (d : Rbuffer) : Int := d.capacity - d.size

/-- The comparison of `encode_on_before`, in unsigned 32-bit arithmetic. -/
def RefusedBySpace (d : Rbuffer) (m : RipcDataDefault) : Prop :=
  uint32 d.freeAfterRewind < uint32 (m.len.toNat + headerLen)

instance (d : Rbuffer) (m : RipcDataDefault) : Decidable (RefusedBySpace d m) :=
  inferInstanceAs (Decidable (_ < _))

/-- The size `rbuffer_write` takes for the payload: a length of 0 or less is replaced by that of the
string at `data`. `none` when that string does not end inside its object, or the size is not one of
bytes of `data`. -/
def payloadRequest (m : RipcDataDefault) : Option Int :=
  match m.data with
  | none => some 0
  | some bs =>
    (if payloadLenOf m ≤ 0 then (strlen bs).map (fun n : Nat => int32 n) else some (payloadLenOf m)).filter
      (fun n => 0 ≤ n ∧ n ≤ bs.length)

/-- The bytes behind the message's pointer. -/
def payloadBytes (m : RipcDataDefault) : Obj := m.data.getD []

/-- The header `encodeProcess` writes for `m`. -/
def sentHeader (ds : RipcDataSource) (m : RipcDataDefault) : Obj :=
  headerBytes (htonHeader m ds.dsId (payloadLenOf m))

@[simp] theorem sentHeader_length (ds : RipcDataSource) (m : RipcDataDefault) :
    (sentHeader ds m).length = 32 := headerBytes_length rfl

theorem payloadRequest_range {m : RipcDataDefault} {n : Int} (h : payloadRequest m = some n) :
    0 ≤ n ∧ n ≤ (payloadBytes m).length := by
  unfold payloadRequest at h
  unfold payloadBytes
  split at h
  · rename_i hdata
    simp [hdata, ← Option.some.inj h]
  · rename_i bs hdata
    rw [Option.filter_eq_some_iff] at h
    simpa [hdata] using h.2

theorem payloadRequest_pos {m : RipcDataDefault} {bs : Obj} (hdata : m.data = some bs)
    (hpos : 0 < payloadLenOf m) (hlen : payloadLenOf m ≤ bs.length) :
    payloadRequest m = some (payloadLenOf m) := by
  have : 0 ≤ payloadLenOf m := by omega
  simp only [payloadRequest, hdata]
  rw [if_neg (by omega)]
  simp [Option.filter, this, hlen]

theorem Rbuffer.left_eq (d : Rbuffer) : d.left = d.capacity - d.offset - d.size := by
  unfold Rbuffer.left Rbuffer.size
  omega

theorem Rbuffer.freeAfterRewind_eq (d : Rbuffer) :
    d.freeAfterRewind = d.room - d.offsetAfterRewind := by
  unfold Rbuffer.freeAfterRewind Rbuffer.offsetAfterRewind Rbuffer.room Rbuffer.left Rbuffer.size
  split <;> omega

/-! ### `encode_on_before` -/

theorem Rbuffer.Wf.free_le_room {d : Rbuffer} (h : d.Wf) : d.freeAfterRewind ≤ d.room := by
  have := h.size_add_left
  unfold Rbuffer.freeAfterRewind Rbuffer.room
  split <;> omega

theorem Rbuffer.Wf.free_nonneg {d : Rbuffer} (h : d.Wf) : 0 ≤ d.freeAfterRewind := by
  have := h.left_nonneg
  have := h.size_nonneg
  have := h.size_add_left
  unfold Rbuffer.freeAfterRewind
  split <;> omega

theorem Rbuffer.Wf.free_lt {d : Rbuffer} (h : d.Wf) : d.freeAfterRewind < 2147483648 := by
  have hle := h.free_le_room
  have := h.size_nonneg
  have := h.capacity_lt
  unfold Rbuffer.room at hle
  omega

theorem rewindEmpty_spec {d : Rbuffer} (h : d.Wf) :
    ∃ k wb, rewindEmpty d = .ok (k, wb) ∧ wb.Wf ∧ wb.unread = d.unread ∧
      wb.offset = d.offsetAfterRewind ∧ wb.capacity = d.capacity ∧ wb.size = d.size ∧
      wb.left = d.freeAfterRewind ∧ (d.size ≠ 0 → wb = d) := by
  unfold rewindEmpty Rbuffer.offsetAfterRewind Rbuffer.freeAfterRewind
  by_cases hs : d.size = 0
  · obtain ⟨k, wb, hrw, hwf, hun, ho, hp, hc⟩ := Rbuffer.rewind_spec h
    simp only [if_pos hs]
    refine ⟨k, wb, hrw, hwf, hun, ho, hc, ?_, ?_, fun hne => absurd hs hne⟩
    · simp only [Rbuffer.size] at *
      omega
    · unfold Rbuffer.left
      omega
  · simp only [if_neg hs]
    exact ⟨0, d, rfl, h, rfl, rfl, rfl, rfl, rfl, fun _ => rfl⟩

/-- A positive payload length that passes the space check fits behind its header. -/
theorem payload_fits {d : Rbuffer} {m : RipcDataDefault} (h : d.Wf) (hpass : ¬ RefusedBySpace d m)
    (hpos : 0 < payloadLenOf m) :
    payloadLenOf m = m.len.toNat ∧ payloadLenOf m + 32 ≤ d.freeAfterRewind := by
  have hfree := h.free_nonneg
  have hroom := h.free_le_room
  have hs := h.size_nonneg
  have hcap := h.capacity_lt
  have hlt := m.len.toNat_lt
  unfold Rbuffer.room at hroom
  unfold RefusedBySpace headerLen at hpass
  unfold payloadLenOf int32 at *
  rw [uint32_of_range hfree (by omega)] at hpass
  unfold uint32 at hpass
  omega

theorem encodeOnBefore_spec (ds : RipcDataSource) (m : RipcDataDefault) (h : ds.writeBuff.Wf) :
    ∃ wb : Rbuffer, encodeOnBefore ds m =
        .ok (if RefusedBySpace ds.writeBuff m then rcodeErrIpcCacheFull else rcodeErrOk,
          { ds with writeBuff := wb }) ∧
      wb.Wf ∧ wb.unread = ds.writeBuff.unread ∧ wb.offset = ds.writeBuff.offsetAfterRewind ∧
      wb.capacity = ds.writeBuff.capacity ∧ wb.size = ds.writeBuff.size ∧
      wb.left = ds.writeBuff.freeAfterRewind ∧ (ds.writeBuff.size ≠ 0 → wb = ds.writeBuff) := by
  obtain ⟨k, wb, hrun, hwf, hun, ho, hc, hsz, hleft, hsame⟩ := rewindEmpty_spec h
  refine ⟨wb, ?_, hwf, hun, ho, hc, hsz, hleft, hsame⟩
  simp only [encodeOnBefore, hrun, bind, Except.bind, hleft]
  by_cases hfull : RefusedBySpace ds.writeBuff m
  · have hlt : uint32 ds.writeBuff.freeAfterRewind < uint32 (m.len.toNat + headerLen) := hfull
    rw [if_pos hlt, if_pos hfull]
    rfl
  · have hge : ¬ uint32 ds.writeBuff.freeAfterRewind < uint32 (m.len.toNat + headerLen) := hfull
    rw [if_neg hge, if_neg hfull]
    rfl

/-! ### The exits -/

section exits

variable {ds : RipcDataSource} {m : RipcDataDefault} (next : NextHandler)

theorem encodeProcess_refused (h : ds.writeBuff.Wf) (hfull : RefusedBySpace ds.writeBuff m) :
    ∃ wb : Rbuffer, encodeProcess next ds m =
        .ok (rcodeErrIpcCacheFull, { ds with writeBuff := wb }, m) ∧ wb.Wf ∧
      wb.unread = ds.writeBuff.unread ∧ (ds.writeBuff.size ≠ 0 → wb = ds.writeBuff) := by
  obtain ⟨wb, hrun, hwf, hun, -, -, -, -, hsame⟩ := encodeOnBefore_spec ds m h
  rw [if_pos hfull] at hrun
  refine ⟨wb, ?_, hwf, hun, hsame⟩
  simp only [encodeProcess, hrun, bind, Except.bind]
  rfl

/-- Only a length that wraps in the space check gets here. The fields are converted back, but not undone:
`len` keeps the added 24. -/
theorem encodeProcess_restored (h : ds.writeBuff.Wf) (hpass : ¬ RefusedBySpace ds.writeBuff m)
    (hroom : ds.writeBuff.room < 32) :
    ∃ wb : Rbuffer, encodeProcess next ds m = .ok (rcodeErrIpcCacheFull,
        { ds with writeBuff := wb.readExt (-ds.writeBuff.room) },
        ntohHeader (htonHeader m ds.dsId (payloadLenOf m))) ∧
      wb.Wf ∧ wb.offset = 0 ∧
      wb.unread = ds.writeBuff.unread ++ (sentHeader ds m).take ds.writeBuff.room.toNat := by
  have hfree := h.free_le_room
  obtain ⟨wb, hrun, hwf, hun, ho, hc, hsz, hleft, -⟩ := encodeOnBefore_spec ds m h
  rw [if_neg hpass] at hrun
  obtain ⟨wb1, hput, hwf1, -, ho1, hun1⟩ := @Rbuffer.put_spec wb hwf (sentHeader ds m)
    headerLen (by decide) (by simp [headerLen])
  have hroom1 : wb.capacity - wb.size = ds.writeBuff.room := by
    rw [hc, hsz, Rbuffer.room]
  have hmin : min headerLen (wb.capacity - wb.size) = ds.writeBuff.room := by
    rw [hroom1, headerLen]
    omega
  rw [hmin] at hput hun1
  have hlt : ¬ headerLen ≤ wb.left := by
    rw [hleft, headerLen]
    omega
  rw [if_neg hlt] at ho1
  refine ⟨wb1, ?_, hwf1, ho1, by rw [hun1, hun]⟩
  have hwrite : wb.write (some (sentHeader ds m)) headerLen = .ok (ds.writeBuff.room, wb1) := by
    rw [Rbuffer.write_pos (by decide), hput]
  simp only [encodeProcess, hrun, bind, Except.bind]
  rw [if_neg (by simp)]
  simp only [sentHeader] at hwrite
  simp only [hwrite]
  rw [if_pos (by rw [headerLen]; omega)]
  rfl

theorem encodeProcess_short (h : ds.writeBuff.Wf) (hpass : ¬ RefusedBySpace ds.writeBuff m)
    (hroom : ds.writeBuff.room < 32) :
    ∃ (wb : Rbuffer) (m' : RipcDataDefault), encodeProcess next ds m = .ok (rcodeErrIpcCacheFull,
        { ds with writeBuff := wb.readExt (-ds.writeBuff.room) }, m') ∧
      wb.Wf ∧ wb.offset = 0 ∧
      wb.unread = ds.writeBuff.unread ++ (sentHeader ds m).take ds.writeBuff.room.toNat := by
  obtain ⟨wb, hrun, hrest⟩ := encodeProcess_restored next h hpass hroom
  exact ⟨wb, _, hrun, hrest⟩

/-- Behind the space check and a fitting header, up to the write of the payload. -/
theorem encodeProcess_header (h : ds.writeBuff.Wf) (hpass : ¬ RefusedBySpace ds.writeBuff m)
    (hroom : 32 ≤ ds.writeBuff.room) :
    ∃ wb : Rbuffer, wb.Wf ∧ wb.capacity = ds.writeBuff.capacity ∧
      wb.unread = ds.writeBuff.unread ++ sentHeader ds m ∧
      wb.offset = (if 32 ≤ ds.writeBuff.freeAfterRewind then ds.writeBuff.offsetAfterRewind else 0) ∧
      wb.size = ds.writeBuff.size + 32 ∧
      encodeProcess next ds m = (wb.write m.data (payloadLenOf m)).bind fun (writeLen, wb) =>
        let m' := htonHeader m ds.dsId (payloadLenOf m)
        let undone := { ds with writeBuff := wb.readExt (-writeLen - headerLen) }
        .ok (if writeLen ≠ payloadLenOf m then (rcodeErrIpcCacheFull, undone, m')
          else if encodeOnAfter next ≠ rcodeErrOk then (encodeOnAfter next, undone, m')
          else (encodeOnAfter next, { ds with writeBuff := wb }, m')) := by
  obtain ⟨wb, hrun, hwf, hun, ho, hc, hsz, hleft, -⟩ := encodeOnBefore_spec ds m h
  rw [if_neg hpass] at hrun
  obtain ⟨wb1, hput, hwf1, hc1, ho1, hun1⟩ := @Rbuffer.put_spec wb hwf (sentHeader ds m)
    headerLen (by decide) (by simp [headerLen])
  have hroom1 : wb.capacity - wb.size = ds.writeBuff.room := by
    rw [hc, hsz, Rbuffer.room]
  have hmin : min headerLen (wb.capacity - wb.size) = 32 := by
    rw [hroom1, headerLen]
    omega
  rw [hmin] at hput hun1
  have hun2 : wb1.unread = ds.writeBuff.unread ++ sentHeader ds m := by
    rw [hun1, hun, List.take_of_length_le (by simp)]
  refine ⟨wb1, hwf1, by rw [hc1, hc], hun2, by rw [ho1, hleft, ho]; rfl, ?_, ?_⟩
  · rw [← hwf1.length_unread, ← h.length_unread, hun2]
    simp
  have hwrite : wb.write (some (sentHeader ds m)) headerLen = .ok (32, wb1) := by
    rw [Rbuffer.write_pos (by decide), hput]
  simp only [sentHeader] at hwrite
  simp only [encodeProcess, hrun, bind, Except.bind]
  rw [if_neg (by simp)]
  simp only [hwrite]
  rw [if_neg (by decide)]
  rw [show (htonHeader m ds.dsId (payloadLenOf m)).data = m.data from rfl]
  cases wb1.write m.data (payloadLenOf m) with
  | error f => rfl
  | ok r =>
    dsimp only
    by_cases hshort : r.1 ≠ payloadLenOf m
    · rw [if_pos hshort, if_pos hshort]
      rfl
    · rw [if_neg hshort, if_neg hshort]
      by_cases hnext : encodeOnAfter next ≠ rcodeErrOk
      · rw [if_pos hnext, if_pos hnext]
        rfl
      · rw [if_neg hnext, if_neg hnext]
        rfl

/-- The payload write that leaves the object behind `data`. -/
theorem encodeProcess_fault (h : ds.writeBuff.Wf) (hpass : ¬ RefusedBySpace ds.writeBuff m)
    (hroom : 32 ≤ ds.writeBuff.room) (hreq : payloadRequest m = none) :
    encodeProcess next ds m = .error .outOfBounds := by
  obtain ⟨wb, hwf, hc, -, ho, hsz, hrun⟩ := encodeProcess_header next h hpass hroom
  rw [hrun]
  suffices hwrite : wb.write m.data (payloadLenOf m) = .error .outOfBounds by
    rw [hwrite]
    rfl
  unfold payloadRequest at hreq
  split at hreq
  · contradiction
  rename_i bs hdata
  rw [hdata]
  by_cases hpos : payloadLenOf m ≤ 0
  · rw [if_pos hpos] at hreq
    rw [Rbuffer.write, if_pos hpos]
    cases hstr : strlen bs with
    | none => rfl
    | some n =>
      have hlt := Rbuffer.strlen_lt hstr
      rw [hstr, Option.map_some, Option.filter_eq_none_iff] at hreq
      dsimp only
      have hneg := hreq _ rfl
      simp only [decide_eq_true_eq, not_and_or] at hneg
      refine Rbuffer.put_neg hwf ?_
      unfold int32 at *
      omega
  · rw [if_neg hpos, Option.filter_eq_none_iff] at hreq
    have hlong := hreq _ rfl
    simp only [decide_eq_true_eq, not_and_or] at hlong
    -- the space check has made room for a payload of this size
    have hfit : payloadLenOf m ≤ wb.left := by
      have hfits := payload_fits h hpass (by omega)
      have hfree := ds.writeBuff.freeAfterRewind_eq
      rw [if_pos (by omega)] at ho
      rw [wb.left_eq, hc, ho, hsz]
      unfold Rbuffer.room at hfree
      omega
    rw [Rbuffer.write_pos (by omega), Rbuffer.put, if_neg (by omega)]
    dsimp only
    rw [if_pos hfit, Rbuffer.append, load, if_neg (by omega)]

/-- Behind a written header: the payload, then the next handler. The two failing exits take back what
was appended through the read cursor. -/
theorem encodeProcess_written (h : ds.writeBuff.Wf) (hpass : ¬ RefusedBySpace ds.writeBuff m)
    (hroom : 32 ≤ ds.writeBuff.room) {n : Int} (hreq : payloadRequest m = some n) :
    ∃ wb : Rbuffer, wb.Wf ∧
      wb.offset = (if 32 + n ≤ ds.writeBuff.freeAfterRewind then ds.writeBuff.offsetAfterRewind
        else 0) ∧
      wb.unread = ds.writeBuff.unread ++ (sentHeader ds m ++
        (payloadBytes m).take (min n (ds.writeBuff.room - 32)).toNat) ∧
      encodeProcess next ds m =
        let written := min n (ds.writeBuff.room - 32)
        let m' := htonHeader m ds.dsId (payloadLenOf m)
        let undone := { ds with writeBuff := wb.readExt (-written - headerLen) }
        .ok (if written ≠ payloadLenOf m then (rcodeErrIpcCacheFull, undone, m')
          else if encodeOnAfter next ≠ rcodeErrOk then (encodeOnAfter next, undone, m')
          else (encodeOnAfter next, { ds with writeBuff := wb }, m')) := by
  obtain ⟨wb, hwf, hc, hun, ho, hsz, hrun⟩ := encodeProcess_header next h hpass hroom
  obtain ⟨hn0, hnlen⟩ := payloadRequest_range hreq
  have hroom1 : wb.capacity - wb.size = ds.writeBuff.room - 32 := by
    rw [hc, hsz, Rbuffer.room]
    omega
  have hcursor : (if n ≤ wb.left then wb.offset else 0) =
      if 32 + n ≤ ds.writeBuff.freeAfterRewind then ds.writeBuff.offsetAfterRewind else 0 := by
    have hfree := ds.writeBuff.freeAfterRewind_eq
    rw [wb.left_eq, hc, hsz, ho]
    unfold Rbuffer.room at *
    split <;> split <;> split <;> omega
  suffices hwrite : ∃ wb2, wb.write m.data (payloadLenOf m) =
      .ok (min n (ds.writeBuff.room - 32), wb2) ∧ wb2.Wf ∧
      wb2.offset = (if n ≤ wb.left then wb.offset else 0) ∧
      wb2.unread = wb.unread ++ (payloadBytes m).take (min n (ds.writeBuff.room - 32)).toNat by
    obtain ⟨wb2, hwrite, hwf2, ho2, hun2⟩ := hwrite
    refine ⟨wb2, hwf2, by rw [ho2, hcursor], by rw [hun2, hun, List.append_assoc], ?_⟩
    rw [hrun, hwrite]
    rfl
  unfold payloadRequest at hreq
  cases hdata : m.data with
  | none =>
    rw [hdata] at hreq
    obtain rfl : 0 = n := Option.some.inj hreq
    have hleft := hwf.left_nonneg
    refine ⟨wb, ?_, hwf, by rw [if_pos hleft], ?_⟩
    · rw [Rbuffer.write_null, min_eq_left (by omega)]
    · simp [payloadBytes, hdata]
  | some bs =>
    simp only [hdata] at hreq
    have hbytes : payloadBytes m = bs := by simp [payloadBytes, hdata]
    rw [hbytes] at hnlen
    obtain ⟨wb2, hput, hwf2, -, ho2, hun2⟩ := Rbuffer.put_spec hwf hn0 hnlen
    rw [hroom1] at hput hun2
    refine ⟨wb2, ?_, hwf2, ho2, by rw [hun2, hbytes]⟩
    rw [← hput, Rbuffer.write]
    rw [Option.filter_eq_some_iff] at hreq
    by_cases hpos : payloadLenOf m ≤ 0
    · rw [if_pos hpos] at hreq ⊢
      cases hstr : strlen bs with
      | none => simp [hstr] at hreq
      | some k =>
        rw [hstr, Option.map_some] at hreq
        obtain rfl : int32 k = n := Option.some.inj hreq.1
        rfl
    · rw [if_neg hpos] at hreq ⊢
      obtain rfl : payloadLenOf m = n := Option.some.inj hreq.1
      rfl

/-- With room for the header and a payload of the requested size, the call succeeds. -/
theorem encodeProcess_succeeds (h : ds.writeBuff.Wf) (hpass : ¬ RefusedBySpace ds.writeBuff m)
    (hfit : 32 + payloadLenOf m ≤ ds.writeBuff.room)
    (hreq : payloadRequest m = some (payloadLenOf m)) (hnext : encodeOnAfter next = rcodeErrOk) :
    ∃ ds' m', encodeProcess next ds m = .ok (rcodeErrOk, ds', m') := by
  obtain ⟨hn0, -⟩ := payloadRequest_range hreq
  obtain ⟨wb, -, -, -, hrun⟩ := encodeProcess_written next h hpass (by omega) hreq
  dsimp only at hrun
  rw [min_eq_left (by omega), if_neg (by simp), if_neg (by simpa using hnext), hnext] at hrun
  exact ⟨_, _, hrun⟩

/-- A successful call has appended one frame with the first `len` bytes of `data`. -/
theorem encodeProcess_ok (h : ds.writeBuff.Wf) {ds' : RipcDataSource} {m' : RipcDataDefault}
    (hrun : encodeProcess next ds m = .ok (rcodeErrOk, ds', m')) :
    ¬ RefusedBySpace ds.writeBuff m ∧ payloadLenOf m = m.len.toNat ∧
      m.len.toNat ≤ (payloadBytes m).length ∧ ∃ wb : Rbuffer, ds' = { ds with writeBuff := wb } ∧
      wb.Wf ∧ wb.unread = ds.writeBuff.unread ++
        (sentHeader ds m ++ (payloadBytes m).take m.len.toNat) := by
  by_cases hfull : RefusedBySpace ds.writeBuff m
  · obtain ⟨wb, heq, -⟩ := encodeProcess_refused next h hfull
    rw [heq] at hrun
    cases hrun
  by_cases hroom : ds.writeBuff.room < 32
  · obtain ⟨wb, m'', heq, -⟩ := encodeProcess_short next h hfull hroom
    rw [heq] at hrun
    cases hrun
  rw [not_lt] at hroom
  cases hreq : payloadRequest m with
  | none =>
    rw [encodeProcess_fault next h hfull hroom hreq] at hrun
    cases hrun
  | some n =>
    obtain ⟨wb, hwf, -, hun, heq⟩ := encodeProcess_written next h hfull hroom hreq
    obtain ⟨hn0, hnlen⟩ := payloadRequest_range hreq
    rw [hrun] at heq
    dsimp only at heq
    by_cases hw : min n (ds.writeBuff.room - 32) = payloadLenOf m
    · have hlen : payloadLenOf m = m.len.toNat := by
        have := m.len.toNat_lt
        unfold payloadLenOf int32 at *
        omega
      rw [if_neg (by simpa using hw)] at heq
      by_cases hok : encodeOnAfter next = rcodeErrOk
      · rw [if_neg (by simpa using hok), Except.ok.injEq, Prod.mk.injEq, Prod.mk.injEq] at heq
        refine ⟨hfull, hlen, by omega, wb, heq.2.1, hwf, ?_⟩
        rw [hun, hw, hlen, Int.toNat_natCast]
      · rw [if_pos hok, Except.ok.injEq, Prod.mk.injEq] at heq
        exact absurd heq.1.symm hok
    · rw [if_pos hw] at heq
      cases heq

end exits

end Funra
