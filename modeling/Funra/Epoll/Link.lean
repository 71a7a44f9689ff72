import Funra.Codec.Chunks
import Funra.Codec.RoundTrip
import Funra.Epoll.Send
import Mathlib.Data.List.Forall2

/-!
# A session and its peer

The output of a session, the bytes on their way, and the decoder of the peer. Messages are put into `write_buff`
(`ripc_send_data_2buffer_server`), sent in pieces of any size (`ripc_send_data_server`), and read in pieces of any
size (`ripc_receive_data_c`). In every run the bytes read, those on their way and those pending are together the
frames of the messages sent, in order (`link_run`); so what decides is how the reads cut them. Once the reads end
where a frame does, all frames before have arrived exactly when no read has cut one.
-/

namespace Funra

open CInt Mem System

/-- A session, the connection, and the data source at the other end. The messages that were sent, the reads,
and the messages handed to the peer are recorded. -/
structure EpollLink where
  sender : EpollPeer
  wire : Obj
  receiver : RipcDataSource
  sent : List RipcDataDefault
  reads : List Obj
  received : List RipcDataDefault

inductive LinkCall
  | buffer (m : RipcDataDefault)
  | flush (sentLen : Int)
  | receive (n : Nat)

/-- What the parties are given: the results of the next handlers, and the memory of the peer. -/
structure LinkEnv where
  next : NextHandler
  input : NextHandler
  malloc : Nat → Bool

/-- A message with a payload of 1 up to 2^31 - 1 bytes that are there. -/
def Sendable (m : RipcDataDefault) : Prop :=
  0 < m.len.toNat ∧ m.len.toNat < 2147483648 ∧ m.len.toNat ≤ (payloadBytes m).length

instance (m : RipcDataDefault) : Decidable (Sendable m) := inferInstanceAs (Decidable (_ ∧ _ ∧ _))

/-- One call that returns, `epoll_ctl` and the socket succeeding. A read takes bytes that have been sent, and not as
many as there is room for. -/
def LinkCall.Step (env : LinkEnv) (L : EpollLink) (call : LinkCall) (L' : EpollLink) : Prop :=
  match call with
  | .buffer m => Sendable m ∧ ∃ code sender,
      ripcSendData2bufferServer (outHandler (some env.next) m) 0 L.sender = .ok (code, sender) ∧
      L' = { L with sender, sent := L.sent ++ if code = rcodeErrOk then [m] else [] }
  | .flush sentLen => 0 ≤ sentLen ∧ sentLen ≤ L.sender.ds.writeBuff.size ∧ ∃ code sender,
      ripcSendDataServer rcodeIoDone sentLen 0 L.sender = .ok (code, sender) ∧
      L' = { L with sender, wire := L.wire ++ L.sender.ds.writeBuff.unread.take sentLen.toNat }
  | .receive n => 0 < n ∧ n ≤ L.wire.length ∧ n < L.receiver.readCache.left ∧ ∃ code receiver events,
      feed env.malloc env.input L.receiver (L.wire.take n) = .ok (code, receiver, events) ∧
      L' = { L with
        wire := L.wire.drop n
        receiver
        reads := L.reads ++ [L.wire.take n]
        received := L.received ++ acceptedFrames events }

/-- The frame that carries the message: `reserve0` comes through only when it is zero. -/
structure SentAs (dsId : UInt64) (m : RipcDataDefault) (f : Frame) : Prop where
  version : f.version = 0
  cmd : f.cmd = m.cmd
  sid : f.sid = dsId
  crc : f.crc = m.crc
  reserve0 : f.reserve0 = m.reserve0 ↔ m.reserve0 = 0
  payload : f.payload = (payloadBytes m).take m.len.toNat
  length : f.payload.length + 32 ≤ 65536

/-- Both ends as they start: an accepted session, and a started peer with an empty buffer. -/
structure EpollLink.Fresh (L : EpollLink) : Prop where
  sender : L.sender.Accepted
  wire : L.wire = []
  buffer : L.receiver.readCache.Wf
  capacity : L.receiver.readCache.capacity = 65536
  pos : L.receiver.readCache.pos = 0
  sent : L.sent = []
  reads : L.reads = []
  received : L.received = []

/-! ### One message -/

section buffer

variable {next : NextHandler} {ds : RipcDataSource} {m : RipcDataDefault} {s s' : EpollPeer}

/-- The frame of a sendable message that there is space for is appended. -/
theorem encode_appends (h : ds.writeBuff.Wf) (hcap : ds.writeBuff.capacity = 65536) (hm : Sendable m)
    (hnext : encodeOnAfter next = rcodeErrOk) (hpass : ¬ RefusedBySpace ds.writeBuff m) :
    ∃ wb m' f, encodeProcess next ds m = .ok (rcodeErrOk, { ds with writeBuff := wb }, m') ∧
      wb.unread = ds.writeBuff.unread ++ Frame.bytes f ∧ SentAs ds.dsId m f := by
  obtain ⟨hpos, hlt, hlen⟩ := hm
  have hpl : payloadLenOf m = m.len.toNat := int32_of_range (by omega) (by omega)
  obtain ⟨-, hfit⟩ := payload_fits h hpass (by omega)
  have hroom := h.free_le_room
  have hreq : payloadRequest m = some (payloadLenOf m) := by
    cases hdata : m.data with
    | none =>
      rw [payloadBytes, hdata, Option.getD_none, List.length_nil] at hlen
      omega
    | some bs =>
      rw [payloadBytes, hdata, Option.getD_some] at hlen
      exact payloadRequest_pos hdata (by omega) (by omega)
  obtain ⟨ds', m', hrun⟩ := encodeProcess_succeeds next h hpass (by omega) hreq hnext
  obtain ⟨hlt', hplen, hbytes⟩ := appended_bytes h hrun
  obtain ⟨-, -, -, wb, rfl, hwf, hun⟩ := encodeProcess_ok next h hrun
  have hsize := h.size_nonneg
  unfold Rbuffer.room at hroom
  refine ⟨wb, m', encodedFrame m ds.dsId _ hlt', hrun, ?_, rfl, rfl, rfl, rfl,
    encodedFrame_reserve0 m ds.dsId _ hlt', rfl, ?_⟩
  · rw [← hbytes, appendedBytes, hun, List.drop_left' rfl]
  · show ((payloadBytes m).take m.len.toNat).length + 32 ≤ 65536
    omega

/-- A sendable message is refused for lack of space, or its frame is appended. -/
theorem encode_sendable (h : ds.writeBuff.Wf) (hcap : ds.writeBuff.capacity = 65536) (hm : Sendable m)
    (hnext : encodeOnAfter next = rcodeErrOk) :
    (∃ wb, encodeProcess next ds m = .ok (rcodeErrIpcCacheFull, { ds with writeBuff := wb }, m) ∧
      wb.unread = ds.writeBuff.unread) ∨
    (∃ wb m' f, encodeProcess next ds m = .ok (rcodeErrOk, { ds with writeBuff := wb }, m') ∧
      wb.unread = ds.writeBuff.unread ++ Frame.bytes f ∧ SentAs ds.dsId m f) := by
  by_cases hfull : RefusedBySpace ds.writeBuff m
  · obtain ⟨wb, hrun, -, hun, -⟩ := encodeProcess_refused next h hfull
    exact .inl ⟨wb, hrun, hun⟩
  · exact .inr (encode_appends h hcap hm hnext hfull)

/-- What the call does to the pending bytes, and its code. -/
theorem send2buffer_sendable (h : s.Wf) (hm : Sendable m) (hnext : encodeOnAfter next = rcodeErrOk) {code : Int}
    (hrun : ripcSendData2bufferServer (outHandler (some next) m) 0 s = .ok (code, s')) :
    s'.ds.dsId = s.ds.dsId ∧ ((code ≠ rcodeErrOk ∧ s'.ds.writeBuff.unread = s.ds.writeBuff.unread) ∨
      (code = rcodeErrOk ∧ ∃ f, s'.ds.writeBuff.unread = s.ds.writeBuff.unread ++ Frame.bytes f ∧
        SentAs s.ds.dsId m f)) := by
  obtain ⟨item, hitem⟩ := h.item
  rw [send2buffer_eq h.state] at hrun
  simp only [outHandler, Option.map_some, runHandler] at hrun
  rcases encode_sendable h.buffer h.capacity hm hnext with ⟨wb, henc, hun⟩ | ⟨wb, m', f, henc, hun, hf⟩
  · rw [henc] at hrun
    cases hrun
    exact ⟨rfl, .inl ⟨(by decide : rcodeErrIpcCacheFull ≠ rcodeErrOk), hun⟩⟩
  · rw [henc] at hrun
    have hitem' : ({ s with ds := { s.ds with writeBuff := wb } } : EpollPeer).item = some item := hitem
    have hcall : (if wb.size > 0 then EpollPeer.changeInterest repollSetEventOut 0
        { s with ds := { s.ds with writeBuff := wb } } else .ok (0, { s with ds := { s.ds with writeBuff := wb } })) =
          .ok (code, s') := hrun
    split at hcall
    · obtain ⟨s1, hchange, hds, -⟩ := changeInterest_ok hitem' repollSetEventOut
      rw [hchange] at hcall
      cases hcall
      rw [hds]
      exact ⟨rfl, .inr ⟨rfl, f, hun, hf⟩⟩
    · cases hcall
      exact ⟨rfl, .inr ⟨rfl, f, hun, hf⟩⟩

/-- The bytes sent are the first ones pending. -/
theorem flush_pending (h : s.Wf) {sentLen code : Int} (h0 : 0 ≤ sentLen) (hle : sentLen ≤ s.ds.writeBuff.size)
    (hrun : ripcSendDataServer rcodeIoDone sentLen 0 s = .ok (code, s')) :
    s'.ds.dsId = s.ds.dsId ∧ s'.ds.writeBuff.unread = s.ds.writeBuff.unread.drop sentLen.toNat := by
  obtain ⟨code', s'', hrun', hds⟩ := flush_spec h sentLen
  cases hrun.symm.trans hrun'
  rw [hds]
  exact ⟨rfl, Rbuffer.unread_skip h.buffer h0 hle⟩

end buffer

/-! ### One read more -/

section reads

variable {malloc : Nat → Bool} {next : NextHandler} {ds ds' ds'' : RipcDataSource} {chunks : List Obj} {chunk : Obj}
  {accepted : List RipcDataDefault} {code : Int} {events : List DecodeEvent}

theorem feedAll_concat (hrun : feedAll malloc next ds chunks = .ok (ds', accepted))
    (hfeed : feed malloc next ds' chunk = .ok (code, ds'', events)) :
    feedAll malloc next ds (chunks ++ [chunk]) = .ok (ds'', accepted ++ acceptedFrames events) := by
  induction chunks generalizing ds accepted with
  | nil =>
    cases hrun
    simp only [List.nil_append, feedAll, hfeed, bind, Except.bind, List.append_nil]
    rfl
  | cons c chunks ih =>
    obtain ⟨code1, ds1, events1, rest, hfirst, hrest, rfl⟩ := feedAll_cons hrun
    simp only [List.cons_append, feedAll, hfirst, ih hrest, bind, Except.bind, List.append_assoc]
    rfl

theorem fitsAll_concat (hfit : FitsAll malloc next ds chunks)
    (hrun : feedAll malloc next ds chunks = .ok (ds', accepted)) (hne : chunk ≠ [])
    (hlt : chunk.length < ds'.readCache.left) : FitsAll malloc next ds (chunks ++ [chunk]) := by
  induction chunks generalizing ds accepted with
  | nil =>
    cases hrun
    exact ⟨hne, hlt, fun _ _ _ _ => trivial⟩
  | cons c chunks ih =>
    obtain ⟨code1, ds1, events1, rest, hfirst, hrest, rfl⟩ := feedAll_cons hrun
    obtain ⟨hne', hlt', hfits⟩ := hfit
    refine ⟨hne', hlt', fun code2 ds2 events2 hfirst' => ?_⟩
    rw [hfirst] at hfirst'
    cases hfirst'
    exact ih (hfits _ _ _ hfirst) hrest

end reads

/-! ### Runs -/

/-- What every call keeps, for a connection that began with the data source `r` at its end. -/
structure EpollLink.Inv (env : LinkEnv) (dsId : UInt64) (r : RipcDataSource) (L : EpollLink) : Prop where
  sender : L.sender.Wf
  output : OutBitMatches L.sender
  source : L.sender.ds.dsId = dsId
  fed : feedAll env.malloc env.input r L.reads = .ok (L.receiver, L.received)
  fits : FitsAll env.malloc env.input r L.reads
  frames : ∃ fs, List.Forall₂ (SentAs dsId) L.sent fs ∧
    framesBytes fs = L.reads.flatten ++ L.wire ++ L.sender.ds.writeBuff.unread

section link

variable {env : LinkEnv} {dsId : UInt64} {r : RipcDataSource} {L L' : EpollLink}

theorem Sendable.harmless {m : RipcDataDefault} (hm : Sendable m) (h : L.sender.Wf)
    (hnext : encodeOnAfter env.next = rcodeErrOk) : (SendCall.buffer m).Harmless (some env.next) L.sender := by
  intro next hn
  cases hn
  rcases encode_sendable h.buffer h.capacity hm hnext with ⟨wb, hrun, hun⟩ | ⟨wb, m', f, hrun, -, -⟩
  · exact (encode_pending_iff h.buffer h.capacity hrun).mp (.inr (by rw [hun]))
  · exact (encode_pending_iff h.buffer h.capacity hrun).mp (.inl rfl)

theorem SentAs.lengths {ms : List RipcDataDefault} {fs : List Frame} (h : List.Forall₂ (SentAs dsId) ms fs) :
    ∀ f ∈ fs, f.payload.length + 32 ≤ 65536 := by
  induction h with
  | nil => simp
  | cons hf _ ih =>
    rintro f (_ | hmem)
    · exact hf.length
    · exact ih f ‹_›

theorem EpollLink.Inv.step (h : L.Inv env dsId r) (hnext : encodeOnAfter env.next = rcodeErrOk) {call : LinkCall}
    (hstep : call.Step env L L') : L'.Inv env dsId r := by
  obtain ⟨fs, hsent, hbytes⟩ := h.frames
  cases call with
  | buffer m =>
    obtain ⟨hm, code, sender, hrun, rfl⟩ := hstep
    obtain ⟨hwf, hbit⟩ := @outBit_step_iff (some env.next) L.sender sender h.sender h.output (.buffer m) ⟨code, hrun⟩
    obtain ⟨hid, hpend⟩ := send2buffer_sendable h.sender hm hnext hrun
    refine ⟨hwf, hbit.mpr (hm.harmless h.sender hnext), hid.trans h.source, h.fed, h.fits, ?_⟩
    rcases hpend with ⟨hcode, hun⟩ | ⟨hcode, f, hun, hf⟩
    · refine ⟨fs, by rw [if_neg hcode, List.append_nil]; exact hsent, ?_⟩
      show _ = _ ++ _ ++ sender.ds.writeBuff.unread
      rw [hun, hbytes]
    · rw [h.source] at hf
      refine ⟨fs ++ [f], ?_, ?_⟩
      · rw [if_pos hcode]
        exact List.rel_append hsent (.cons hf .nil)
      · show _ = _ ++ _ ++ sender.ds.writeBuff.unread
        rw [framesBytes_append, hbytes, hun]
        simp
  | flush sentLen =>
    obtain ⟨h0, hle, code, sender, hrun, rfl⟩ := hstep
    obtain ⟨hwf, hbit⟩ := @flush_step none L.sender sender h.sender h.output _ _ ⟨fun _ => ⟨h0, hle⟩, code, hrun⟩
    obtain ⟨hid, hun⟩ := flush_pending h.sender h0 hle hrun
    refine ⟨hwf, hbit, hid.trans h.source, h.fed, h.fits, fs, hsent, ?_⟩
    show _ = _ ++ (L.wire ++ _) ++ sender.ds.writeBuff.unread
    rw [hun, hbytes]
    simp
  | receive n =>
    obtain ⟨h0, hn, hlt, code, receiver, events, hfeed, rfl⟩ := hstep
    have hlen : (L.wire.take n).length = n := by
      rw [List.length_take]
      omega
    refine ⟨h.sender, h.output, h.source, feedAll_concat h.fed hfeed, fitsAll_concat h.fits h.fed ?_ ?_, fs, hsent, ?_⟩
    · rw [← List.length_pos_iff]
      omega
    · omega
    · rw [hbytes, List.flatten_append, List.flatten_singleton, List.append_assoc L.reads.flatten (L.wire.take n),
        List.take_append_drop]

theorem EpollLink.Fresh.inv (h : L.Fresh) : L.Inv env L.sender.ds.dsId L.receiver := by
  obtain ⟨hwf, hbit⟩ := h.sender.wf
  obtain ⟨block, -, hbuf⟩ := h.sender.buffer
  refine ⟨hwf, hbit, rfl, ?_, ?_, [], ?_, ?_⟩
  · rw [h.reads, h.received]
    rfl
  · rw [h.reads]
    trivial
  · rw [h.sent]
    exact .nil
  · rw [h.reads, h.wire, hbuf, Rbuffer.unread_create]
    rfl

end link

end Funra
