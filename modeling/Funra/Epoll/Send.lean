import Funra.Codec.Append
import Funra.Epoll.Repoll
import Funra.Rbuffer.Runs

/-!
# Output of an epoll session

`ripc_send_data_2buffer_server` encodes a message into `write_buff` and asks for `OUT` when the buffer
holds something; `ripc_send_data_server` sends from the buffer and takes `OUT` back when it is empty.
`OutBitMatches` says that the two agree. It is lost when the encoder fails behind the space check: the
call returns before it looks at the buffer, where the bytes of the failed frame stand (`outBit_step_iff`,
and `outBit_run` for runs).
-/

namespace Funra

open CInt Mem System

def rcodeIoDone : Int := 0
def rcodeIoTimeout : Int := -1

/-- `userData` is the address of the socket's item (`userdata.data`). -/
structure Rsocket where
  fd : Int
  userData : Nat
  deriving DecidableEq, Repr

/-- A data source with its socket, and the container. -/
structure EpollPeer where
  ds : RipcDataSource
  stream : Option Rsocket
  repoll : Repoll

namespace EpollPeer

/-- The item of the socket. -/
def item (s : EpollPeer) : Option RepollItem := s.stream.bind fun sock => s.repoll.items sock.userData

/-- A change of `event_val_req` of the socket's item, and the `repoll_modify` behind it. -/
def changeInterest (change : Events → Events) (ctl : Int) (s : EpollPeer) :
    Except Fault (Int × EpollPeer) :=
  match s.stream with
  | none => .error .nullDeref
  | some sock =>
    (s.repoll.changeInterest change ctl sock.userData).map fun (code, repoll) =>
      (code, { s with repoll })

end EpollPeer

/-- The `process` of a handler, given its message: the code and what it makes of the data source. -/
abbrev HandlerProcess := RipcDataSource → Except Fault (Int × RipcDataSource)

/-- `handler->process` where the handler is not `NULL`. -/
def runHandler (handler : Option HandlerProcess) (ds : RipcDataSource) :
    Except Fault (Int × RipcDataSource) :=
  match handler with
  | none => .ok (rcodeErrOk, ds)
  | some process => process ds

/-- The default encoder as `out_handler`. -/
def outHandler (out : Option NextHandler) (m : RipcDataDefault) : Option HandlerProcess :=
  out.map fun next ds => (encodeProcess next ds m).map fun r => (r.1, r.2.1)

/-- `ctl` is the result of `epoll_ctl`. -/
def ripcSendData2bufferServer (out : Option HandlerProcess) (ctl : Int) (s : EpollPeer) :
    Except Fault (Int × EpollPeer) := do
  if s.stream ≠ none ∧ s.ds.state ≠ .start then return (rcodeErrIpcDisconnect, s)
  let (code, ds) ← runHandler out s.ds
  let s := { s with ds }
  if code ≠ rcodeErrOk then return (code, s)
  if s.ds.writeBuff.size > 0 then s.changeInterest repollSetEventOut ctl
  else return (0, s)

/-- `code` and `sentLen` are the results of `rsocket_send`. -/
def ripcSendDataServer (code sentLen ctl : Int) (s : EpollPeer) : Except Fault (Int × EpollPeer) :=
  match s.stream with
  | none => .error .nullDeref
  | some _ =>
    if code ≠ rcodeIoDone then
      .ok (if code = rcodeIoTimeout then rcodeErrIpcTimeout else rcodeErrIpcDisconnect, s)
    else
      let s := { s with ds := { s.ds with writeBuff := s.ds.writeBuff.skip sentLen } }
      if s.ds.writeBuff.size = 0 then s.changeInterest repollUnsetEventOut ctl else .ok (0, s)

/-! ### The property and the condition -/

/-- `OUT` is asked for just when there is something to send. -/
def OutBitMatches (s : EpollPeer) : Prop :=
  ∃ item, s.item = some item ∧
    (repollCheckEventOut item.eventValReq = true ↔ s.ds.writeBuff.unread ≠ [])

inductive SendCall
  | buffer (m : RipcDataDefault)
  | flush (code sentLen : Int)
  deriving DecidableEq

/-- One call that returns, `epoll_ctl` succeeding; `send` takes at most what it is offered. -/
def SendCall.Step (out : Option NextHandler) (s : EpollPeer) (call : SendCall) (s' : EpollPeer) : Prop :=
  match call with
  | .buffer m => ∃ code, ripcSendData2bufferServer (outHandler out m) 0 s = .ok (code, s')
  | .flush code sentLen => (code = rcodeIoDone → 0 ≤ sentLen ∧ sentLen ≤ s.ds.writeBuff.size) ∧
      ∃ r, ripcSendDataServer code sentLen 0 s = .ok (r, s')

/-- The encoder refuses for lack of space or succeeds; or it fails with output pending before, and the
move of the read cursor by which it undoes its writes does not take it past everything pending. -/
def EncodeKeepsPending (next : NextHandler) (ds : RipcDataSource) (m : RipcDataDefault) : Prop :=
  RefusedBySpace ds.writeBuff m ∨ (ds.writeBuff.room < 32 ∧ ds.writeBuff.unread ≠ []) ∨
    (32 ≤ ds.writeBuff.room ∧ ∀ n, payloadRequest m = some n →
      let written := min n (ds.writeBuff.room - 32)
      let offset := if 32 + n ≤ ds.writeBuff.freeAfterRewind then ds.writeBuff.offsetAfterRewind else 0
      (written = payloadLenOf m ∧ encodeOnAfter next = rcodeErrOk) ∨
        (ds.writeBuff.unread ≠ [] ∧ offset < ds.writeBuff.unread.length + 2 * (32 + written)))

def SendCall.Harmless (out : Option NextHandler) (s : EpollPeer) : SendCall → Prop
  | .buffer m => ∀ next, out = some next → EncodeKeepsPending next s.ds m
  | .flush _ _ => True

/-- A session the server has accepted: `start`, with its item registered. -/
structure EpollPeer.Wf (s : EpollPeer) : Prop where
  state : s.ds.state = .start
  item : ∃ item, s.item = some item
  buffer : s.ds.writeBuff.Wf
  capacity : s.ds.writeBuff.capacity = 65536

/-! ### The undo of a failed encode and the pending bytes -/

theorem Rbuffer.unread_ne_nil {d : Rbuffer} (h : d.Wf) : d.unread ≠ [] ↔ 0 < d.size := by
  have hlen := h.length_unread
  have hs := h.size_nonneg
  rw [ne_eq, ← List.length_eq_zero_iff]
  omega

theorem Rbuffer.unread_readExt_eq_nil {d : Rbuffer} (h : d.Wf) (hcap : d.capacity = 65536) {p w : Obj}
    (hun : d.unread = p ++ w) (hpw : p ++ w ≠ []) :
    (d.readExt (-w.length)).unread = [] ↔ p.length + 2 * (w.length : Int) ≤ d.offset := by
  have hlen := h.length_unread
  have hpos := List.length_pos_iff.mpr hpw
  rw [hun, List.length_append] at hlen
  rw [List.length_append] at hpos
  have hwf : (d.readExt (-w.length)).Wf := Rbuffer.skip_wf h _
  have hlen' := hwf.length_unread
  rw [← List.length_eq_zero_iff]
  obtain ⟨h1, h2, h3, h4, h5⟩ := h
  unfold Rbuffer.size at hlen
  rw [Rbuffer.readExt_eq ⟨h1, h2, h3, h4, h5⟩ (by omega) (by omega)] at hlen' ⊢
  rw [int32_of_range (by omega) (by omega)] at hlen' ⊢
  simp only [Rbuffer.size] at hlen'
  omega

/-! ### Buffers of calls that return -/

theorem Rbuffer.append_returns {d : Rbuffer} (h : d.Wf) {val : Obj} {n k : Int} {d' : Rbuffer}
    (hfit : n ≤ d.left) (hrun : d.append val n = .ok (k, d')) :
    d'.Wf ∧ d'.capacity = d.capacity := by
  by_cases hn : 0 ≤ n ∧ n ≤ val.length
  · rw [Rbuffer.append_ok h hn.1 hn.2 hfit] at hrun
    cases hrun
    exact ⟨Rbuffer.appended_wf h (by rw [List.length_take]; omega), rfl⟩
  · rw [Rbuffer.append, load, if_neg (by omega)] at hrun
    cases hrun

theorem Rbuffer.put_returns {d : Rbuffer} (h : d.Wf) {val : Obj} {n k : Int} {d' : Rbuffer}
    (hrun : d.put val n = .ok (k, d')) : d'.Wf ∧ d'.capacity = d.capacity := by
  obtain ⟨j, d1, hrw, hwf, -, -, -, hcap⟩ := Rbuffer.rewind_spec h
  have hbuf : ∃ j' d2, (if d.left < n then d.rewind else .ok (0, d)) = .ok (j', d2) ∧ d2.Wf ∧
      d2.capacity = d.capacity := by
    split
    · exact ⟨j, d1, hrw, hwf, hcap⟩
    · exact ⟨0, d, rfl, h, rfl⟩
  obtain ⟨j', d2, hif, hwf2, hcap2⟩ := hbuf
  rw [Rbuffer.put, hif] at hrun
  dsimp only at hrun
  rw [← hcap2]
  split at hrun
  · exact Rbuffer.append_returns hwf2 (by omega) hrun
  · exact Rbuffer.append_returns hwf2 le_rfl hrun

theorem Rbuffer.write_returns {d : Rbuffer} (h : d.Wf) {val : Option Obj} {n k : Int} {d' : Rbuffer}
    (hrun : d.write val n = .ok (k, d')) : d'.Wf ∧ d'.capacity = d.capacity := by
  rcases val with _ | bs
  · cases hrun
    exact ⟨h, rfl⟩
  simp only [Rbuffer.write] at hrun
  split at hrun
  · split at hrun
    · cases hrun
    · exact Rbuffer.put_returns h hrun
  · exact Rbuffer.put_returns h hrun

section encode

variable {next : NextHandler} {ds : RipcDataSource} {m : RipcDataDefault}

/-- Whatever its exit, the encoder leaves a well-formed buffer of the same capacity. -/
theorem encode_returns (h : ds.writeBuff.Wf) {code : Int} {ds' : RipcDataSource} {m' : RipcDataDefault}
    (hrun : encodeProcess next ds m = .ok (code, ds', m')) : ds'.writeBuff.Wf ∧
      ds'.writeBuff.capacity = ds.writeBuff.capacity ∧ ds'.state = ds.state := by
  obtain ⟨wb, hbefore, hwf, -, -, hcap, -⟩ := encodeOnBefore_spec ds m h
  simp only [encodeProcess, bind, Except.bind, hbefore] at hrun
  by_cases hfull : RefusedBySpace ds.writeBuff m
  · rw [if_pos hfull, if_pos (by decide)] at hrun
    cases hrun
    exact ⟨hwf, hcap, rfl⟩
  rw [if_neg hfull, if_neg (by simp)] at hrun
  cases hhead : wb.write (some (headerBytes (htonHeader m ds.dsId (payloadLenOf m)))) headerLen with
  | error f =>
    rw [hhead] at hrun
    cases hrun
  | ok r1 =>
    obtain ⟨hwf1, hcap1⟩ := Rbuffer.write_returns hwf hhead
    rw [hhead] at hrun
    dsimp only at hrun
    split at hrun
    · cases hrun
      exact ⟨Rbuffer.skip_wf hwf1 _, hcap1.trans hcap, rfl⟩
    cases hpay : r1.2.write (htonHeader m ds.dsId (payloadLenOf m)).data (payloadLenOf m) with
    | error f =>
      rw [hpay] at hrun
      cases hrun
    | ok r2 =>
      obtain ⟨hwf2, hcap2⟩ := Rbuffer.write_returns hwf1 hpay
      rw [hpay] at hrun
      dsimp only at hrun
      split at hrun
      · cases hrun
        exact ⟨Rbuffer.skip_wf hwf2 _, hcap2.trans (hcap1.trans hcap), rfl⟩
      split at hrun
      · cases hrun
        exact ⟨Rbuffer.skip_wf hwf2 _, hcap2.trans (hcap1.trans hcap), rfl⟩
      · cases hrun
        exact ⟨hwf2, hcap2.trans (hcap1.trans hcap), rfl⟩

/-- Without room for the header the buffer is not empty, and the read cursor stays at the front. -/
theorem encode_short_keeps (h : ds.writeBuff.Wf) (hcap : ds.writeBuff.capacity = 65536)
    (hfull : ¬ RefusedBySpace ds.writeBuff m) (hroom : ds.writeBuff.room < 32) {code : Int} {ds' : RipcDataSource}
    {m' : RipcDataDefault} (hrun : encodeProcess next ds m = .ok (code, ds', m')) :
    ds.writeBuff.unread ≠ [] ∧ ds'.writeBuff.unread ≠ [] := by
  have hne : ds.writeBuff.unread ≠ [] := by
    rw [Rbuffer.unread_ne_nil h]
    unfold Rbuffer.room at hroom
    omega
  have hroom0 : 0 ≤ ds.writeBuff.room := le_trans h.free_nonneg h.free_le_room
  have hcap' := (encode_returns h hrun).2.1.trans hcap
  obtain ⟨wb, m'', heq, hwf, ho, hun⟩ := encodeProcess_short next h hfull hroom
  rw [hrun] at heq
  cases heq
  have hlen : (((sentHeader ds m).take ds.writeBuff.room.toNat).length : Int) = ds.writeBuff.room := by
    rw [List.length_take, sentHeader_length]
    omega
  have hpos := List.length_pos_iff.mpr hne
  have hundo := Rbuffer.unread_readExt_eq_nil hwf hcap' hun (by simp [hne])
  rw [hlen, ho] at hundo
  refine ⟨hne, fun hnil => ?_⟩
  have hfront := hundo.mp hnil
  omega

/-- Exactly when a call that returns has succeeded, or has left the buffer as empty or as non-empty as it
was. -/
theorem encode_pending_iff (h : ds.writeBuff.Wf) (hcap : ds.writeBuff.capacity = 65536) {code : Int}
    {ds' : RipcDataSource} {m' : RipcDataDefault}
    (hrun : encodeProcess next ds m = .ok (code, ds', m')) :
    (code = rcodeErrOk ∨ (ds'.writeBuff.unread = [] ↔ ds.writeBuff.unread = [])) ↔
      EncodeKeepsPending next ds m := by
  by_cases hfull : RefusedBySpace ds.writeBuff m
  · obtain ⟨wb, heq, -, hun, -⟩ := encodeProcess_refused next h hfull
    rw [hrun] at heq
    cases heq
    exact iff_of_true (.inr (by rw [hun])) (.inl hfull)
  rw [EncodeKeepsPending, or_iff_right hfull]
  have hcap' := (encode_returns h hrun).2.1.trans hcap
  by_cases hroom : ds.writeBuff.room < 32
  · obtain ⟨hne, hne'⟩ := encode_short_keeps h hcap hfull hroom hrun
    exact iff_of_true (.inr (iff_of_false hne' hne)) (.inl ⟨hroom, hne⟩)
  rw [not_lt] at hroom
  have hshort : ¬ (ds.writeBuff.room < 32 ∧ ds.writeBuff.unread ≠ []) := fun hc => by omega
  rw [or_iff_right hshort, and_iff_right hroom]
  cases hreq : payloadRequest m with
  | none =>
    rw [encodeProcess_fault next h hfull hroom hreq] at hrun
    cases hrun
  | some n =>
    simp only [Option.some.injEq, forall_eq']
    obtain ⟨hn0, hnlen⟩ := payloadRequest_range hreq
    obtain ⟨wb, hwf, ho, hun, heq⟩ := encodeProcess_written next h hfull hroom hreq
    rw [hrun] at heq
    dsimp only at heq hun
    have hlen : ((sentHeader ds m ++ (payloadBytes m).take
        (min n (ds.writeBuff.room - 32)).toNat).length : Int) = 32 + min n (ds.writeBuff.room - 32) := by
      rw [List.length_append, sentHeader_length, List.length_take]
      omega
    have hw0 : 0 ≤ min n (ds.writeBuff.room - 32) := by omega
    generalize min n (ds.writeBuff.room - 32) = written at *
    by_cases hok : written = payloadLenOf m ∧ encodeOnAfter next = rcodeErrOk
    · rw [if_neg (by simpa using hok.1), if_neg (by simpa using hok.2), hok.2] at heq
      cases heq
      exact iff_of_true (.inl rfl) (.inl hok)
    · -- one of the two exits that undo the writes
      obtain ⟨hcode, hds⟩ : code ≠ rcodeErrOk ∧
          ds'.writeBuff = wb.readExt (-written - headerLen) := by
        by_cases hshort : written ≠ payloadLenOf m
        · rw [if_pos hshort] at heq
          cases heq
          exact ⟨by decide, rfl⟩
        · have hnext : encodeOnAfter next ≠ rcodeErrOk := fun hc => hok ⟨not_not.mp hshort, hc⟩
          rw [if_neg hshort, if_pos hnext] at heq
          cases heq
          exact ⟨hnext, rfl⟩
      rw [hds] at hcap'
      have hundo := Rbuffer.unread_readExt_eq_nil hwf hcap' hun (by
        rw [ne_eq, ← List.length_eq_zero_iff, List.length_append]
        omega)
      rw [hlen, ho, show -(32 + written) = -written - headerLen by rw [headerLen]; omega] at hundo
      rw [or_iff_right hcode, or_iff_right hok, hds]
      have hnil : ds.writeBuff.unread = [] → ds.writeBuff.offsetAfterRewind = 0 :=
        fun hnil => offsetAfterRewind_of_nil h hnil
      by_cases hne : ds.writeBuff.unread = []
      · simp only [hne, iff_true, ne_eq, not_true_eq_false, false_and, iff_false]
        rw [hundo, hne, hnil hne, ite_self, List.length_nil]
        omega
      · simp only [hne, iff_false, ne_eq, not_false_eq_true, true_and, hundo, not_le]

end encode

/-! ### One call -/

section session

variable {out : Option NextHandler} {s s' : EpollPeer}

/-- A successful `repoll_modify` of the socket's own item changes nothing but its request mask. -/
theorem changeInterest_ok {item : RepollItem} (h : s.item = some item) (change : Events → Events) :
    ∃ s', s.changeInterest change 0 = .ok (0, s') ∧ s'.ds = s.ds ∧
      s'.item = some { item with eventValReq := change item.eventValReq } := by
  obtain ⟨sock, hsock, hitem⟩ := Option.bind_eq_some_iff.mp h
  obtain ⟨item', hitem'⟩ : ∃ item' : RepollItem,
    item' = { item with eventValReq := change item.eventValReq } := ⟨_, rfl⟩
  rw [← hitem']
  refine ⟨{ s with repoll := s.repoll.rearm sock.userData item' }, ?_, rfl, ?_⟩
  · rw [hitem']
    simp only [EpollPeer.changeInterest, hsock, Repoll.changeInterest_ok hitem]
    rfl
  · rw [EpollPeer.item]
    simp [hsock, Repoll.rearm]

/-- The call up to what follows the encoder. -/
theorem send2buffer_eq (h : s.ds.state = .start) (process : Option HandlerProcess) (ctl : Int) :
    ripcSendData2bufferServer process ctl s = (runHandler process s.ds).bind fun (code, ds) =>
      if code ≠ rcodeErrOk then .ok (code, { s with ds })
      else if ds.writeBuff.size > 0 then
        EpollPeer.changeInterest repollSetEventOut ctl { s with ds }
      else .ok (0, { s with ds }) := by
  simp only [ripcSendData2bufferServer]
  rw [if_neg (by simp [h])]
  rfl

theorem outHandler_returns (h : s.ds.writeBuff.Wf) {m : RipcDataDefault} {code : Int}
    {ds : RipcDataSource} (hrun : runHandler (outHandler out m) s.ds = .ok (code, ds)) : ds.writeBuff.Wf ∧
      ds.writeBuff.capacity = s.ds.writeBuff.capacity ∧ ds.state = s.ds.state := by
  rcases out with _ | next
  · cases hrun
    exact ⟨h, rfl, rfl⟩
  · obtain ⟨⟨c, ds', m'⟩, hrun', heq⟩ := Except.of_map_ok hrun
    cases heq
    exact encode_returns h hrun'

/-- A successful handler has appended at most. -/
theorem outHandler_prefix (h : s.ds.writeBuff.Wf) {m : RipcDataDefault} {ds : RipcDataSource}
    (hrun : runHandler (outHandler out m) s.ds = .ok (rcodeErrOk, ds)) :
    s.ds.writeBuff.unread <+: ds.writeBuff.unread := by
  rcases out with _ | next
  · cases hrun
    exact List.prefix_refl _
  · obtain ⟨⟨c, ds', m'⟩, hrun', heq⟩ := Except.of_map_ok hrun
    cases heq
    obtain ⟨-, -, -, wb, rfl, -, hun⟩ := encodeProcess_ok next h hrun'
    rw [hun]
    exact List.prefix_append _ _

/-- What the handler leaves pending, when the buffer has matched the bit before. -/
theorem outHandler_pending_iff (h : s.Wf) {m : RipcDataDefault} {code : Int} {ds : RipcDataSource}
    (hrun : runHandler (outHandler out m) s.ds = .ok (code, ds)) :
    (code = rcodeErrOk ∨ (ds.writeBuff.unread = [] ↔ s.ds.writeBuff.unread = [])) ↔
      (SendCall.buffer m).Harmless out s := by
  rcases out with _ | next
  · cases hrun
    exact iff_of_true (.inl rfl) (fun next hnext => by cases hnext)
  · obtain ⟨⟨c, ds', m'⟩, hrun', heq⟩ := Except.of_map_ok hrun
    cases heq
    rw [encode_pending_iff h.buffer h.capacity hrun']
    simp [SendCall.Harmless]

theorem matches_of_same_item {item : RepollItem} (hitem : s.item = some item)
    (hitem' : s'.item = some item) (h : OutBitMatches s) :
    OutBitMatches s' ↔ (s'.ds.writeBuff.unread = [] ↔ s.ds.writeBuff.unread = []) := by
  obtain ⟨item', hsome, hbit⟩ := h
  obtain rfl : item = item' := Option.some.inj (hitem.symm.trans hsome)
  constructor
  · rintro ⟨item', hsome', hbit'⟩
    obtain rfl : item = item' := Option.some.inj (hitem'.symm.trans hsome')
    exact not_iff_not.mp (hbit'.symm.trans hbit)
  · intro hsame
    exact ⟨item, hitem', hbit.trans (not_congr hsame).symm⟩

/-- The encoder's call: afterwards bit and buffer agree exactly when it was harmless. -/
theorem buffer_step (h : s.Wf) (hmatch : OutBitMatches s) {m : RipcDataDefault}
    (hstep : (SendCall.buffer m).Step out s s') :
    s'.Wf ∧ (OutBitMatches s' ↔ (SendCall.buffer m).Harmless out s) := by
  obtain ⟨r, hrun⟩ := hstep
  obtain ⟨item, hitem⟩ := h.item
  rw [send2buffer_eq h.state] at hrun
  obtain ⟨⟨code, ds⟩, henc, hrun⟩ := Except.of_bind_ok hrun
  obtain ⟨hwf, hcap, hstate⟩ := outHandler_returns h.buffer henc
  have hpend := outHandler_pending_iff h henc
  have hitem' : ({ s with ds } : EpollPeer).item = some item := hitem
  dsimp only at hrun
  by_cases hcode : code = rcodeErrOk
  · rw [if_neg (by simpa using hcode)] at hrun
    have hharm := hpend.mp (.inl hcode)
    by_cases hsize : ds.writeBuff.size > 0
    · obtain ⟨s1, hchange, hds, hitem1⟩ := changeInterest_ok hitem' repollSetEventOut
      rw [if_pos hsize, hchange] at hrun
      cases hrun
      refine ⟨⟨?_, ⟨_, hitem1⟩, ?_, ?_⟩, iff_of_true ⟨_, hitem1, ?_⟩ hharm⟩
      · rw [hds]
        exact hstate.trans h.state
      · rw [hds]
        exact hwf
      · rw [hds]
        exact hcap.trans h.capacity
      · rw [hds, Rbuffer.unread_ne_nil hwf]
        exact iff_of_true (by simp) hsize
    · rw [if_neg hsize] at hrun
      cases hrun
      refine ⟨⟨hstate.trans h.state, ⟨item, hitem⟩, hwf, hcap.trans h.capacity⟩,
        iff_of_true ?_ hharm⟩
      -- nothing is pending, so nothing was before
      have hnil : ds.writeBuff.unread = [] := not_not.mp (mt (Rbuffer.unread_ne_nil hwf).mp hsize)
      rw [hcode] at henc
      have hprefix := outHandler_prefix h.buffer henc
      rw [hnil, List.prefix_nil] at hprefix
      rw [matches_of_same_item hitem hitem' hmatch]
      exact iff_of_true hnil hprefix
  · rw [if_pos hcode] at hrun
    cases hrun
    refine ⟨⟨hstate.trans h.state, ⟨item, hitem⟩, hwf, hcap.trans h.capacity⟩, ?_⟩
    rw [matches_of_same_item hitem hitem' hmatch, ← hpend, or_iff_right hcode]

/-- Of the bytes that are offered the first ones are sent, and the others stay. -/
theorem flush_spec (h : s.Wf) (sentLen : Int) : ∃ code s', ripcSendDataServer rcodeIoDone sentLen 0 s = .ok (code, s') ∧
    s'.ds = { s.ds with writeBuff := s.ds.writeBuff.skip sentLen } := by
  obtain ⟨item, hitem⟩ := h.item
  obtain ⟨sock, hsock, -⟩ := Option.bind_eq_some_iff.mp hitem
  have hitem' : EpollPeer.item ⟨{ s.ds with writeBuff := s.ds.writeBuff.skip sentLen }, some sock, s.repoll⟩ =
      some item := by
    rw [← hsock]
    exact hitem
  simp only [ripcSendDataServer, hsock]
  rw [if_neg (not_not.mpr rfl)]
  split
  · obtain ⟨s', hchange, hds, -⟩ := changeInterest_ok hitem' repollUnsetEventOut
    exact ⟨0, s', hchange, hds⟩
  · exact ⟨0, _, rfl, rfl⟩

/-- A send, whole, partial or failed, keeps bit and buffer in agreement. -/
theorem flush_step (h : s.Wf) (hmatch : OutBitMatches s) {code sentLen : Int}
    (hstep : (SendCall.flush code sentLen).Step out s s') : s'.Wf ∧ OutBitMatches s' := by
  obtain ⟨hsent, r, hrun⟩ := hstep
  obtain ⟨item, hitem⟩ := h.item
  obtain ⟨sock, hsock, -⟩ := Option.bind_eq_some_iff.mp hitem
  simp only [ripcSendDataServer, hsock] at hrun
  by_cases hcode : code ≠ rcodeIoDone
  · rw [if_pos hcode] at hrun
    cases hrun
    exact ⟨h, hmatch⟩
  rw [if_neg hcode] at hrun
  obtain ⟨h0, hle⟩ := hsent (not_not.mp hcode)
  have hwf := Rbuffer.skip_wf h.buffer sentLen
  have hskip := Rbuffer.skip_spec h.buffer h0 hle
  have hsize : (s.ds.writeBuff.skip sentLen).size = s.ds.writeBuff.size - sentLen := by
    rw [hskip]
    simp only [Rbuffer.size]
    omega
  have hitem1 : EpollPeer.item ⟨{ s.ds with writeBuff := s.ds.writeBuff.skip sentLen }, some sock,
      s.repoll⟩ = some item := by
    rw [← hsock]
    exact hitem
  by_cases hempty : (s.ds.writeBuff.skip sentLen).size = 0
  · obtain ⟨s1, hchange, hds, hitem'⟩ := changeInterest_ok hitem1 repollUnsetEventOut
    rw [if_pos hempty, hchange] at hrun
    cases hrun
    refine ⟨⟨by rw [hds]; exact h.state, ⟨_, hitem'⟩, by rw [hds]; exact hwf,
      by rw [hds]; exact h.capacity⟩, _, hitem', ?_⟩
    rw [hds, Rbuffer.unread_ne_nil hwf]
    exact iff_of_false (by simp) (by omega)
  · rw [if_neg hempty] at hrun
    cases hrun
    refine ⟨⟨h.state, ⟨item, hitem1⟩, hwf, h.capacity⟩, ?_⟩
    -- something is left, so something was there
    rw [matches_of_same_item hitem hitem1 hmatch]
    have hs := hwf.size_nonneg
    refine iff_of_false ((Rbuffer.unread_ne_nil hwf).mpr (by omega)) ?_
    exact (Rbuffer.unread_ne_nil h.buffer).mpr (by omega)

/-- Exactly when a call keeps bit and buffer in agreement. -/
theorem outBit_step_iff (h : s.Wf) (hmatch : OutBitMatches s) {call : SendCall}
    (hstep : call.Step out s s') : s'.Wf ∧ (OutBitMatches s' ↔ call.Harmless out s) := by
  cases call with
  | buffer m => exact buffer_step h hmatch hstep
  | flush code sentLen =>
    obtain ⟨hwf, hmatch'⟩ := flush_step h hmatch hstep
    exact ⟨hwf, iff_of_true hmatch' trivial⟩

end session

/-! ### Runs of a session -/

/-- A session as `ripc_accept_server` leaves it: fresh buffers, and an item that asks for `IN`. -/
structure EpollPeer.Accepted (s : EpollPeer) : Prop where
  state : s.ds.state = .start
  item : ∃ item, s.item = some item ∧ item.eventValReq = repollSetEventIn 0
  buffer : ∃ block, block.length = 65536 ∧ s.ds.writeBuff = Rbuffer.create 65536 block

theorem EpollPeer.Accepted.wf {s : EpollPeer} (h : s.Accepted) : s.Wf ∧ OutBitMatches s := by
  obtain ⟨hstate, ⟨item, hitem, hreq⟩, block, hlen, hbuf⟩ := h
  refine ⟨⟨hstate, ⟨item, hitem⟩, ?_, by rw [hbuf]; rfl⟩, item, hitem, ?_⟩
  · rw [hbuf]
    exact Rbuffer.create_wf (by decide) (by decide) (by rw [hlen]; rfl)
  · rw [hreq, hbuf]
    exact iff_of_false (by decide) (by simp)

/-- After every call of a run of harmless ones bit and buffer agree, and the next call that returns keeps
it so exactly when it is harmless too. -/
theorem outBit_run (out : Option NextHandler) {s s' : EpollPeer} (h : s.Accepted)
    {calls : List SendCall}
    (hrun : Steps (Guarded (fun s call => SendCall.Harmless out s call)
      (fun s call s' => SendCall.Step out s call s')) s calls s') :
    OutBitMatches s' ∧ ∀ call s'', SendCall.Step out s' call s'' →
      (OutBitMatches s'' ↔ SendCall.Harmless out s' call) := by
  obtain ⟨hwf, hmatch⟩ := hrun.invariant (I := fun s => s.Wf ∧ OutBitMatches s)
    (fun {s call s'} hinv hstep => by
      obtain ⟨hwf', hiff⟩ := outBit_step_iff hinv.1 hinv.2 hstep.2
      exact ⟨hwf', hiff.mpr hstep.1⟩) h.wf
  exact ⟨hmatch, fun call s'' hstep => (outBit_step_iff hwf hmatch hstep).2⟩

/-- An accepted session at descriptor 5. -/
def acceptedPeer : EpollPeer where
  ds := freshSource 1 65536
  stream := some ⟨5, 0⟩
  repoll :=
    { fdDestCount := 0
      destItems := []
      items := Function.update (fun _ => none) 0 (some ⟨5, repollSetEventIn 0, 0, 1⟩)
      kernel := Function.update (fun _ => none) 5
        (some ⟨.owned 0, repollGetEventReq (repollSetEventIn 0)⟩) }

theorem acceptedPeer_accepted : acceptedPeer.Accepted :=
  ⟨rfl, ⟨_, rfl, rfl⟩, List.replicate 65536 0, List.length_replicate, rfl⟩

theorem acceptedPeer_freeAfterRewind : acceptedPeer.ds.writeBuff.freeAfterRewind = 65536 := rfl

theorem acceptedPeer_room : acceptedPeer.ds.writeBuff.room = 65536 := rfl

theorem acceptedPeer_unread : acceptedPeer.ds.writeBuff.unread = [] := Rbuffer.unread_create _ _

/-- A frame that has been encoded is in the buffer. -/
theorem EpollPeer.Wf.buffer_encoded {s : EpollPeer} (h : s.Wf) {next : NextHandler} {m m' : RipcDataDefault} {wb : Rbuffer}
    (henc : encodeProcess next s.ds m = .ok (rcodeErrOk, { s.ds with writeBuff := wb }, m')) (hpos : 0 < wb.size) :
    ∃ s', ripcSendData2bufferServer (outHandler (some next) m) 0 s = .ok (rcodeErrOk, s') ∧
      s'.ds = { s.ds with writeBuff := wb } := by
  obtain ⟨item, hitem⟩ := h.item
  obtain ⟨s', hchange, hds, -⟩ := changeInterest_ok
    (s := { s with ds := { s.ds with writeBuff := wb } }) hitem repollSetEventOut
  refine ⟨s', ?_, hds⟩
  rw [send2buffer_eq h.state]
  simp only [outHandler, Option.map_some, runHandler, henc]
  refine Eq.trans ?_ hchange
  exact if_pos hpos

/-- A message of 35 bytes is buffered and 10 of them are sent. -/
theorem outBit_run_partial :
    let text : RipcDataDefault := ⟨0, [], 3, 7, 0, 0, 0, some [0x41, 0x42, 0x43]⟩
    ∃ s', Steps (Guarded (fun s call => SendCall.Harmless (some none) s call)
        (fun s call s' => SendCall.Step (some none) s call s')) acceptedPeer
        [.buffer text, .flush rcodeIoDone 10] s' ∧
      s'.ds.writeBuff.unread.length = 25 ∧ OutBitMatches s' ∧
      ∀ call s'', SendCall.Step (some none) s' call s'' →
        (OutBitMatches s'' ↔ SendCall.Harmless (some none) s' call) := by
  intro text
  obtain ⟨hwf, hmatch⟩ := acceptedPeer_accepted.wf
  have hreq : payloadRequest text = some 3 := by decide
  have hlen : payloadLenOf text = 3 := by decide
  have hpass : ¬ RefusedBySpace acceptedPeer.ds.writeBuff text := by
    rw [RefusedBySpace, acceptedPeer_freeAfterRewind]
    decide
  have hharm : SendCall.Harmless (some none) acceptedPeer (.buffer text) := by
    rintro next hnext
    cases hnext
    refine .inr (.inr ⟨by rw [acceptedPeer_room]; decide, fun n hn => ?_⟩)
    cases hreq.symm.trans hn
    exact .inl ⟨by rw [acceptedPeer_room, hlen]; rfl, rfl⟩
  -- the whole frame is encoded
  obtain ⟨wb, hwb, -, hun, henc⟩ := encodeProcess_written none hwf.buffer hpass (by rw [acceptedPeer_room]; decide) hreq
  dsimp only at henc
  rw [acceptedPeer_room, hlen, if_neg (by decide), if_neg (by decide)] at henc
  rw [acceptedPeer_unread, acceptedPeer_room] at hun
  have hwlen : wb.unread.length = 35 := by
    rw [hun, List.nil_append, List.length_append, sentHeader_length]
    decide
  have hsize : wb.size = 35 := by
    have := hwb.length_unread
    omega
  obtain ⟨s₁, hbuffer, hds₁⟩ := hwf.buffer_encoded henc (by omega)
  have hstep₁ : SendCall.Step (some none) acceptedPeer (.buffer text) s₁ := ⟨_, hbuffer⟩
  have hwf₁ := (outBit_step_iff hwf hmatch hstep₁).1
  have hbuff₁ : s₁.ds.writeBuff = wb := congrArg RipcDataSource.writeBuff hds₁
  -- 10 bytes of it are sent
  obtain ⟨code, s₂, hflush, hds₂⟩ := flush_spec hwf₁ 10
  have hstep₂ : SendCall.Step (some none) s₁ (.flush rcodeIoDone 10) s₂ :=
    ⟨fun _ => ⟨by decide, by rw [hbuff₁]; omega⟩, code, hflush⟩
  have hrun : Steps (Guarded (fun s call => SendCall.Harmless (some none) s call)
      (fun s call s' => SendCall.Step (some none) s call s')) acceptedPeer [.buffer text, .flush rcodeIoDone 10] s₂ :=
    .cons ⟨hharm, hstep₁⟩ (.cons ⟨trivial, hstep₂⟩ (.nil _))
  refine ⟨s₂, hrun, ?_, outBit_run (some none) acceptedPeer_accepted hrun⟩
  rw [hds₂, hbuff₁, Rbuffer.unread_skip hwb (by decide) (by omega), List.length_drop]
  omega

/-- An empty payload at the address of a non-empty string: the encoder fails and leaves 33 bytes, the bit
stays clear. -/
theorem output_stranded : ∃ s', SendCall.Step (some none) acceptedPeer
    (.buffer ⟨0, [], 0, 7, 0, 0, 0, some [0x41, 0]⟩) s' ∧ ¬ OutBitMatches s' := by
  obtain ⟨hwf, hmatch⟩ := acceptedPeer_accepted.wf
  have hsize : acceptedPeer.ds.writeBuff.size = 0 := rfl
  obtain ⟨m, hm⟩ : ∃ m : RipcDataDefault, m = ⟨0, [], 0, 7, 0, 0, 0, some [0x41, 0]⟩ := ⟨_, rfl⟩
  have hreq : payloadRequest m = some 1 := by
    rw [hm]
    decide
  have hlen : payloadLenOf m = 0 := by
    rw [hm]
    decide
  have hpass : ¬ RefusedBySpace acceptedPeer.ds.writeBuff m := by
    rw [RefusedBySpace, acceptedPeer_freeAfterRewind, hm]
    decide
  rw [← hm]
  have hharm : ¬ SendCall.Harmless (some none) acceptedPeer (.buffer m) := by
    intro hharm
    rcases hharm none rfl with hfull | ⟨-, hne⟩ | ⟨-, hall⟩
    · exact hpass hfull
    · exact hne acceptedPeer_unread
    · rcases hall 1 hreq with ⟨hw, -⟩ | ⟨hne, -⟩
      · rw [acceptedPeer_room, hlen] at hw
        exact absurd hw (by decide)
      · exact hne acceptedPeer_unread
  obtain ⟨wb, -, -, -, hrun⟩ := encodeProcess_written none hwf.buffer hpass (by rw [acceptedPeer_room]; decide) hreq
  dsimp only at hrun
  rw [acceptedPeer_room, hlen, if_pos (by decide)] at hrun
  obtain ⟨s', hstep⟩ : ∃ s', SendCall.Step (some none) acceptedPeer (.buffer m) s' := by
    have heq := send2buffer_eq hwf.state (outHandler (some none) m) 0
    simp only [outHandler, Option.map_some, runHandler, hrun] at heq
    exact ⟨_, _, heq.trans rfl⟩
  exact ⟨s', hstep, fun hmatch' => hharm ((outBit_step_iff hwf hmatch hstep).2.mp hmatch')⟩

end Funra
