import Funra.Codec.Encode
import Funra.Codec.RoundTrip
import Funra.Lib.System

/-!
# Sending on the libuv path

`send_data` encodes a message into `write_buff` and gives `uv_write` everything between `offset` and
`pos`; `offset` moves when the write completes, in `after_write`. Server and client do the same here.

`UvStep` is one session in any order of sends and completions: libuv keeps the ranges it was given and
completes them in order. `ExactlyOnce` compares what was handed to it with the frames encoded, and the
ranges it still holds with what they held at the call. A send that finds bytes of an uncompleted write
hands them over again (`send_repeats`); as long as none does, every frame goes out once
(`exactlyOnce_run`).
-/

namespace Funra

open CInt Mem System

def rcodeOk : Int := 0
def rcodeErrIpcBrokenPipeOut : Int := 12006

/-- `local_write_req_t`, with the `uv_buf_t` libuv keeps: `base` counts from `write_buff->data`. -/
structure LocalWriteReq where
  base : Int
  len : Int
  writeSize : Int
  deriving DecidableEq, Repr

/-- `out_handler` is the encoder with its next handler, or missing. -/
def outProcess (outHandler : Option NextHandler) (ds : RipcDataSource) (m : RipcDataDefault) :
    Except Fault (Int × RipcDataSource) :=
  match outHandler with
  | none => .ok (rcodeErrOk, ds)
  | some next => (encodeProcess next ds m).map fun (code, ds, _) => (code, ds)

/-- The buffer given to `uv_write`. -/
def sendRange (ds : RipcDataSource) : LocalWriteReq where
  base := ds.writeBuff.offset
  len := ds.writeBuff.size
  writeSize := ds.writeBuff.size

/-- `uvWrite` is the code of `uv_write`; the request is the one it accepts. -/
def sendEncoded (outHandler : Option NextHandler) (ds : RipcDataSource) (m : RipcDataDefault)
    (uvWrite : Int) : Except Fault (Int × RipcDataSource × Option LocalWriteReq) := do
  let (code, ds) ← outProcess outHandler ds m
  if code ≠ rcodeErrOk then return (code, ds, none)
  if uvWrite ≠ rcodeOk then return (uvWrite, ds, none)
  return (rcodeOk, ds, some (sendRange ds))

def skipWritten (ds : RipcDataSource) (wr : LocalWriteReq) : RipcDataSource :=
  { ds with writeBuff := ds.writeBuff.skip wr.writeSize }

namespace UvServer

def sendData := sendEncoded

/-- With the code given to `out_handler->on_code`, when there is one. -/
def afterWrite (ds : RipcDataSource) (wr : LocalWriteReq) (status : Int) :
    Option Int × RipcDataSource :=
  (if status ≠ 0 then some rcodeErrIpcBrokenPipeOut else none, skipWritten ds wr)

end UvServer

namespace UvClient

def sendData := sendEncoded

def afterWrite (ds : RipcDataSource) (wr : LocalWriteReq) (_status : Int) : RipcDataSource :=
  skipWritten ds wr

end UvClient

inductive UvSide
  | server | client
  deriving DecidableEq, Repr

namespace UvSide

def sendData : UvSide → Option NextHandler → RipcDataSource → RipcDataDefault → Int →
    Except Fault (Int × RipcDataSource × Option LocalWriteReq)
  | server => UvServer.sendData
  | client => UvClient.sendData

def afterWrite : UvSide → RipcDataSource → LocalWriteReq → Int → RipcDataSource
  | server, ds, wr, status => (UvServer.afterWrite ds wr status).2
  | client, ds, wr, status => UvClient.afterWrite ds wr status

end UvSide

/-! ### A session and libuv -/

inductive UvEvent
  | send (m : RipcDataDefault) (uvWrite : Int)
  | complete (status : Int)

/-- The bytes of a range as they stand in `write_buff`. -/
def LocalWriteReq.bytes (wr : LocalWriteReq) (ds : RipcDataSource) : Obj :=
  window ds.writeBuff.data wr.base.toNat wr.len.toNat

/-- `writes` are the uncompleted ones, oldest first, each with the bytes of its range at the call. The
two logs are the ranges handed to `uv_write` and the frames of the successful encodes. -/
structure UvSession where
  ds : RipcDataSource
  writes : List (LocalWriteReq × Obj)
  handed : List Obj
  frames : List Obj

/-- The frame of a message sent on `ds`. -/
def frameOf (ds : RipcDataSource) (m : RipcDataDefault) : Obj :=
  sentHeader ds m ++ (payloadBytes m).take m.len.toNat

/-- The encode of `m` succeeds. -/
def encoded (next : NextHandler) (ds : RipcDataSource) (m : RipcDataDefault) : Bool :=
  match encodeProcess next ds m with
  | .ok (code, _, _) => code == rcodeErrOk
  | .error _ => false

/-- What a send adds to the logs. -/
def UvSession.afterSend (s : UvSession) (next : NextHandler) (m : RipcDataDefault)
    (ds : RipcDataSource) (req : Option LocalWriteReq) : UvSession where
  ds := ds
  writes := s.writes ++ (req.toList.map fun wr => (wr, wr.bytes ds))
  handed := s.handed ++ req.toList.map fun wr => wr.bytes ds
  frames := s.frames ++ if encoded next s.ds m then [frameOf s.ds m] else []

inductive UvStep (side : UvSide) (next : NextHandler) : UvSession → UvEvent → UvSession → Prop
  | send {s : UvSession} {m : RipcDataDefault} {uvWrite code : Int} {ds : RipcDataSource}
      {req : Option LocalWriteReq} (h : side.sendData (some next) s.ds m uvWrite = .ok (code, ds, req)) :
      UvStep side next s (.send m uvWrite) (s.afterSend next m ds req)
  | complete {s : UvSession} {wr : LocalWriteReq} {given : Obj} {rest : List (LocalWriteReq × Obj)}
      {status : Int} (h : s.writes = (wr, given) :: rest) :
      UvStep side next s (.complete status)
        { s with ds := side.afterWrite s.ds wr status, writes := rest }

/-- What was handed over are the frames, and the ranges libuv holds are as they were handed over. -/
structure ExactlyOnce (s : UvSession) : Prop where
  in_order : s.handed.flatten = s.frames.flatten
  untouched : ∀ wr given, (wr, given) ∈ s.writes → wr.bytes s.ds = given

/-- The payload write gets `len` bytes that fit behind the header, and the next handler agrees. -/
def Encodes (next : NextHandler) (ds : RipcDataSource) (m : RipcDataDefault) : Prop :=
  payloadRequest m = some (payloadLenOf m) ∧ 32 + payloadLenOf m ≤ ds.writeBuff.room ∧
    encodeOnAfter next = rcodeErrOk

/-- A send is refused by the space check, or it finds nothing unread, encodes its message and has its
write accepted. -/
def SendsAlone (next : NextHandler) (s : UvSession) : UvEvent → Prop
  | .send m uvWrite => RefusedBySpace s.ds.writeBuff m ∨
      (s.ds.writeBuff.unread = [] ∧ Encodes next s.ds m ∧ uvWrite = rcodeOk)
  | .complete _ => True

/-- A session before its first send. -/
def UvSession.start (ds : RipcDataSource) : UvSession := ⟨ds, [], [], []⟩

variable {side : UvSide} {next : NextHandler} {s s' : UvSession}

/-! ### One send -/

theorem sendData_eq (side : UvSide) : side.sendData = sendEncoded := by
  cases side <;> rfl

theorem afterWrite_eq (side : UvSide) (ds : RipcDataSource) (wr : LocalWriteReq) (status : Int) :
    side.afterWrite ds wr status = skipWritten ds wr := by
  cases side <;> rfl

theorem sendRange_bytes (ds : RipcDataSource) : (sendRange ds).bytes ds = ds.writeBuff.unread := rfl

/-- An encode that fails sends nothing. -/
theorem sendEncoded_failed {ds ds' : RipcDataSource} {m m' : RipcDataDefault} {uvWrite code : Int}
    (hcode : code ≠ rcodeErrOk) (h : encodeProcess next ds m = .ok (code, ds', m')) :
    sendEncoded (some next) ds m uvWrite = .ok (code, ds', none) := by
  simp only [sendEncoded, outProcess, h, Except.map, bind, Except.bind]
  rw [if_pos hcode]
  rfl

theorem sendEncoded_accepted {ds ds' : RipcDataSource} {m m' : RipcDataDefault}
    (h : encodeProcess next ds m = .ok (rcodeErrOk, ds', m')) :
    sendEncoded (some next) ds m rcodeOk = .ok (rcodeOk, ds', some (sendRange ds')) := by
  simp only [sendEncoded, outProcess, h, Except.map, bind, Except.bind]
  rw [if_neg (by simp), if_neg (by simp)]
  rfl

theorem encoded_of_ok {ds ds' : RipcDataSource} {m m' : RipcDataDefault} {code : Int}
    (h : encodeProcess next ds m = .ok (code, ds', m')) :
    encoded next ds m = true ↔ code = rcodeErrOk := by
  simp [encoded, h]

/-- A send that goes through hands over all unread bytes, old and new. -/
theorem send_hands (h : s.ds.writeBuff.Wf) {m m' : RipcDataDefault} {ds' : RipcDataSource}
    (hrun : encodeProcess next s.ds m = .ok (rcodeErrOk, ds', m')) :
    s.afterSend next m ds' (some (sendRange ds')) =
      { ds := ds'
        writes := s.writes ++ [(sendRange ds', s.ds.writeBuff.unread ++ frameOf s.ds m)]
        handed := s.handed ++ [s.ds.writeBuff.unread ++ frameOf s.ds m]
        frames := s.frames ++ [frameOf s.ds m] } := by
  obtain ⟨-, -, -, wb, rfl, hwf, hun⟩ := encodeProcess_ok next h hrun
  have henc : encoded next s.ds m = true := (encoded_of_ok hrun).mpr rfl
  have hbytes : (sendRange { s.ds with writeBuff := wb }).bytes { s.ds with writeBuff := wb } =
      s.ds.writeBuff.unread ++ frameOf s.ds m := by
    rw [sendRange_bytes, frameOf]
    exact hun
  simp only [UvSession.afterSend, Option.toList_some, List.map_cons, List.map_nil, hbytes]
  rw [if_pos henc]

/-- Bytes that are still unread go out again with the next send. -/
theorem send_repeats (h : s.ds.writeBuff.Wf) (hs : s.handed.flatten = s.frames.flatten)
    (hbusy : s.ds.writeBuff.unread ≠ []) {m m' : RipcDataDefault} {ds' : RipcDataSource}
    (hrun : encodeProcess next s.ds m = .ok (rcodeErrOk, ds', m')) :
    ¬ ExactlyOnce (s.afterSend next m ds' (some (sendRange ds'))) := by
  rintro ⟨horder, -⟩
  rw [send_hands h hrun] at horder
  have hlen := congrArg List.length horder
  simp only [List.flatten_append, List.flatten_cons, List.flatten_nil, hs, List.append_nil,
    List.length_append] at hlen
  have hpos := List.length_pos_iff.mpr hbusy
  omega

/-! ### Sends that do not overlap -/

/-- Between the steps, libuv holds nothing and nothing is unread, or it holds what is unread. -/
structure UvInv (s : UvSession) : Prop where
  wf : s.ds.writeBuff.Wf
  in_order : s.handed.flatten = s.frames.flatten
  held : (s.writes = [] ∧ s.ds.writeBuff.unread = []) ∨
    (s.writes = [(sendRange s.ds, s.ds.writeBuff.unread)] ∧ s.ds.writeBuff.unread ≠ [])

theorem UvInv.exactlyOnce (h : UvInv s) : ExactlyOnce s := by
  refine ⟨h.in_order, fun wr given hmem => ?_⟩
  rcases h.held with ⟨hnone, -⟩ | ⟨hone, -⟩
  · rw [hnone] at hmem
    cases hmem
  · rw [hone, List.mem_singleton, Prod.mk.injEq] at hmem
    obtain ⟨rfl, rfl⟩ := hmem
    exact sendRange_bytes s.ds

theorem UvInv.refused (h : UvInv s) {m m' : RipcDataDefault} {wb : Rbuffer} {code : Int}
    (hcode : code ≠ rcodeErrOk)
    (hrun : encodeProcess next s.ds m = .ok (code, { s.ds with writeBuff := wb }, m')) (hwf : wb.Wf)
    (hun : wb.unread = s.ds.writeBuff.unread) (hsame : s.ds.writeBuff.size ≠ 0 → wb = s.ds.writeBuff) :
    UvInv (s.afterSend next m { s.ds with writeBuff := wb } none) := by
  have hnot : ¬ encoded next s.ds m = true := fun he => hcode ((encoded_of_ok hrun).mp he)
  have heq : s.afterSend next m { s.ds with writeBuff := wb } none =
      { s with ds := { s.ds with writeBuff := wb } } := by
    simp only [UvSession.afterSend, Option.toList_none, List.map_nil, List.append_nil]
    rw [if_neg hnot, List.append_nil]
  rw [heq]
  refine ⟨hwf, h.in_order, ?_⟩
  rcases h.held with ⟨hnone, hnil⟩ | ⟨hone, hne⟩
  · exact .inl ⟨hnone, by rw [← hnil]; exact hun⟩
  · -- libuv holds a range of the buffer, which is not rewound then
    have hsize : s.ds.writeBuff.size ≠ 0 := fun h0 => hne (h.wf.unread_eq_nil h0)
    rw [hsame hsize]
    exact .inr ⟨hone, hne⟩

theorem UvInv.sent (h : UvInv s) (hidle : s.ds.writeBuff.unread = []) {m m' : RipcDataDefault}
    {ds' : RipcDataSource} (hrun : encodeProcess next s.ds m = .ok (rcodeErrOk, ds', m')) :
    UvInv (s.afterSend next m ds' (some (sendRange ds'))) := by
  have hnone : s.writes = [] := by
    rcases h.held with ⟨hnone, -⟩ | ⟨-, hne⟩
    · exact hnone
    · exact absurd hidle hne
  obtain ⟨-, -, -, wb, rfl, hwf, hun⟩ := encodeProcess_ok next h.wf hrun
  rw [send_hands h.wf hrun, hidle, hnone, List.nil_append, List.nil_append]
  have hframe : wb.unread = frameOf s.ds m := by
    rw [hun, hidle]
    rfl
  refine ⟨hwf, ?_, .inr ⟨?_, ?_⟩⟩
  · simp [h.in_order]
  · dsimp only
    rw [hframe]
  · dsimp only
    rw [hframe, frameOf]
    intro hnil
    have hlen := congrArg List.length hnil
    rw [List.length_append, sentHeader_length, List.length_nil] at hlen
    omega

theorem UvInv.completed (h : UvInv s) {wr : LocalWriteReq} {given : Obj}
    {rest : List (LocalWriteReq × Obj)} (hw : s.writes = (wr, given) :: rest) :
    UvInv { s with ds := skipWritten s.ds wr, writes := rest } := by
  rcases h.held with ⟨hnone, -⟩ | ⟨hone, -⟩
  · rw [hnone] at hw
    cases hw
  · rw [hone, List.cons.injEq, Prod.mk.injEq] at hw
    obtain ⟨⟨rfl, -⟩, rfl⟩ := hw
    have hskip := Rbuffer.skip_spec h.wf h.wf.size_nonneg (le_refl s.ds.writeBuff.size)
    have hend : s.ds.writeBuff.offset + s.ds.writeBuff.size = s.ds.writeBuff.pos := by
      unfold Rbuffer.size
      omega
    rw [hend] at hskip
    obtain ⟨h1, h2, h3, h4, h5⟩ := h.wf
    refine ⟨?_, h.in_order, .inl ⟨rfl, ?_⟩⟩ <;> dsimp only [skipWritten, sendRange] <;> rw [hskip]
    · exact ⟨by dsimp only; omega, le_refl _, h3, h4, h5⟩
    · simp [Rbuffer.unread, Rbuffer.size, window]

theorem UvInv.step {e : UvEvent} (h : UvInv s)
    (hstep : Guarded (SendsAlone next) (UvStep side next) s e s') : UvInv s' := by
  obtain ⟨hguard, hstep⟩ := hstep
  cases hstep with
  | complete hw =>
    rw [afterWrite_eq]
    exact h.completed hw
  | @send m uvWrite code ds' req hsend =>
    rw [sendData_eq] at hsend
    by_cases hfull : RefusedBySpace s.ds.writeBuff m
    · obtain ⟨wb, hrun, hwf, hun, hsame⟩ := encodeProcess_refused next h.wf hfull
      rw [sendEncoded_failed (by decide) hrun] at hsend
      cases hsend
      exact h.refused (by decide) hrun hwf hun hsame
    · obtain ⟨hidle, ⟨hreq, hfit, hnext⟩, rfl⟩ := hguard.resolve_left hfull
      obtain ⟨ds1, m', hrun⟩ := encodeProcess_succeeds next h.wf hfull hfit hreq hnext
      rw [sendEncoded_accepted hrun] at hsend
      cases hsend
      exact h.sent hidle hrun

/-- As long as no send overlaps an uncompleted write, every frame is handed over once, in order, and
stays where it is until its write completes. -/
theorem exactlyOnce_run (side : UvSide) (next : NextHandler) (ds : RipcDataSource)
    (h : ds.writeBuff.Wf) (hempty : ds.writeBuff.unread = []) (events : List UvEvent) (s : UvSession)
    (hrun : Steps (Guarded (SendsAlone next) (UvStep side next)) (UvSession.start ds) events s) :
    ExactlyOnce s := by
  have hstart : UvInv (UvSession.start ds) := ⟨h, rfl, .inl ⟨rfl, hempty⟩⟩
  exact (hrun.invariant (I := UvInv) UvInv.step hstart).exactlyOnce

theorem exactlyOnce_run_one : ∃ events s,
    Steps (Guarded (SendsAlone none) (UvStep .client none)) (UvSession.start (freshSource 1 64))
      events s ∧ events.length = 2 ∧ ExactlyOnce s := by
  obtain ⟨ds', m', hrun⟩ := encodeProcess_byteMessage 0
  have hguard : SendsAlone none (UvSession.start (freshSource 1 64)) (.send (byteMessage 0) rcodeOk) :=
    .inr ⟨rfl, ⟨payloadRequest_pos rfl (by decide) (by decide), by decide, rfl⟩, rfl⟩
  have hsend : Guarded (SendsAlone none) (UvStep .client none) (UvSession.start (freshSource 1 64))
      (.send (byteMessage 0) rcodeOk) _ := ⟨hguard, .send (sendEncoded_accepted hrun)⟩
  have hwrites := congrArg UvSession.writes (send_hands (s := UvSession.start (freshSource 1 64))
    (freshSource_wf 1 (by decide)) hrun)
  have hdone : Guarded (SendsAlone none) (UvStep .client none) _ (.complete 0) _ :=
    ⟨trivial, .complete hwrites⟩
  have hsteps := Steps.cons hsend (.cons hdone (.nil _))
  exact ⟨_, _, hsteps, rfl, exactlyOnce_run .client none _ (freshSource_wf 1 (by decide)) rfl _ _ hsteps⟩

/-- Two sends before the first completion: the first frame is handed over twice. -/
theorem exactlyOnce_two_sends : ∃ events s,
    Steps (UvStep .server none) (UvSession.start (freshSource 1 128)) events s ∧ ¬ ExactlyOnce s := by
  have hboth : ((encodeProcess none (freshSource 1 128) (byteMessage 0)).bind fun r =>
      encodeProcess none r.2.1 (byteMessage 0)).map (fun r => r.1) = .ok rcodeErrOk := by
    decide +kernel
  obtain ⟨ds1, m1, h1⟩ : ∃ ds1 m1, encodeProcess none (freshSource 1 128) (byteMessage 0) =
      .ok (rcodeErrOk, ds1, m1) := exists_of_code (by decide +kernel)
  rw [h1] at hboth
  obtain ⟨ds2, m2, h2⟩ := exists_of_code hboth
  have hwf := freshSource_wf 1 (show 128 < 2147483648 by decide)
  have hs1 := send_hands (s := UvSession.start (freshSource 1 128)) hwf h1
  obtain ⟨-, -, -, wb, rfl, hwf1, hun⟩ := encodeProcess_ok none hwf h1
  refine ⟨_, _, .cons (.send (sendEncoded_accepted h1)) (.cons (.send (sendEncoded_accepted h2)) (.nil _)),
    send_repeats hwf1 (by rw [hs1]; simp [UvSession.start, freshSource]) ?_ h2⟩
  rw [hs1]
  intro hnil
  have hlen := congrArg List.length (hun.symm.trans hnil)
  simp at hlen

end Funra
