import Funra.Codec.Decode
import Funra.Codec.Frame

/-!
# Reading from a transport

A transport puts the bytes of one read at `rbuffer_write_start_dest(read_cache)` and announces their
number to `decode_process` (`feed`). Whole frames put into a drained buffer come out in order, and leave
a drained buffer behind (`feed_frames`).
-/

namespace Funra

open CInt Mem System

/-- The bytes of one read, behind the write cursor. -/
def Rbuffer.receive (d : Rbuffer) (chunk : Obj) : Rbuffer :=
  { d with data := overwrite d.data d.pos.toNat chunk }

def feed (malloc : Nat → Bool) (next : NextHandler) (ds : RipcDataSource) (chunk : Obj) :
    Except Fault (Int × RipcDataSource × List DecodeEvent) :=
  decodeProcess malloc next { ds with readCache := ds.readCache.receive chunk }
    (UInt32.ofNat chunk.length)

/-- The messages the decoder has accepted. -/
def acceptedFrames (events : List DecodeEvent) : List RipcDataDefault :=
  events.filterMap fun
    | .frame m => some m
    | _ => none

@[simp] theorem acceptedFrames_nil : acceptedFrames [] = [] := rfl

theorem acceptedFrames_append (a b : List DecodeEvent) :
    acceptedFrames (a ++ b) = acceptedFrames a ++ acceptedFrames b :=
  List.filterMap_append

@[simp] theorem acceptedFrames_frameEvents (dsType : RipcDataSourceType) (m : RipcDataDefault) :
    acceptedFrames (frameEvents dsType m) = [m] := by
  unfold frameEvents sessionEvents
  split
  · split <;> rfl
  · rfl

/-- The bytes of frames sent one after the other. -/
def framesBytes (frames : List Frame) : Obj := (frames.map Frame.bytes).flatten

@[simp] theorem framesBytes_nil : framesBytes [] = [] := rfl

@[simp] theorem framesBytes_cons (f : Frame) (fs : List Frame) :
    framesBytes (f :: fs) = f.bytes ++ framesBytes fs := by
  simp [framesBytes]

@[simp] theorem framesBytes_append (fs gs : List Frame) :
    framesBytes (fs ++ gs) = framesBytes fs ++ framesBytes gs := by
  simp [framesBytes]

variable {malloc : Nat → Bool} {d : Rbuffer} {ds : RipcDataSource} {chunk : Obj}

/-! ### The bytes of one read -/

theorem receive_wf (h : d.Wf) (hfit : chunk.length < d.left) : (d.receive chunk).Wf := by
  obtain ⟨h1, h2, h3, h4, h5⟩ := h
  unfold Rbuffer.left at hfit
  refine ⟨h1, h2, h3, h4, ?_⟩
  rw [Rbuffer.receive, overwrite_length _ _ _ (by omega)]
  exact h5

/-- Once announced, the bytes of the read are unread. -/
theorem decodeOnBefore_receive (h : ds.readCache.Wf) (hfit : chunk.length < ds.readCache.left) :
    let rc := (decodeOnBefore { ds with readCache := ds.readCache.receive chunk }
      (UInt32.ofNat chunk.length)).readCache
    rc.Wf ∧ rc.unread = ds.readCache.unread ++ chunk ∧ rc.capacity = ds.readCache.capacity ∧
      rc.size = ds.readCache.size + chunk.length := by
  have hwf := receive_wf h hfit
  have hl : (ds.readCache.receive chunk).left = ds.readCache.left := rfl
  have hcap := h.capacity_lt
  have hp := h.pos_le_capacity
  have h1 := h.offset_nonneg
  have h2 := h.offset_le_pos
  have h5 := h.length_data
  have hlt : chunk.length < ds.readCache.capacity := by
    unfold Rbuffer.left at hfit
    omega
  have hraw : (UInt32.ofNat chunk.length).toNat = chunk.length :=
    UInt32.toNat_ofNat_of_lt' (by simp only [UInt32.size]; omega)
  obtain ⟨heq, hwf', hun⟩ := Rbuffer.writeExt_spec hwf (n := chunk.length) (by omega) (by omega)
  simp only [decodeOnBefore, hraw]
  refine ⟨hwf', ?_, by rw [heq]; rfl, ?_⟩
  · rw [hun]
    unfold Rbuffer.left at hfit
    simp only [Rbuffer.unread, Rbuffer.receive, Rbuffer.size, Int.toNat_natCast]
    rw [window_overwrite_before _ _ _ _ _ (by omega) (by omega),
      window_overwrite_self _ _ _ (by omega)]
  · rw [heq]
    simp only [Rbuffer.size, Rbuffer.receive]
    omega

/-! ### Whole frames -/

theorem hasHeader_bytes (f : Frame) (rest : Obj) : HasHeader (f.bytes ++ rest) := by
  refine ⟨by simp; omega, ?_⟩
  rw [headerOf, Frame.bytes, List.append_assoc, List.take_left' f.headerBytes_wire_length]
  have h := f.ntohHeader_bytes []
  rw [List.append_nil] at h
  rw [h]
  rfl

theorem headerOf_bytes (f : Frame) (rest : Obj) :
    headerOf (f.bytes ++ rest) = { f.host with data := none } := by
  have h := f.ntohHeader_bytes []
  rw [List.append_nil] at h
  rw [headerOf, Frame.bytes, List.append_assoc, List.take_left' f.headerBytes_wire_length, h]

theorem frameMessage_bytes (f : Frame) (rest : Obj) :
    frameMessage (f.bytes ++ rest) f.payload.length = f.host := by
  have hwin : window (f.bytes ++ rest) 32 f.payload.length = f.payload := by
    rw [Frame.bytes, List.append_assoc, window_skip_append _ _ _ _ (by simp),
      Frame.headerBytes_wire_length, Nat.sub_self, window_head_append _ _ _ rfl]
  rw [frameMessage, headerOf_bytes, hwin]
  rfl

/-- A round on a frame at the front of the buffer accepts it. -/
theorem decodeIter_frame (h : d.Wf) {f : Frame} {rest : Obj} (hun : d.unread = f.bytes ++ rest)
    (hm : malloc (f.payload.length + 1) = true) : decodeIter malloc d =
      ⟨some f.payload.length, .ok (.accept (afterFrame d f.payload.length) f.host)⟩ := by
  have hlen := h.length_unread
  rw [hun, List.length_append, Frame.bytes_length] at hlen
  have hreq : requireLenOf (headerOf d.unread) = f.payload.length := by
    rw [hun, headerOf_bytes]
    exact f.requireLenOf_host
  have hacc := decodeIter_accept h (by rw [hun]; exact hasHeader_bytes f rest) hreq (by omega) hm
  rw [hacc, hun, frameMessage_bytes]

theorem decodeLoop_frames {dsType : RipcDataSourceType} (frames : List Frame) (fuel : Nat) (h : d.Wf)
    (hun : d.unread = framesBytes frames)
    (hm : ∀ f ∈ frames, malloc (f.payload.length + 1) = true) (hfuel : d.size < fuel) :
    ∃ d' events, decodeLoop malloc dsType fuel d = .ok (none, d', events) ∧ d'.Wf ∧ d'.size = 0 ∧
      d'.capacity = d.capacity ∧ acceptedFrames events = frames.map Frame.host := by
  induction frames generalizing d fuel with
  | nil =>
    have hs := h.length_unread
    rw [hun, framesBytes_nil, List.length_nil] at hs
    obtain ⟨fuel, rfl⟩ : ∃ k, fuel = k + 1 := ⟨fuel - 1, by omega⟩
    have hround : decodeIter malloc d = _ := decodeIter_short h (by omega)
    exact ⟨d.clear, [], by rw [decodeLoop, hround]; rfl, Rbuffer.clear_wf h, rfl, rfl, rfl⟩
  | cons f fs ih =>
    have hs := h.length_unread
    rw [hun, framesBytes_cons, List.length_append, Frame.bytes_length] at hs
    obtain ⟨fuel, rfl⟩ : ∃ k, fuel = k + 1 := ⟨fuel - 1, by omega⟩
    rw [framesBytes_cons] at hun
    have hround := decodeIter_frame h hun (hm f List.mem_cons_self)
    have hsize := afterFrame_size d f.payload.length
    obtain ⟨d', events, hrun, hwf, hs', hc, hacc⟩ := ih (d := afterFrame d f.payload.length) fuel
      (afterFrame_wf h (by omega))
      (by rw [afterFrame_unread h (by omega), hun, List.drop_left' (by simp)])
      (fun g hg => hm g (List.mem_cons_of_mem f hg)) (by omega)
    refine ⟨d', frameEvents dsType f.host ++ events, ?_, hwf, hs', by rw [hc, afterFrame_capacity], ?_⟩
    · rw [decodeLoop, hround]
      simp only [hrun, bind, Except.bind]
      rfl
    · rw [acceptedFrames_append, acceptedFrames_frameEvents, hacc]
      rfl

/-- Whole frames read into a drained buffer are accepted in order, and drain it again. -/
theorem feed_frames (next : NextHandler) (frames : List Frame) (h : ds.readCache.Wf)
    (hs : ds.readCache.size = 0) (hfit : (framesBytes frames).length < ds.readCache.left)
    (hm : ∀ f ∈ frames, malloc (f.payload.length + 1) = true) :
    ∃ (code : Int) (rc : Rbuffer) (events : List DecodeEvent),
      feed malloc next ds (framesBytes frames) = .ok (code, { ds with readCache := rc }, events) ∧
      rc.Wf ∧ rc.size = 0 ∧ rc.pos = 0 ∧ rc.capacity = ds.readCache.capacity ∧
      acceptedFrames events = frames.map Frame.host := by
  obtain ⟨hwf, hun, hc, -⟩ := decodeOnBefore_receive h hfit
  rw [h.unread_eq_nil hs, List.nil_append] at hun
  obtain ⟨d', events, hrun, hwf', hs', hc', hacc⟩ := @decodeLoop_frames malloc _ ds.dsType
    frames _ hwf hun hm
    (by have := hwf.size_nonneg; exact Int.lt_add_one_of_le (Int.self_le_toNat _))
  obtain ⟨code, rc, hcall, hwfr, hunr, hcr, hsr, hpr⟩ := decodeProcess_of_loop next
    { ds with readCache := ds.readCache.receive (framesBytes frames) } _ hrun hwf'
  exact ⟨code, rc, events, hcall, hwfr, by rw [hsr, hs'], hpr rfl hs', by rw [hcr, hc', hc], hacc⟩

end Funra
