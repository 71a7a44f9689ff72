import Funra.Codec.Append
import Funra.Codec.Feed

/-!
# Chunking

A stream of frames reaches the decoder in chunks. Whole frames come out whatever else shares their
chunk (`feedAll_groups`). A frame cut in two does not: the read of an incomplete header or payload
drains the buffer, its cursors go back to the front, and there is nothing left for the un-read to take
back. So what the decoder accepts does not depend on the chunks exactly when each of them is made of
whole frames (`chunkingIndependent_iff`).

The converse is by accounting: the bytes accepted and the bytes kept never exceed the bytes read
(`feed_account`), so a lost byte is never made up for.
-/

namespace Funra

open CInt Mem System

/-- One read after the other, whatever codes `decode_process` returns: the messages accepted. -/
def feedAll (malloc : Nat → Bool) (next : NextHandler) :
    RipcDataSource → List Obj → Except Fault (RipcDataSource × List RipcDataDefault)
  | ds, [] => .ok (ds, [])
  | ds, chunk :: chunks => do
    let (_, ds, events) ← feed malloc next ds chunk
    let (ds, accepted) ← feedAll malloc next ds chunks
    return (ds, acceptedFrames events ++ accepted)

/-- No chunk is empty, and each is strictly shorter than `rbuffer_left` when it arrives. -/
def FitsAll (malloc : Nat → Bool) (next : NextHandler) : RipcDataSource → List Obj → Prop
  | _, [] => True
  | ds, chunk :: chunks => chunk ≠ [] ∧ chunk.length < ds.readCache.left ∧
      ∀ code ds' events, feed malloc next ds chunk = .ok (code, ds', events) →
        FitsAll malloc next ds' chunks

/-- The chunks yield the messages that the frames yield in chunks of their own. -/
def ChunkingIndependent (malloc : Nat → Bool) (next : NextHandler) (ds : RipcDataSource)
    (frames : List Frame) (chunks : List Obj) : Prop :=
  ∃ ds' ds'' accepted, feedAll malloc next ds chunks = .ok (ds', accepted) ∧
    feedAll malloc next ds (frames.map Frame.bytes) = .ok (ds'', accepted)

/-- The chunks are groups of whole frames. -/
def WholeFrames (frames : List Frame) (chunks : List Obj) : Prop :=
  ∃ groups : List (List Frame), groups.flatten = frames ∧ chunks = groups.map framesBytes

variable {malloc : Nat → Bool} {next : NextHandler} {ds ds' : RipcDataSource} {d : Rbuffer}

theorem feedAll_cons {chunk : Obj} {chunks : List Obj} {accepted : List RipcDataDefault}
    (h : feedAll malloc next ds (chunk :: chunks) = .ok (ds', accepted)) :
    ∃ code ds1 events rest, feed malloc next ds chunk = .ok (code, ds1, events) ∧
      feedAll malloc next ds1 chunks = .ok (ds', rest) ∧ accepted = acceptedFrames events ++ rest := by
  obtain ⟨⟨code, ds1, events⟩, hfeed, h⟩ := Except.of_bind_ok h
  obtain ⟨⟨ds2, rest⟩, hrest, h⟩ := Except.of_bind_ok h
  cases h
  exact ⟨code, ds1, events, rest, hfeed, hrest, rfl⟩

/-! ### Whole frames -/

theorem feedAll_groups (groups : List (List Frame)) (h : ds.readCache.Wf)
    (hs : ds.readCache.size = 0) (hfit : FitsAll malloc next ds (groups.map framesBytes))
    (hm : ∀ f ∈ groups.flatten, malloc (f.payload.length + 1) = true) :
    ∃ ds', feedAll malloc next ds (groups.map framesBytes) =
      .ok (ds', groups.flatten.map Frame.host) := by
  induction groups generalizing ds with
  | nil => exact ⟨ds, rfl⟩
  | cons g gs ih =>
    obtain ⟨-, hlt, hrest⟩ := hfit
    rw [List.flatten_cons] at hm ⊢
    obtain ⟨code, rc, events, hcall, hwf, hs', -, -, hacc⟩ := feed_frames next g h hs hlt
      (fun f hf => hm f (List.mem_append_left _ hf))
    obtain ⟨ds', hrun⟩ := @ih { ds with readCache := rc } hwf hs' (hrest _ _ _ hcall)
      (fun f hf => hm f (List.mem_append_right _ hf))
    refine ⟨ds', ?_⟩
    simp only [List.map_cons, feedAll, hcall, hrun, bind, Except.bind, hacc, List.map_append]
    rfl

/-- Every frame in a chunk of its own: they all arrive. -/
theorem feedAll_frames (frames : List Frame) (h : ds.readCache.Wf) (hp : ds.readCache.pos = 0)
    (hfit : ∀ f ∈ frames, (32 + f.payload.length : Int) < ds.readCache.capacity)
    (hm : ∀ f ∈ frames, malloc (f.payload.length + 1) = true) :
    ∃ ds', feedAll malloc next ds (frames.map Frame.bytes) = .ok (ds', frames.map Frame.host) := by
  induction frames generalizing ds with
  | nil => exact ⟨ds, rfl⟩
  | cons f fs ih =>
    have h1 := h.offset_nonneg
    have h2 := h.offset_le_pos
    have hf := hfit f List.mem_cons_self
    have hbytes : framesBytes [f] = f.bytes := by simp
    have hlt : (framesBytes [f]).length < ds.readCache.left := by
      rw [hbytes, Frame.bytes_length]
      unfold Rbuffer.left
      omega
    obtain ⟨code, rc, events, hcall, hwf, -, hp', hc, hacc⟩ := feed_frames next [f] h
      (by unfold Rbuffer.size; omega) hlt
      (fun g hg => by rw [List.mem_singleton.mp hg]; exact hm f List.mem_cons_self)
    obtain ⟨ds', hrun⟩ := @ih { ds with readCache := rc } hwf hp'
      (fun g hg => by dsimp only; rw [hc]; exact hfit g (List.mem_cons_of_mem f hg))
      (fun g hg => hm g (List.mem_cons_of_mem f hg))
    rw [hbytes] at hcall
    refine ⟨ds', ?_⟩
    simp only [List.map_cons, feedAll, hcall, hrun, bind, Except.bind, hacc]
    rfl

/-! ### Accounting -/

/-- The bytes of a message on the wire. -/
def wireSize (m : RipcDataDefault) : Nat := 32 + (m.data.getD []).length

def wireSizes (ms : List RipcDataDefault) : Nat := (ms.map wireSize).sum

@[simp] theorem wireSizes_append (a b : List RipcDataDefault) :
    wireSizes (a ++ b) = wireSizes a + wireSizes b := by
  simp [wireSizes]

theorem wireSizes_host (frames : List Frame) :
    wireSizes (frames.map Frame.host) = (framesBytes frames).length := by
  induction frames with
  | nil => rfl
  | cons f fs ih =>
    rw [framesBytes_cons, List.length_append, Frame.bytes_length, ← ih]
    rfl

theorem wireSize_frameMessage (h : d.Wf) {n : Nat} (hn : 32 + n ≤ d.size) :
    wireSize (frameMessage d.unread n) = 32 + n := by
  have hlen := h.length_unread
  simp only [wireSize, frameMessage, Option.getD_some, window_length]
  omega

/-- Below a capacity of 2^30, moving the read cursor to twice its place brings no byte back. -/
theorem readExt_zero_size (h : d.Wf) (hcap : d.capacity < 1073741824) : (d.readExt 0).size ≤ d.size := by
  have heq := Rbuffer.readExt_eq h (k := 0) (le_refl _) (by decide)
  rw [Int.neg_zero] at heq
  obtain ⟨h1, h2, h3, h4, h5⟩ := h
  rw [heq]
  unfold int32 Rbuffer.size
  dsimp only
  omega

/-- What is accepted and what is kept was there, and only a drained buffer accounts for all of it. -/
theorem decodeLoop_account {dsType : RipcDataSourceType} {fuel : Nat} {code : Option Int} {d' : Rbuffer}
    {events : List DecodeEvent} (h : d.Wf) (hcap : d.capacity < 1073741824)
    (hrun : decodeLoop malloc dsType fuel d = .ok (code, d', events)) :
    d'.Wf ∧ d'.capacity = d.capacity ∧ wireSizes (acceptedFrames events) + d'.size ≤ d.size ∧
      (d'.size = 0 ∨ wireSizes (acceptedFrames events) + d'.size < d.size) := by
  induction fuel generalizing d events with
  | zero => cases hrun
  | succ fuel ih =>
    have hs := h.size_nonneg
    obtain ⟨o, ho, hrun⟩ := Except.of_bind_ok hrun
    have hsound := decodeIter_sound h ho
    cases o with
    | halt e =>
      cases hrun
      obtain ⟨hwf, rfl | ⟨h32, rfl⟩⟩ := hsound
      · exact ⟨hwf, rfl, by simp [wireSizes]; omega, .inl rfl⟩
      · -- without memory for the payload, the header at least is gone
        have hadv := Rbuffer.advance_wf h (k := 32) (by decide) h32
        have hle := readExt_zero_size hadv (by rw [Rbuffer.advance_capacity]; exact hcap)
        have hsz := Rbuffer.advance_size d 32
        have hc : ((d.advance 32).readExt 0).capacity = d.capacity := by
          rw [← Rbuffer.advance_capacity d 32]
          rfl
        have hzero : wireSizes (acceptedFrames []) = 0 := rfl
        exact ⟨hwf, hc, by omega, .inr (by omega)⟩
    | badMagic e =>
      cases hrun
      obtain rfl : d' = d.clear := hsound
      exact ⟨Rbuffer.clear_wf h, rfl, by simp [wireSizes]; omega, .inl rfl⟩
    | accept e m =>
      obtain ⟨-, n, -, -, hn, rfl, rfl⟩ := hsound
      obtain ⟨⟨code', d'', events'⟩, hrest, hrun⟩ := Except.of_bind_ok hrun
      cases hrun
      obtain ⟨hwf, hc, hle, hdrained⟩ := ih (afterFrame_wf h hn)
        (by rw [afterFrame_capacity]; exact hcap) hrest
      have hsz := afterFrame_size d n
      have hsum : wireSizes (acceptedFrames (frameEvents dsType (frameMessage d.unread n) ++ events')) =
          32 + n + wireSizes (acceptedFrames events') := by
        rw [acceptedFrames_append, acceptedFrames_frameEvents, wireSizes_append,
          ← wireSize_frameMessage h hn]
        rfl
      rw [afterFrame_capacity] at hc
      refine ⟨hwf, hc, by omega, ?_⟩
      rcases hdrained with h0 | hlt
      · exact .inl h0
      · exact .inr (by omega)

theorem feed_account {chunk : Obj} {code : Int} {events : List DecodeEvent} (h : ds.readCache.Wf)
    (hcap : ds.readCache.capacity < 1073741824) (hfit : chunk.length < ds.readCache.left)
    (hrun : feed malloc next ds chunk = .ok (code, ds', events)) :
    ds'.readCache.Wf ∧ ds'.readCache.capacity = ds.readCache.capacity ∧
      wireSizes (acceptedFrames events) + ds'.readCache.size ≤ ds.readCache.size + chunk.length ∧
      (ds'.readCache.size = 0 ∨ wireSizes (acceptedFrames events) + ds'.readCache.size <
        ds.readCache.size + chunk.length) := by
  obtain ⟨hwf, -, hc, hsz⟩ := decodeOnBefore_receive h hfit
  have hty : ∀ ds : RipcDataSource, ∀ n, (decodeOnBefore ds n).dsType = ds.dsType := fun _ _ => rfl
  cases hloop : decodeLoop malloc ds.dsType ((decodeOnBefore
      { ds with readCache := ds.readCache.receive chunk } (UInt32.ofNat chunk.length)).readCache.size.toNat
        + 1) (decodeOnBefore { ds with readCache := ds.readCache.receive chunk }
          (UInt32.ofNat chunk.length)).readCache with
  | error f =>
    simp only [feed, decodeProcess, hty, hloop, bind, Except.bind] at hrun
    cases hrun
  | ok r =>
    obtain ⟨code', d', events'⟩ := r
    obtain ⟨hwf', hc', hle, hdrained⟩ := decodeLoop_account hwf (by rw [hc]; exact hcap) hloop
    obtain ⟨code'', rc, hcall, hwfr, -, hcr, hsr, -⟩ := decodeProcess_of_loop next
      { ds with readCache := ds.readCache.receive chunk } _ hloop hwf'
    rw [feed, hcall] at hrun
    cases hrun
    dsimp only at hsz ⊢
    rw [hsr, ← hsz]
    exact ⟨hwfr, by rw [hcr, hc', hc], hle, hdrained⟩

theorem feedAll_account {chunks : List Obj} {accepted : List RipcDataDefault} (h : ds.readCache.Wf)
    (hcap : ds.readCache.capacity < 1073741824) (hfit : FitsAll malloc next ds chunks)
    (hrun : feedAll malloc next ds chunks = .ok (ds', accepted)) :
    (wireSizes accepted : Int) ≤ ds.readCache.size + chunks.flatten.length := by
  induction chunks generalizing ds accepted with
  | nil =>
    cases hrun
    have hs := h.size_nonneg
    simp only [wireSizes, List.map_nil, List.sum_nil, List.flatten_nil, List.length_nil]
    omega
  | cons chunk chunks ih =>
    obtain ⟨code, ds1, events, rest, hfeed, hrest, rfl⟩ := feedAll_cons hrun
    obtain ⟨-, hlt, hfits⟩ := hfit
    obtain ⟨hwf, hc, hle, -⟩ := feed_account h hcap hlt hfeed
    have htail := ih hwf (by rw [hc]; exact hcap) (hfits _ _ _ hfeed) hrest
    rw [wireSizes_append, List.flatten_cons, List.length_append]
    omega

/-- If all frames arrive, no chunk has cut one: each accounts for all its bytes. -/
theorem wholeFrames_of_accepted {chunks : List Obj} {frames : List Frame} (h : ds.readCache.Wf)
    (hcap : ds.readCache.capacity < 1073741824) (hs : ds.readCache.size = 0)
    (hfit : FitsAll malloc next ds chunks) (hcut : chunks.flatten = framesBytes frames)
    (hrun : feedAll malloc next ds chunks = .ok (ds', frames.map Frame.host)) :
    WholeFrames frames chunks := by
  induction chunks generalizing ds frames with
  | nil =>
    rw [feedAll, Except.ok.injEq, Prod.mk.injEq] at hrun
    obtain rfl : frames = [] := List.map_eq_nil_iff.mp hrun.2.symm
    exact ⟨[], rfl, rfl⟩
  | cons chunk chunks ih =>
    obtain ⟨code, ds1, events, rest, hfeed, hrest, hacc⟩ := feedAll_cons hrun
    obtain ⟨group, tail, rfl, hgroup, rfl⟩ := List.map_eq_append_iff.mp hacc
    obtain ⟨-, hlt, hfits⟩ := hfit
    obtain ⟨hwf, hc, hle, hdrained⟩ := feed_account h hcap hlt hfeed
    have htail := feedAll_account hwf (by rw [hc]; exact hcap) (hfits _ _ _ hfeed) hrest
    have hlen := congrArg List.length hcut
    rw [List.flatten_cons, framesBytes_append, List.length_append, List.length_append] at hlen
    rw [← hgroup, wireSizes_host, hs] at hle hdrained
    rw [wireSizes_host] at htail
    have hs1 : ds1.readCache.size = 0 := by
      rcases hdrained with h0 | hlost
      · exact h0
      · omega
    have hsplit : chunk = framesBytes group ∧ chunks.flatten = framesBytes tail := by
      refine List.append_inj ?_ (by omega)
      rw [← framesBytes_append, ← hcut, List.flatten_cons]
    obtain ⟨groups, rfl, hmap⟩ := ih hwf (by rw [hc]; exact hcap) hs1 (hfits _ _ _ hfeed)
      hsplit.2 hrest
    exact ⟨group :: groups, rfl, by rw [List.map_cons, ← hmap, ← hsplit.1]⟩

/-- Chunks of whole frames make no difference; below a capacity of 2^30, others always do. -/
theorem chunkingIndependent_iff (malloc : Nat → Bool) (next : NextHandler) (ds : RipcDataSource)
    (frames : List Frame) (chunks : List Obj) (h : ds.readCache.Wf) (hp : ds.readCache.pos = 0)
    (hframes : ∀ f ∈ frames, (32 + f.payload.length : Int) < ds.readCache.capacity)
    (hm : ∀ n : Nat, n ≤ ds.readCache.capacity → malloc n = true)
    (hcut : chunks.flatten = framesBytes frames) (hfit : FitsAll malloc next ds chunks) :
    (WholeFrames frames chunks → ChunkingIndependent malloc next ds frames chunks) ∧
      (ds.readCache.capacity < 1073741824 → ChunkingIndependent malloc next ds frames chunks →
        WholeFrames frames chunks) := by
  have hs : ds.readCache.size = 0 := by
    have h1 := h.offset_nonneg
    have h2 := h.offset_le_pos
    unfold Rbuffer.size
    omega
  have hmf : ∀ f ∈ frames, malloc (f.payload.length + 1) = true := by
    intro f hf
    have := hframes f hf
    exact hm _ (by omega)
  obtain ⟨dsr, hreference⟩ := @feedAll_frames malloc next ds frames h hp hframes hmf
  constructor
  · rintro ⟨groups, rfl, rfl⟩
    obtain ⟨ds', hrun⟩ := feedAll_groups groups h hs hfit hmf
    exact ⟨ds', dsr, _, hrun, hreference⟩
  · rintro hcap ⟨ds', ds'', accepted, hrun, hrun'⟩
    rw [hreference] at hrun'
    cases hrun'
    exact wholeFrames_of_accepted h hcap hs hfit hcut hrun

/-- Three frames in two chunks arrive; two frames that are cut within the second do not. -/
theorem chunkingIndependent_iff_groups :
    ChunkingIndependent (fun n => n ≤ 128) none (freshSource 1 128) [byteFrame, textFrame, byteFrame]
        [framesBytes [byteFrame, textFrame], byteFrame.bytes] ∧
      ¬ ChunkingIndependent (fun n => n ≤ 128) none (freshSource 1 128) [byteFrame, textFrame]
        [(framesBytes [byteFrame, textFrame]).take 40, (framesBytes [byteFrame, textFrame]).drop 40] := by
  have hmalloc : ∀ n : Nat, (n : Int) ≤ 128 → decide (n ≤ 128) = true := fun n hn => decide_eq_true (by omega)
  have hframes : ∀ f ∈ [byteFrame, textFrame, byteFrame], (32 + f.payload.length : Int) < 128 := by decide
  have hleft (chunk : Obj) (hread : (feed (fun n => n ≤ 128) none (freshSource 1 128) chunk).map
      (fun r => r.2.1.readCache.left) = .ok 128) : ∀ code ds' events,
      feed (fun n => n ≤ 128) none (freshSource 1 128) chunk = .ok (code, ds', events) → ds'.readCache.left = 128 := by
    intro code ds' events hrun
    rw [hrun] at hread
    exact Except.ok.inj hread
  constructor
  · refine (chunkingIndependent_iff _ none (freshSource 1 128) [byteFrame, textFrame, byteFrame]
      [framesBytes [byteFrame, textFrame], byteFrame.bytes] (freshSource_wf 1 (by decide)) rfl hframes hmalloc (by simp)
      ⟨by decide +kernel, by decide +kernel, fun code ds' events hrun => ⟨by decide +kernel, ?_, ?_⟩⟩).1 ?_
    · rw [hleft _ (by decide +kernel) code ds' events hrun]
      decide +kernel
    · exact fun _ _ _ _ => trivial
    · exact ⟨[[byteFrame, textFrame], [byteFrame]], rfl, by simp⟩
  · intro hindependent
    have hwhole := (chunkingIndependent_iff _ none (freshSource 1 128) [byteFrame, textFrame]
      [(framesBytes [byteFrame, textFrame]).take 40, (framesBytes [byteFrame, textFrame]).drop 40]
      (freshSource_wf 1 (by decide)) rfl (by decide) hmalloc (by simp)
      ⟨by decide +kernel, by decide +kernel, fun code ds' events hrun => ⟨by decide +kernel, by
        rw [hleft _ (by decide +kernel) code ds' events hrun]
        decide +kernel, fun _ _ _ _ => trivial⟩⟩).2 (by decide) hindependent
    obtain ⟨groups, hflat, hchunks⟩ := hwhole
    obtain ⟨g, g', rfl⟩ : ∃ g g', groups = [g, g'] :=
      List.length_eq_two.mp (by simpa using (congrArg List.length hchunks).symm)
    have hlen := congrArg List.length (List.cons.inj hchunks).1
    -- the first chunk has 40 bytes, the first frame 33 and both 68
    rw [List.length_take, show (framesBytes [byteFrame, textFrame]).length = 68 by decide +kernel] at hlen
    rcases g with _ | ⟨f, _ | ⟨f', g⟩⟩
    · cases hlen
    · obtain rfl : f = byteFrame := (List.cons.inj hflat).1
      rw [framesBytes_cons, List.length_append, Frame.bytes_length] at hlen
      cases hlen
    · obtain ⟨rfl, hrest⟩ := List.cons.inj hflat
      obtain ⟨rfl, -⟩ := List.cons.inj hrest
      rw [framesBytes_cons, framesBytes_cons, List.length_append, List.length_append, Frame.bytes_length,
        Frame.bytes_length] at hlen
      have hmore : (byteFrame.payload.length, textFrame.payload.length) = (1, 3) := rfl
      obtain ⟨hone, hthree⟩ := Prod.mk.inj hmore
      omega

/-- Cut in its header, the frame is lost. -/
theorem chunkingIndependent_cut :
    ∃ chunks : List Obj, chunks.flatten = framesBytes [byteFrame] ∧
      FitsAll (fun n => n ≤ 64) none (freshSource 1 64) chunks ∧
      ¬ ChunkingIndependent (fun n => n ≤ 64) none (freshSource 1 64) [byteFrame] chunks := by
  have hleft : (feed (fun n => n ≤ 64) none (freshSource 1 64) (byteFrame.bytes.take 10)).map
      (fun r => r.2.1.readCache.left) = .ok 64 := by decide +kernel
  have hlost : (feedAll (fun n => n ≤ 64) none (freshSource 1 64)
      [byteFrame.bytes.take 10, byteFrame.bytes.drop 10]).map (fun r => r.2.length) = .ok 0 := by
    decide +kernel
  have hwhole : (feedAll (fun n => n ≤ 64) none (freshSource 1 64) [byteFrame.bytes]).map
      (fun r => r.2.length) = .ok 1 := by decide +kernel
  refine ⟨[byteFrame.bytes.take 10, byteFrame.bytes.drop 10], by simp,
    ⟨by decide +kernel, by decide +kernel, fun code ds' events hrun => ⟨by decide +kernel, ?_, ?_⟩⟩, ?_⟩
  · rw [hrun] at hleft
    have h64 : ds'.readCache.left = 64 := Except.ok.inj hleft
    rw [h64]
    decide +kernel
  · intro _ _ _ _
    trivial
  · rintro ⟨ds', ds'', accepted, hrun, hrun'⟩
    rw [List.map_singleton] at hrun'
    rw [hrun] at hlost
    rw [hrun'] at hwhole
    have h0 : accepted.length = 0 := Except.ok.inj hlost
    have h1 : accepted.length = 1 := Except.ok.inj hwhole
    omega

end Funra
