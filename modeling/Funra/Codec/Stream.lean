import Funra.Codec.Chunks
import Funra.Codec.Hostile
import Funra.Lib.PrefixCode

/-!
# What the decoder makes of a read

The frames are a prefix code (`frame_prefixCode`), so bytes have one longest front made of whole frames. That
front is what the decoder accepts of a read, whatever follows it: an incomplete frame, a wrong magic or nothing
(`feed_split`). The rest is forgotten, so the reads of a connection do not depend on each other
(`feedAll_split`).
-/

namespace Funra

open CInt Mem Endian System PrefixCode

variable {malloc : Nat → Bool} {d : Rbuffer} {ds : RipcDataSource} {bytes chunk : Obj}

/-! ### Headers are frames -/

/-- The structure is all of its 32 bytes. -/
theorem headerBytes_ofHeaderBytes (h : bytes.length = 32) : headerBytes (ofHeaderBytes bytes) = bytes := by
  have hlen : ∀ i n, i + n ≤ 32 → (window bytes i n).length = n := by
    intro i n hi
    rw [window_length]
    omega
  have hfront : [(bytes.headD 0).toInt8.toUInt8] = window bytes 0 1 := by
    rcases bytes with _ | ⟨b, bytes⟩
    · cases h
    · simp [window]
  simp only [headerBytes, ofHeaderBytes, UInt32.toUInt32_toInt32]
  rw [leBytes_ofNat32 (hlen 4 4 (by decide)), leBytes_ofNat32 (hlen 8 4 (by decide)),
    leBytes_ofNat64 (hlen 12 8 (by decide)), leBytes_ofNat32 (hlen 20 4 (by decide)),
    leBytes_ofNat64 (hlen 24 8 (by decide)), ← List.singleton_append, hfront]
  rw [window_append_window bytes 0 1 3, window_append_window bytes 0 4 4, window_append_window bytes 0 8 4,
    window_append_window bytes 0 12 8, window_append_window bytes 0 20 4, window_append_window bytes 0 24 8]
  rw [window, List.drop_zero, List.take_of_length_le (by omega)]

/-- The frame whose header and payload are at the front of `bytes`. -/
theorem exists_frame {n : Nat} (hh : HasHeader bytes) (hlen : (headerOf bytes).len.toNat = 24 + n)
    (hfit : 32 + n ≤ bytes.length) (hlt : 32 + n < 2147483648) : ∃ f : Frame, f.payload.length = n ∧
      bytes = f.bytes ++ bytes.drop (32 + n) ∧ f.host = frameMessage bytes n := by
  have hpay : (window bytes 32 n).length = n := by
    rw [window_length]
    omega
  have hmagic : (headerOf bytes).magic = ripcHeadDefaultMagic := hh.2
  have h32 : (bytes.take 32).length = 32 := by
    rw [List.length_take]
    omega
  let m := headerOf bytes
  refine ⟨⟨m.version, m.cmd, m.sid, m.crc, m.reserve0, window bytes 32 n, by rw [hpay]; exact hlt⟩, hpay, ?_, ?_⟩
  · have hl : UInt32.ofNat (24 + (window bytes 32 n).length) = (headerOf bytes).len := by
      rw [hpay, ← hlen, UInt32.ofNat_toNat]
    have hwire : Frame.wire ⟨m.version, m.cmd, m.sid, m.crc, m.reserve0, window bytes 32 n,
        by rw [hpay]; exact hlt⟩ = ofHeaderBytes (bytes.take 32) := by
      simp only [Frame.wire, hl, ← hmagic, m]
      simp [headerOf, ntohHeader, htonl, ntohl, htonll, ntohll, ofHeaderBytes]
    rw [Frame.bytes, hwire, headerBytes_ofHeaderBytes h32, ← List.drop_drop, List.append_assoc]
    show bytes = bytes.take 32 ++ ((bytes.drop 32).take n ++ (bytes.drop 32).drop n)
    rw [List.take_append_drop, List.take_append_drop]
  · have hl : UInt32.ofNat (24 + (window bytes 32 n).length) = m.len := by
      rw [hpay, ← hlen, UInt32.ofNat_toNat]
    simp only [Frame.host, frameMessage, hl, ← hmagic, m]

/-- Whatever follows a frame, its header says how long it is. -/
theorem frame_prefixCode : IsPrefixCode Frame.bytes where
  inj := by
    intro f g r s heq
    have hhead := congrArg headerOf heq
    rw [headerOf_bytes, headerOf_bytes] at hhead
    simp only [Frame.host, RipcDataDefault.mk.injEq, true_and] at hhead
    obtain ⟨hversion, hlen, hcmd, hsid, hcrc, hreserve, -⟩ := hhead
    have hpay : f.payload = g.payload := by
      have hf := f.length_lt
      have hg := g.length_lt
      have hl : f.payload.length = g.payload.length := by
        have hval := congrArg UInt32.toNat hlen
        rw [UInt32.toNat_ofNat_of_lt' (by simp only [UInt32.size]; omega),
          UInt32.toNat_ofNat_of_lt' (by simp only [UInt32.size]; omega)] at hval
        omega
      have hwire := congrArg (window · 32 f.payload.length) heq
      have hf := congrArg RipcDataDefault.data (frameMessage_bytes f r)
      have hg := congrArg RipcDataDefault.data (frameMessage_bytes g s)
      simp only [frameMessage, Frame.host, Option.some.injEq] at hf hg
      rw [← hf, ← hg, ← hl]
      exact hwire
    obtain ⟨v, c, i, k, z, p, hp⟩ := f
    obtain ⟨v', c', i', k', z', p', hp'⟩ := g
    simp only at hversion hcmd hsid hcrc hreserve hpay
    subst hversion hcmd hsid hcrc hreserve hpay
    rfl

/-! ### One read -/

theorem hasHeader_of_begins (h : Begins Frame.bytes bytes) : HasHeader bytes := by
  obtain ⟨f, rest, rfl⟩ := h
  exact hasHeader_bytes f rest

/-- Behind the header of an incomplete payload there is no frame. -/
theorem not_begins_incomplete {n : Nat} (hlen : (headerOf bytes).len.toNat = 24 + n) (hcut : bytes.length < 32 + n) :
    ¬ Begins Frame.bytes bytes := by
  rintro ⟨f, rest, rfl⟩
  have hlt := f.length_lt
  rw [headerOf_bytes, Frame.host] at hlen
  dsimp only at hlen
  rw [UInt32.toNat_ofNat_of_lt' (by simp only [UInt32.size]; omega)] at hlen
  rw [List.length_append, Frame.bytes_length] at hcut
  omega

/-- A round on usable headers accepts the frame at the front; where there is none, it drains the buffer. -/
theorem decodeIter_begins (h : d.Wf) (hm : ∀ n ≤ 2048001, malloc n = true)
    (hu : HasHeader d.unread → HeaderUsable malloc (headerOf d.unread)) :
    (∃ (f : Frame) (rest : Obj), d.unread = f.bytes ++ rest ∧ f.payload.length ≤ 2048000 ∧
      (decodeIter malloc d).outcome = .ok (.accept (afterFrame d f.payload.length) f.host)) ∨
    (¬ Begins Frame.bytes d.unread ∧ ((decodeIter malloc d).outcome = .ok (.halt d.clear) ∨
      (decodeIter malloc d).outcome = .ok (.badMagic d.clear))) := by
  have hsize := h.length_unread
  have hl := h.left_nonneg
  have hcap := h.size_add_left
  have hlt := h.capacity_lt
  by_cases hshort : d.size < 32
  · refine .inr ⟨fun hb => ?_, .inl (by rw [decodeIter_short h hshort])⟩
    have hh := (hasHeader_of_begins hb).1
    omega
  by_cases hh : HasHeader d.unread
  swap
  · exact .inr ⟨fun hb => hh (hasHeader_of_begins hb), .inr (by rw [decodeIter_badMagic h (by omega) hh])⟩
  obtain ⟨hlo, hhi, -⟩ := hu hh
  obtain ⟨n, hlen⟩ : ∃ n, (headerOf d.unread).len.toNat = 24 + n := ⟨_, (Nat.add_sub_of_le hlo).symm⟩
  have hreq := (requireLenOf_eq_iff (by omega)).mpr hlen
  have hmn := hm (n + 1) (by omega)
  by_cases hfit : 32 + n ≤ d.size
  · obtain ⟨f, hn, hun, hhost⟩ := exists_frame hh hlen (by omega) (by omega)
    refine .inl ⟨f, _, hun, by omega, ?_⟩
    rw [decodeIter_accept h hh hreq hfit hmn, hhost, hn]
  · have hwf := Rbuffer.advance_wf h (k := 32) (by decide) (by omega)
    have hroom : sizeT (int32 ((n : Int) + 1)) = n + 1 := by
      rw [sizeT_room (by omega) (by omega)]
      omega
    have hrest := Rbuffer.advance_size d 32
    refine .inr ⟨not_begins_incomplete hlen (by omega), .inl ?_⟩
    rw [decodeIter_header h hh, hreq]
    dsimp only
    rw [decodePayload_short hwf (by omega) (by omega) (by rw [hroom, hmn]), advance_header_clear]

theorem decodeLoop_split {dsType : RipcDataSourceType} (fuel : Nat) (h : d.Wf) (hfuel : d.size < fuel)
    (hm : ∀ n ≤ 2048001, malloc n = true) (hu : ∀ m, ReachedHeader malloc d.unread m → HeaderUsable malloc m) :
    ∃ code d' events frames tail, decodeLoop malloc dsType fuel d = .ok (code, d', events) ∧ d'.Wf ∧
      d'.size = 0 ∧ d'.pos = 0 ∧ d'.capacity = d.capacity ∧ Split Frame.bytes d.unread frames tail ∧
      acceptedFrames events = frames.map Frame.host := by
  induction fuel generalizing d with
  | zero =>
    have := h.size_nonneg
    omega
  | succ fuel ih =>
    rcases decodeIter_begins h hm fun hh => hu _ (.front hh) with ⟨f, rest, hun, hlen, ho⟩ | ⟨hno, ho | ho⟩
    · have hs := h.length_unread
      rw [hun, List.length_append, Frame.bytes_length] at hs
      have hsize := afterFrame_size d f.payload.length
      have hrest : (afterFrame d f.payload.length).unread = rest := by
        rw [afterFrame_unread h (by omega), hun, List.drop_left' (by simp)]
      obtain ⟨code, d', events, frames, tail, hrun, hwf, hs', hp, hc, hsplit, hacc⟩ :=
        ih (d := afterFrame d f.payload.length) (afterFrame_wf h (by omega)) (by omega)
          (fun m hr => hu m (reachedHeader_behind h ho hr))
      rw [hrest] at hsplit
      refine ⟨code, d', frameEvents dsType f.host ++ events, f :: frames, tail, ?_, hwf, hs', hp,
        by rw [hc, afterFrame_capacity], ?_, ?_⟩
      · rw [decodeLoop, ho]
        simp only [hrun, bind, Except.bind]
        rfl
      · rw [hun]
        exact hsplit.cons f
      · rw [acceptedFrames_append, acceptedFrames_frameEvents, hacc]
        rfl
    · exact ⟨none, d.clear, [], [], d.unread, by rw [decodeLoop, ho]; rfl, Rbuffer.clear_wf h, rfl, rfl, rfl,
        .nil hno, rfl⟩
    · exact ⟨_, d.clear, [], [], d.unread, by rw [decodeLoop, ho]; rfl, Rbuffer.clear_wf h, rfl, rfl, rfl,
        .nil hno, rfl⟩

/-- Of a read into a drained buffer, the whole frames at the front are accepted, and nothing is kept. -/
theorem feed_split (next : NextHandler) (h : ds.readCache.Wf) (hs : ds.readCache.size = 0)
    (hfit : chunk.length < ds.readCache.left) (hm : ∀ n ≤ 2048001, malloc n = true)
    (hu : ∀ m, ReachedHeader malloc chunk m → HeaderUsable malloc m) :
    ∃ code rc events frames tail, feed malloc next ds chunk = .ok (code, { ds with readCache := rc }, events) ∧
      rc.Wf ∧ rc.size = 0 ∧ rc.pos = 0 ∧ rc.capacity = ds.readCache.capacity ∧
      Split Frame.bytes chunk frames tail ∧ acceptedFrames events = frames.map Frame.host := by
  obtain ⟨hwf, hun, hc, -⟩ := decodeOnBefore_receive h hfit
  rw [h.unread_eq_nil hs, List.nil_append] at hun
  obtain ⟨code, d', events, frames, tail, hrun, hwf', hs', hp, hc', hsplit, hacc⟩ :=
    @decodeLoop_split malloc _ ds.dsType _ hwf (Int.lt_add_one_of_le (Int.self_le_toNat _)) hm (by rwa [hun])
  rw [hun] at hsplit
  cases code with
  | some code =>
    refine ⟨code, d', events, frames, tail, ?_, hwf', hs', hp, by rw [hc', hc], hsplit, hacc⟩
    have hty : ∀ ds : RipcDataSource, ∀ n, (decodeOnBefore ds n).dsType = ds.dsType := fun _ _ => rfl
    simp only [feed, decodeProcess, hty]
    simp only [hrun, bind, Except.bind]
    rfl
  | none =>
    obtain ⟨code, rc, hcall, hwfr, -, hcr, hsr, hpr⟩ := decodeProcess_of_loop next
      { ds with readCache := ds.readCache.receive chunk } _ hrun hwf'
    exact ⟨code, rc, events, frames, tail, hcall, hwfr, by rw [hsr, hs'], hpr rfl hs', by rw [hcr, hc', hc], hsplit,
      hacc⟩

/-! ### All reads of a connection -/

/-- The decoder accepts the whole frames at the front of each read, and what is behind them is lost. -/
theorem feedAll_split (malloc : Nat → Bool) (next : NextHandler) (ds : RipcDataSource) (chunks : List Obj)
    (h : ds.readCache.Wf) (hp : ds.readCache.pos = 0)
    (hfit : ∀ chunk ∈ chunks, chunk.length < ds.readCache.capacity) (hm : ∀ n ≤ 2048001, malloc n = true)
    (hu : ∀ chunk ∈ chunks, ∀ m, ReachedHeader malloc chunk m → HeaderUsable malloc m) :
    ∃ ds' groups, feedAll malloc next ds chunks = .ok (ds', groups.flatten.map Frame.host) ∧
      ds'.readCache.Wf ∧ ds'.readCache.size = 0 ∧ ds'.readCache.pos = 0 ∧
      List.Forall₂ (fun chunk group => ∃ tail, Split Frame.bytes chunk group tail ∧
        ∀ frames tail', Split Frame.bytes chunk frames tail' → frames = group) chunks groups := by
  have hs : ∀ d : Rbuffer, d.Wf → d.pos = 0 → d.size = 0 ∧ d.left = d.capacity := by
    intro d hd hpos
    have h1 := hd.offset_nonneg
    have h2 := hd.offset_le_pos
    unfold Rbuffer.size Rbuffer.left
    omega
  induction chunks generalizing ds with
  | nil => exact ⟨ds, [], rfl, h, (hs _ h hp).1, hp, .nil⟩
  | cons chunk chunks ih =>
    obtain ⟨code, rc, events, frames, tail, hcall, hwf, -, hp', hc, hsplit, hacc⟩ := feed_split next h (hs _ h hp).1
      (by rw [(hs _ h hp).2]; exact hfit chunk List.mem_cons_self) hm (hu chunk List.mem_cons_self)
    obtain ⟨ds', groups, hrun, hwf', hs', hp'', hgroups⟩ := ih { ds with readCache := rc } hwf hp'
      (fun c hc' => by dsimp only; rw [hc]; exact hfit c (List.mem_cons_of_mem _ hc'))
      (fun c hc' => hu c (List.mem_cons_of_mem _ hc'))
    refine ⟨ds', frames :: groups, ?_, hwf', hs', hp'', .cons ⟨tail, hsplit, fun _ _ hsplit' =>
      (Split.unique frame_prefixCode hsplit' hsplit).1⟩ hgroups⟩
    simp only [feedAll, hcall, hrun, bind, Except.bind, hacc, List.flatten_cons, List.map_append]
    rfl

/-- Headers reached in one frame and something that is no header. -/
theorem usable_of_frame {f : Frame} {rest : Obj} (hlen : f.payload.length ≤ 2048000) (hm : malloc 1 = true)
    (hrest : ¬ HasHeader rest) (m : RipcDataDefault) (hr : ReachedHeader malloc (f.bytes ++ rest) m) :
    HeaderUsable malloc m := by
  have hval : (UInt32.ofNat (24 + f.payload.length)).toNat = 24 + f.payload.length :=
    UInt32.toNat_ofNat_of_lt' (by simp only [UInt32.size]; omega)
  cases hr with
  | front _ =>
    rw [headerOf_bytes]
    exact ⟨by simp only [Frame.host, hval]; omega, by simp only [Frame.host, hval]; omega, fun _ => hm⟩
  | @behind _ _ n _ hn _ _ hbehind =>
    rw [headerOf_bytes, Frame.host] at hn
    dsimp only at hn
    rw [hval] at hn
    rw [List.drop_left' (by rw [Frame.bytes_length]; omega)] at hbehind
    cases hbehind with
    | front hh => exact absurd hh hrest
    | behind hh => exact absurd hh hrest

/-- A frame with the first byte of another one, and then a frame: both whole frames are accepted. -/
theorem feedAll_split_cut :
    ∃ ds' groups, feedAll (fun n => n ≤ 2048001) none (freshSource 1 64)
        [byteFrame.bytes ++ [0], byteFrame.bytes ++ []] = .ok (ds', groups.flatten.map Frame.host) ∧
      ds'.readCache.Wf ∧ ds'.readCache.size = 0 ∧ ds'.readCache.pos = 0 ∧
      List.Forall₂ (fun chunk group => ∃ tail, Split Frame.bytes chunk group tail ∧
        ∀ frames tail', Split Frame.bytes chunk frames tail' → frames = group)
        [byteFrame.bytes ++ [0], byteFrame.bytes ++ []] groups := by
  refine feedAll_split _ none (freshSource 1 64) _ (freshSource_wf 1 (by decide)) rfl ?_ (by simp) ?_
  · intro chunk hc
    simp only [List.mem_cons, List.not_mem_nil, or_false] at hc
    rcases hc with rfl | rfl <;> simp [byteFrame, freshSource, Rbuffer.create]
  · intro chunk hc
    simp only [List.mem_cons, List.not_mem_nil, or_false] at hc
    rcases hc with rfl | rfl
    · exact usable_of_frame (by decide) (by simp) (fun hh => absurd hh.1 (by decide))
    · exact usable_of_frame (by decide) (by simp) (fun hh => absurd hh.1 (by decide))

end Funra
