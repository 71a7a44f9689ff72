import Funra.Codec.Encode

/-!
# One frame or nothing

Two contracts of the encoder on the unread bytes of `write_buff`, each with the exact condition under
which the code meets it.

* `AppendsOrRefuses`: it succeeds just when header and payload fit, and then appends them. What stands
  in the way is `rbuffer_write`'s reading of a size of 0 or less as the length of a string
  (`appendsOrRefuses_iff`).
* `FailureKeepsStream`: a failed call leaves the unread bytes alone. The failing exits move the read
  cursor where the write cursor is meant, by `offset` too much, so behind the space check this holds
  by coincidence only (`failureKeepsStream_iff`).
-/

namespace Funra

open CInt Mem

/-- `data` points to at least `len` bytes. -/
def ValidPointer (m : RipcDataDefault) : Prop :=
  match m.data with
  | none => m.len = 0
  | some bs => m.len.toNat ≤ bs.length

variable {ds : RipcDataSource} {m : RipcDataDefault}

/-! ### Success -/

/-- The encoder succeeds just when 32 + `len` bytes fit, and then appends the header and the payload
to the unread bytes. -/
def AppendsOrRefuses (ds : RipcDataSource) (m : RipcDataDefault) : Prop :=
  ∃ code ds' m', encodeProcess none ds m = .ok (code, ds', m') ∧
    (code = rcodeErrOk ↔ 32 + (m.len.toNat : Int) ≤ ds.writeBuff.freeAfterRewind) ∧
    (code = rcodeErrOk → ds'.writeBuff.unread =
      ds.writeBuff.unread ++ sentHeader ds m ++ (payloadBytes m).take m.len.toNat)

/-- Where the encoder gets to write the payload, `rbuffer_write` has a size to work with; for an empty
payload that size is 0, or nothing is left behind the header anyway. -/
def PayloadSizeUsable (ds : RipcDataSource) (m : RipcDataDefault) : Prop :=
  ¬ RefusedBySpace ds.writeBuff m → 32 ≤ ds.writeBuff.room →
    ∃ n, payloadRequest m = some n ∧ (m.len = 0 → n = 0 ∨ ds.writeBuff.room = 32)

/-- A session with two fresh buffers of `n` bytes. -/
def freshSource (dsId : UInt64) (n : Nat) : RipcDataSource where
  dsId := dsId
  dsType := .session
  state := .start
  readCache := Rbuffer.create n (List.replicate n 0)
  writeBuff := Rbuffer.create n (List.replicate n 0)

theorem freshSource_wf (dsId : UInt64) {n : Nat} (hn : n < 2147483648) :
    (freshSource dsId n).writeBuff.Wf :=
  Rbuffer.create_wf (by omega) (by omega) (by simp)

/-- A call known by its code. -/
theorem exists_of_code {α β : Type} {r : Except Fault (Int × α × β)} {code : Int}
    (h : r.map (fun r => r.1) = .ok code) : ∃ a b, r = .ok (code, a, b) := by
  obtain ⟨⟨c, a, b⟩, rfl, rfl⟩ := Except.of_map_ok h
  exact ⟨a, b, rfl⟩

theorem len_eq_zero : m.len = 0 ↔ m.len.toNat = 0 := by
  rw [← UInt32.toNat_inj]
  rfl

/-- The unsigned comparison refuses only what does not fit. -/
theorem refused_not_fits (h : ds.writeBuff.Wf) (hfull : RefusedBySpace ds.writeBuff m) :
    ¬ 32 + (m.len.toNat : Int) ≤ ds.writeBuff.freeAfterRewind := by
  have hfree := h.free_nonneg
  have hlt := h.free_lt
  unfold RefusedBySpace headerLen at hfull
  rw [uint32_of_range hfree (by omega)] at hfull
  unfold uint32 at hfull
  omega

theorem fits_of_not_refused (h : ds.writeBuff.Wf) (hpass : ¬ RefusedBySpace ds.writeBuff m)
    (hlen : m.len = 0) : 32 + (m.len.toNat : Int) ≤ ds.writeBuff.freeAfterRewind := by
  have hfree := h.free_nonneg
  have hlt := h.free_lt
  unfold RefusedBySpace headerLen at hpass
  rw [len_eq_zero.mp hlen, uint32_of_range hfree (by omega)] at hpass
  rw [len_eq_zero.mp hlen]
  unfold uint32 at hpass
  omega

theorem appendsOrRefuses_of_refusal {ds' : RipcDataSource} {m' : RipcDataDefault}
    (hrun : encodeProcess none ds m = .ok (rcodeErrIpcCacheFull, ds', m')) :
    AppendsOrRefuses ds m ↔ ¬ 32 + (m.len.toNat : Int) ≤ ds.writeBuff.freeAfterRewind := by
  constructor
  · rintro ⟨code, ds'', m'', heq, hiff, -⟩ hfit
    rw [hrun] at heq
    cases heq
    exact absurd (hiff.mpr hfit) (by decide)
  · intro hno
    refine ⟨_, _, _, hrun, ⟨fun hc => ?_, fun hfit => absurd hfit hno⟩, fun hc => ?_⟩
    · exact absurd hc (by decide)
    · exact absurd hc (by decide)

/-- What the encoder asks `rbuffer_write` for when the length is a positive `int`. -/
theorem payloadRequest_of_pos (hvalid : ValidPointer m) (hpos : 0 < payloadLenOf m)
    (hlen : payloadLenOf m = m.len.toNat) : payloadRequest m = some (payloadLenOf m) := by
  unfold ValidPointer at hvalid
  cases hdata : m.data with
  | none =>
    rw [hdata] at hvalid
    have h0 := len_eq_zero.mp hvalid
    omega
  | some bs =>
    rw [hdata] at hvalid
    exact payloadRequest_pos hdata hpos (by dsimp only at hvalid; omega)

/-- Behind a written header, the encoder keeps the contract unless the string rule makes an empty
payload a non-empty one. -/
theorem appendsOrRefuses_of_request (h : ds.writeBuff.Wf) (hvalid : ValidPointer m)
    (hpass : ¬ RefusedBySpace ds.writeBuff m) (hroom : 32 ≤ ds.writeBuff.room) {n : Int}
    (hreq : payloadRequest m = some n) :
    AppendsOrRefuses ds m ↔ (m.len = 0 → n = 0 ∨ ds.writeBuff.room = 32) := by
  obtain ⟨wb, -, -, hun, hrun⟩ := encodeProcess_written none h hpass hroom hreq
  obtain ⟨hn0, -⟩ := payloadRequest_range hreq
  simp only [encodeOnAfter, ne_eq, not_true_eq_false, if_false, ite_not] at hrun
  have hle := h.free_le_room
  have hlt := h.free_lt
  by_cases hw : min n (ds.writeBuff.room - 32) = payloadLenOf m
  · -- the payload is written: its length is no negative `int`, hence the one the caller gave
    rw [if_pos hw] at hrun
    have hlen : payloadLenOf m = m.len.toNat := by
      have := m.len.toNat_lt
      unfold payloadLenOf int32 at *
      omega
    have hfit : 32 + (m.len.toNat : Int) ≤ ds.writeBuff.freeAfterRewind := by
      by_cases h0 : m.len = 0
      · exact fits_of_not_refused h hpass h0
      · have := payload_fits h hpass (by rw [len_eq_zero] at h0; omega)
        omega
    refine iff_of_true ⟨_, _, _, hrun, ⟨fun _ => hfit, fun _ => rfl⟩, fun _ => ?_⟩ (fun h0 => ?_)
    · rw [hun, hw, hlen, List.append_assoc]
      simp
    · rw [len_eq_zero.mp h0] at hlen
      omega
  · rw [if_neg hw] at hrun
    rw [appendsOrRefuses_of_refusal hrun]
    by_cases h0 : m.len = 0
    · have hpl : payloadLenOf m = 0 := by
        rw [payloadLenOf, len_eq_zero.mp h0]
        decide
      exact iff_of_false (not_not.mpr (fits_of_not_refused h hpass h0)) (fun hu => by
        have := hu h0
        omega)
    · -- a positive `int` would have been written, so the length is 2^31 or more
      refine iff_of_true (fun hfit => ?_) (fun hc => absurd hc h0)
      rw [len_eq_zero] at h0
      have hlen : payloadLenOf m = m.len.toNat := int32_of_range (by omega) (by omega)
      have hn := payloadRequest_of_pos hvalid (by omega) hlen
      rw [hreq, Option.some.injEq] at hn
      omega

/-- Exactly when the encoder appends one frame or refuses. -/
theorem appendsOrRefuses_iff (ds : RipcDataSource) (m : RipcDataDefault) (h : ds.writeBuff.Wf)
    (hvalid : ValidPointer m) : AppendsOrRefuses ds m ↔ PayloadSizeUsable ds m := by
  by_cases hfull : RefusedBySpace ds.writeBuff m
  · obtain ⟨wb, hrun, -⟩ := encodeProcess_refused none h hfull
    exact iff_of_true ((appendsOrRefuses_of_refusal hrun).mpr (refused_not_fits h hfull))
      (fun hpass => absurd hfull hpass)
  by_cases hroom : ds.writeBuff.room < 32
  · obtain ⟨wb, m', hrun, -⟩ := encodeProcess_short none h hfull hroom
    have hle := h.free_le_room
    exact iff_of_true ((appendsOrRefuses_of_refusal hrun).mpr (by omega))
      (fun _ hge => absurd hroom (by omega))
  rw [not_lt] at hroom
  have husable : PayloadSizeUsable ds m ↔
      ∃ n, payloadRequest m = some n ∧ (m.len = 0 → n = 0 ∨ ds.writeBuff.room = 32) :=
    ⟨fun hu => hu hfull hroom, fun hu _ _ => hu⟩
  rw [husable]
  cases hreq : payloadRequest m with
  | none =>
    -- no payload size: the call does not return
    refine iff_of_false ?_ (by simp)
    rintro ⟨code, ds', m', heq, -⟩
    rw [encodeProcess_fault none h hfull hroom hreq] at heq
    cases heq
  | some n =>
    rw [appendsOrRefuses_of_request h hvalid hfull hroom hreq]
    simp

/-- Three bytes are appended; with length 0 the same message is refused although it fits. -/
theorem appendsOrRefuses_iff_text :
    let text (len : UInt32) : RipcDataDefault := ⟨0, [], len, 7, 0, 0, 0, some [0x41, 0x42, 0x43, 0]⟩
    AppendsOrRefuses (freshSource 1 64) (text 3) ∧ ¬ AppendsOrRefuses (freshSource 1 64) (text 0) := by
  intro text
  constructor
  · exact (appendsOrRefuses_iff _ (text 3) (freshSource_wf 1 (by decide))
      (show (3 : UInt32).toNat ≤ 4 by decide)).2
      fun _ _ => ⟨3, by decide, fun h0 => absurd h0 (by decide)⟩
  · intro hstring
    obtain ⟨n, hn, hzero⟩ := (appendsOrRefuses_iff _ (text 0) (freshSource_wf 1 (by decide))
      (Nat.zero_le _)).1 hstring (by decide) (by decide)
    -- the size is that of the string
    have hreq : payloadRequest (text 0) = some 3 := by decide
    obtain rfl : n = 3 := Option.some.inj (hn.symm.trans hreq)
    rcases hzero rfl with h0 | hroom
    · cases h0
    · exact absurd hroom (by decide)

/-- An empty payload at the address of a non-empty string is refused although it fits. -/
theorem appendsOrRefuses_string :
    ∃ m : RipcDataDefault, m.len = 0 ∧ m.data = some [0x41, 0] ∧ ValidPointer m ∧
      (freshSource 1 64).writeBuff.Wf ∧ ¬ AppendsOrRefuses (freshSource 1 64) m := by
  refine ⟨⟨0, [], 0, 7, 0, 0, 0, some [0x41, 0]⟩, rfl, rfl, Nat.zero_le _,
    freshSource_wf 1 (by decide), ?_⟩
  rintro ⟨code, ds', m', heq, hiff, -⟩
  obtain ⟨ds'', m'', heq'⟩ : ∃ ds'' m'', encodeProcess none (freshSource 1 64)
      ⟨0, [], 0, 7, 0, 0, 0, some [0x41, 0]⟩ = .ok (rcodeErrIpcCacheFull, ds'', m'') :=
    exists_of_code (by rfl)
  rw [heq] at heq'
  cases heq'
  exact absurd (hiff.mpr (by decide)) (by decide)

/-! ### Failure -/

/-- A failed call leaves the unread bytes of `write_buff` as they were. -/
def FailureKeepsStream (next : NextHandler) (ds : RipcDataSource) (m : RipcDataDefault) : Prop :=
  ∀ code ds' m', encodeProcess next ds m = .ok (code, ds', m') → code ≠ rcodeErrOk →
    ds'.writeBuff.unread = ds.writeBuff.unread

/-- Taking back `w` through the read cursor at `o` lands on the pending bytes `p` again. -/
def UndoKeeps (o : Int) (p w : Obj) : Prop := o = 2 * w.length ∧ (p ++ w).drop w.length = p

/-- The call is refused by the space check, or has no room at all to write into; or its header fits,
and then it goes through, or the bytes it has appended are undone by coincidence. -/
def FailureHarmless (next : NextHandler) (ds : RipcDataSource) (m : RipcDataDefault) : Prop :=
  RefusedBySpace ds.writeBuff m ∨ ds.writeBuff.room = 0 ∨
    (32 ≤ ds.writeBuff.room ∧ ∀ n, payloadRequest m = some n →
      let written := min n (ds.writeBuff.room - 32)
      let offset := if 32 + n ≤ ds.writeBuff.freeAfterRewind then ds.writeBuff.offsetAfterRewind else 0
      (written = payloadLenOf m ∧ encodeOnAfter next = rcodeErrOk) ∨
        UndoKeeps offset ds.writeBuff.unread
          (sentHeader ds m ++ (payloadBytes m).take written.toNat))

theorem offsetAfterRewind_of_nil (h : ds.writeBuff.Wf) (hnil : ds.writeBuff.unread = []) :
    ds.writeBuff.offsetAfterRewind = 0 := by
  have hlen := h.length_unread
  rw [hnil] at hlen
  exact if_pos hlen.symm

/-- The property of a call that fails. -/
theorem keepsStream_iff_of_run {next : NextHandler} {m m' : RipcDataDefault} {code : Int}
    {ds' : RipcDataSource} (hrun : encodeProcess next ds m = .ok (code, ds', m'))
    (hcode : code ≠ rcodeErrOk) :
    FailureKeepsStream next ds m ↔ ds'.writeBuff.unread = ds.writeBuff.unread := by
  constructor
  · intro hkeep
    exact hkeep _ _ _ hrun hcode
  · intro hkeep code' ds'' m'' heq _
    rw [hrun] at heq
    cases heq
    exact hkeep

/-- A part of the header was written, at the front of the buffer: the undo keeps the stream only when
nothing was written. -/
theorem keepsStream_short (next : NextHandler) {m : RipcDataDefault} (h : ds.writeBuff.Wf)
    (hfull : ¬ RefusedBySpace ds.writeBuff m) (hroom : ds.writeBuff.room < 32) :
    FailureKeepsStream next ds m ↔ ds.writeBuff.room = 0 := by
  have hle := h.free_le_room
  have hfree := h.free_nonneg
  obtain ⟨wb, m', hrun, hwf, ho, hun⟩ := encodeProcess_short next h hfull hroom
  have hlen : (((sentHeader ds m).take ds.writeBuff.room.toNat).length : Int) = ds.writeBuff.room := by
    rw [List.length_take, sentHeader_length]
    omega
  have hundo := Rbuffer.unread_readExt_neg hwf hun (fun _ => ho)
  rw [hlen, ho] at hundo
  rw [keepsStream_iff_of_run hrun (by decide)]
  constructor
  · intro hkeep
    have := (hundo.mp hkeep).1
    omega
  · intro h0
    exact hundo.mpr ⟨by omega, by simp [h0]⟩

/-- The whole header was written, and `n` is what `rbuffer_write` takes for the size of the payload. -/
theorem keepsStream_written (next : NextHandler) {m : RipcDataDefault} (h : ds.writeBuff.Wf)
    (hfull : ¬ RefusedBySpace ds.writeBuff m) (hroom : 32 ≤ ds.writeBuff.room) {n : Int}
    (hreq : payloadRequest m = some n) :
    let written := min n (ds.writeBuff.room - 32)
    let offset := if 32 + n ≤ ds.writeBuff.freeAfterRewind then ds.writeBuff.offsetAfterRewind else 0
    FailureKeepsStream next ds m ↔ (written = payloadLenOf m ∧ encodeOnAfter next = rcodeErrOk) ∨
      UndoKeeps offset ds.writeBuff.unread
        (sentHeader ds m ++ (payloadBytes m).take written.toNat) := by
  obtain ⟨wb, hwf, ho, hun, hrun⟩ := encodeProcess_written next h hfull hroom hreq
  obtain ⟨hn0, hnlen⟩ := payloadRequest_range hreq
  dsimp only at hun hrun ⊢
  generalize hwdef : min n (ds.writeBuff.room - 32) = written at *
  generalize hsent : sentHeader ds m ++ (payloadBytes m).take written.toNat = w at *
  have hlen : (w.length : Int) = written + 32 := by
    rw [← hsent, List.length_append, sentHeader_length, List.length_take]
    omega
  have hundo := Rbuffer.unread_readExt_neg hwf hun (fun hnil => by
    rw [ho, offsetAfterRewind_of_nil h hnil, ite_self])
  rw [ho] at hundo
  by_cases hok : written = payloadLenOf m ∧ encodeOnAfter next = rcodeErrOk
  · rw [if_neg (by simpa using hok.1), if_neg (by simpa using hok.2), hok.2] at hrun
    refine iff_of_true (fun code ds' m' heq hne => ?_) (.inl hok)
    rw [hrun] at heq
    cases heq
    exact absurd rfl hne
  · -- one of the two exits that undo the writes
    obtain ⟨code, hcode, hrun⟩ : ∃ code, code ≠ rcodeErrOk ∧ encodeProcess next ds m =
        .ok (code, { ds with writeBuff := wb.readExt (-written - headerLen) },
          htonHeader m ds.dsId (payloadLenOf m)) := by
      by_cases hshort : written ≠ payloadLenOf m
      · exact ⟨rcodeErrIpcCacheFull, by decide, by rw [hrun, if_pos hshort]⟩
      · have hnext : encodeOnAfter next ≠ rcodeErrOk := fun hc => hok ⟨not_not.mp hshort, hc⟩
        exact ⟨_, hnext, by rw [hrun, if_neg hshort, if_pos hnext]⟩
    have harg : -written - headerLen = -(w.length : Int) := by
      rw [headerLen]
      omega
    rw [harg] at hrun
    rw [or_iff_right hok, UndoKeeps, ← hundo]
    exact keepsStream_iff_of_run hrun hcode

/-- Exactly when a failed encode leaves the stream untouched. -/
theorem failureKeepsStream_iff (next : NextHandler) (ds : RipcDataSource) (m : RipcDataDefault)
    (h : ds.writeBuff.Wf) : FailureKeepsStream next ds m ↔ FailureHarmless next ds m := by
  by_cases hfull : RefusedBySpace ds.writeBuff m
  · obtain ⟨wb, hrun, -, hun, -⟩ := encodeProcess_refused next h hfull
    refine iff_of_true (fun code ds' m' heq _ => ?_) (.inl hfull)
    rw [hrun] at heq
    cases heq
    exact hun
  rw [FailureHarmless, or_iff_right hfull]
  by_cases hroom : ds.writeBuff.room < 32
  · rw [keepsStream_short next h hfull hroom]
    constructor
    · exact .inl
    · rintro (h0 | ⟨hge, -⟩)
      · exact h0
      · omega
  rw [not_lt] at hroom
  rw [or_iff_right (by omega), and_iff_right hroom]
  cases hreq : payloadRequest m with
  | none =>
    have hrun := encodeProcess_fault next h hfull hroom hreq
    refine iff_of_true (fun code ds' m' heq => ?_) (fun n hn => by cases hn)
    rw [hrun] at heq
    cases heq
  | some n =>
    simp only [Option.some.injEq, forall_eq']
    exact keepsStream_written next h hfull hroom hreq

/-- A call that fails behind its payload loses the stream in a fresh buffer; where the read cursor is at
twice the length of what is undone, and the pending byte is its last one, nothing is lost. -/
theorem failureKeepsStream_iff_next :
    let m : RipcDataDefault := ⟨0, [], 1, 7, 0, 0, 0, some [0x41]⟩
    let pending : Rbuffer := ⟨List.replicate 66 0 ++ [0x41] ++ List.replicate 61 0, 66, 67, 128⟩
    ¬ FailureKeepsStream (some 5) (freshSource 1 64) m ∧
      FailureKeepsStream (some 5) { freshSource 1 128 with writeBuff := pending } m := by
  intro m pending
  have hreq : payloadRequest m = some 1 := by decide
  constructor
  · intro hkeep
    rcases (failureKeepsStream_iff _ _ _ (freshSource_wf 1 (by decide))).1 hkeep with hfull | hroom | ⟨-, hw⟩
    · exact absurd hfull (by decide)
    · exact absurd hroom (by decide)
    · rcases hw 1 hreq with ⟨-, hok⟩ | ⟨htwice, -⟩
      · exact absurd hok (by decide)
      · exact absurd htwice (by decide +kernel)
  · refine (failureKeepsStream_iff _ _ _ ⟨by decide, by decide, by decide, by decide, by simp [pending]⟩).2
      (.inr (.inr ⟨by decide, fun n hn => .inr ?_⟩))
    obtain rfl : n = 1 := Option.some.inj (hn.symm.trans hreq)
    exact ⟨by decide +kernel, by decide +kernel⟩

/-- A short payload write leaves its whole frame behind: the undo moves the read cursor, at 0. -/
theorem failureKeepsStream_string :
    ∃ m : RipcDataDefault, m.len = 0 ∧ m.data = some [0x41, 0] ∧
      (freshSource 1 64).writeBuff.Wf ∧ ¬ FailureKeepsStream none (freshSource 1 64) m := by
  refine ⟨⟨0, [], 0, 7, 0, 0, 0, some [0x41, 0]⟩, rfl, rfl, freshSource_wf 1 (by decide), ?_⟩
  intro hkeep
  have hrun : (encodeProcess none (freshSource 1 64) ⟨0, [], 0, 7, 0, 0, 0, some [0x41, 0]⟩).map
      (fun r => (r.1, r.2.1.writeBuff.unread.length)) = .ok (rcodeErrIpcCacheFull, 33) := by rfl
  obtain ⟨⟨code, ds', m'⟩, hres, hfacts⟩ := Except.of_map_ok hrun
  obtain ⟨hcode, hlen⟩ : code = rcodeErrIpcCacheFull ∧ ds'.writeBuff.unread.length = 33 := by
    simpa using hfacts
  have hsame := hkeep code ds' m' hres (by rw [hcode]; decide)
  rw [hsame] at hlen
  exact absurd hlen (by decide)

end Funra
