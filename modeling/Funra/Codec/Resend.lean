import Funra.Codec.RoundTrip
import Funra.Lib.System

/-!
# Sending one message again

`encode_process` converts the fields of the caller's message in place and converts them back on one of
its exits only, with a length that counts the header fields. A call that gets behind the space check
never leaves `len` as it was (`len_changed`): the network order of `len + 24` has another remainder
modulo 255 than `len`. So the message survives exactly the calls the space check refuses
(`messageKept_iff`), and a message sent to several sessions in turn exactly the turns that are all
refused (`sendsKeepMessage_iff`).
-/

namespace Funra

open CInt Mem Endian System

/-- The fields the caller has filled in. -/
def FieldsKept (m m' : RipcDataDefault) : Prop :=
  m'.len = m.len ∧ m'.cmd = m.cmd ∧ m'.crc = m.crc ∧ m'.reserve0 = m.reserve0 ∧ m'.data = m.data

/-- The call returns with the caller's fields, whatever its code is. -/
def MessageKept (next : NextHandler) (ds : RipcDataSource) (m : RipcDataDefault) : Prop :=
  ∀ code ds' m', encodeProcess next ds m = .ok (code, ds', m') → FieldsKept m m'

/-- The call gets to the payload, and the `memcpy` of it leaves the object behind `data`. -/
def PayloadLeavesObject (ds : RipcDataSource) (m : RipcDataDefault) : Prop :=
  ¬ RefusedBySpace ds.writeBuff m ∧ 32 ≤ ds.writeBuff.room ∧ payloadRequest m = none

variable {ds : RipcDataSource} {m : RipcDataDefault}

/-! ### One call -/

theorem htonHeader_len (m : RipcDataDefault) (dsId : UInt64) :
    (htonHeader m dsId (payloadLenOf m)).len = htonl (m.len + 24) := by
  have hlt := m.len.toNat_lt
  simp only [htonHeader, payloadLenOf, transLen]
  refine congrArg htonl ?_
  rw [← UInt32.toNat_inj, UInt32.ofInt, UInt32.toNat_ofNat', UInt32.toNat_add]
  unfold int32
  rw [show (24 : UInt32).toNat = 24 from rfl]
  omega

/-- Adding 24 or 24 - 2^32 and reversing the bytes changes the remainder modulo 255. -/
theorem htonl_add_ne (x : UInt32) : htonl (x + 24) ≠ x := by
  intro heq
  have hlt := x.toNat_lt
  have hmod := swap32_mod_255 (x + 24)
  rw [htonl] at heq
  rw [heq, UInt32.toNat_add, show (24 : UInt32).toNat = 24 from rfl] at hmod
  omega

theorem add_ne (x : UInt32) : x + 24 ≠ x := by
  intro heq
  have hlt := x.toNat_lt
  have hval := congrArg UInt32.toNat heq
  rw [UInt32.toNat_add, show (24 : UInt32).toNat = 24 from rfl] at hval
  omega

/-- Behind the space check, a call that returns has changed `len`. -/
theorem len_changed {next : NextHandler} (h : ds.writeBuff.Wf)
    (hpass : ¬ RefusedBySpace ds.writeBuff m) {code : Int} {ds' : RipcDataSource}
    {m' : RipcDataDefault} (hrun : encodeProcess next ds m = .ok (code, ds', m')) :
    m'.len ≠ m.len := by
  by_cases hroom : ds.writeBuff.room < 32
  · -- the exit that converts back: `len` counts the 24 bytes of header fields now
    obtain ⟨wb, hrun', -⟩ := encodeProcess_restored next h hpass hroom
    rw [hrun] at hrun'
    cases hrun'
    rw [show (ntohHeader (htonHeader m ds.dsId (payloadLenOf m))).len = m.len + 24 by
      simp [ntohHeader, htonHeader_len, ntohl, htonl]]
    exact add_ne m.len
  rw [not_lt] at hroom
  obtain ⟨wb, -, -, -, -, -, hrun'⟩ := encodeProcess_header next h hpass hroom
  rw [hrun] at hrun'
  obtain ⟨⟨n, wb'⟩, -, hok⟩ := Except.of_bind_ok hrun'.symm
  suffices hm : m' = htonHeader m ds.dsId (payloadLenOf m) by
    rw [hm, htonHeader_len]
    exact htonl_add_ne m.len
  have hres := Except.ok.inj hok
  split at hres
  · cases hres
    rfl
  · split at hres <;> cases hres <;> rfl

/-- Exactly when one call leaves the caller's message as it was. -/
theorem messageKept_iff (next : NextHandler) (h : ds.writeBuff.Wf) :
    MessageKept next ds m ↔ RefusedBySpace ds.writeBuff m ∨ PayloadLeavesObject ds m := by
  by_cases hfull : RefusedBySpace ds.writeBuff m
  · refine iff_of_true (fun code ds' m' hrun => ?_) (.inl hfull)
    obtain ⟨wb, heq, -⟩ := encodeProcess_refused next h hfull
    rw [hrun] at heq
    cases heq
    exact ⟨rfl, rfl, rfl, rfl, rfl⟩
  rw [or_iff_right hfull]
  constructor
  · intro hkept
    -- a call that returns would have changed `len`
    have hnone : ∀ r, encodeProcess next ds m ≠ .ok r := by
      rintro ⟨code, ds', m'⟩ hrun
      exact len_changed h hfull hrun (hkept _ _ _ hrun).1
    by_cases hroom : ds.writeBuff.room < 32
    · obtain ⟨wb, m', hrun, -⟩ := encodeProcess_short next h hfull hroom
      exact absurd hrun (hnone _)
    rw [not_lt] at hroom
    refine ⟨hfull, hroom, ?_⟩
    cases hreq : payloadRequest m with
    | none => rfl
    | some n =>
      obtain ⟨wb, -, -, -, hrun⟩ := encodeProcess_written next h hfull hroom hreq
      exact absurd hrun (hnone _)
  · rintro ⟨-, hroom, hreq⟩ code ds' m' hrun
    rw [encodeProcess_fault next h hfull hroom hreq] at hrun
    cases hrun

/-! ### Several sessions in turn -/

/-- The message after some sends, and the frames they have appended. -/
structure Sends where
  message : RipcDataDefault
  frames : List Obj

/-- A send that returns; a successful one has appended a frame. -/
def SendStep (next : NextHandler) (s : Sends) (ds : RipcDataSource) (s' : Sends) : Prop :=
  ∃ code ds' m', encodeProcess next ds s.message = .ok (code, ds', m') ∧
    s' = ⟨m', s.frames ++ if code = rcodeErrOk then [appendedBytes ds ds'] else []⟩

/-- A frame but for the eight bytes of its `sid`. -/
def withoutSid (frame : Obj) : Obj := frame.take 12 ++ frame.drop 20

/-- After every send the message has the fields it had, and the frames sent so far differ in `sid`
only. -/
def SendsKeepMessage (next : NextHandler) (m : RipcDataDefault) (sessions : List RipcDataSource) :
    Prop :=
  ∀ sent, sent <+: sessions → ∀ s', Steps (SendStep next) ⟨m, []⟩ sent s' →
    FieldsKept m s'.message ∧ s'.frames.Pairwise fun a b => withoutSid a = withoutSid b

/-- Every session refuses the message for lack of space, up to one where the call does not return. -/
def RefusedInTurn (m : RipcDataDefault) : List RipcDataSource → Prop
  | [] => True
  | ds :: rest => (RefusedBySpace ds.writeBuff m ∧ RefusedInTurn m rest) ∨ PayloadLeavesObject ds m

theorem refused_step {next : NextHandler} (h : ds.writeBuff.Wf) {s s' : Sends}
    (hfull : RefusedBySpace ds.writeBuff s.message) (hstep : SendStep next s ds s') : s' = s := by
  obtain ⟨code, ds', m', hrun, rfl⟩ := hstep
  obtain ⟨wb, heq, -⟩ := encodeProcess_refused next h hfull
  rw [hrun] at heq
  cases heq
  rw [if_neg (by decide), List.append_nil]

theorem fault_step {next : NextHandler} (h : ds.writeBuff.Wf) {s s' : Sends}
    (hfault : PayloadLeavesObject ds s.message) : ¬ SendStep next s ds s' := by
  rintro ⟨code, ds', m', hrun, -⟩
  rw [encodeProcess_fault next h hfault.1 hfault.2.1 hfault.2.2] at hrun
  cases hrun

/-- Sends that are all refused change nothing. -/
theorem refused_steps {next : NextHandler} {sent : List RipcDataSource} {s s' : Sends}
    (h : ∀ ds ∈ sent, ds.writeBuff.Wf) (href : RefusedInTurn s.message sent)
    (hrun : Steps (SendStep next) s sent s') : s' = s := by
  induction hrun with
  | nil s => rfl
  | @cons s s1 s' ds sent hfirst hrest ih =>
    have hwf := h ds List.mem_cons_self
    rcases href with ⟨hfull, href⟩ | hfault
    · obtain rfl := refused_step hwf hfull hfirst
      exact ih (fun d hd => h d (List.mem_cons_of_mem _ hd)) href
    · exact absurd hfirst (fault_step hwf hfault)

theorem RefusedInTurn.of_prefix {sent sessions : List RipcDataSource} (hpre : sent <+: sessions)
    (h : RefusedInTurn m sessions) : RefusedInTurn m sent := by
  induction sessions generalizing sent with
  | nil =>
    rw [List.prefix_nil.mp hpre]
    trivial
  | cons ds sessions ih =>
    rcases sent with _ | ⟨d, sent⟩
    · trivial
    · obtain ⟨rfl, hpre'⟩ := List.cons_prefix_cons.mp hpre
      rcases h with ⟨hfull, h⟩ | hfault
      · exact .inl ⟨hfull, ih hpre' h⟩
      · exact .inr hfault

/-- Exactly when a message sent to several sessions in turn stays what it was. -/
theorem sendsKeepMessage_iff (next : NextHandler) (m : RipcDataDefault)
    (sessions : List RipcDataSource) (h : ∀ ds ∈ sessions, ds.writeBuff.Wf) :
    SendsKeepMessage next m sessions ↔ RefusedInTurn m sessions := by
  constructor
  · intro hkeep
    induction sessions with
    | nil => trivial
    | cons ds sessions ih =>
      have hwf := h ds List.mem_cons_self
      have hone : MessageKept next ds m := by
        intro code ds' m' hrun
        exact (hkeep [ds] (by simp) _ (.cons ⟨code, ds', m', hrun, rfl⟩ (.nil _))).1
      rcases (messageKept_iff next hwf).mp hone with hfull | hfault
      · refine .inl ⟨hfull, ih (fun d hd => h d (List.mem_cons_of_mem _ hd)) ?_⟩
        intro sent hpre s' hrun
        obtain ⟨wb, hrun', -⟩ := encodeProcess_refused next hwf hfull
        have hfirst : SendStep next ⟨m, []⟩ ds ⟨m, []⟩ := ⟨_, _, _, hrun', rfl⟩
        exact hkeep (ds :: sent) (List.cons_prefix_cons.mpr ⟨rfl, hpre⟩) s' (.cons hfirst hrun)
      · exact .inr hfault
  · intro href sent hpre s' hrun
    have hsame := refused_steps (fun d hd => h d (hpre.subset hd)) (href.of_prefix hpre) hrun
    rw [hsame]
    exact ⟨⟨rfl, rfl, rfl, rfl, rfl⟩, List.Pairwise.nil⟩

theorem sendsKeepMessage_iff_one :
    let m : RipcDataDefault := ⟨0, [], 1, 7, 0, 0, 0, some [0x41]⟩
    SendsKeepMessage none m [freshSource 1 16] ↔ RefusedInTurn m [freshSource 1 16] := by
  refine sendsKeepMessage_iff none _ _ fun ds hds => ?_
  rw [List.mem_singleton.mp hds]
  exact freshSource_wf 1 (by decide)

/-- One successful send, and `len` is the network order of 25. -/
theorem message_converted :
    ¬ SendsKeepMessage none ⟨0, [], 1, 7, 0, 0, 0, some [0x41]⟩
      [freshSource 1 64, freshSource 2 64] := by
  intro hkeep
  have hwf := freshSource_wf 1 (show 64 < 2147483648 by decide)
  obtain ⟨ds', m', hrun⟩ : ∃ ds' m', encodeProcess none (freshSource 1 64)
      ⟨0, [], 1, 7, 0, 0, 0, some [0x41]⟩ = .ok (rcodeErrOk, ds', m') := exists_of_code (by rfl)
  have hkept := hkeep [freshSource 1 64] (by simp) _ (.cons ⟨_, ds', m', hrun, rfl⟩ (.nil _))
  exact len_changed hwf (encodeProcess_ok none hwf hrun).1 hrun hkept.1.1

/-- Two successful sends in turn leave frames of different lengths. -/
theorem resent_length_ne {next : NextHandler} {ds1 ds1' ds2 ds2' : RipcDataSource}
    {m m' m'' : RipcDataDefault} (h1 : ds1.writeBuff.Wf) (h2 : ds2.writeBuff.Wf)
    (hrun1 : encodeProcess next ds1 m = .ok (rcodeErrOk, ds1', m'))
    (hrun2 : encodeProcess next ds2 m' = .ok (rcodeErrOk, ds2', m'')) :
    (appendedBytes ds2 ds2').length ≠ (appendedBytes ds1 ds1').length := by
  have hpass := (encodeProcess_ok next h1 hrun1).1
  have hlen := len_changed h1 hpass hrun1
  obtain ⟨hlt1, hl1, hb1⟩ := appended_bytes h1 hrun1
  obtain ⟨hlt2, hl2, hb2⟩ := appended_bytes h2 hrun2
  rw [hb1, hb2, Frame.bytes_length, Frame.bytes_length, ne_eq]
  simp only [encodedFrame, hl1, hl2]
  intro heq
  exact hlen (UInt32.toNat_inj.mp (by omega))

end Funra
