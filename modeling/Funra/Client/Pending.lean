import Funra.Client.Send

/-!
# What the `poll` and the `select` client send

`ripc_send_data_c` is to send just what is pending in `write_buff`. `sendsPending_iff` says exactly when it does, for
each of the objects that the store to `sent_len` may overwrite: where it is none that is used, when no `send` takes
more than what is left; where it is `count`, when the first `send` takes everything; else when there is no `send`.
-/

namespace Funra

open CInt Mem

/-! ## The call -/

/-- What goes out is a prefix of the unread bytes of `d`, the final `rbuffer_skip` removes just that, and it is
everything when the call returns ok. -/
def SendsPending (d : Rbuffer) (call : Except Fault SendOutcome) : Prop :=
  ∃ o, call = .ok o ∧ o.wire <+: d.unread ∧
    (o.skipped = true → o.client.ds.writeBuff.unread = d.unread.drop o.wire.length ∧
      d.size - o.client.ds.writeBuff.size = o.wire.length) ∧
    (o.code = some 0 → o.wire = d.unread)

/-- The buffer the loop sends from: the handler has put the message into it. -/
def pendingBuffer (out : Option HandlerProcess) (ds : RipcDataSource) : Rbuffer :=
  if ds.state = .start then
    match runHandler out ds with
    | .error _ => ds.writeBuff
    | .ok (_, ds) => ds.writeBuff
  else ds.writeBuff

/-- Once the message is in the buffer, the rounds fit what is left there. -/
def TakesPending (c : PollingClient) (p : Platform) (b : Behind) (fd : Int) (out : Option HandlerProcess)
    (rounds : List SendRound) (ds : RipcDataSource) : Prop :=
  ds.state = .start → ∀ ds', runHandler out ds = .ok (rcodeErrOk, ds') →
    RoundsFit c p b fd ds'.writeBuff.size.toNat rounds

section call

variable {c : PollingClient} {p : Platform} {b : Behind} {out : Option HandlerProcess} {rounds : List SendRound}
  {s : SocketClient} {fd : Int} {d : Rbuffer} {e : SendLoopEnd}

theorem skip_exact (h : d.Wf) (he : e.Exact d) :
    (d.skip e.total).unread = d.unread.drop e.wire.length ∧
      d.size - (d.skip e.total).size = e.wire.length := by
  have hlen := h.length_unread
  have h0 := he.total_nonneg
  have hle := he.total_le
  have hwire : e.wire.length = e.total.toNat := by
    rw [he.wire, List.length_take]
    omega
  rw [Rbuffer.skip_spec h h0 hle, hwire]
  constructor
  · simp only [Rbuffer.unread, Rbuffer.size, window, List.drop_take, List.drop_drop]
    obtain ⟨h1, h2, h3, h4, h5⟩ := h
    congr 1
    · omega
    · congr 1
      omega
  · dsimp only [Rbuffer.size]
    omega

theorem ipcError_ne_zero (code : Int) : ipcError code ≠ 0 := by
  unfold ipcError
  split <;> decide

@[simp] theorem finish_wire (c : PollingClient) (s : SocketClient) (e : SendLoopEnd) :
    (c.finish s e).wire = e.wire := by
  unfold PollingClient.finish
  split
  · rfl
  · cases c
    · rfl
    · dsimp only
      split <;> rfl

/-- A call comes to its `rbuffer_skip` with the total of the loop. -/
theorem finish_skipped (h : (c.finish s e).skipped = true) : (c.finish s e).client = s.skipSent e.total := by
  unfold PollingClient.finish at h ⊢
  split at h
  · cases h
  · cases c
    · rfl
    · dsimp only at h ⊢
      split at h
      · cases h
      · rename_i hdone
        rw [if_neg hdone]

/-- A call returns ok only when its loop is done. -/
theorem finish_ok (h : (c.finish s e).code = some 0) : e.code = some rcodeIoDone := by
  unfold PollingClient.finish at h
  split at h
  · cases h
  · rename_i code hcode
    cases c
    · rw [hcode]
      exact h
    · dsimp only at h
      split at h
      · exact absurd (Option.some.inj h) (ipcError_ne_zero code)
      · rename_i hdone
        rw [hcode, not_not.mp hdone]

/-- A loop that ends exactly gives a call that does. -/
theorem finish_exact (h : s.ds.writeBuff.Wf) (he : e.Exact s.ds.writeBuff) :
    SendsPending s.ds.writeBuff (.ok (c.finish s e)) := by
  refine ⟨_, rfl, ?_, fun hskipped => ?_, fun hok => ?_⟩
  · rw [finish_wire, he.wire]
    exact List.take_prefix _ _
  · rw [finish_skipped hskipped, finish_wire]
    exact skip_exact h he
  · have hlen := h.length_unread
    rw [finish_wire, he.wire, he.all (finish_ok hok), ← hlen, Int.toNat_natCast, List.take_length]

/-- No more than what is pending can be on the wire. -/
theorem not_sendsPending_of_long (h : s.ds.writeBuff.Wf) (hlong : s.ds.writeBuff.size < e.wire.length) :
    ¬ SendsPending s.ds.writeBuff (.ok (c.finish s e)) := by
  rintro ⟨o, hok, hprefix, -⟩
  obtain rfl := Except.ok.inj hok
  have hshort := hprefix.length_le
  have hlen := h.length_unread
  rw [finish_wire] at hshort
  omega

/-- A call that returns ok has sent everything. -/
theorem not_sendsPending_of_short (h : s.ds.writeBuff.Wf) (hdone : e.code = some rcodeIoDone)
    (hshort : e.wire.length < s.ds.writeBuff.size) : ¬ SendsPending s.ds.writeBuff (.ok (c.finish s e)) := by
  rintro ⟨o, hok, -, -, hall⟩
  obtain rfl := Except.ok.inj hok
  have hcode : (c.finish s e).code = some 0 := by
    unfold PollingClient.finish
    rw [hdone]
    cases c <;> rfl
  have hwire := congrArg List.length (hall hcode)
  have hlen := h.length_unread
  rw [finish_wire] at hwire
  omega

/-- Nothing overwrites `count`. -/
theorem transmit_spare (h : s.ds.writeBuff.Wf) {loop : List SendRound → Int → Obj → Except Fault SendLoopEnd}
    (hloop : SendsRounds (SendRound.taken c p fd) s.ds.writeBuff loop) :
    SendsPending s.ds.writeBuff ((loop rounds 0 []).map (c.finish s)) ↔
      Within (SendRound.taken c p fd) s.ds.writeBuff.size.toNat rounds := by
  have hs := h.size_nonneg
  have hlen := h.length_unread
  have hstart : ([] : Obj) = s.ds.writeBuff.unread.take (0 : Int).toNat := rfl
  rw [hstart]
  constructor
  · intro hsends
    by_contra hwithin
    obtain ⟨o, hok, -⟩ := id hsends
    obtain ⟨e, hend, rfl⟩ := Except.of_map_ok hok
    have hlong := hloop.exceeded h (le_refl 0) hs (by rwa [Int.sub_zero]) hend
    rw [hend] at hsends
    exact not_sendsPending_of_long h (by omega) hsends
  · intro hwithin
    obtain ⟨e, hend, he⟩ := hloop.within h (le_refl 0) hs (by rwa [Int.sub_zero])
    rw [hend]
    exact finish_exact h he

/-- Nothing has been sent, and that is what the code says. -/
theorem finish_nothing (h : s.ds.writeBuff.Wf) (hpos : 0 < s.ds.writeBuff.size) {code : Option Int}
    (hcode : code ≠ some rcodeIoDone) :
    SendsPending s.ds.writeBuff ((Except.ok ⟨code, 0, []⟩ : Except Fault SendLoopEnd).map (c.finish s)) :=
  finish_exact h ⟨le_refl 0, hpos.le, rfl, fun hdone => absurd hdone hcode⟩

/-- `count` is overwritten. -/
theorem transmit_count (h : s.ds.writeBuff.Wf) (hpos : 0 < s.ds.writeBuff.size)
    {loop : List SendRound → Except Fault SendLoopEnd} (hloop : SendsOnce c p fd s.ds.writeBuff loop) :
    SendsPending s.ds.writeBuff ((loop rounds).map (c.finish s)) ↔
      ∀ r ∈ rounds.head?, r.taken c p fd = some s.ds.writeBuff.size.toNat ∨
        r.taken c p fd = none ∧ r.Reported c p fd := by
  have hlen := h.length_unread
  cases rounds with
  | nil =>
    rw [hloop.waits]
    exact iff_of_true (finish_nothing h hpos nofun) nofun
  | cons r rounds =>
    rw [List.head?_cons]
    simp only [Option.mem_def, Option.some.injEq, forall_eq']
    cases htaken : r.taken c p fd with
    | none =>
      by_cases hreported : r.Reported c p fd
      · obtain ⟨code, hcode, hrun⟩ : ∃ code, code ≠ some rcodeIoDone ∧ loop (r :: rounds) = .ok ⟨code, 0, []⟩ :=
          hloop.stops htaken hreported
        rw [hrun]
        exact iff_of_true (finish_nothing h hpos hcode) (.inr ⟨rfl, hreported⟩)
      · rw [hloop.loses htaken hreported]
        refine iff_of_false (not_sendsPending_of_short h rfl hpos) ?_
        rintro (hsome | ⟨-, hno⟩)
        · cases hsome
        · exact hreported hno
    | some k =>
      have hright : (some k = some s.ds.writeBuff.size.toNat ∨ some k = none ∧ r.Reported c p fd) ↔
          (k : Int) = s.ds.writeBuff.size := by
        rw [Option.some.injEq, or_iff_left (by simp)]
        omega
      rw [hright]
      rcases lt_trichotomy (k : Int) s.ds.writeBuff.size with hless | hall | hmore
      · rw [hloop.ends htaken (by omega)]
        refine iff_of_false (not_sendsPending_of_short h rfl ?_) (by omega)
        refine lt_of_le_of_lt ?_ hless
        dsimp only
        rw [window, List.length_take]
        omega
      · rw [hloop.ends htaken (by omega)]
        refine iff_of_true (finish_exact h ⟨Int.natCast_nonneg k, hall.le, ?_, fun _ => hall⟩) hall
        have hwindow := take_unread_add h (le_refl 0) (k := k) (by omega)
        rw [Int.add_zero, Int.zero_add] at hwindow
        exact hwindow
      · refine iff_of_false (fun hsends => ?_) (by omega)
        obtain ⟨o, hok, -⟩ := id hsends
        obtain ⟨e, hend, rfl⟩ := Except.of_map_ok hok
        have hlong := hloop.exceeds htaken hend
        rw [hend] at hsends
        exact not_sendsPending_of_long h (by omega) hsends

/-- The loop when the store destroys something that the call needs. -/
theorem sendLoop_needed (hpos : 0 < d.size) (hb : b.on p = .needed) (rounds : List SendRound) :
    c.sendLoop p b fd d rounds =
      match rounds with
      | [] => .ok ⟨none, 0, []⟩
      | r :: _ => if c = .poll ∧ r.check ≠ rcodeIoDone then .ok ⟨some r.check, 0, []⟩ else .error .outOfBounds := by
  cases c with
  | poll =>
    rw [PollingClient.sendLoop]
    unfold PollClient.sendLoop
    rw [if_pos hpos, hb]
    cases rounds with
    | nil => rfl
    | cons r rounds => simp [Behind.store]
  | select =>
    rw [PollingClient.sendLoop]
    unfold SelectClient.sendLoop
    rw [if_pos hpos, hb]
    cases rounds with
    | nil => rfl
    | cons r rounds => simp [Behind.store]

theorem transmit_needed (h : s.ds.writeBuff.Wf) (hpos : 0 < s.ds.writeBuff.size) (hb : b.on p = .needed) :
    SendsPending s.ds.writeBuff ((c.sendLoop p b fd s.ds.writeBuff rounds).map (c.finish s)) ↔
      ∀ r ∈ rounds.head?, c = .poll ∧ r.check ≠ rcodeIoDone := by
  rw [sendLoop_needed hpos hb]
  cases rounds with
  | nil => exact iff_of_true (finish_nothing h hpos nofun) nofun
  | cons r rounds =>
    rw [List.head?_cons]
    simp only [Option.mem_def, Option.some.injEq, forall_eq']
    by_cases hcheck : c = .poll ∧ r.check ≠ rcodeIoDone
    · rw [if_pos hcheck]
      exact iff_of_true (finish_nothing h hpos (by simpa using hcheck.2)) hcheck
    · rw [if_neg hcheck]
      refine iff_of_false ?_ hcheck
      rintro ⟨o, hok, -⟩
      cases hok

/-- With nothing to send, nothing is sent. -/
theorem sendLoop_empty (hzero : d.size = 0) (rounds : List SendRound) :
    c.sendLoop p b fd d rounds = .ok ⟨some rcodeIoDone, 0, []⟩ := by
  cases c with
  | poll =>
    rw [PollingClient.sendLoop, hzero]
    unfold PollClient.sendLoop
    rfl
  | select =>
    rw [PollingClient.sendLoop, hzero]
    unfold SelectClient.sendLoop
    rfl

theorem roundsFit_zero (rounds : List SendRound) : RoundsFit c p b fd 0 rounds := by
  unfold RoundsFit
  cases b.on p with
  | spare =>
    cases rounds with
    | nil => trivial
    | cons r rounds =>
      dsimp only
      unfold Within
      cases r.taken c p fd with
      | none => trivial
      | some k => exact .inl rfl
  | count => exact .inl rfl
  | needed => exact .inl rfl

theorem transmit_iff (h : s.ds.writeBuff.Wf) (hfd : s.stream = some fd) :
    SendsPending s.ds.writeBuff (c.transmit p b rounds s) ↔
      RoundsFit c p b fd s.ds.writeBuff.size.toNat rounds := by
  have hs := h.size_nonneg
  rw [PollingClient.transmit, hfd]
  dsimp only
  rcases Int.lt_or_le 0 s.ds.writeBuff.size with hpos | hzero
  · have hne : s.ds.writeBuff.size.toNat ≠ 0 := by omega
    unfold RoundsFit
    cases hb : b.on p with
    | spare =>
      cases c with
      | poll => exact transmit_spare h (PollClient.sendsRounds h hb)
      | select => exact transmit_spare h (SelectClient.sendsRounds h hb)
    | count =>
      dsimp only
      rw [or_iff_right hne]
      cases c with
      | poll => exact transmit_count h hpos (PollClient.sendsOnce h hpos hb)
      | select => exact transmit_count h hpos (SelectClient.sendsOnce h hpos hb)
    | needed =>
      dsimp only
      rw [or_iff_right hne]
      exact transmit_needed h hpos hb
  · obtain hzero : s.ds.writeBuff.size = 0 := by omega
    rw [sendLoop_empty hzero, hzero]
    refine iff_of_true (finish_exact h ⟨le_refl 0, hs, rfl, fun _ => hzero.symm⟩) (roundsFit_zero rounds)

/-- A call that fails before the loop. -/
theorem sendsPending_of_error (d : Rbuffer) (s : SocketClient) {code : Int} (hcode : code ≠ 0) :
    SendsPending d (.ok ⟨some code, s, [], false⟩) := by
  refine ⟨_, rfl, List.nil_prefix, ?_, ?_⟩
  · rintro ⟨⟩
  · rintro ⟨⟩
    exact absurd rfl hcode

/-- Exactly when a call sends just what is pending. -/
theorem sendsPending_iff (hfd : s.stream = some fd)
    (hout : s.ds.state = .start → (runHandler out s.ds).Succeeds fun r => r.2.writeBuff.Wf) :
    SendsPending (pendingBuffer out s.ds) (c.ripcSendDataC p b out rounds s) ↔
      TakesPending c p b fd out rounds s.ds := by
  unfold PollingClient.ripcSendDataC pendingBuffer TakesPending
  by_cases hstart : s.ds.state = .start
  · obtain ⟨⟨code, ds⟩, hhandler, hwf⟩ := hout hstart
    rw [if_neg (not_not.mpr hstart), if_pos hstart, hhandler]
    dsimp only
    by_cases hcode : code = rcodeErrOk
    · rw [if_neg (not_not.mpr hcode), transmit_iff (s := { s with ds }) hwf hfd]
      subst hcode
      constructor
      · rintro hwithin - ds' heq
        cases heq
        exact hwithin
      · intro hwithin
        exact hwithin hstart ds rfl
    · rw [if_pos hcode]
      refine iff_of_true (sendsPending_of_error _ _ hcode) ?_
      rintro - ds' heq
      cases heq
      exact absurd rfl hcode
  · rw [if_pos hstart, if_neg hstart]
    exact iff_of_true (sendsPending_of_error _ _ (by decide)) fun h => absurd h hstart

end call

/-- Two bytes are pending, in a block with a byte behind them. -/
def twoPending : SocketClient where
  ds := { dsId := 1, dsType := .client, state := .start, readCache := Rbuffer.create 0 [],
          writeBuff := ⟨[1, 2, 3], 0, 2, 3⟩ }
  stream := some 5
  released := false

theorem twoPending_wf : twoPending.ds.writeBuff.Wf := ⟨by decide, by decide, by decide, by decide, by decide⟩

/-- Two sends of one byte, the second after a failure that is tried again. Behind `sent_len` there is nothing that is
used, and then `count`. -/
theorem sendsPending_iff_parts :
    SendsPending (pendingBuffer none twoPending.ds) (PollingClient.poll.ripcSendDataC .unix .spare none
        [⟨0, [.sent 1]⟩, ⟨0, [.failed EINTR false 0, .sent 1]⟩] twoPending) ∧
      ¬ SendsPending (pendingBuffer none twoPending.ds) (PollingClient.poll.ripcSendDataC .unix .count none
        [⟨0, [.sent 1]⟩, ⟨0, [.failed EINTR false 0, .sent 1]⟩] twoPending) := by
  have htwo := twoPending_wf
  constructor
  · refine (sendsPending_iff (s := twoPending) rfl fun _ => ⟨_, rfl, htwo⟩).mpr ?_
    rintro - ds' ⟨⟩
    exact .inr ⟨by decide, .inr ⟨by decide, trivial⟩⟩
  · intro hsends
    have hfits := (sendsPending_iff (s := twoPending) rfl fun _ => ⟨_, rfl, htwo⟩).mp hsends rfl twoPending.ds rfl
    rcases hfits with hzero | hfirst
    · cases hzero
    · rcases hfirst _ rfl with hall | ⟨hnone, -⟩
      · cases hall
      · cases hnone

/-- Every call sends just what is pending, for one layout of the variables. -/
def SendsAlways (b : Behind) : Prop :=
  ∀ (c : PollingClient) (p : Platform) (rounds : List SendRound) (s : SocketClient), s.ds.writeBuff.Wf →
    (∀ r ∈ rounds, ∀ k, SendResult.sent k ∈ r.sends → 0 < k ∧ k ≤ s.ds.writeBuff.size) →
      SendsPending (pendingBuffer none s.ds) (c.ripcSendDataC p b none rounds s)

/-- After a partial send of one byte, two bytes are offered again, and the byte behind `pos` goes out; with `count`
overwritten the call ends there and returns ok; and what the call needs is destroyed by any send. -/
theorem sends_beyond_pos : ¬ SendsAlways .spare ∧ ¬ SendsAlways .count ∧ ¬ SendsAlways .needed := by
  have hsends : ∀ r ∈ [SendRound.mk 0 [.sent 1], SendRound.mk 0 [.sent 2]], ∀ k, SendResult.sent k ∈ r.sends →
      0 < k ∧ k ≤ twoPending.ds.writeBuff.size := by
    simp [twoPending, Rbuffer.size]
  refine ⟨fun hall => ?_, fun hall => ?_, fun hall => ?_⟩
  · obtain ⟨o, hok, hprefix, -⟩ := hall .poll .unix [⟨0, [.sent 1]⟩, ⟨0, [.sent 2]⟩] twoPending twoPending_wf hsends
    have hwire : (PollingClient.poll.ripcSendDataC .unix .spare none [⟨0, [.sent 1]⟩, ⟨0, [.sent 2]⟩] twoPending).map
        (fun o => o.wire) = .ok [1, 2, 3] := by rfl
    rw [hok] at hwire
    have hthree := Except.ok.inj hwire
    dsimp only at hthree
    rw [hthree] at hprefix
    exact absurd hprefix (by decide)
  · obtain ⟨o, hok, -, -, hfull⟩ :=
      hall .poll .unix [⟨0, [.sent 1]⟩, ⟨0, [.sent 2]⟩] twoPending twoPending_wf hsends
    have hend : (PollingClient.poll.ripcSendDataC .unix .count none [⟨0, [.sent 1]⟩, ⟨0, [.sent 2]⟩] twoPending).map
        (fun o => (o.code, o.wire)) = .ok (some 0, [1]) := by rfl
    rw [hok] at hend
    obtain ⟨hcode, hwire⟩ := Prod.mk.inj (Except.ok.inj hend)
    exact absurd (hwire.symm.trans (hfull hcode)) (by decide)
  · obtain ⟨o, hok, -⟩ := hall .poll .unix [⟨0, [.sent 1]⟩, ⟨0, [.sent 2]⟩] twoPending twoPending_wf hsends
    have hfault : (PollingClient.poll.ripcSendDataC .unix .needed none [⟨0, [.sent 1]⟩, ⟨0, [.sent 2]⟩]
        twoPending).map (fun o => o.wire) = .error .outOfBounds := by rfl
    rw [hok] at hfault
    cases hfault

end Funra
