import Funra.Epoll.Send
import Funra.Epoll.Client

/-!
# Sending of the `poll` and the `select` client

`ripc_send_data_c` of `rsocket_poll.c` and `rsocket_select.c`, over `rsocket_send`. The loop offers the
operating system `count` bytes from `data_buff + total` in every round, where `count - total` are left. So
after a partial send the next one may take bytes behind `pos`.

`sent_len` is an `int` whose address is passed as a `size_t*`, and `rsocket_send` stores eight bytes there, the
upper four of them 0. What they overwrite is up to the compiler (`Behind`). Where it is `count`, the loop ends
after its first `send`.

The operating system is a list of rounds, each with the results of its calls. A list that ends inside the
loop is a call that has not returned.
-/

namespace Funra

open CInt Mem

def socketInvalid : Int := -1

def EAGAIN : Int := 11
def EPIPE : Int := 32
def EPROTOTYPE : Int := 91
def EINPROGRESS : Int := 115
def WSAEWOULDBLOCK : Int := 10035

/-! ## `rsocket_send` -/

/-- What one `send` of the operating system does. A failure comes with what the code looks at then: whether the
timeout is over (`rtimeout_done`), and the result of `rsocket_waitfd`. On Windows a `send` of no bytes is one. -/
inductive SendResult
  | sent (k : Nat)
  | failed (errno : Int) (timedOut : Bool) (wait : Int)
  deriving DecidableEq

/-- The returned code, `*sent`, and the bytes that went out. -/
structure Sent where
  code : Int
  sent : Int
  bytes : Obj
  deriving DecidableEq

/-- `rsocket.c` has one `rsocket_send` for Windows and one for the others. -/
inductive Platform
  | unix | windows
  deriving DecidableEq

namespace Unix

/-- The loop; `data` is a position in the object `mem`. -/
def sendLoop (mem : Obj) (data : Int) : List SendResult → Except Fault (Option Sent)
  | [] => .ok none
  | .sent k :: _ => (load mem data k).map fun bytes => some ⟨rcodeIoDone, k, bytes⟩
  | .failed errno timedOut _ :: rest =>
    if timedOut then .ok (some ⟨rcodeIoTimeout, 0, []⟩)
    else if errno = EPIPE then .ok (some ⟨rcodeIoClosed, 0, []⟩)
    else if errno = EPROTOTYPE ∨ errno = EINTR then sendLoop mem data rest
    else if errno ≠ EAGAIN ∧ errno ≠ EINPROGRESS then .ok (some ⟨errno, 0, []⟩)
    else .ok (some ⟨rcodeIoDone, 0, []⟩)

end Unix

namespace Windows

def sendLoop (mem : Obj) (data : Int) : List SendResult → Except Fault (Option Sent)
  | [] => .ok none
  | .sent k :: _ => (load mem data k).map fun bytes => some ⟨rcodeIoDone, k, bytes⟩
  | .failed errno _ wait :: rest =>
    if errno ≠ WSAEWOULDBLOCK then .ok (some ⟨errno, 0, []⟩)
    else if wait ≠ rcodeIoDone then .ok (some ⟨wait, 0, []⟩)
    else sendLoop mem data rest

end Windows

def Platform.sendLoop : Platform → Obj → Int → List SendResult → Except Fault (Option Sent)
  | .unix => Unix.sendLoop
  | .windows => Windows.sendLoop

def rsocketSend (p : Platform) (fd : Int) (mem : Obj) (data : Int) (sends : List SendResult) :
    Except Fault (Option Sent) :=
  if fd = socketInvalid then .ok (some ⟨rcodeIoClosed, 0, []⟩) else p.sendLoop mem data sends

/-! ## `ripc_send_data_c` -/

/-- What lies in the four bytes behind `sent_len`. They are `spare` when a `size_t` has the size of an `int`, or
nothing there is read before it is written (padding, `ret_code`) but by the operating system and the clock (`tm`).
Other objects are `needed`, such as a pointer. -/
inductive Behind
  | spare | count | needed
  deriving DecidableEq

/-- On Windows `rsocket_send` takes an `int*`. -/
def Behind.on (b : Behind) : Platform → Behind
  | .unix => b
  | .windows => .spare

/-- The value of `count` after a store to `*sent`: its upper half is 0, as no more than `count` bytes are sent. -/
def Behind.store (b : Behind) (count : Int) : Except Fault Int :=
  match b with
  | .spare => .ok count
  | .count => .ok 0
  | .needed => .error .outOfBounds

/-- The operating system in one round of the loop: the result of `rsocket_check_fd` (in `rsocket_poll.c`
only), and of each `send`. -/
structure SendRound where
  check : Int
  sends : List SendResult
  deriving DecidableEq

/-- A connected client; `released` when `ripc_close_c` has given its buffers back. -/
structure SocketClient where
  ds : RipcDataSource
  stream : Option Int
  released : Bool

/-- The loop when it ends: `none` while it waits for the operating system. -/
structure SendLoopEnd where
  code : Option Int
  total : Int
  wire : Obj
  deriving DecidableEq

/-- What a call leaves: its code, the client, the bytes it has sent, and whether it came to its `rbuffer_skip`. -/
structure SendOutcome where
  code : Option Int
  client : SocketClient
  wire : Obj
  skipped : Bool

def ipcError (code : Int) : Int := if code = rcodeIoTimeout then rcodeErrIpcTimeout else rcodeErrIpcDisconnect

namespace PollClient

/-- The bytes to send are `count` from `data` on. -/
def sendLoop (p : Platform) (b : Behind) (fd : Int) (mem : Obj) (data : Int) :
    List SendRound → Int → Int → Obj → Except Fault SendLoopEnd
  | rounds, count, total, wire =>
    if total < count then
      match rounds with
      | [] => .ok ⟨none, total, wire⟩
      | r :: rounds =>
        if r.check ≠ rcodeIoDone then .ok ⟨some r.check, total, wire⟩
        else
          match (b.on p).store count with
          | .error f => .error f
          | .ok count =>
            match rsocketSend p fd mem (data + total) r.sends with
            | .error f => .error f
            | .ok none => .ok ⟨none, total, wire⟩
            | .ok (some s) =>
              let total := int32 (total + s.sent)
              let wire := wire ++ s.bytes
              if total ≥ count then .ok ⟨some rcodeIoDone, total, wire⟩
              else if s.code ≠ rcodeIoDone then .ok ⟨some (ipcError s.code), total, wire⟩
              else sendLoop p b fd mem data rounds count total wire
    else .ok ⟨some rcodeIoDone, total, wire⟩

end PollClient

namespace SelectClient

/-- A code other than `rcodeIoDone` leaves the loop for the close. -/
def sendLoop (p : Platform) (b : Behind) (fd : Int) (mem : Obj) (data : Int) :
    List SendRound → Int → Int → Obj → Except Fault SendLoopEnd
  | rounds, count, total, wire =>
    if total < count then
      match rounds with
      | [] => .ok ⟨none, total, wire⟩
      | r :: rounds =>
        match (b.on p).store count with
        | .error f => .error f
        | .ok count =>
          match rsocketSend p fd mem (data + total) r.sends with
          | .error f => .error f
          | .ok none => .ok ⟨none, total, wire⟩
          | .ok (some s) =>
            if s.code ≠ rcodeIoDone then .ok ⟨some s.code, total, wire⟩
            else sendLoop p b fd mem data rounds count (int32 (total + s.sent)) (wire ++ s.bytes)
    else .ok ⟨some rcodeIoDone, total, wire⟩

def ripcCloseC (s : SocketClient) : SocketClient :=
  if s.ds.state = .closed ∨ s.stream = none then s
  else
    let s := if s.ds.state = .ready ∨ s.ds.state = .disconnect ∨ s.ds.state = .start ∨ s.ds.state = .stop then
        { s with released := true, stream := none }
      else s
    { s with ds := { s.ds with state := .closed } }

end SelectClient

inductive PollingClient
  | poll | select
  deriving DecidableEq

namespace SocketClient

def skipSent (s : SocketClient) (total : Int) : SocketClient :=
  { s with ds := { s.ds with writeBuff := s.ds.writeBuff.skip total } }

end SocketClient

namespace PollingClient

def sendLoop (c : PollingClient) (p : Platform) (b : Behind) (fd : Int) (d : Rbuffer) (rounds : List SendRound) :
    Except Fault SendLoopEnd :=
  match c with
  | .poll => PollClient.sendLoop p b fd d.data d.offset rounds d.size 0 []
  | .select => SelectClient.sendLoop p b fd d.data d.offset rounds d.size 0 []

/-- What follows the loop: `rbuffer_skip`, or the close of the `select` client. -/
def finish (c : PollingClient) (s : SocketClient) (e : SendLoopEnd) : SendOutcome :=
  match e.code with
  | none => ⟨none, s, e.wire, false⟩
  | some code =>
    match c with
    | .poll => ⟨some code, s.skipSent e.total, e.wire, true⟩
    | .select =>
      if code ≠ rcodeIoDone then ⟨some (ipcError code), SelectClient.ripcCloseC s, e.wire, false⟩
      else ⟨some 0, s.skipSent e.total, e.wire, true⟩

/-- The part of the call behind the handler. -/
def transmit (c : PollingClient) (p : Platform) (b : Behind) (rounds : List SendRound) (s : SocketClient) :
    Except Fault SendOutcome :=
  match s.stream with
  | none => .error .nullDeref
  | some fd => (c.sendLoop p b fd s.ds.writeBuff rounds).map (c.finish s)

def ripcSendDataC (c : PollingClient) (p : Platform) (b : Behind) (out : Option HandlerProcess) (rounds : List SendRound)
    (s : SocketClient) : Except Fault SendOutcome :=
  if s.ds.state ≠ .start then .ok ⟨some rcodeErrIpcDisconnect, s, [], false⟩
  else
    match runHandler out s.ds with
    | .error f => .error f
    | .ok (code, ds) =>
      if code ≠ rcodeErrOk then .ok ⟨some code, { s with ds }, [], false⟩
      else c.transmit p b rounds { s with ds }

end PollingClient

/-! ## What the operating system takes -/

namespace SendResult

/-- `rsocket_send` tries again. -/
def retried (p : Platform) : SendResult → Bool
  | .sent _ => false
  | .failed errno timedOut wait =>
    match p with
    | .unix => !timedOut && (errno == EPROTOTYPE || errno == EINTR)
    | .windows => errno == WSAEWOULDBLOCK && wait == rcodeIoDone

/-- `rsocket_send` returns `rcode_io_done` with nothing sent, and the client tries again. -/
def deferred (p : Platform) : SendResult → Bool
  | .sent _ => false
  | .failed errno timedOut _ =>
    match p with
    | .unix => !timedOut && (errno == EAGAIN || errno == EINPROGRESS || errno == 0)
    | .windows => errno == 0

end SendResult

/-- The bytes taken by the first `send` that is not repeated; `none` when it fails for good. -/
def takenBy (p : Platform) (sends : List SendResult) : Option Nat :=
  match sends.dropWhile (SendResult.retried p) with
  | [] => none
  | .sent k :: _ => some k
  | r :: _ => if r.deferred p then some 0 else none

def SendRound.taken (c : PollingClient) (p : Platform) (fd : Int) (r : SendRound) : Option Nat :=
  if fd = socketInvalid ∨ (c = .poll ∧ r.check ≠ rcodeIoDone) then none else takenBy p r.sends

/-- No `send` takes more than what is left of `left` bytes. -/
def Within (taken : SendRound → Option Nat) : Nat → List SendRound → Prop
  | _, [] => True
  | left, r :: rounds =>
    match taken r with
    | none => True
    | some k => left = 0 ∨ (k ≤ left ∧ Within taken (left - k) rounds)

instance Within.decidable (taken : SendRound → Option Nat) :
    (left : Nat) → (rounds : List SendRound) → Decidable (Within taken left rounds)
  | _, [] => .isTrue trivial
  | left, r :: rounds => by
    have hrest (k : Nat) := Within.decidable taken (left - k) rounds
    unfold Within
    cases taken r <;> exact inferInstance

/-- The call does not take a round in which nothing is sent for a success. Behind the store `total` has reached
`count`, and the `poll` client looks at that before the code; so it is only told by `rsocket_check_fd`, or while
`rsocket_send` does not return. -/
def SendRound.Reported (c : PollingClient) (p : Platform) (fd : Int) (r : SendRound) : Prop :=
  c = .select ∨ r.check ≠ rcodeIoDone ∨ fd ≠ socketInvalid ∧ r.sends.dropWhile (SendResult.retried p) = []

/-- What the operating system takes when there are `left` bytes to send. With `count` overwritten there is only one
`send`. -/
def RoundsFit (c : PollingClient) (p : Platform) (b : Behind) (fd : Int) (left : Nat) (rounds : List SendRound) :
    Prop :=
  match b.on p with
  | .spare => Within (SendRound.taken c p fd) left rounds
  | .count => left = 0 ∨ ∀ r ∈ rounds.head?,
      r.taken c p fd = some left ∨ r.taken c p fd = none ∧ r.Reported c p fd
  | .needed => left = 0 ∨ ∀ r ∈ rounds.head?, c = .poll ∧ r.check ≠ rcodeIoDone

/-! ### `rsocket_send` -/

section rsocketSend

variable {p : Platform} {fd data : Int} {mem : Obj} {r : SendResult} {rest sends : List SendResult} {k : Nat}

theorem sendLoop_retried (h : r.retried p = true) :
    p.sendLoop mem data (r :: rest) = p.sendLoop mem data rest := by
  cases r with
  | sent k => cases h
  | failed errno timedOut wait =>
    cases p with
    | unix =>
      simp only [SendResult.retried, Bool.and_eq_true, Bool.not_eq_true', Bool.or_eq_true, beq_iff_eq] at h
      obtain ⟨hin, hcode⟩ := h
      have hpipe : errno ≠ EPIPE := by
        rcases hcode with rfl | rfl <;> decide
      simp only [Platform.sendLoop, Unix.sendLoop, hin, Bool.false_eq_true, if_false, if_neg hpipe,
        if_pos hcode]
    | windows =>
      simp only [SendResult.retried, Bool.and_eq_true, beq_iff_eq] at h
      simp [Platform.sendLoop, Windows.sendLoop, h.1, h.2]

theorem sendLoop_deferred (h : r.deferred p = true) :
    p.sendLoop mem data (r :: rest) = .ok (some ⟨rcodeIoDone, 0, []⟩) := by
  cases r with
  | sent k => cases h
  | failed errno timedOut wait =>
    cases p with
    | unix =>
      simp only [SendResult.deferred, Bool.and_eq_true, Bool.not_eq_true', Bool.or_eq_true, beq_iff_eq] at h
      obtain ⟨rfl, (rfl | rfl) | rfl⟩ := h <;> rfl
    | windows =>
      obtain rfl := beq_iff_eq.mp h
      rfl

/-- Every other failure ends the call with a code that is not `rcode_io_done`. -/
theorem sendLoop_failed {errno wait : Int} {timedOut : Bool} (hr : r = .failed errno timedOut wait)
    (hretried : r.retried p ≠ true) (hdeferred : r.deferred p ≠ true) :
    ∃ code, code ≠ rcodeIoDone ∧ p.sendLoop mem data (r :: rest) = .ok (some ⟨code, 0, []⟩) := by
  subst hr
  cases p with
  | unix =>
    simp only [Platform.sendLoop, Unix.sendLoop]
    cases timedOut with
    | true => exact ⟨rcodeIoTimeout, by decide, rfl⟩
    | false =>
      simp only [SendResult.retried, SendResult.deferred, Bool.not_false, Bool.true_and, Bool.or_eq_true,
        beq_iff_eq, ne_eq, not_or] at hretried hdeferred
      by_cases hpipe : errno = EPIPE
      · exact ⟨rcodeIoClosed, by decide, by simp [hpipe]⟩
      · refine ⟨errno, hdeferred.2, ?_⟩
        simp [hpipe, hretried, hdeferred]
  | windows =>
    simp only [SendResult.retried, SendResult.deferred, Bool.and_eq_true, beq_iff_eq, ne_eq, not_and]
      at hretried hdeferred
    simp only [Platform.sendLoop, Windows.sendLoop]
    by_cases hblock : errno = WSAEWOULDBLOCK
    · exact ⟨wait, hretried hblock, by simp [hblock, hretried hblock]⟩
    · exact ⟨errno, hdeferred, by simp [hblock]⟩

/-- The repeated attempts leave no trace. -/
theorem sendLoop_dropWhile (sends : List SendResult) :
    p.sendLoop mem data sends = p.sendLoop mem data (sends.dropWhile (SendResult.retried p)) := by
  induction sends with
  | nil => rfl
  | cons r rest ih =>
    by_cases h : r.retried p = true
    · rw [sendLoop_retried h, ih, List.dropWhile_cons_of_pos h]
    · rw [List.dropWhile_cons_of_neg h]

theorem load_zero (hlo : 0 ≤ data) (hhi : data ≤ mem.length) : load mem data 0 = .ok [] := by
  rw [load, if_pos (by omega)]
  exact congrArg Except.ok (window_zero mem _)

/-- A `send` that takes `k` bytes sends those at `data`. -/
theorem rsocketSend_taken (hfd : fd ≠ socketInvalid) (hlo : 0 ≤ data) (hhi : data ≤ mem.length)
    (h : takenBy p sends = some k) :
    rsocketSend p fd mem data sends = (load mem data k).map fun bytes => some ⟨rcodeIoDone, k, bytes⟩ := by
  rw [rsocketSend, if_neg hfd, sendLoop_dropWhile]
  unfold takenBy at h
  match hdrop : sends.dropWhile (SendResult.retried p) with
  | [] =>
    rw [hdrop] at h
    cases h
  | .sent j :: rest =>
    rw [hdrop] at h
    cases h
    cases p <;> rfl
  | .failed errno timedOut wait :: rest =>
    rw [hdrop] at h
    dsimp only at h
    split at h
    · rename_i hdeferred
      cases h
      rw [sendLoop_deferred hdeferred, Nat.cast_zero, load_zero hlo hhi]
      rfl
    · cases h

theorem rsocketSend_waits (mem : Obj) (data : Int) (hfd : fd ≠ socketInvalid)
    (hdrop : sends.dropWhile (SendResult.retried p) = []) : rsocketSend p fd mem data sends = .ok none := by
  rw [rsocketSend, if_neg hfd, sendLoop_dropWhile, hdrop]
  cases p <;> rfl

theorem rsocketSend_fails (mem : Obj) (data : Int) (h : fd = socketInvalid ∨ takenBy p sends = none)
    (hwaits : ¬ (fd ≠ socketInvalid ∧ sends.dropWhile (SendResult.retried p) = [])) :
    ∃ code, code ≠ rcodeIoDone ∧ rsocketSend p fd mem data sends = .ok (some ⟨code, 0, []⟩) := by
  by_cases hfd : fd = socketInvalid
  · exact ⟨rcodeIoClosed, by decide, by rw [rsocketSend, if_pos hfd]⟩
  have h := h.resolve_left hfd
  rw [rsocketSend, if_neg hfd, sendLoop_dropWhile]
  unfold takenBy at h
  match hdrop : sends.dropWhile (SendResult.retried p) with
  | [] => exact absurd ⟨hfd, hdrop⟩ hwaits
  | .sent j :: rest =>
    rw [hdrop] at h
    cases h
  | .failed errno timedOut wait :: rest =>
    rw [hdrop] at h
    dsimp only at h
    split at h
    · cases h
    · rename_i hdeferred
      have hretried : (SendResult.failed errno timedOut wait).retried p ≠ true := by
        have hhead := List.head?_dropWhile_not (SendResult.retried p) sends
        simpa [hdrop] using hhead
      exact sendLoop_failed rfl hretried hdeferred

/-- Otherwise nothing is sent: the call hangs, or returns a code that is not `rcode_io_done`. -/
theorem rsocketSend_not_taken (mem : List UInt8) (data : Int) (h : fd = socketInvalid ∨ takenBy p sends = none) :
    rsocketSend p fd mem data sends = .ok none ∨
      ∃ code, code ≠ rcodeIoDone ∧ rsocketSend p fd mem data sends = .ok (some ⟨code, 0, []⟩) := by
  by_cases hwaits : fd ≠ socketInvalid ∧ sends.dropWhile (SendResult.retried p) = []
  · exact .inl (rsocketSend_waits mem data hwaits.1 hwaits.2)
  · exact .inr (rsocketSend_fails mem data h hwaits)

end rsocketSend

/-! ### One round -/

/-- What a loop does with the buffer `d` in one round, `t` bytes being sent: `taken` says how many bytes the
operating system takes. -/
structure SendsRounds (taken : SendRound → Option Nat) (d : Rbuffer)
    (loop : List SendRound → Int → Obj → Except Fault SendLoopEnd) : Prop where
  done : ∀ {rounds wire}, loop rounds d.size wire = .ok ⟨some rcodeIoDone, d.size, wire⟩
  waits : ∀ {t wire}, t < d.size → loop [] t wire = .ok ⟨none, t, wire⟩
  stops : ∀ {r rounds t wire}, 0 ≤ t → t < d.size → taken r = none →
    ∃ code, code ≠ some rcodeIoDone ∧ loop (r :: rounds) t wire = .ok ⟨code, t, wire⟩
  goesOn : ∀ {r rounds t wire k}, 0 ≤ t → t < d.size → taken r = some k → t + k ≤ d.size →
    loop (r :: rounds) t wire = loop rounds (t + k) (wire ++ window d.data (d.offset + t).toNat k)
  exceeds : ∀ {r rounds t wire k e}, 0 ≤ t → t < d.size → taken r = some k → d.size < t + k →
    loop (r :: rounds) t wire = .ok e → wire.length + k ≤ e.wire.length

/-- What a loop does whose `count` is overwritten: it ends behind its first `send`, and takes what is not told for a
success. -/
structure SendsOnce (c : PollingClient) (p : Platform) (fd : Int) (d : Rbuffer)
    (loop : List SendRound → Except Fault SendLoopEnd) : Prop where
  waits : loop [] = .ok ⟨none, 0, []⟩
  stops : ∀ {r rounds}, r.taken c p fd = none → r.Reported c p fd →
    ∃ code, code ≠ some rcodeIoDone ∧ loop (r :: rounds) = .ok ⟨code, 0, []⟩
  loses : ∀ {r rounds}, r.taken c p fd = none → ¬ r.Reported c p fd →
    loop (r :: rounds) = .ok ⟨some rcodeIoDone, 0, []⟩
  ends : ∀ {r rounds} {k : Nat}, r.taken c p fd = some k → k ≤ d.size →
    loop (r :: rounds) = .ok ⟨some rcodeIoDone, k, window d.data d.offset.toNat k⟩
  exceeds : ∀ {r rounds k e}, r.taken c p fd = some k → loop (r :: rounds) = .ok e → k ≤ e.wire.length

section rounds

variable {c : PollingClient} {p : Platform} {b : Behind} {fd : Int} {d : Rbuffer} {r : SendRound} {t : Int} {k : Nat}

theorem SendRound.taken_some (htaken : r.taken c p fd = some k) :
    fd ≠ socketInvalid ∧ (c = .poll → r.check = rcodeIoDone) ∧ takenBy p r.sends = some k := by
  unfold SendRound.taken at htaken
  split at htaken
  · cases htaken
  · rename_i hor
    push Not at hor
    exact ⟨hor.1, hor.2, htaken⟩

theorem SendRound.taken_none (htaken : r.taken c p fd = none) (hcheck : c = .poll → r.check = rcodeIoDone) :
    fd = socketInvalid ∨ takenBy p r.sends = none := by
  unfold SendRound.taken at htaken
  split at htaken
  · rename_i hor
    exact .inl (hor.resolve_right fun hpoll => hpoll.2 (hcheck hpoll.1))
  · exact .inr htaken

theorem rsocketSend_pending (h : d.Wf) (h0 : 0 ≤ t) (ht : t < d.size) (htaken : r.taken c p fd = some k) :
    rsocketSend p fd d.data (d.offset + t) r.sends =
      (load d.data (d.offset + t) k).map fun bytes => some ⟨rcodeIoDone, k, bytes⟩ := by
  obtain ⟨hfd, -, hsends⟩ := SendRound.taken_some htaken
  obtain ⟨h1, h2, h3, h4, h5⟩ := h
  unfold Rbuffer.size at ht
  exact rsocketSend_taken hfd (by omega) (by omega) hsends

/-- The bytes of a `send` that takes no more than what is left. -/
theorem rsocketSend_fits (h : d.Wf) (h0 : 0 ≤ t) (ht : t < d.size) (htaken : r.taken c p fd = some k)
    (hk : t + k ≤ d.size) : rsocketSend p fd d.data (d.offset + t) r.sends =
      .ok (some ⟨rcodeIoDone, k, window d.data (d.offset + t).toNat k⟩) := by
  have hload : load d.data (d.offset + t) k = .ok (window d.data (d.offset + t).toNat k) := by
    obtain ⟨h1, h2, h3, h4, h5⟩ := h
    unfold Rbuffer.size at hk
    rw [load, if_pos (by omega), Int.toNat_natCast]
  rw [rsocketSend_pending h h0 ht htaken, hload]
  rfl

theorem size_lt (h : d.Wf) : d.size < 2147483648 := by
  obtain ⟨h1, h2, h3, h4, h5⟩ := h
  unfold Rbuffer.size
  omega

/-- The bytes of a `send` that returns, whatever it takes. -/
theorem rsocketSend_wire {sends : List SendResult} {data : Int} {mem : Obj} {s : Option Sent} {k : Nat}
    (hsend : rsocketSend p fd mem data sends = (load mem data k).map fun bytes => some ⟨rcodeIoDone, k, bytes⟩)
    (hrun : rsocketSend p fd mem data sends = .ok s) :
    ∃ bytes : Obj, s = some ⟨rcodeIoDone, k, bytes⟩ ∧ bytes.length = k := by
  rw [hsend] at hrun
  obtain ⟨bytes, hload, rfl⟩ := Except.of_map_ok hrun
  refine ⟨bytes, rfl, ?_⟩
  unfold load at hload
  split at hload
  · cases hload
    rw [window_length]
    omega
  · cases hload

/-! #### `poll` -/

/-- Nothing is taken back from the wire. -/
theorem PollClient.sendLoop_wire {mem : Obj} {data count : Int} {rounds : List SendRound} {t : Int} {wire : Obj}
    {e : SendLoopEnd} (hrun : PollClient.sendLoop p b fd mem data rounds count t wire = .ok e) :
    wire.length ≤ e.wire.length := by
  induction rounds generalizing count t wire with
  | nil =>
    unfold PollClient.sendLoop at hrun
    split at hrun <;> cases hrun <;> exact le_refl _
  | cons r rounds ih =>
    unfold PollClient.sendLoop at hrun
    split at hrun
    · dsimp only at hrun
      split at hrun
      · cases hrun
        exact le_refl _
      split at hrun
      · cases hrun
      split at hrun
      · cases hrun
      · cases hrun
        exact le_refl _
      · rename_i s _
        have happ : wire.length ≤ (wire ++ s.bytes).length := by simp
        split at hrun
        · cases hrun
          exact happ
        · split at hrun
          · cases hrun
            exact happ
          · exact happ.trans (ih hrun)
    · cases hrun
      exact le_refl _

/-- A `send` of `k` bytes that returns puts them on the wire. -/
theorem PollClient.sendLoop_sent (h : d.Wf) (h0 : 0 ≤ t) (ht : t < d.size) (htaken : r.taken .poll p fd = some k)
    {rounds : List SendRound} {wire : Obj} {e : SendLoopEnd}
    (hrun : PollClient.sendLoop p b fd d.data d.offset (r :: rounds) d.size t wire = .ok e) :
    wire.length + k ≤ e.wire.length := by
  have hcheck := (SendRound.taken_some htaken).2.1 rfl
  have hsend := rsocketSend_pending h h0 ht htaken
  unfold PollClient.sendLoop at hrun
  rw [if_pos ht] at hrun
  dsimp only at hrun
  rw [if_neg (by simp [hcheck])] at hrun
  split at hrun
  · cases hrun
  split at hrun
  · cases hrun
  · rename_i hnone
    obtain ⟨bytes, hs, -⟩ := rsocketSend_wire hsend hnone
    cases hs
  · rename_i s hsome
    obtain ⟨bytes, hs, hlen⟩ := rsocketSend_wire hsend hsome
    cases hs
    have happ : wire.length + k = (wire ++ bytes).length := by simp [hlen]
    rw [happ]
    split at hrun
    · cases hrun
      exact le_refl _
    · rw [if_neg (by simp)] at hrun
      exact PollClient.sendLoop_wire hrun

theorem PollClient.sendsRounds (h : d.Wf) (hb : b.on p = .spare) :
    SendsRounds (SendRound.taken .poll p fd) d fun rounds =>
      PollClient.sendLoop p b fd d.data d.offset rounds d.size where
  done := by
    intro rounds wire
    unfold PollClient.sendLoop
    rw [if_neg (lt_irrefl _)]
  waits := by
    intro t wire ht
    unfold PollClient.sendLoop
    rw [if_pos ht]
  stops := by
    intro r rounds t wire h0 ht hnone
    unfold PollClient.sendLoop
    rw [if_pos ht, hb]
    dsimp only [Behind.store]
    by_cases hcheck : r.check = rcodeIoDone
    · rw [if_neg (by simp [hcheck])]
      have htaken := SendRound.taken_none hnone fun _ => hcheck
      rcases rsocketSend_not_taken d.data (d.offset + t) htaken with hsend | ⟨code, hcode, hsend⟩
      · exact ⟨none, by simp, by rw [hsend]⟩
      · refine ⟨some (ipcError code), ?_, ?_⟩
        · unfold ipcError
          split <;> decide
        · have hlt := size_lt h
          rw [hsend]
          dsimp only
          rw [Int.add_zero, List.append_nil, int32_of_range (by omega) (by omega), if_neg (by omega),
            if_pos hcode]
    · exact ⟨some r.check, by simpa using hcheck, by rw [if_pos hcheck]⟩
  goesOn := by
    intro r rounds t wire k h0 ht htaken hk
    have hlt := size_lt h
    have hcheck := (SendRound.taken_some htaken).2.1 rfl
    rw [PollClient.sendLoop, if_pos ht, hb]
    dsimp only [Behind.store]
    rw [if_neg (by simp [hcheck]), rsocketSend_fits h h0 ht htaken hk]
    dsimp only
    rw [int32_of_range (by omega) (by omega)]
    by_cases hall : t + k = d.size
    · rw [hall, if_pos (le_refl _)]
      unfold PollClient.sendLoop
      rw [if_neg (lt_irrefl _)]
    · rw [if_neg (by omega), if_neg (by simp)]
  exceeds := fun h0 ht htaken _ hrun => PollClient.sendLoop_sent h h0 ht htaken hrun

theorem PollClient.sendsOnce (h : d.Wf) (hpos : 0 < d.size) (hb : b.on p = .count) :
    SendsOnce .poll p fd d fun rounds => PollClient.sendLoop p b fd d.data d.offset rounds d.size 0 [] where
  waits := by
    unfold PollClient.sendLoop
    rw [if_pos hpos]
  stops := by
    intro r rounds hnone hreported
    unfold PollClient.sendLoop
    rw [if_pos hpos, hb]
    dsimp only [Behind.store]
    by_cases hcheck : r.check = rcodeIoDone
    · obtain ⟨hfd, hdrop⟩ := (hreported.resolve_left nofun).resolve_left (not_not.mpr hcheck)
      rw [if_neg (not_not.mpr hcheck), rsocketSend_waits _ _ hfd hdrop]
      exact ⟨none, nofun, rfl⟩
    · exact ⟨some r.check, by simpa using hcheck, by rw [if_pos hcheck]⟩
  loses := by
    intro r rounds hnone hreported
    unfold SendRound.Reported at hreported
    push Not at hreported
    obtain ⟨-, hcheck, hwaits⟩ := hreported
    obtain ⟨code, hcode, hsend⟩ := rsocketSend_fails d.data (d.offset + 0)
      (SendRound.taken_none hnone fun _ => hcheck) (fun hboth => hwaits hboth.1 hboth.2)
    unfold PollClient.sendLoop
    rw [if_pos hpos, hb]
    dsimp only [Behind.store]
    rw [if_neg (not_not.mpr hcheck), hsend]
    rfl
  ends := by
    intro r rounds k htaken hk
    have hlt := size_lt h
    have hcheck := (SendRound.taken_some htaken).2.1 rfl
    unfold PollClient.sendLoop
    rw [if_pos hpos, hb]
    dsimp only [Behind.store]
    rw [if_neg (not_not.mpr hcheck), rsocketSend_fits h (le_refl 0) hpos htaken (by omega)]
    dsimp only
    rw [int32_of_range (by omega) (by omega), if_pos (by omega), Int.zero_add, Int.add_zero, List.nil_append]
  exceeds := by
    intro r rounds k e htaken hrun
    have hwire := PollClient.sendLoop_sent h (le_refl 0) hpos htaken hrun
    rwa [List.length_nil, Nat.zero_add] at hwire

/-! #### `select` -/

theorem SelectClient.sendLoop_wire {mem : Obj} {data count : Int} {rounds : List SendRound} {t : Int} {wire : Obj}
    {e : SendLoopEnd} (hrun : SelectClient.sendLoop p b fd mem data rounds count t wire = .ok e) :
    wire.length ≤ e.wire.length := by
  induction rounds generalizing count t wire with
  | nil =>
    unfold SelectClient.sendLoop at hrun
    split at hrun <;> cases hrun <;> exact le_refl _
  | cons r rounds ih =>
    unfold SelectClient.sendLoop at hrun
    split at hrun
    · dsimp only at hrun
      split at hrun
      · cases hrun
      split at hrun
      · cases hrun
      · cases hrun
        exact le_refl _
      · rename_i s _
        have happ : wire.length ≤ (wire ++ s.bytes).length := by simp
        split at hrun
        · cases hrun
          exact le_refl _
        · exact happ.trans (ih hrun)
    · cases hrun
      exact le_refl _

theorem SelectClient.sendLoop_sent (h : d.Wf) (h0 : 0 ≤ t) (ht : t < d.size)
    (htaken : r.taken .select p fd = some k) {rounds : List SendRound} {wire : Obj} {e : SendLoopEnd}
    (hrun : SelectClient.sendLoop p b fd d.data d.offset (r :: rounds) d.size t wire = .ok e) :
    wire.length + k ≤ e.wire.length := by
  have hsend := rsocketSend_pending h h0 ht htaken
  unfold SelectClient.sendLoop at hrun
  rw [if_pos ht] at hrun
  dsimp only at hrun
  split at hrun
  · cases hrun
  split at hrun
  · cases hrun
  · rename_i hnone
    obtain ⟨bytes, hs, -⟩ := rsocketSend_wire hsend hnone
    cases hs
  · rename_i s hsome
    obtain ⟨bytes, hs, hlen⟩ := rsocketSend_wire hsend hsome
    cases hs
    rw [if_neg (by simp)] at hrun
    have happ : wire.length + k = (wire ++ bytes).length := by simp [hlen]
    rw [happ]
    exact SelectClient.sendLoop_wire hrun

theorem SelectClient.sendsRounds (h : d.Wf) (hb : b.on p = .spare) :
    SendsRounds (SendRound.taken .select p fd) d fun rounds =>
      SelectClient.sendLoop p b fd d.data d.offset rounds d.size where
  done := by
    intro rounds wire
    unfold SelectClient.sendLoop
    rw [if_neg (lt_irrefl _)]
  waits := by
    intro t wire ht
    unfold SelectClient.sendLoop
    rw [if_pos ht]
  stops := by
    intro r rounds t wire h0 ht hnone
    have htaken := SendRound.taken_none hnone nofun
    unfold SelectClient.sendLoop
    rw [if_pos ht, hb]
    dsimp only [Behind.store]
    rcases rsocketSend_not_taken d.data (d.offset + t) htaken with hsend | ⟨code, hcode, hsend⟩
    · exact ⟨none, by simp, by rw [hsend]⟩
    · exact ⟨some code, by simpa using hcode, by rw [hsend]; dsimp only; rw [if_pos hcode]⟩
  goesOn := by
    intro r rounds t wire k h0 ht htaken hk
    have hlt := size_lt h
    rw [SelectClient.sendLoop, if_pos ht, hb]
    dsimp only [Behind.store]
    rw [rsocketSend_fits h h0 ht htaken hk]
    dsimp only
    rw [if_neg (by simp), int32_of_range (by omega) (by omega)]
  exceeds := fun h0 ht htaken _ hrun => SelectClient.sendLoop_sent h h0 ht htaken hrun

theorem SelectClient.sendsOnce (h : d.Wf) (hpos : 0 < d.size) (hb : b.on p = .count) :
    SendsOnce .select p fd d fun rounds => SelectClient.sendLoop p b fd d.data d.offset rounds d.size 0 [] where
  waits := by
    unfold SelectClient.sendLoop
    rw [if_pos hpos]
  stops := by
    intro r rounds hnone _
    have htaken := SendRound.taken_none hnone nofun
    unfold SelectClient.sendLoop
    rw [if_pos hpos, hb]
    dsimp only [Behind.store]
    rcases rsocketSend_not_taken d.data (d.offset + 0) htaken with hsend | ⟨code, hcode, hsend⟩
    · exact ⟨none, by simp, by rw [hsend]⟩
    · exact ⟨some code, by simpa using hcode, by rw [hsend]; dsimp only; rw [if_pos hcode]⟩
  loses := fun _ hreported => absurd (.inl rfl) hreported
  ends := by
    intro r rounds k htaken hk
    have hlt := size_lt h
    unfold SelectClient.sendLoop
    rw [if_pos hpos, hb]
    dsimp only [Behind.store]
    rw [rsocketSend_fits h (le_refl 0) hpos htaken (by omega)]
    dsimp only
    rw [if_neg (by simp), int32_of_range (by omega) (by omega), Int.zero_add, Int.add_zero, List.nil_append]
    unfold SelectClient.sendLoop
    rw [if_neg (by omega)]
  exceeds := by
    intro r rounds k e htaken hrun
    have hwire := SelectClient.sendLoop_sent h (le_refl 0) hpos htaken hrun
    rwa [List.length_nil, Nat.zero_add] at hwire

end rounds

/-! ### The whole loop -/

/-- The bytes sent are the first `total` unread ones, all of them when the code is `rcode_io_done`. -/
structure SendLoopEnd.Exact (d : Rbuffer) (e : SendLoopEnd) : Prop where
  total_nonneg : 0 ≤ e.total
  total_le : e.total ≤ d.size
  wire : e.wire = d.unread.take e.total.toNat
  all : e.code = some rcodeIoDone → e.total = d.size

section loop

variable {taken : SendRound → Option Nat} {d : Rbuffer} {loop : List SendRound → Int → Obj → Except Fault SendLoopEnd}

/-- The next `k` unread bytes join the first `t`. -/
theorem take_unread_add (h : d.Wf) {t : Int} {k : Nat} (h0 : 0 ≤ t) (hk : t + k ≤ d.size) :
    d.unread.take t.toNat ++ window d.data (d.offset + t).toNat k = d.unread.take (t + k).toNat := by
  obtain ⟨h1, h2, h3, h4, h5⟩ := h
  have hwindow (n : Nat) (hn : n ≤ d.size) : d.unread.take n = window d.data d.offset.toNat n := by
    rw [Rbuffer.unread, window, window, List.take_take]
    congr 1
    omega
  rw [hwindow _ (by omega), hwindow _ (by omega), show (d.offset + t).toNat = d.offset.toNat + t.toNat by omega,
    window_append_window]
  congr 1
  omega

/-- Induction on the rounds: `t` bytes are sent, those in front of the unread ones. -/
theorem SendsRounds.within (hloop : SendsRounds taken d loop) (h : d.Wf) {rounds : List SendRound} {t : Int}
    (h0 : 0 ≤ t) (ht : t ≤ d.size) (hwithin : Within taken (d.size - t).toNat rounds) :
    ∃ e, loop rounds t (d.unread.take t.toNat) = .ok e ∧ e.Exact d := by
  have hlen := h.length_unread
  induction rounds generalizing t with
  | nil =>
    by_cases hall : t = d.size
    · subst hall
      exact ⟨_, hloop.done, h0, le_refl _, rfl, fun _ => rfl⟩
    · exact ⟨_, hloop.waits (by omega), h0, ht, rfl, fun hcode => nomatch hcode⟩
  | cons r rounds ih =>
    by_cases hall : t = d.size
    · subst hall
      exact ⟨_, hloop.done, h0, le_refl _, rfl, fun _ => rfl⟩
    unfold Within at hwithin
    match htaken : taken r with
    | none =>
      obtain ⟨code, hcode, hrun⟩ : ∃ code, code ≠ some rcodeIoDone ∧
          loop (r :: rounds) t (d.unread.take t.toNat) = .ok ⟨code, t, d.unread.take t.toNat⟩ :=
        hloop.stops h0 (by omega) htaken
      exact ⟨_, hrun, h0, ht, rfl, fun hdone => absurd hdone hcode⟩
    | some k =>
      rw [htaken] at hwithin
      dsimp only at hwithin
      obtain ⟨hk, hrest⟩ := hwithin.resolve_left (by omega)
      have hfit : t + k ≤ d.size := by omega
      rw [show (d.size - t).toNat - k = (d.size - (t + k)).toNat by omega] at hrest
      rw [hloop.goesOn h0 (by omega) htaken hfit, take_unread_add h h0 hfit]
      exact ih (by omega) hfit hrest

/-- The first `send` that takes more than what is left puts more on the wire than there is. -/
theorem SendsRounds.exceeded (hloop : SendsRounds taken d loop) (h : d.Wf) {rounds : List SendRound} {t : Int}
    (h0 : 0 ≤ t) (ht : t ≤ d.size) (hwithin : ¬ Within taken (d.size - t).toNat rounds) {e : SendLoopEnd}
    (hrun : loop rounds t (d.unread.take t.toNat) = .ok e) : d.unread.length < e.wire.length := by
  have hlen := h.length_unread
  induction rounds generalizing t with
  | nil => exact absurd trivial hwithin
  | cons r rounds ih =>
    unfold Within at hwithin
    match htaken : taken r with
    | none =>
      rw [htaken] at hwithin
      exact absurd trivial hwithin
    | some k =>
      rw [htaken] at hwithin
      dsimp only at hwithin
      push Not at hwithin
      obtain ⟨hleft, hrest⟩ := hwithin
      by_cases hfit : t + k ≤ d.size
      · rw [hloop.goesOn h0 (by omega) htaken hfit, take_unread_add h h0 hfit] at hrun
        refine ih (by omega) hfit ?_ hrun
        rw [show (d.size - (t + k)).toNat = (d.size - t).toNat - k by omega]
        exact hrest (by omega)
      · have hwire := hloop.exceeds h0 (by omega) htaken (by omega) hrun
        rw [List.length_take] at hwire
        omega

end loop

end Funra
