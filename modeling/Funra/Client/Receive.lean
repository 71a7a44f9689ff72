import Funra.Client.Send

/-!
# Receiving of the `poll` and the `select` client

`ripc_receive_data_c` of `rsocket_poll.c` and `rsocket_select.c`, over `rsocket_recv`. As in sending, every
round asks for the `count` bytes that were free at entry, at `data_buff + total`. The bytes stay inside the
buffer exactly when all that the rounds store fits into what was free (`receivesWithin_iff`).

The operating system is a list of rounds, each with the results of its calls. A list that ends inside the
loop is a call that has not returned.
-/

namespace Funra

open CInt Mem

def rcodeIoNothing : Int := 1

def WSAECONNRESET : Int := 10054

/-! ## `rsocket_recv` -/

/-- What one `recv` of the operating system does. It finds `bytes`, of which it stores as many as it is asked
for (storing none is the end of the connection), or fails, with what the code looks at then. -/
inductive RecvResult
  | found (bytes : Obj)
  | failed (errno : Int) (timedOut : Bool) (wait : Int)
  deriving DecidableEq

/-- `len` bytes from the position `start` on. -/
structure StoredRange where
  start : Int
  len : Int
  deriving DecidableEq

/-- The returned code, `*got`, the object, and where bytes went. -/
structure Received where
  code : Int
  got : Int
  mem : Obj
  stores : List StoredRange
  deriving DecidableEq

/-- A `recv` that does not fail: `data` is a position in the object `mem`. -/
def recvFound (mem : Obj) (data count : Int) (bytes : Obj) : Except Fault (Option Received) :=
  let bytes := bytes.take count.toNat
  if bytes = [] then .ok (some ⟨rcodeIoClosed, 0, mem, []⟩)
  else (store mem data bytes).map fun mem =>
    some ⟨rcodeIoDone, bytes.length, mem, [⟨data, bytes.length⟩]⟩

namespace Unix

def recvLoop (mem : Obj) (data count : Int) : List RecvResult → Except Fault (Option Received)
  | [] => .ok none
  | .found bytes :: _ => recvFound mem data count bytes
  | .failed errno timedOut _ :: rest =>
    if timedOut then .ok (some ⟨rcodeIoTimeout, 0, mem, []⟩)
    else if errno = EINTR then recvLoop mem data count rest
    else if errno ≠ EAGAIN ∧ errno ≠ EINPROGRESS then .ok (some ⟨errno, 0, mem, []⟩)
    else .ok (some ⟨rcodeIoDone, 0, mem, []⟩)

end Unix

namespace Windows

/-- A reset connection is tried once more. -/
def recvLoop (mem : Obj) (data count : Int) : Int → List RecvResult → Except Fault (Option Received)
  | _, [] => .ok none
  | _, .found bytes :: _ => recvFound mem data count bytes
  | prev, .failed errno _ wait :: rest =>
    if errno = WSAEWOULDBLOCK then .ok (some ⟨rcodeIoDone, 0, mem, []⟩)
    else if errno ≠ WSAECONNRESET ∨ prev = WSAECONNRESET then .ok (some ⟨errno, 0, mem, []⟩)
    else if wait ≠ rcodeIoDone then .ok (some ⟨wait, 0, mem, []⟩)
    else recvLoop mem data count errno rest

end Windows

def Platform.recvLoop : Platform → Obj → Int → Int → List RecvResult → Except Fault (Option Received)
  | .unix, mem, data, count, recvs => Unix.recvLoop mem data count recvs
  | .windows, mem, data, count, recvs => Windows.recvLoop mem data count rcodeIoDone recvs

def rsocketRecv (p : Platform) (fd : Int) (mem : Obj) (data count : Int) (recvs : List RecvResult) :
    Except Fault (Option Received) :=
  if fd = socketInvalid then .ok (some ⟨rcodeIoClosed, 0, mem, []⟩) else p.recvLoop mem data count recvs

/-! ## `ripc_receive_data_c` -/

/-- The operating system in one round of the loop: the result of `rsocket_check_fd` (in `rsocket_poll.c`
only), and of each `recv`. -/
structure RecvRound where
  check : Int
  recvs : List RecvResult
  deriving DecidableEq

/-- What the loop has done so far: `total`, the object of the buffer, and where bytes went. -/
structure ReceiveState where
  total : Int
  data : Obj
  stores : List StoredRange
  deriving DecidableEq

def ReceiveState.add (e : ReceiveState) (g : Received) : ReceiveState :=
  { total := int32 (e.total + g.got), data := g.mem, stores := e.stores ++ g.stores }

namespace PollClient

/-- Any result of `rsocket_check_fd` but `rcode_io_nothing` is followed by a `recv`. The code is `none` while
the loop waits for the operating system. -/
def receiveLoop (p : Platform) (fd dest count : Int) :
    List RecvRound → ReceiveState → Except Fault (Option Int × ReceiveState)
  | [], e => .ok (none, e)
  | r :: rounds, e =>
    if r.check = rcodeIoNothing then .ok (some rcodeIoDone, e)
    else
      match rsocketRecv p fd e.data (dest + e.total) count r.recvs with
      | .error f => .error f
      | .ok none => .ok (none, e)
      | .ok (some g) =>
        let e := e.add g
        if g.got = 0 then .ok (some g.code, e)
        else if g.code = rcodeIoDone then receiveLoop p fd dest count rounds e
        else .ok (some g.code, e)

/-- Both files close alike. -/
def ripcCloseC (s : SocketClient) : SocketClient := SelectClient.ripcCloseC s

end PollClient

namespace SelectClient

def receiveLoop (p : Platform) (fd dest count : Int) :
    List RecvRound → ReceiveState → Except Fault (Option Int × ReceiveState)
  | [], e => .ok (none, e)
  | r :: rounds, e =>
    match rsocketRecv p fd e.data (dest + e.total) count r.recvs with
    | .error f => .error f
    | .ok none => .ok (none, e)
    | .ok (some g) =>
      if g.got = 0 then .ok (some g.code, e)
      else
        let e := e.add g
        if g.code = rcodeIoDone then receiveLoop p fd dest count rounds e
        else .ok (some g.code, e)

end SelectClient

/-- What a call does: where it stores bytes, the `data_raw.len` it hands to the decoder, and its result, which
is a fault when the decoder's is one. -/
structure ReceiveOutcome where
  stores : List StoredRange
  announced : Option Int
  result : Except Fault (Option Int × SocketClient)

/-- The `process` of `in_handler`, given `data_raw.len`. -/
abbrev InputProcess := Int → HandlerProcess

/-- The object of `read_cache` after the loop. -/
def SocketClient.fill (s : SocketClient) (data : Obj) : SocketClient :=
  { s with ds := { s.ds with readCache := { s.ds.readCache with data } } }

namespace PollingClient

def receiveLoop (c : PollingClient) (p : Platform) (fd : Int) (d : Rbuffer) (rounds : List RecvRound) :
    Except Fault (Option Int × ReceiveState) :=
  match c with
  | .poll => PollClient.receiveLoop p fd d.pos d.left rounds ⟨0, d.data, []⟩
  | .select => SelectClient.receiveLoop p fd d.pos d.left rounds ⟨0, d.data, []⟩

def ripcCloseC : PollingClient → SocketClient → SocketClient
  | .poll => PollClient.ripcCloseC
  | .select => SelectClient.ripcCloseC

/-- The code after the loop: a timeout is none, and a closed connection is one only when nothing has come. -/
def receiveCode (code total : Int) : Int :=
  if code = rcodeIoTimeout then rcodeIoDone
  else if code = rcodeIoClosed then (if total > 0 then rcodeIoDone else rcodeIoClosed)
  else code

/-- The decoder works on what has come. -/
def deliver (input : Option InputProcess) (s : SocketClient) (e : ReceiveState) : ReceiveOutcome :=
  match input with
  | none => ⟨e.stores, none, .ok (some 0, s)⟩
  | some process =>
    if e.total > 0 then
      ⟨e.stores, some e.total, (process e.total s.ds).map fun (code, ds) =>
        (some (if code ≠ rcodeErrOk then rcodeErrIpcDecode else 0), { s with ds })⟩
    else ⟨e.stores, none, .ok (some 0, s)⟩

/-- What follows the loop. -/
def received (c : PollingClient) (input : Option InputProcess) (s : SocketClient) :
    Option Int × ReceiveState → ReceiveOutcome
  | (none, e) => ⟨e.stores, none, .ok (none, s.fill e.data)⟩
  | (some code, e) =>
    let s := s.fill e.data
    let code := receiveCode code e.total
    if code ≠ rcodeIoDone then ⟨e.stores, none, .ok (some (ipcError code), c.ripcCloseC s)⟩
    else deliver input s e

def ripcReceiveDataC (c : PollingClient) (p : Platform) (input : Option InputProcess)
    (rounds : List RecvRound) (s : SocketClient) : Except Fault ReceiveOutcome :=
  if s.ds.state ≠ .start then .ok ⟨[], none, .ok (some rcodeErrIpcDisconnect, s)⟩
  else
    match s.stream with
    | none => .error .nullDeref
    | some fd => (c.receiveLoop p fd s.ds.readCache rounds).map (c.received input s)

end PollingClient

/-! ## What arrives -/

namespace RecvResult

/-- `rsocket_recv` of `rsocket.c` for Unix tries again. -/
def interrupted : RecvResult → Bool
  | .found _ => false
  | .failed errno timedOut _ => !timedOut && errno == EINTR

/-- That for Windows does, once. -/
def reset : RecvResult → Bool
  | .found _ => false
  | .failed errno _ wait => errno == WSAECONNRESET && wait == rcodeIoDone

end RecvResult

/-- The result with which `rsocket_recv` returns. -/
def answer (p : Platform) (recvs : List RecvResult) : Option RecvResult :=
  match p with
  | .unix => (recvs.dropWhile RecvResult.interrupted).head?
  | .windows =>
    match recvs with
    | [] => none
    | r :: rest => if r.reset then rest.head? else some r

/-- The bytes that one `rsocket_recv` stores when it is asked for `count`. -/
def storedBy (p : Platform) (count : Int) (recvs : List RecvResult) : Obj :=
  match answer p recvs with
  | some (.found bytes) => bytes.take count.toNat
  | _ => []

def RecvRound.stored (c : PollingClient) (p : Platform) (fd count : Int) (r : RecvRound) : Obj :=
  if fd = socketInvalid ∨ (c = .poll ∧ r.check = rcodeIoNothing) then [] else storedBy p count r.recvs

/-- The bytes of the rounds, up to the first that brings none. -/
def arrivals (stored : RecvRound → Obj) : List RecvRound → Obj
  | [] => []
  | r :: rounds => if stored r = [] then [] else stored r ++ arrivals stored rounds

/-! ### `rsocket_recv` -/

section rsocketRecv

variable {p : Platform} {fd data count : Int} {mem : Obj} {recvs : List RecvResult}

/-- The bytes are stored where they are wanted. -/
def Stores (mem : Obj) (data : Int) (bytes : Obj) (call : Except Fault (Option Received)) : Prop :=
  call = (store mem data bytes).map fun mem =>
    some ⟨rcodeIoDone, bytes.length, mem, [⟨data, bytes.length⟩]⟩

/-- Nothing is stored: the call hangs or returns. -/
def StoresNothing (mem : Obj) (call : Except Fault (Option Received)) : Prop :=
  call = .ok none ∨ ∃ code, call = .ok (some ⟨code, 0, mem, []⟩)

theorem recvFound_stores {bytes : Obj} (h : bytes.take count.toNat ≠ []) :
    Stores mem data (bytes.take count.toNat) (recvFound mem data count bytes) := by
  unfold Stores recvFound
  dsimp only
  rw [if_neg h]

theorem recvFound_nothing {bytes : Obj} (h : bytes.take count.toNat = []) :
    StoresNothing mem (recvFound mem data count bytes) := by
  unfold recvFound
  dsimp only
  rw [if_pos h]
  exact .inr ⟨_, rfl⟩

theorem Unix.recvLoop_dropWhile (recvs : List RecvResult) : Unix.recvLoop mem data count recvs =
    Unix.recvLoop mem data count (recvs.dropWhile RecvResult.interrupted) := by
  induction recvs with
  | nil => rfl
  | cons r rest ih =>
    by_cases h : r.interrupted = true
    · rw [List.dropWhile_cons_of_pos h, ← ih]
      cases r with
      | found bytes => cases h
      | failed errno timedOut wait =>
        simp only [RecvResult.interrupted, Bool.and_eq_true, Bool.not_eq_true', beq_iff_eq] at h
        simp [Unix.recvLoop, h.1, h.2]
    · rw [List.dropWhile_cons_of_neg h]

/-- A failure that is not tried again stores nothing. -/
theorem Unix.recvLoop_failed {errno wait : Int} {timedOut : Bool} (rest : List RecvResult)
    (h : (RecvResult.failed errno timedOut wait).interrupted ≠ true) :
    StoresNothing mem (Unix.recvLoop mem data count (.failed errno timedOut wait :: rest)) := by
  unfold Unix.recvLoop
  split
  · exact .inr ⟨_, rfl⟩
  · rename_i hin
    rw [if_neg (by simpa [RecvResult.interrupted, hin] using h)]
    split
    · exact .inr ⟨_, rfl⟩
    · exact .inr ⟨_, rfl⟩

theorem Windows.recvLoop_failed {prev errno wait : Int} {timedOut : Bool} (rest : List RecvResult)
    (h : (RecvResult.failed errno timedOut wait).reset ≠ true ∨ prev = WSAECONNRESET) :
    StoresNothing mem (Windows.recvLoop mem data count prev (.failed errno timedOut wait :: rest)) := by
  unfold Windows.recvLoop
  split
  · exact .inr ⟨_, rfl⟩
  split
  · exact .inr ⟨_, rfl⟩
  rename_i hreset
  push Not at hreset
  split
  · exact .inr ⟨_, rfl⟩
  · rename_i hwait
    apply absurd h
    simp [RecvResult.reset, hreset.1, not_not.mp hwait, hreset.2]

/-- After the reset, the next result is the last. -/
theorem Windows.recvLoop_reset {errno wait : Int} {timedOut : Bool} (rest : List RecvResult)
    (h : (RecvResult.failed errno timedOut wait).reset = true) :
    Windows.recvLoop mem data count rcodeIoDone (.failed errno timedOut wait :: rest) =
      Windows.recvLoop mem data count WSAECONNRESET rest := by
  simp only [RecvResult.reset, Bool.and_eq_true, beq_iff_eq] at h
  obtain ⟨rfl, rfl⟩ := h
  rfl

/-- `rsocket_recv` stores the bytes of its answer, if any. -/
def Answers (mem : Obj) (data count : Int) (a : Option RecvResult) (call : Except Fault (Option Received)) : Prop :=
  match a with
  | some (.found bytes) => call = recvFound mem data count bytes
  | _ => StoresNothing mem call

theorem Platform.recvLoop_answers (p : Platform) (mem : Obj) (data count : Int) (recvs : List RecvResult) :
    Answers mem data count (answer p recvs) (p.recvLoop mem data count recvs) := by
  cases p with
  | unix =>
    have hhead := List.head?_dropWhile_not RecvResult.interrupted recvs
    rw [answer, Platform.recvLoop, Unix.recvLoop_dropWhile]
    match hdrop : recvs.dropWhile RecvResult.interrupted with
    | [] => exact .inl rfl
    | .found bytes :: rest => rfl
    | .failed errno timedOut wait :: rest =>
      apply Unix.recvLoop_failed rest
      simpa [hdrop] using hhead
  | windows =>
    match recvs with
    | [] => exact .inl rfl
    | .found bytes :: rest => rfl
    | .failed errno timedOut wait :: rest =>
      dsimp only [answer, Platform.recvLoop]
      by_cases hreset : (RecvResult.failed errno timedOut wait).reset = true
      · rw [if_pos hreset, Windows.recvLoop_reset rest hreset]
        match rest with
        | [] => exact .inl rfl
        | .found bytes :: rest => rfl
        | .failed errno timedOut wait :: rest => exact Windows.recvLoop_failed rest (.inr rfl)
      · rw [if_neg hreset]
        exact Windows.recvLoop_failed rest (.inl hreset)

theorem rsocketRecv_stores (hfd : fd ≠ socketInvalid) (h : storedBy p count recvs ≠ []) :
    Stores mem data (storedBy p count recvs) (rsocketRecv p fd mem data count recvs) := by
  have hans := p.recvLoop_answers mem data count recvs
  rw [rsocketRecv, if_neg hfd]
  unfold storedBy at h ⊢
  match hanswer : answer p recvs with
  | some (.found bytes) =>
    rw [hanswer] at hans h
    rw [show p.recvLoop mem data count recvs = recvFound mem data count bytes from hans]
    exact recvFound_stores h
  | some (.failed errno timedOut wait) =>
    rw [hanswer] at h
    exact absurd rfl h
  | none =>
    rw [hanswer] at h
    exact absurd rfl h

theorem rsocketRecv_nothing (mem : Obj) (data : Int) (h : fd = socketInvalid ∨ storedBy p count recvs = []) :
    StoresNothing mem (rsocketRecv p fd mem data count recvs) := by
  by_cases hfd : fd = socketInvalid
  · rw [rsocketRecv, if_pos hfd]
    exact .inr ⟨_, rfl⟩
  have hans := p.recvLoop_answers mem data count recvs
  have h := h.resolve_left hfd
  rw [rsocketRecv, if_neg hfd]
  unfold storedBy at h
  match hanswer : answer p recvs with
  | some (.found bytes) =>
    rw [hanswer] at hans h
    rw [show p.recvLoop mem data count recvs = recvFound mem data count bytes from hans]
    exact recvFound_nothing h
  | some (.failed errno timedOut wait) =>
    rw [hanswer] at hans
    exact hans
  | none =>
    rw [hanswer] at hans
    exact hans

end rsocketRecv

/-! ### One round -/

/-- What a loop does in one round, from `dest` on. -/
structure ReceivesRounds (stored : RecvRound → Obj) (dest : Int)
    (loop : List RecvRound → ReceiveState → Except Fault (Option Int × ReceiveState)) : Prop where
  waits : ∀ {e}, loop [] e = .ok (none, e)
  stops : ∀ {r} rounds {e}, 0 ≤ e.total → e.total < 2147483648 → stored r = [] →
    ∃ code, loop (r :: rounds) e = .ok (code, e)
  goesOn : ∀ {r rounds e data}, stored r ≠ [] → store e.data (dest + e.total) (stored r) = .ok data →
    loop (r :: rounds) e = loop rounds
      ⟨int32 (e.total + (stored r).length), data, e.stores ++ [⟨dest + e.total, (stored r).length⟩]⟩
  fails : ∀ {r rounds e f}, stored r ≠ [] → store e.data (dest + e.total) (stored r) = .error f →
    loop (r :: rounds) e = .error f

section rounds

variable {c : PollingClient} {p : Platform} {fd dest count : Int} {r : RecvRound}

theorem RecvRound.stored_ne_nil (h : r.stored c p fd count ≠ []) :
    fd ≠ socketInvalid ∧ (c = .poll → r.check ≠ rcodeIoNothing) ∧
      r.stored c p fd count = storedBy p count r.recvs := by
  unfold RecvRound.stored at h ⊢
  split at h
  · exact absurd rfl h
  · rename_i hor
    rw [if_neg hor]
    push Not at hor
    exact ⟨hor.1, hor.2, rfl⟩

theorem RecvRound.stored_eq_nil (h : r.stored c p fd count = []) (hcheck : c = .poll → r.check ≠ rcodeIoNothing) :
    fd = socketInvalid ∨ storedBy p count r.recvs = [] := by
  unfold RecvRound.stored at h
  split at h
  · rename_i hor
    exact .inl (hor.resolve_right fun hpoll => hcheck hpoll.1 hpoll.2)
  · exact .inr h

/-- The `rsocket_recv` of a round that stores something. -/
theorem rsocketRecv_round (mem : Obj) (data : Int) (h : r.stored c p fd count ≠ []) :
    Stores mem data (r.stored c p fd count) (rsocketRecv p fd mem data count r.recvs) := by
  obtain ⟨hfd, -, heq⟩ := RecvRound.stored_ne_nil h
  rw [heq] at h ⊢
  exact rsocketRecv_stores hfd h

theorem ReceiveState.add_nothing {e : ReceiveState} {code : Int} {mem : Obj} (h0 : 0 ≤ e.total)
    (ht : e.total < 2147483648) (hmem : mem = e.data) : e.add ⟨code, 0, mem, []⟩ = e := by
  subst hmem
  rw [ReceiveState.add, Int.add_zero, List.append_nil, int32_of_range (by omega) ht]

theorem length_ne_zero {bytes : Obj} (h : bytes ≠ []) : (bytes.length : Int) ≠ 0 := by
  have hpos := List.length_pos_iff.mpr h
  omega

theorem PollClient.receivesRounds (p : Platform) (fd dest count : Int) :
    ReceivesRounds (RecvRound.stored .poll p fd count) dest (PollClient.receiveLoop p fd dest count) where
  waits := rfl
  stops := by
    intro r rounds e h0 ht hnil
    unfold PollClient.receiveLoop
    by_cases hcheck : r.check = rcodeIoNothing
    · exact ⟨some rcodeIoDone, by rw [if_pos hcheck]⟩
    rw [if_neg hcheck]
    rcases rsocketRecv_nothing e.data (dest + e.total) (RecvRound.stored_eq_nil hnil fun _ => hcheck) with
      hrecv | ⟨code, hrecv⟩
    · exact ⟨none, by rw [hrecv]⟩
    · refine ⟨some code, ?_⟩
      rw [hrecv]
      dsimp only
      rw [if_pos rfl, ReceiveState.add_nothing h0 ht rfl]
  goesOn := by
    intro r rounds e data hne hstore
    have hrecv := rsocketRecv_round e.data (dest + e.total) hne
    unfold Stores at hrecv
    rw [PollClient.receiveLoop, if_neg ((RecvRound.stored_ne_nil hne).2.1 rfl), hrecv, hstore]
    dsimp only [Except.map]
    rw [if_neg (length_ne_zero hne), if_pos rfl]
    rfl
  fails := by
    intro r rounds e f hne hstore
    have hrecv := rsocketRecv_round e.data (dest + e.total) hne
    unfold Stores at hrecv
    rw [PollClient.receiveLoop, if_neg ((RecvRound.stored_ne_nil hne).2.1 rfl), hrecv, hstore]
    rfl

theorem SelectClient.receivesRounds (p : Platform) (fd dest count : Int) :
    ReceivesRounds (RecvRound.stored .select p fd count) dest (SelectClient.receiveLoop p fd dest count) where
  waits := rfl
  stops := by
    intro r rounds e h0 ht hnil
    unfold SelectClient.receiveLoop
    rcases rsocketRecv_nothing e.data (dest + e.total) (RecvRound.stored_eq_nil hnil nofun) with
      hrecv | ⟨code, hrecv⟩
    · exact ⟨none, by rw [hrecv]⟩
    · exact ⟨some code, by rw [hrecv]; exact if_pos rfl⟩
  goesOn := by
    intro r rounds e data hne hstore
    have hrecv := rsocketRecv_round e.data (dest + e.total) hne
    unfold Stores at hrecv
    rw [SelectClient.receiveLoop, hrecv, hstore]
    dsimp only [Except.map]
    rw [if_neg (length_ne_zero hne), if_pos rfl]
    rfl
  fails := by
    intro r rounds e f hne hstore
    have hrecv := rsocketRecv_round e.data (dest + e.total) hne
    unfold Stores at hrecv
    rw [SelectClient.receiveLoop, hrecv, hstore]
    rfl

end rounds

/-! ### The loop -/

/-- Everything so far stands in the buffer `d` from `pos` on. -/
structure ReceiveState.Inside (e : ReceiveState) (d : Rbuffer) (bytes : Obj) : Prop where
  total : e.total = bytes.length
  total_le : e.total ≤ d.left
  length : e.data.length = d.data.length
  content : window e.data d.pos.toNat bytes.length = bytes
  stores : ∀ st ∈ e.stores, d.pos ≤ st.start ∧ st.start + st.len ≤ d.capacity

section loop

variable {stored : RecvRound → Obj} {d : Rbuffer} {e : ReceiveState} {bytes more : Obj}
  {loop : List RecvRound → ReceiveState → Except Fault (Option Int × ReceiveState)}

theorem ReceiveState.Inside.start (h : d.Wf) : ReceiveState.Inside ⟨0, d.data, []⟩ d [] where
  total := rfl
  total_le := h.left_nonneg
  length := rfl
  content := window_zero d.data _
  stores := nofun

/-- Bytes that fit are stored behind the others. -/
theorem ReceiveState.Inside.append (h : d.Wf) (he : e.Inside d bytes) (hfit : e.total + more.length ≤ d.left) :
    ∃ data, store e.data (d.pos + e.total) more = .ok data ∧
      ReceiveState.Inside ⟨int32 (e.total + more.length), data, e.stores ++ [⟨d.pos + e.total, more.length⟩]⟩ d
        (bytes ++ more) := by
  obtain ⟨h1, h2, h3, h4, h5⟩ := h
  have htotal := he.total
  have hlen := he.length
  unfold Rbuffer.left at hfit
  have hroom : d.pos.toNat + bytes.length + more.length ≤ e.data.length := by omega
  have hat : d.pos + e.total = ((d.pos.toNat + bytes.length : Nat) : Int) := by omega
  refine ⟨overwrite e.data (d.pos.toNat + bytes.length) more, by rw [hat, store_ok hroom], ?_⟩
  have hint : int32 (e.total + more.length) = e.total + more.length :=
    int32_of_range (by omega) (by omega)
  constructor
  · simp only [hint, List.length_append]
    omega
  · simp only [hint, Rbuffer.left]
    omega
  · rw [overwrite_length _ _ _ hroom, hlen]
  · rw [List.length_append, window_overwrite_append _ _ _ _ hroom, he.content]
  · intro st hst
    rcases List.mem_append.mp hst with hst | hst
    · exact he.stores st hst
    · rw [List.mem_singleton.mp hst]
      dsimp only
      omega

/-- A loop whose bytes fit ends with all of them inside the buffer. -/
theorem ReceivesRounds.inside (hloop : ReceivesRounds stored d.pos loop) (h : d.Wf) {rounds : List RecvRound}
    (he : e.Inside d bytes) (hfit : e.total + (arrivals stored rounds).length ≤ d.left) :
    ∃ code e', loop rounds e = .ok (code, e') ∧ e'.Inside d (bytes ++ arrivals stored rounds) := by
  induction rounds generalizing e bytes with
  | nil => exact ⟨none, e, hloop.waits, by rwa [arrivals, List.append_nil]⟩
  | cons r rounds ih =>
    by_cases hnil : stored r = []
    · have hlt : e.total < 2147483648 := by
        have hle := he.total_le
        have hcap := h.capacity_lt
        have hpos := h.offset_nonneg.trans h.offset_le_pos
        unfold Rbuffer.left at hle
        omega
      obtain ⟨code, hrun⟩ := hloop.stops (r := r) rounds (by rw [he.total]; omega) hlt hnil
      exact ⟨code, e, hrun, by rwa [arrivals, if_pos hnil, List.append_nil]⟩
    · rw [arrivals, if_neg hnil, List.length_append] at hfit
      obtain ⟨data, hstore, hinside⟩ := he.append h (show e.total + (stored r).length ≤ d.left by omega)
      obtain ⟨code, e', hrun, he'⟩ := ih hinside (by rw [hinside.total, List.length_append, he.total] at *; omega)
      refine ⟨code, e', by rw [hloop.goesOn hnil hstore, hrun], ?_⟩
      rwa [arrivals, if_neg hnil, ← List.append_assoc]

/-- Bytes that do not fit are stored behind the buffer's end. -/
theorem ReceivesRounds.outside (hloop : ReceivesRounds stored d.pos loop) (h : d.Wf) {rounds : List RecvRound}
    (he : e.Inside d bytes) (hfit : d.left < e.total + (arrivals stored rounds).length) :
    loop rounds e = .error .outOfBounds := by
  induction rounds generalizing e bytes with
  | nil =>
    have hle := he.total_le
    simp only [arrivals, List.length_nil] at hfit
    omega
  | cons r rounds ih =>
    by_cases hnil : stored r = []
    · have hle := he.total_le
      rw [arrivals, if_pos hnil, List.length_nil] at hfit
      omega
    · rw [arrivals, if_neg hnil, List.length_append] at hfit
      by_cases hhead : e.total + (stored r).length ≤ d.left
      · obtain ⟨data, hstore, hinside⟩ := he.append h hhead
        rw [hloop.goesOn hnil hstore]
        apply ih hinside
        rw [hinside.total, List.length_append]
        have htotal := he.total
        omega
      · refine hloop.fails hnil ?_
        have hlen := he.length
        have hdata := h.length_data
        unfold Rbuffer.left at hhead
        rw [store, if_neg (by omega)]

end loop

/-! ## The call -/

/-- The bytes that the rounds of a call bring for the buffer `d`. -/
def PollingClient.arrivals (c : PollingClient) (p : Platform) (fd : Int) (d : Rbuffer) (rounds : List RecvRound) :
    Obj :=
  Funra.arrivals (RecvRound.stored c p fd d.left) rounds

theorem PollingClient.exists_rounds (c : PollingClient) (p : Platform) (fd : Int) (d : Rbuffer) :
    ∃ loop, ReceivesRounds (RecvRound.stored c p fd d.left) d.pos loop ∧
      ∀ rounds, c.receiveLoop p fd d rounds = loop rounds ⟨0, d.data, []⟩ := by
  cases c with
  | poll => exact ⟨_, PollClient.receivesRounds p fd d.pos d.left, fun rounds => rfl⟩
  | select => exact ⟨_, SelectClient.receivesRounds p fd d.pos d.left, fun rounds => rfl⟩

/-- Bytes that fit stand in the buffer when the decoder sees it, from `pos` on and in their order. -/
theorem PollingClient.receiveLoop_inside (c : PollingClient) (p : Platform) (fd : Int) {d : Rbuffer} (h : d.Wf)
    {rounds : List RecvRound} (hfit : (c.arrivals p fd d rounds).length ≤ d.left) :
    ∃ code e, c.receiveLoop p fd d rounds = .ok (code, e) ∧ e.Inside d (c.arrivals p fd d rounds) := by
  obtain ⟨loop, hloop, hrun⟩ := c.exists_rounds p fd d
  rw [hrun]
  refine hloop.inside h (ReceiveState.Inside.start h) ?_
  rwa [Int.zero_add]

theorem PollingClient.receiveLoop_outside (c : PollingClient) (p : Platform) (fd : Int) {d : Rbuffer} (h : d.Wf)
    {rounds : List RecvRound} (hfit : d.left < (c.arrivals p fd d rounds).length) :
    c.receiveLoop p fd d rounds = .error .outOfBounds := by
  obtain ⟨loop, hloop, hrun⟩ := c.exists_rounds p fd d
  rw [hrun]
  refine hloop.outside h (ReceiveState.Inside.start h) ?_
  rwa [Int.zero_add]

/-- Every byte stored lies behind `pos` and inside the buffer, and no more than the free bytes are announced. -/
def ReceivesWithin (d : Rbuffer) (call : Except Fault ReceiveOutcome) : Prop :=
  ∃ o, call = .ok o ∧ (∀ st ∈ o.stores, d.pos ≤ st.start ∧ st.start + st.len ≤ d.capacity) ∧
    ∀ n, o.announced = some n → n ≤ d.left

section call

variable {c : PollingClient} {p : Platform} {input : Option InputProcess} {rounds : List RecvRound}
  {s : SocketClient} {fd : Int} {code : Option Int} {e : ReceiveState}

theorem deliver_stores (input : Option InputProcess) (s : SocketClient) (e : ReceiveState) :
    (PollingClient.deliver input s e).stores = e.stores := by
  unfold PollingClient.deliver
  split
  · rfl
  · split <;> rfl

theorem deliver_announced {n : Int} (h : (PollingClient.deliver input s e).announced = some n) : n = e.total := by
  unfold PollingClient.deliver at h
  split at h
  · cases h
  · split at h
    · exact (Option.some.inj h).symm
    · cases h

@[simp] theorem received_stores (c : PollingClient) (input : Option InputProcess) (s : SocketClient)
    (code : Option Int) (e : ReceiveState) : (c.received input s (code, e)).stores = e.stores := by
  cases code with
  | none => rfl
  | some code =>
    dsimp only [PollingClient.received]
    split
    · rfl
    · exact deliver_stores input _ e

/-- What is announced is the total of the loop. -/
theorem received_announced {n : Int} (h : (c.received input s (code, e)).announced = some n) : n = e.total := by
  cases code with
  | none => cases h
  | some code =>
    dsimp only [PollingClient.received] at h
    split at h
    · cases h
    · exact deliver_announced h

/-- Exactly when a call stays inside the buffer. -/
theorem receivesWithin_iff (h : s.ds.readCache.Wf) (hfd : s.stream = some fd) :
    ReceivesWithin s.ds.readCache (c.ripcReceiveDataC p input rounds s) ↔
      (s.ds.state = .start → (c.arrivals p fd s.ds.readCache rounds).length ≤ s.ds.readCache.left) := by
  unfold PollingClient.ripcReceiveDataC
  by_cases hstart : s.ds.state = .start
  · rw [if_neg (not_not.mpr hstart), hfd]
    dsimp only
    constructor
    · rintro ⟨o, hok, -⟩ -
      by_contra hfit
      rw [c.receiveLoop_outside p fd h (Int.not_le.mp hfit)] at hok
      cases hok
    · intro hfit
      obtain ⟨code, e, hend, he⟩ := c.receiveLoop_inside p fd h (hfit hstart)
      rw [hend]
      refine ⟨_, rfl, ?_, ?_⟩
      · rw [received_stores]
        exact he.stores
      · intro n hn
        rw [received_announced hn]
        exact he.total_le
  · rw [if_pos hstart]
    refine iff_of_true ⟨_, rfl, ?_, ?_⟩ fun h => absurd h hstart
    · exact nofun
    · exact nofun

end call

/-- Nothing has been read yet, and two bytes are free. -/
def twoFree : SocketClient where
  ds := { dsId := 1, dsType := .client, state := .start, readCache := ⟨[0, 0], 0, 0, 2⟩,
          writeBuff := Rbuffer.create 0 [] }
  stream := some 5
  released := false

theorem twoFree_wf : twoFree.ds.readCache.Wf := ⟨by decide, by decide, by decide, by decide, by decide⟩

theorem receivesWithin_iff_split :
    ReceivesWithin twoFree.ds.readCache
        (PollingClient.poll.ripcReceiveDataC .unix none [⟨0, [.found [1]]⟩, ⟨0, [.found [2]]⟩, ⟨1, []⟩] twoFree) ↔
      (twoFree.ds.state = .start →
        (PollingClient.poll.arrivals .unix 5 twoFree.ds.readCache
          [⟨0, [.found [1]]⟩, ⟨0, [.found [2]]⟩, ⟨1, []⟩]).length ≤ twoFree.ds.readCache.left) :=
  receivesWithin_iff twoFree_wf rfl

/-- After one byte, two bytes are asked for again, and the second of them is stored behind the buffer. -/
theorem receives_beyond_capacity : ¬ ∀ (c : PollingClient) (p : Platform) (input : Option InputProcess)
    (rounds : List RecvRound) (s : SocketClient), s.ds.readCache.Wf → s.stream ≠ none →
      ReceivesWithin s.ds.readCache (c.ripcReceiveDataC p input rounds s) := by
  intro hall
  obtain ⟨o, hok, -⟩ := hall .poll .unix none [⟨0, [.found [1]]⟩, ⟨0, [.found [2, 3]]⟩] twoFree twoFree_wf (by decide)
  cases hok

end Funra
