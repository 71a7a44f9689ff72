import Funra.Client.Receive
import Funra.Lib.Ledger
import Funra.Lib.System

/-!
# The life of a `poll` or `select` client

`ripc_open_c` tries the addresses of `getaddrinfo` in order, on one socket as long as their family stays the same,
and puts the connected socket and two new buffers into the data source, whatever was there. `ripc_close_c` releases
what is there. Ledgers beside the client have the descriptors, and for every open that has succeeded its socket and
buffers, under the number of the open.

In every run what has not been released is what the client holds, and what it held when another open succeeded
(`client_releases`). Every other descriptor has been closed, also those of the addresses that were tried in vain.
-/

namespace Funra

open Mem System Ownership

/-! ### Opening -/

/-- An address, and what the calls for it give: `socket` and its error, `rsocket_setopt` in `rsocket_create`,
`rsocket_connect`, `rsocket_check_fd`, and whether the time is up then. -/
structure ConnectAddr where
  family : Int
  fd : Int
  errno : Int
  reuse : Int
  connect : Int
  check : Int
  timedOut : Bool

/-- `getaddrinfo` and its addresses, the options that the `poll` client sets, and the memory of the buffers. -/
structure ConnectEnv where
  gai : Int
  addrs : List ConnectAddr
  options : List Int
  readBlock : Obj
  writeBlock : Obj

def afInet : Int := 2

/-- The descriptor of the socket, and the ledger of all descriptors. -/
structure SocketFd where
  fd : Int
  fds : Ledger Int

def SocketFd.rsocketClose (s : SocketFd) : SocketFd :=
  if s.fd ≠ socketInvalid then ⟨socketInvalid, s.fds.free (some s.fd)⟩ else s

/-- Only the one for Unix sets `RSO_REUSEADDR`. -/
def rsocketCreate (p : Platform) (addr : ConnectAddr) (s : SocketFd) : Int × SocketFd :=
  if addr.fd ≠ socketInvalid then
    (match p with | .unix => addr.reuse | .windows => rcodeIoDone, ⟨addr.fd, s.fds.make (some addr.fd)⟩)
  else (addr.errno, ⟨addr.fd, s.fds⟩)

namespace PollingClient

/-- `rsocket_check_fd` is in `rsocket_poll.c` only. -/
def connected (c : PollingClient) (addr : ConnectAddr) : Int :=
  match c with
  | .poll => if addr.connect = EINPROGRESS ∨ addr.connect = EAGAIN then addr.check else addr.connect
  | .select => addr.connect

/-- A socket for the address, where there is none or one of another family. -/
def socketFor (p : Platform) (addr : ConnectAddr) (family : Int) (s : SocketFd) : Int × Int × SocketFd :=
  if family ≠ addr.family ∨ s.fd = socketInvalid then
    let (code, s) := rsocketCreate p addr s.rsocketClose
    (code, if code ≠ rcodeIoDone then family else addr.family, s)
  else (rcodeIoDone, family, s)

/-- The loop over the addresses, with the code of the last call. -/
def connectLoop (c : PollingClient) (p : Platform) : List ConnectAddr → Int → Int → SocketFd → Int × SocketFd
  | [], _, code, s => (code, s)
  | addr :: rest, family, _, s =>
    let (code, family, s) := socketFor p addr family s
    if code ≠ rcodeIoDone then connectLoop c p rest family code s
    else if c.connected addr = rcodeIoDone then (rcodeIoDone, s)
    else connectLoop c p rest family (if addr.timedOut then rcodeErrIpcTimeout else c.connected addr) s

/-- The code up to `exit1`, with what is there: a failed option leaves the code as it is. -/
def joinServer (c : PollingClient) (p : Platform) (env : ConnectEnv) (fds : Ledger Int) :
    Int × Option Int × Ledger Int :=
  if env.gai ≠ 0 then (env.gai, none, fds)
  else
    let (code, s) := c.connectLoop p env.addrs afInet env.gai ⟨socketInvalid, fds⟩
    if code ≠ 0 ∨ (c = .poll ∧ env.options.any (· != 0)) then (code, none, s.rsocketClose.fds)
    else (code, some s.fd, s.fds)

end PollingClient

/-! ### Calls -/

/-- A client, the ledgers, how many opens have succeeded, and what the client held when one did. -/
structure PollingRun where
  client : SocketClient
  fds : Ledger Int
  opens : Ledger Nat
  count : Nat
  lost : List (Nat × Int)

/-- What the client holds: its socket and buffers are of the last open. -/
def PollingRun.held (x : PollingRun) : List (Nat × Int) := (x.client.stream.map fun fd => (x.count - 1, fd)).toList

/-- What was closed in a call has been released; only `ripc_close_c` takes the stream away. -/
def PollingRun.put (x : PollingRun) (s : SocketClient) : PollingRun :=
  match x.client.stream, s.stream with
  | some fd, none => { x with client := s, fds := x.fds.free (some fd), opens := x.opens.free (some (x.count - 1)) }
  | _, _ => { x with client := s }

def SocketClient.setState (s : SocketClient) (state : RipcState) : SocketClient := { s with ds := { s.ds with state } }

namespace PollingClient

def ripcOpenC (c : PollingClient) (p : Platform) (env : ConnectEnv) (x : PollingRun) : Int × PollingRun :=
  match c.joinServer p env x.fds with
  | (code, none, fds) => (code, { x with fds })
  | (_, some fd, fds) =>
    (0, { x with
      client := {
        ds := { x.client.ds with
          readCache := .create 65536 env.readBlock
          writeBuff := .create 65536 env.writeBlock
          state := .ready }
        stream := some fd
        released := false }
      fds
      opens := x.opens.make (some x.count)
      count := x.count + 1
      lost := x.held ++ x.lost })

def ripcStartC (s : SocketClient) : SocketClient := s.setState .start

def ripcStopC (s : SocketClient) : SocketClient := s.setState .stop

/-- `cleanup` is the result of `WSACleanup`, in `rsocket_select.c`. -/
def ripcUninitC (c : PollingClient) (cleanup : Int) (s : SocketClient) : SocketClient :=
  if s.ds.state = .uninit then s
  else
    let s := if s.ds.state ≠ .closed then c.ripcCloseC s else s
    match c with
    | .poll => s.setState .uninit
    | .select => if cleanup ≠ 0 then s else s.setState .uninit

end PollingClient

inductive PollingCall
  | open (env : ConnectEnv)
  | close
  | start
  | stop
  | uninit (cleanup : Int)
  | send (b : Behind) (out : Option HandlerProcess) (rounds : List SendRound)
  | receive (input : Option InputProcess) (rounds : List RecvRound)

/-- One call that returns. -/
def PollingCall.Step (c : PollingClient) (p : Platform) (x : PollingRun) (call : PollingCall) (x' : PollingRun) :
    Prop :=
  match call with
  | .open env => ∃ code, c.ripcOpenC p env x = (code, x')
  | .close => x' = x.put (c.ripcCloseC x.client)
  | .start => x' = x.put (PollingClient.ripcStartC x.client)
  | .stop => x' = x.put (PollingClient.ripcStopC x.client)
  | .uninit cleanup => x' = x.put (c.ripcUninitC cleanup x.client)
  | .send b out rounds => ∃ r, c.ripcSendDataC p b out rounds x.client = .ok r ∧ r.code ≠ none ∧ x' = x.put r.client
  | .receive input rounds => ∃ r code s, c.ripcReceiveDataC p input rounds x.client = .ok r ∧
      r.result = .ok (some code, s) ∧ x' = x.put s

/-- The handler leaves the state of the data source alone. -/
def KeepsState (process : HandlerProcess) : Prop :=
  ∀ ds code ds', process ds = .ok (code, ds') → ds'.state = ds.state

/-- `getaddrinfo` gives an address when it succeeds, a failed `socket` an error; the handlers keep the state. -/
def PollingCall.Fits : PollingCall → Prop
  | .open env => (env.gai = 0 → env.addrs ≠ []) ∧ ∀ addr ∈ env.addrs, addr.fd = socketInvalid → addr.errno ≠ 0
  | .send _ out _ => ∀ process ∈ out, KeepsState process
  | .receive input _ => ∀ process ∈ input, ∀ n, KeepsState (process n)
  | _ => True

/-! ### What an open leaves -/

section opening

variable {c : PollingClient} {p : Platform} {env : ConnectEnv} {s : SocketFd} {addr : ConnectAddr} {held : List Int}
  {fds : Ledger Int}

/-- The descriptor, unless it is not one. -/
def SocketFd.own (s : SocketFd) : List Int := if s.fd = socketInvalid then [] else [s.fd]

/-- All descriptors but the one of the socket and those held are closed. -/
abbrev SocketFd.Keeps (s : SocketFd) (held : List Int) : Prop := s.fds.Balanced (s.own ++ held)

theorem SocketFd.Keeps.rsocketClose (h : s.Keeps held) :
    s.rsocketClose.fd = socketInvalid ∧ s.rsocketClose.fds.Balanced held := by
  unfold SocketFd.Keeps SocketFd.own at h
  unfold SocketFd.rsocketClose
  by_cases hfd : s.fd = socketInvalid
  · rw [if_neg (not_not.mpr hfd)]
    rw [if_pos hfd] at h
    exact ⟨hfd, h⟩
  · rw [if_pos hfd]
    rw [if_neg hfd] at h
    exact ⟨rfl, Ledger.Balanced.free (x := some s.fd) h⟩

theorem SocketFd.Keeps.rsocketCreate (h : s.fds.Balanced held) (herr : addr.fd = socketInvalid → addr.errno ≠ 0) :
    (rsocketCreate p addr s).2.Keeps held ∧
      ((rsocketCreate p addr s).1 = rcodeIoDone → (rsocketCreate p addr s).2.fd ≠ socketInvalid) := by
  unfold Funra.rsocketCreate
  by_cases hfd : addr.fd = socketInvalid
  · rw [if_neg (not_not.mpr hfd)]
    refine ⟨?_, fun hdone => absurd hdone (herr hfd)⟩
    rw [SocketFd.Keeps, SocketFd.own, if_pos hfd]
    exact h
  · rw [if_pos hfd]
    refine ⟨?_, fun _ => hfd⟩
    rw [SocketFd.Keeps, SocketFd.own, if_neg hfd]
    exact h.make (some addr.fd)

theorem SocketFd.Keeps.socketFor (h : s.Keeps held) (herr : addr.fd = socketInvalid → addr.errno ≠ 0) (family : Int) :
    (PollingClient.socketFor p addr family s).2.2.Keeps held ∧
      ((PollingClient.socketFor p addr family s).1 = rcodeIoDone →
        (PollingClient.socketFor p addr family s).2.2.fd ≠ socketInvalid) := by
  unfold PollingClient.socketFor
  by_cases hnew : family ≠ addr.family ∨ s.fd = socketInvalid
  · rw [if_pos hnew]
    exact rsocketCreate h.rsocketClose.2 herr
  · rw [if_neg hnew]
    exact ⟨h, fun _ hfd => hnew (.inr hfd)⟩

/-- A loop that ends with a connection has its descriptor. -/
theorem connectLoop_keeps {addrs : List ConnectAddr} {family code : Int} (h : s.Keeps held)
    (herr : ∀ addr ∈ addrs, addr.fd = socketInvalid → addr.errno ≠ 0) (hcode : addrs = [] → code ≠ 0) :
    (c.connectLoop p addrs family code s).2.Keeps held ∧
      ((c.connectLoop p addrs family code s).1 = 0 → (c.connectLoop p addrs family code s).2.fd ≠ socketInvalid) := by
  induction addrs generalizing family code s with
  | nil => exact ⟨h, fun hzero => absurd hzero (hcode rfl)⟩
  | cons addr rest ih =>
    have hrest : ∀ a ∈ rest, a.fd = socketInvalid → a.errno ≠ 0 := fun a ha => herr a (List.mem_cons_of_mem _ ha)
    obtain ⟨hkeeps, hvalid⟩ := h.socketFor (p := p) (herr addr List.mem_cons_self) family
    rw [PollingClient.connectLoop]
    generalize PollingClient.socketFor p addr family s = r at hkeeps hvalid ⊢
    obtain ⟨code', family', s'⟩ := r
    dsimp only at hkeeps hvalid ⊢
    by_cases hcreated : code' = rcodeIoDone
    · rw [if_neg (not_not.mpr hcreated)]
      by_cases hdone : c.connected addr = rcodeIoDone
      · rw [if_pos hdone]
        exact ⟨hkeeps, fun _ => hvalid hcreated⟩
      · rw [if_neg hdone]
        refine ih hkeeps hrest fun _ => ?_
        split
        · decide
        · exact hdone
    · rw [if_pos hcreated]
      exact ih hkeeps hrest fun _ => hcreated

theorem joinServer_keeps (h : fds.Balanced held) (hfits : PollingCall.Fits (.open env)) :
    (c.joinServer p env fds).2.2.Balanced ((c.joinServer p env fds).2.1.toList ++ held) ∧
      ∀ fd ∈ (c.joinServer p env fds).2.1, fd ≠ socketInvalid := by
  unfold PollingClient.joinServer
  by_cases hgai : env.gai = 0
  · rw [if_neg (not_not.mpr hgai)]
    have hstart : (⟨socketInvalid, fds⟩ : SocketFd).Keeps held := h
    obtain ⟨hkeeps, hvalid⟩ := @connectLoop_keeps c p _ _ env.addrs afInet env.gai hstart hfits.2
      fun hnil => absurd hnil (hfits.1 hgai)
    generalize c.connectLoop p env.addrs afInet env.gai ⟨socketInvalid, fds⟩ = r at hkeeps hvalid ⊢
    obtain ⟨code, s⟩ := r
    dsimp only at hkeeps hvalid ⊢
    split
    · exact ⟨hkeeps.rsocketClose.2, by simp⟩
    · next hok =>
      have hfd := hvalid (not_not.mp fun hne => hok (.inl hne))
      refine ⟨?_, fun fd hmem => Option.some.inj hmem ▸ hfd⟩
      rw [SocketFd.Keeps, SocketFd.own, if_neg hfd] at hkeeps
      exact hkeeps
  · rw [if_pos hgai]
    exact ⟨h, by simp⟩

end opening

/-! ### What a call leaves -/

section calls

variable {c : PollingClient} {p : Platform} {s s' s₁ : SocketClient} {x x' : PollingRun} {call : PollingCall}

def RipcState.Open (state : RipcState) : Prop :=
  state = .ready ∨ state = .disconnect ∨ state = .start ∨ state = .stop

/-- The socket and the buffers are the same. -/
structure SameLife (s s' : SocketClient) : Prop where
  stream : s'.stream = s.stream
  released : s'.released = s.released
  state : s'.ds.state = s.ds.state

/-- The client is as it was, or has been closed. -/
def MayClose (c : PollingClient) (s s' : SocketClient) : Prop :=
  ∃ s₁, SameLife s s₁ ∧ (s' = s₁ ∨ s' = c.ripcCloseC s₁)

theorem SameLife.refl (s : SocketClient) : SameLife s s := ⟨rfl, rfl, rfl⟩

theorem SameLife.mayClose (h : SameLife s s') : MayClose c s s' := ⟨s', h, .inl rfl⟩

theorem SameLife.trans (h : SameLife s s₁) (h' : SameLife s₁ s') : SameLife s s' :=
  ⟨h'.stream.trans h.stream, h'.released.trans h.released, h'.state.trans h.state⟩

theorem sameLife_of_process {process : HandlerProcess} {code : Int} {ds : RipcDataSource} (h : KeepsState process)
    (hrun : process s.ds = .ok (code, ds)) : SameLife s { s with ds } :=
  ⟨rfl, rfl, h _ _ _ hrun⟩

theorem ripcCloseC_eq (c : PollingClient) (s : SocketClient) : c.ripcCloseC s = SelectClient.ripcCloseC s := by
  cases c <;> rfl

/-- A client without a stream is not touched. -/
theorem ripcCloseC_none (c : PollingClient) (h : s.stream = none) : c.ripcCloseC s = s := by
  rw [ripcCloseC_eq, SelectClient.ripcCloseC, if_pos (.inr h)]

theorem ripcCloseC_some (c : PollingClient) (hopen : s.ds.state.Open) (h : s.stream ≠ none) :
    (c.ripcCloseC s).stream = none ∧ (c.ripcCloseC s).ds.state = .closed := by
  have hstate : ¬ (s.ds.state = .closed ∨ s.stream = none) := by
    rintro (hclosed | hnone)
    · rw [hclosed] at hopen
      rcases hopen with heq | heq | heq | heq <;> cases heq
    · exact h hnone
  unfold RipcState.Open at hopen
  rw [ripcCloseC_eq, SelectClient.ripcCloseC, if_neg hstate]
  simp only [if_pos hopen, and_self]

theorem send_mayClose {b : Behind} {out : Option HandlerProcess} {rounds : List SendRound} {r : SendOutcome}
    (hout : ∀ process ∈ out, KeepsState process) (hrun : c.ripcSendDataC p b out rounds s = .ok r) :
    MayClose c s r.client := by
  unfold PollingClient.ripcSendDataC at hrun
  split at hrun
  · cases hrun
    exact (SameLife.refl s).mayClose
  · cases hhandler : runHandler out s.ds with
    | error f =>
      rw [hhandler] at hrun
      cases hrun
    | ok q =>
      obtain ⟨code, ds⟩ := q
      have hsame : SameLife s { s with ds } := by
        cases out with
        | none =>
          cases hhandler
          exact SameLife.refl s
        | some process => exact sameLife_of_process (hout process rfl) hhandler
      rw [hhandler] at hrun
      dsimp only at hrun
      split at hrun
      · cases hrun
        exact hsame.mayClose
      · unfold PollingClient.transmit at hrun
        cases hstream : s.stream with
        | none =>
          simp only [hstream] at hrun
          cases hrun
        | some fd =>
          simp only [hstream] at hrun
          obtain ⟨e, -, rfl⟩ := Except.of_map_ok hrun
          rw [← hstream]
          have hskip : SameLife s (SocketClient.skipSent { s with ds } e.total) := hsame.trans ⟨rfl, rfl, rfl⟩
          unfold PollingClient.finish
          cases e.code with
          | none => exact hsame.mayClose
          | some code =>
            cases c with
            | poll => exact hskip.mayClose
            | select =>
              dsimp only
              split
              · exact ⟨_, hsame, .inr rfl⟩
              · exact hskip.mayClose

theorem receive_mayClose {input : Option InputProcess} {rounds : List RecvRound} {r : ReceiveOutcome} {code : Int}
    (hinput : ∀ process ∈ input, ∀ n, KeepsState (process n)) (hrun : c.ripcReceiveDataC p input rounds s = .ok r)
    (hresult : r.result = .ok (some code, s')) : MayClose c s s' := by
  unfold PollingClient.ripcReceiveDataC at hrun
  split at hrun
  · cases hrun
    cases hresult
    exact (SameLife.refl s).mayClose
  · cases hstream : s.stream with
    | none =>
      simp only [hstream] at hrun
      cases hrun
    | some fd =>
      simp only [hstream] at hrun
      obtain ⟨⟨code', e⟩, -, rfl⟩ := Except.of_map_ok hrun
      have hfill : SameLife s (s.fill e.data) := ⟨rfl, rfl, rfl⟩
      cases code' with
      | none => cases hresult
      | some code' =>
        unfold PollingClient.received at hresult
        dsimp only at hresult
        split at hresult
        · cases hresult
          exact ⟨_, hfill, .inr rfl⟩
        · unfold PollingClient.deliver at hresult
          cases input with
          | none =>
            cases hresult
            exact hfill.mayClose
          | some process =>
            dsimp only at hresult
            split at hresult
            · obtain ⟨⟨code₁, ds⟩, hprocess, heq⟩ := Except.of_map_ok hresult
              cases heq
              exact (hfill.trans (sameLife_of_process (hinput process rfl _) hprocess)).mayClose
            · cases hresult
              exact hfill.mayClose

/-! ### Runs -/

/-- What has been made and not released is what the client holds and has lost. -/
structure PollingRun.Inv (x : PollingRun) : Prop where
  open_ : x.client.stream ≠ none → x.client.ds.state.Open ∧ x.client.released = false
  fd : ∀ fd ∈ x.client.stream, fd ≠ socketInvalid
  fds : x.fds.Balanced ((x.held ++ x.lost).map Prod.snd)
  opens : x.opens.Balanced ((x.held ++ x.lost).map Prod.fst)

/-- A call that leaves the stream where it is, or takes it away. -/
theorem PollingRun.Inv.put (h : x.Inv)
    (hs : (s.stream = x.client.stream ∧ (s.stream ≠ none → s.ds.state.Open ∧ s.released = false)) ∨ s.stream = none) :
    (x.put s).Inv ∧ (x.put s).client = s ∧ (x.put s).lost = x.lost ∧ (x.put s).count = x.count := by
  have hsame : s.stream = x.client.stream → (s.stream ≠ none → s.ds.state.Open ∧ s.released = false) →
      PollingRun.Inv { x with client := s } := by
    intro hstream hopen
    have hheld : PollingRun.held { x with client := s } = x.held := by
      rw [PollingRun.held, PollingRun.held, ← hstream]
    refine ⟨hopen, fun fd hfd => h.fd fd (hstream ▸ hfd), ?_, ?_⟩
    · rw [hheld]
      exact h.fds
    · rw [hheld]
      exact h.opens
  unfold PollingRun.put
  cases hx : x.client.stream with
  | none =>
    have hnone : s.stream = none := by
      rcases hs with ⟨heq, -⟩ | hnone
      · exact heq.trans hx
      · exact hnone
    exact ⟨hsame (hnone.trans hx.symm) fun hne => absurd hnone hne, rfl, rfl, rfl⟩
  | some fd =>
    cases hnone : s.stream with
    | some fd' =>
      rcases hs with ⟨heq, hopen⟩ | hs
      · exact ⟨hsame heq hopen, rfl, rfl, rfl⟩
      · rw [hnone] at hs
        cases hs
    | none =>
      have hfds := h.fds
      have hopens := h.opens
      rw [PollingRun.held, hx] at hfds hopens
      refine ⟨⟨fun hne => absurd hnone hne, fun fd hfd => ?_, ?_, ?_⟩, rfl, rfl, rfl⟩
      · rw [hnone] at hfd
        cases hfd
      · simp only [PollingRun.held, hnone]
        exact Ledger.Balanced.free (x := some fd) hfds
      · simp only [PollingRun.held, hnone]
        exact Ledger.Balanced.free (x := some (x.count - 1)) hopens

/-- A close takes the stream away, and a client without one is not started. -/
theorem PollingRun.Inv.close (h : x.Inv) (hs : SameLife x.client s₁) : (c.ripcCloseC s₁).stream = none ∧
    ((x.client.ds.state = .start → x.client.stream ≠ none) → (c.ripcCloseC s₁).ds.state ≠ .start) := by
  by_cases hnone : s₁.stream = none
  · rw [ripcCloseC_none c hnone, hs.state]
    exact ⟨hnone, fun hstarted hstate => hstarted hstate (hs.stream.symm.trans hnone)⟩
  · have hopen : s₁.ds.state.Open := by
      rw [hs.state]
      exact (h.open_ (hs.stream ▸ hnone)).1
    obtain ⟨hgone, hclosed⟩ := ripcCloseC_some c hopen hnone
    refine ⟨hgone, fun _ hstate => ?_⟩
    rw [hclosed] at hstate
    cases hstate

theorem PollingRun.Inv.mayClose (h : x.Inv) (hs : MayClose c x.client s) :
    (s.stream = x.client.stream ∧ (s.stream ≠ none → s.ds.state.Open ∧ s.released = false)) ∨ s.stream = none := by
  obtain ⟨s₁, hsame, rfl | rfl⟩ := hs
  · refine .inl ⟨hsame.stream, fun hne => ?_⟩
    rw [hsame.state, hsame.released]
    exact h.open_ (hsame.stream ▸ hne)
  · exact .inr (h.close hsame).1

theorem PollingRun.Inv.setState (h : x.Inv) {state : RipcState} (hstate : state.Open) :
    ((x.client.setState state).stream = x.client.stream ∧ ((x.client.setState state).stream ≠ none →
      (x.client.setState state).ds.state.Open ∧ (x.client.setState state).released = false)) ∨
      (x.client.setState state).stream = none :=
  .inl ⟨rfl, fun hne => ⟨hstate, (h.open_ hne).2⟩⟩

theorem PollingRun.Inv.uninit (h : x.Inv) (cleanup : Int) : (c.ripcUninitC cleanup x.client).stream = none := by
  have hclosed : ∀ state, ¬ RipcState.Open state → x.client.ds.state = state → x.client.stream = none := by
    intro state hstate heq
    by_contra hne
    exact hstate (heq ▸ (h.open_ hne).1)
  unfold PollingClient.ripcUninitC
  split
  · next huninit => exact hclosed .uninit (by simp [RipcState.Open]) huninit
  · have hgone : (if x.client.ds.state ≠ .closed then c.ripcCloseC x.client else x.client).stream = none := by
      split
      · exact (h.close (SameLife.refl _)).1
      · next hstate => exact hclosed .closed (by simp [RipcState.Open]) (not_not.mp hstate)
    cases c with
    | poll => exact hgone
    | select =>
      dsimp only
      split
      · exact hgone
      · exact hgone

/-- An open that succeeds loses what the client held, one that fails changes nothing. -/
theorem PollingRun.Inv.opened (h : x.Inv) {env : ConnectEnv} {code : Int} (hfits : PollingCall.Fits (.open env))
    (hrun : c.ripcOpenC p env x = (code, x')) : x'.Inv ∧
      ((x'.client = x.client ∧ x'.count = x.count ∧ x'.lost = x.lost) ∨
        (code = 0 ∧ x'.client.stream ≠ none ∧ x'.client.ds.state = .ready ∧ x'.count = x.count + 1 ∧
          x'.lost = x.held ++ x.lost)) := by
  obtain ⟨hfds, hvalid⟩ := joinServer_keeps (c := c) (p := p) h.fds hfits
  unfold PollingClient.ripcOpenC at hrun
  generalize c.joinServer p env x.fds = r at hrun hfds hvalid
  obtain ⟨code', fd, fds⟩ := r
  cases fd with
  | none =>
    cases hrun
    exact ⟨⟨h.open_, h.fd, hfds, h.opens⟩, .inl ⟨rfl, rfl, rfl⟩⟩
  | some fd =>
    cases hrun
    refine ⟨⟨fun _ => ⟨.inl rfl, rfl⟩, fun fd' hfd => ?_, hfds, h.opens.make (some x.count)⟩,
      .inr ⟨rfl, Option.some_ne_none fd, rfl, rfl, rfl⟩⟩
    exact hvalid fd' hfd

/-- Only an open loses anything. -/
theorem PollingRun.Inv.step (h : x.Inv) (hfits : call.Fits) (hstep : call.Step c p x x') :
    x'.Inv ∧ (x'.lost = x.lost ∨ ∃ env, call = .open env ∧ x'.lost = x.held ++ x.lost) := by
  have hput : ∀ {s}, ((s.stream = x.client.stream ∧ (s.stream ≠ none → s.ds.state.Open ∧ s.released = false)) ∨
      s.stream = none) → (x.put s).Inv ∧ ((x.put s).lost = x.lost ∨
        ∃ env, call = .open env ∧ (x.put s).lost = x.held ++ x.lost) := by
    intro s hs
    obtain ⟨hinv, -, hlost, -⟩ := h.put hs
    exact ⟨hinv, .inl hlost⟩
  cases call with
  | «open» env =>
    obtain ⟨code, hrun⟩ := hstep
    obtain ⟨hinv, ⟨-, -, hlost⟩ | ⟨-, -, -, -, hlost⟩⟩ := h.opened hfits hrun
    · exact ⟨hinv, .inl hlost⟩
    · exact ⟨hinv, .inr ⟨env, rfl, hlost⟩⟩
  | close =>
    obtain rfl := hstep
    exact hput (.inr (h.close (SameLife.refl _)).1)
  | start =>
    obtain rfl := hstep
    exact hput (h.setState (.inr (.inr (.inl rfl))))
  | stop =>
    obtain rfl := hstep
    exact hput (h.setState (.inr (.inr (.inr rfl))))
  | uninit cleanup =>
    obtain rfl := hstep
    exact hput (.inr (h.uninit cleanup))
  | send b out rounds =>
    obtain ⟨r, hrun, -, rfl⟩ := hstep
    exact hput (h.mayClose (send_mayClose hfits hrun))
  | receive input rounds =>
    obtain ⟨r, code, s, hrun, hresult, rfl⟩ := hstep
    exact hput (h.mayClose (receive_mayClose hfits hrun hresult))

/-! ### The client has a socket when it is started -/

/-- A started client has a stream. -/
def PollingRun.Started (x : PollingRun) : Prop := x.client.ds.state = .start → x.client.stream ≠ none

end calls

/-! ### The results -/

/-- A client that has not been opened. -/
structure PollingRun.Fresh (x : PollingRun) : Prop where
  stream : x.client.stream = none
  state : x.client.ds.state ≠ .start
  fds : x.fds = .empty
  opens : x.opens = .empty
  lost : x.lost = []

section results

variable {c : PollingClient} {p : Platform} {x₀ x x' : PollingRun} {calls : List PollingCall}

theorem PollingRun.Fresh.inv (h : x₀.Fresh) : x₀.Inv := by
  have hheld : x₀.held = [] := by
    rw [PollingRun.held, h.stream]
    rfl
  refine ⟨fun hne => absurd h.stream hne, fun fd hfd => ?_, ?_, ?_⟩
  · rw [h.stream] at hfd
    cases hfd
  · rw [hheld, h.lost, h.fds]
    exact Ledger.balanced_empty
  · rw [hheld, h.lost, h.opens]
    exact Ledger.balanced_empty

theorem PollingRun.Inv.run (h : x.Inv)
    (hrun : Steps (Guarded (fun _ call => PollingCall.Fits call) (PollingCall.Step c p)) x calls x') :
    x'.Inv ∧ (x.lost ≠ [] → x'.lost ≠ []) := by
  refine hrun.invariant (I := fun s => s.Inv ∧ (x.lost ≠ [] → s.lost ≠ [])) ?_ ⟨h, id⟩
  rintro s call s' ⟨hs, hlost⟩ ⟨hfits, hstep⟩
  obtain ⟨hinv, heq | ⟨env, -, heq⟩⟩ := hs.step hfits hstep
  · exact ⟨hinv, heq ▸ hlost⟩
  · refine ⟨hinv, fun hne hnil => hlost hne ?_⟩
    rw [heq] at hnil
    exact (List.append_eq_nil_iff.mp hnil).2

end results

/-! ### A client that is opened, started and closed -/

end Funra
