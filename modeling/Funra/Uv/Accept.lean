import Funra.Epoll.Accept
import Funra.Epoll.HangUp
import Funra.Uv.Session

/-!
# Connections that the libuv server does not accept

`on_connection` with all its exits. `UvServer.onConnection` is the call in which every step succeeds
(`onConnection_represents`). When a step fails, the call should return a code and leave the associations and the
memory as they were. The exits release nothing while `ret_code` is 0; they never close the handle that
`uv_tcp_init` has put into the queue of the loop; and they release the fields of a data source that have not been
assigned. `UvAcceptEnv.Recovers` is what is left.
-/

namespace Funra

open Mem Except KeyMap

/-- `stream_type`. -/
inductive RipcType
  | unknown | tcp | udp | pipe | mix
  deriving DecidableEq, Repr

/-- The data source of a session. -/
structure UvPeer where
  dsId : Nat
  dsType : RipcDataSourceType
  readCache : Option Nat
  writeBuff : Option Nat
  stream : Option Nat
  deriving DecidableEq, Repr

/-- `data`, and whether libuv reads the stream. -/
structure UvStream where
  data : Option Nat
  reading : Bool
  deriving DecidableEq, Repr

/-- `handleQueue` has the handles of the loop, from their `init` to their `uv_close`. `count` data sources have been
made so far. -/
structure UvAcceptor where
  streamType : RipcType
  sidCur : Nat
  mapClients : Option SessionMap
  inHandler : Bool
  count : Nat
  sessions : Nat → Option UvPeer
  buffers : BufferMemory
  streams : Nat → Option UvStream
  handleQueue : List Nat
  events : List UvSessionEvent

/-- The answers to one call, as far as it gets: the memory of the data source with what its fields hold, of the
stream and of the buffers, and the codes of libuv. `added` tells whether the map has had memory for the session. -/
structure UvAcceptEnv where
  status : Int
  ds : Option UvPeer
  stream : Option Nat
  init : Int
  accept : Int
  readCache : BufferAlloc
  writeBuff : BufferAlloc
  added : Bool
  readStart : Int

namespace UvAcceptor

/-- `ds_client` where it is dereferenced. -/
def session (srv : UvAcceptor) (ds : Option Nat) : Except Fault (Nat × UvPeer) :=
  match ds with
  | none => .error .nullDeref
  | some n =>
    match srv.sessions n with
    | none => .error .useAfterFree
    | some x => .ok (n, x)

/-- `++ sid_cur`. -/
def nextId (srv : UvAcceptor) : Nat := (srv.sidCur + 1) % 18446744073709551616

/-- `ds_client` after its `malloc`. -/
def newDs (env : UvAcceptEnv) (srv : UvAcceptor) : Option Nat := env.ds.map fun _ => srv.count

def mallocDs (env : UvAcceptEnv) (srv : UvAcceptor) : UvAcceptor :=
  match env.ds with
  | none => srv
  | some x => { srv with count := srv.count + 1, sessions := Function.update srv.sessions srv.count (some x) }

def mallocStream (a : Nat) (srv : UvAcceptor) : UvAcceptor :=
  { srv with streams := Function.update srv.streams a (some ⟨none, false⟩) }

/-- `uv_tcp_init`, `uv_pipe_init`. -/
def initHandle (a : Nat) (srv : UvAcceptor) : UvAcceptor := { srv with handleQueue := srv.handleQueue ++ [a] }

/-! ### `exit1` -/

def removeClient (dsId : Nat) (srv : UvAcceptor) : UvAcceptor :=
  { srv with mapClients := srv.mapClients.map fun m => m.remove dsId }

def freeStream (stream : Option Nat) (srv : UvAcceptor) : Except Fault UvAcceptor :=
  match stream with
  | none => .ok srv
  | some a =>
    if srv.streamType = .tcp ∨ srv.streamType = .pipe then
      match srv.streams a with
      | none => .error .useAfterFree
      | some _ => .ok { srv with streams := Function.update srv.streams a none }
    else .ok srv

def freeDs (ds : Option Nat) (srv : UvAcceptor) : Except Fault UvAcceptor :=
  match ds with
  | none => .ok srv
  | some n => do
    let (_, x) ← srv.session (some n)
    let srv := srv.removeClient x.dsId
    let buffers ← srv.buffers.release x.readCache
    let buffers ← buffers.release x.writeBuff
    return { srv with buffers, sessions := Function.update srv.sessions n none }

def exit1 (retCode : Int) (stream ds : Option Nat) (srv : UvAcceptor) : Except Fault (Int × UvAcceptor) :=
  if retCode ≠ 0 then do
    let srv ← srv.freeStream stream
    let srv ← srv.freeDs ds
    return (rcodeInvalid, srv)
  else .ok (rcodeInvalid, srv)

/-! ### The call -/

/-- The data source of an accepted stream, with its buffers and its entry in the map. -/
def beginSession (env : UvAcceptEnv) (ds : Option Nat) (a : Nat) (srv : UvAcceptor) : Except Fault UvAcceptor := do
  let (n, _) ← srv.session ds
  let (readCache, buffers) ← srv.buffers.create env.readCache
  let (writeBuff, buffers) ← buffers.create env.writeBuff
  return { srv with
    sidCur := srv.nextId
    mapClients := srv.mapClients.map fun m => m.add env.added srv.nextId n
    sessions := Function.update srv.sessions n
      (some ⟨srv.nextId, .session, some readCache, some writeBuff, some a⟩)
    buffers
    streams := Function.update srv.streams a (some ⟨some n, false⟩) }

def readStart (a : Nat) (srv : UvAcceptor) : UvAcceptor :=
  { srv with streams := Function.update srv.streams a ((srv.streams a).map fun x => { x with reading := true }) }

/-- The log shows `ds_client->stream`; then the handler is told. -/
def connected (ds : Option Nat) (srv : UvAcceptor) : Except Fault (Int × UvAcceptor) := do
  let (n, _) ← srv.session ds
  return (0, { srv with events := srv.events ++ if srv.inHandler then [.onCode n rcodeErrIpcConnect] else [] })

/-- The part for TCP. -/
def uvAccept (env : UvAcceptEnv) (ds : Option Nat) (a : Nat) (srv : UvAcceptor) :
    Except Fault (Int × UvAcceptor) :=
  if env.accept ≠ 0 then srv.exit1 env.accept (some a) ds
  else do
    let srv ← srv.beginSession env ds a
    if env.readStart ≠ 0 then srv.exit1 env.readStart (some a) ds
    else (srv.readStart a).connected ds

/-- `ret_code` is 0 still for a stream that is `NULL` and for an unknown type. A pipe is not accepted. -/
def onConnection (env : UvAcceptEnv) (srv : UvAcceptor) : Except Fault (Int × UvAcceptor) :=
  if env.status ≠ 0 then srv.exit1 0 none none
  else
    let ds := srv.newDs env
    let srv := srv.mallocDs env
    match srv.streamType, env.stream with
    | .tcp, none => srv.exit1 0 none ds
    | .tcp, some a =>
      let srv := srv.mallocStream a
      if env.init ≠ 0 then srv.exit1 env.init (some a) ds
      else (srv.initHandle a).uvAccept env ds a
    | .pipe, none => .error .nullDeref
    | .pipe, some a =>
      let srv := srv.mallocStream a
      if env.init ≠ 0 then srv.exit1 env.init (some a) ds
      else (srv.initHandle a).connected ds
    | _, _ => srv.exit1 0 none ds

/-! ### The property -/

/-- The associations are the same, and nothing is allocated that was not. -/
structure Restored (srv srv' : UvAcceptor) : Prop where
  map : srv'.mapClients = srv.mapClients
  sessions : srv'.sessions = srv.sessions
  buffers : srv'.buffers = srv.buffers
  streams : srv'.streams = srv.streams
  handleQueue : srv'.handleQueue = srv.handleQueue

end UvAcceptor

namespace UvAcceptEnv

open UvAcceptor

/-- A step of the call fails. -/
def Fails (env : UvAcceptEnv) (srv : UvAcceptor) : Prop :=
  env.status ≠ 0 ∨ env.ds = none ∨
    match srv.streamType with
    | .tcp => env.stream = none ∨ env.init ≠ 0 ∨ env.accept ≠ 0 ∨ env.readCache = none ∨ env.writeBuff = none ∨
        srv.mapClients = none ∨ env.added = false ∨ env.readStart ≠ 0
    | .pipe => env.stream = none ∨ env.init ≠ 0
    | _ => True

def FailsCleanly (env : UvAcceptEnv) (srv : UvAcceptor) : Prop :=
  env.Fails srv → (onConnection env srv).Succeeds fun r => r.1 ≠ 0 ∧ srv.Restored r.2

/-- The fields that have not been assigned happen to be `NULL`, and an id without an association. -/
def Idle (env : UvAcceptEnv) (srv : UvAcceptor) : Prop :=
  ∀ x, env.ds = some x → x.readCache = none ∧ x.writeBuff = none ∧
    ∀ m, srv.mapClients = some m → m (uint64Key x.dsId) = none

/-- The condition: there is no connection, or nothing has been allocated, or the handle cannot be initialised and
the unassigned fields are harmless. -/
def Recovers (env : UvAcceptEnv) (srv : UvAcceptor) : Prop :=
  env.status ≠ 0 ∨
    match srv.streamType, env.stream with
    | .tcp, none => env.ds = none
    | .tcp, some _ => env.init ≠ 0 ∧ env.Idle srv
    | .pipe, none => False
    | .pipe, some _ => env.init ≠ 0 ∧ env.Idle srv
    | _, _ => env.ds = none

end UvAcceptEnv

namespace UvAcceptor

variable {srv srv' : UvAcceptor} {env : UvAcceptEnv} {a : Nat}

/-! ### What the exits leave -/

theorem exit1_zero (stream ds : Option Nat) : srv.exit1 0 stream ds = .ok (rcodeInvalid, srv) := rfl

theorem restored_mallocDs_iff (hunused : srv.sessions srv.count = none) :
    srv.Restored (srv.mallocDs env) ↔ env.ds = none := by
  cases hds : env.ds with
  | none =>
    simp only [mallocDs, hds, iff_true]
    exact ⟨rfl, rfl, rfl, rfl, rfl⟩
  | some x =>
    simp only [mallocDs, hds, reduceCtorEq, iff_false]
    intro h
    have heq := congrFun h.sessions srv.count
    simp [hunused] at heq

/-- The stream and the data source are given up, whose fields have not been assigned. -/
theorem exit1_eq (htype : srv.streamType = .tcp ∨ srv.streamType = .pipe)
    (hunused : srv.sessions srv.count = none) (hstream : srv.streams a = none) {code : Int} (hcode : code ≠ 0)
    {x : UvPeer} (hds : env.ds = some x) :
    ((srv.mallocDs env).mallocStream a).exit1 code (some a) (srv.newDs env) =
      ((srv.buffers.release x.readCache).bind fun mem => mem.release x.writeBuff).map fun mem =>
        (rcodeInvalid, { srv.removeClient x.dsId with count := srv.count + 1, buffers := mem }) := by
  have hstreams : Function.update srv.streams a none = srv.streams := by rw [← hstream, Function.update_eq_self]
  have hsessions : Function.update srv.sessions srv.count none = srv.sessions := by
    rw [← hunused, Function.update_eq_self]
  simp only [exit1, if_pos hcode, mallocDs, newDs, hds, mallocStream, freeStream, if_pos htype,
    Function.update_self, Function.update_idem, hstreams, hsessions, freeDs, session, removeClient, bind,
    Except.bind, Option.map_some]
  cases srv.buffers.release x.readCache with
  | error f => rfl
  | ok mem =>
    cases hsecond : mem.release x.writeBuff with
    | error f => simp [hsecond, Except.map]
    | ok mem' => simp [hsecond, Except.map, pure, Except.pure]

/-- A handle that cannot be initialised. -/
theorem exit1_clean_iff (htype : srv.streamType = .tcp ∨ srv.streamType = .pipe)
    (hunused : srv.sessions srv.count = none) (hstream : srv.streams a = none) {code : Int} (hcode : code ≠ 0) :
    ((((srv.mallocDs env).mallocStream a).exit1 code (some a) (srv.newDs env)).Succeeds fun r =>
      r.1 ≠ 0 ∧ srv.Restored r.2) ↔ env.Idle srv := by
  cases hds : env.ds with
  | none =>
    have hstreams : Function.update srv.streams a none = srv.streams := by rw [← hstream, Function.update_eq_self]
    simp only [exit1, if_pos hcode, mallocDs, newDs, hds, mallocStream, freeStream, if_pos htype,
      Function.update_self, Function.update_idem, hstreams, freeDs, bind, Except.bind, Option.map_none]
    refine iff_of_true (Succeeds.ok ⟨Int.one_ne_zero, rfl, rfl, rfl, rfl, rfl⟩) ?_
    intro x hx
    simp [hds] at hx
  | some x =>
    rw [exit1_eq htype hunused hstream hcode hds]
    constructor
    · rintro ⟨r, hrun, -, hrestored⟩
      obtain ⟨mem, hrelease, rfl⟩ := Except.of_map_ok hrun
      obtain rfl : mem = srv.buffers := hrestored.buffers
      obtain ⟨hread, hwrite⟩ := BufferMemory.release_self_iff.mp hrelease
      intro x' hx'
      obtain rfl : x = x' := by simpa [hds] using hx'
      exact ⟨hread, hwrite, SessionMap.map_remove_iff.mp hrestored.map⟩
    · intro hidle
      obtain ⟨hread, hwrite, hid⟩ := hidle x hds
      rw [BufferMemory.release_self_iff.mpr ⟨hread, hwrite⟩]
      exact .ok ⟨Int.one_ne_zero, SessionMap.map_remove_iff.mpr hid, rfl, rfl, rfl, rfl⟩

/-! ### The handle -/

theorem freeStream_queue (stream : Option Nat) :
    (srv.freeStream stream).Returns fun srv' => srv'.handleQueue = srv.handleQueue := by
  cases stream with
  | none => exact .ok rfl
  | some a =>
    rw [freeStream]
    split
    · split
      · exact .error
      · exact .ok rfl
    · exact .ok rfl

theorem freeDs_queue (ds : Option Nat) :
    (srv.freeDs ds).Returns fun srv' => srv'.handleQueue = srv.handleQueue := by
  cases ds with
  | none => exact .ok rfl
  | some n =>
    rw [freeDs]
    exact Returns.bind_of_forall fun _ => Returns.bind_of_forall fun _ => Returns.bind_of_forall fun _ => .ok rfl

theorem exit1_queue (code : Int) (stream ds : Option Nat) :
    (srv.exit1 code stream ds).Returns fun r => r.2.handleQueue = srv.handleQueue := by
  rw [exit1]
  split
  · refine Returns.bind (freeStream_queue stream) fun srv₁ h₁ => ?_
    refine Returns.bind (freeDs_queue ds) fun srv₂ h₂ => .ok ?_
    exact h₂.trans h₁
  · exact .ok rfl

theorem connected_queue (ds : Option Nat) :
    (srv.connected ds).Returns fun r => r.2.handleQueue = srv.handleQueue := by
  rw [connected]
  exact Returns.bind_of_forall fun x => .ok rfl

theorem uvAccept_queue (env : UvAcceptEnv) (ds : Option Nat) (a : Nat) :
    (srv.uvAccept env ds a).Returns fun r => r.2.handleQueue = srv.handleQueue := by
  rw [uvAccept]
  split
  · apply exit1_queue
  refine Returns.bind (P := fun s => s.handleQueue = srv.handleQueue) ?_ fun s hs => ?_
  · rw [beginSession]
    exact Returns.bind_of_forall fun _ => Returns.bind_of_forall fun _ => Returns.bind_of_forall fun _ => .ok rfl
  · rw [← hs]
    split
    · apply exit1_queue
    · apply connected_queue

/-- A handle that stays in the queue. -/
theorem not_clean {x : Except Fault (Int × UvAcceptor)}
    (h : x.Returns fun r => r.2.handleQueue = srv.handleQueue ++ [a]) :
    ¬ x.Succeeds fun r => r.1 ≠ 0 ∧ srv.Restored r.2 := by
  rintro ⟨r, hrun, -, hrestored⟩
  have heq := (h r hrun).symm.trans hrestored.handleQueue
  simp at heq

/-! ### The call -/

theorem mallocDs_streamType : (srv.mallocDs env).streamType = srv.streamType := by
  rw [mallocDs]
  split <;> rfl

theorem mallocDs_queue : (srv.mallocDs env).handleQueue = srv.handleQueue := by
  rw [mallocDs]
  split <;> rfl

/-- An exit that gives nothing up. -/
theorem exit1_zero_clean_iff (hunused : srv.sessions srv.count = none) (stream ds : Option Nat) :
    (((srv.mallocDs env).exit1 0 stream ds).Succeeds fun r => r.1 ≠ 0 ∧ srv.Restored r.2) ↔ env.ds = none := by
  rw [exit1_zero, ← restored_mallocDs_iff hunused]
  constructor
  · rintro ⟨r, heq, -, hrestored⟩
    obtain rfl := Except.ok.inj heq
    exact hrestored
  · intro h
    exact .ok ⟨Int.one_ne_zero, h⟩

/-- Behind the `init` of the handle nothing is clean. -/
theorem init_clean_iff (htype : srv.streamType = .tcp ∨ srv.streamType = .pipe)
    (hunused : srv.sessions srv.count = none) (hstream : srv.streams a = none)
    {next : Except Fault (Int × UvAcceptor)}
    (hnext : next.Returns fun r => r.2.handleQueue = srv.handleQueue ++ [a]) :
    (Succeeds (if env.init ≠ 0 then ((srv.mallocDs env).mallocStream a).exit1 env.init (some a) (srv.newDs env)
      else next) fun r => r.1 ≠ 0 ∧ srv.Restored r.2) ↔ env.init ≠ 0 ∧ env.Idle srv := by
  split
  · rename_i hinit
    rw [exit1_clean_iff htype hunused hstream hinit]
    simp [hinit]
  · rename_i hinit
    simp [hinit, not_clean hnext]

/-- The queue once the handle has been initialised. -/
theorem initHandle_queue (a : Nat) :
    (((srv.mallocDs env).mallocStream a).initHandle a).handleQueue = srv.handleQueue ++ [a] := by
  rw [initHandle, mallocStream, mallocDs_queue]

theorem onConnection_clean_iff (hunused : srv.sessions srv.count = none)
    (hfits : ∀ a, env.stream = some a → srv.streams a = none) :
    ((onConnection env srv).Succeeds fun r => r.1 ≠ 0 ∧ srv.Restored r.2) ↔ env.Recovers srv := by
  by_cases hstatus : env.status ≠ 0
  · rw [onConnection, if_pos hstatus, exit1_zero]
    exact iff_of_true (.ok ⟨Int.one_ne_zero, rfl, rfl, rfl, rfl, rfl⟩) (.inl hstatus)
  rw [onConnection, if_neg hstatus]
  simp only [UvAcceptEnv.Recovers, hstatus, false_or, mallocDs_streamType]
  cases htype : srv.streamType with
  | tcp =>
    cases hstream : env.stream with
    | none => exact exit1_zero_clean_iff hunused none _
    | some a =>
      apply init_clean_iff (.inl htype) hunused (hfits a hstream)
      rw [← initHandle_queue]
      apply uvAccept_queue
  | pipe =>
    cases hstream : env.stream with
    | none => simp [Succeeds]
    | some a =>
      apply init_clean_iff (.inr htype) hunused (hfits a hstream)
      rw [← initHandle_queue]
      apply connected_queue
  | unknown => exact exit1_zero_clean_iff hunused none _
  | udp => exact exit1_zero_clean_iff hunused none _
  | mix => exact exit1_zero_clean_iff hunused none _

/-! ### The call in which every step succeeds -/

/-- The two models have the same ids, sessions, associations and events. -/
structure Represents (srv : UvServer) (u : UvAcceptor) : Prop where
  sidCur : u.sidCur = srv.sidCur
  count : u.count = srv.count
  inHandler : u.inHandler = srv.inHandler
  events : u.events = srv.events
  map : ∃ m, u.mapClients = some m ∧ Refines uint64Funcs srv.mapClients m
  sessions : ∀ n, (u.sessions n).map (fun x => (x.dsId, x.dsType)) = (srv.sessions n).map fun x => (x.dsId, x.dsType)

theorem onConnection_represents {srv srv' : UvServer} {u : UvAcceptor} (h : Represents srv u)
    (htype : u.streamType = .tcp) (hok : ¬ env.Fails u) {scale : Nat → Nat} {fuel : Nat}
    (hwrap : NoWrap uint64Funcs scale srv.mapClients (.add (uint64Key u.nextId) (some u.count)))
    (hrun : srv.onConnection scale fuel = .ok srv') :
    (onConnection env u).Succeeds fun r => r.1 = 0 ∧ Represents srv' r.2 := by
  simp only [UvAcceptEnv.Fails, htype, not_or, not_not, ne_eq] at hok
  obtain ⟨hstatus, hds, hstream, hinit, haccept, hread, hwrite, -, hadded, hstart⟩ := hok
  obtain ⟨x, hds⟩ := Option.ne_none_iff_exists'.mp hds
  obtain ⟨a, hstream⟩ := Option.ne_none_iff_exists'.mp hstream
  obtain ⟨c, hread⟩ := Option.ne_none_iff_exists'.mp hread
  obtain ⟨d, hwrite⟩ := Option.ne_none_iff_exists'.mp hwrite
  obtain ⟨m, hm, hrefines⟩ := h.map
  have hid : u.nextId = (srv.sidCur + 1) % 18446744073709551616 := by rw [nextId, h.sidCur]
  obtain ⟨⟨code, map⟩, hadd, heq⟩ := Except.of_bind_ok hrun
  cases heq
  rw [← hid, ← h.count] at hadd
  have hrefines' := SessionMap.add_refines (fun _ => rfl) hrefines hwrap ⟨fuel, code, hadd⟩
  simp only [onConnection, hstatus, mallocDs, newDs, hds, mallocStream, initHandle, htype, hstream, hinit, uvAccept,
    haccept, beginSession, session, hread, hwrite, BufferMemory.create, Function.update_self, Function.update_idem,
    hstart, readStart, connected, ne_eq, not_true_eq_false, if_false, bind, Except.bind, pure, Except.pure,
    Option.map_some]
  apply Succeeds.ok
  refine ⟨rfl, hid, ?_, h.inHandler, ?_, ?_, fun n => ?_⟩
  · rw [← h.count]
  · simp only [UvServer.onCode, h.inHandler, h.events, h.count]
  · refine ⟨m.add true u.nextId u.count, ?_, hrefines'⟩
    simp only [hm, Option.map_some, eq_true_of_ne_false hadded]
    rfl
  · by_cases hn : n = srv.count
    · simp [hn, h.count, ← hid, nextId]
    · simp [hn, h.count, h.sessions]

end UvAcceptor

open EpollReactor

/-- A call in which a step fails changes nothing and returns a code just when it recovers, of the epoll server and
of the libuv server. -/
theorem failsCleanly_iff {s : EpollReactor} {env : AcceptEnv} {srv : UvAcceptor} {env' : UvAcceptEnv}
    (hinv : s.heap.Sound) (hlistens : s.Listens) (hunused : s.sessions s.count = none) (hfits : env.Fits s)
    (hunused' : srv.sessions srv.count = none) (hfits' : ∀ a, env'.stream = some a → srv.streams a = none) :
    (env.FailsCleanly s ↔ (env.Fails s → env.Recovers s)) ∧
      (env'.FailsCleanly srv ↔ (env'.Fails srv → env'.Recovers srv)) := by
  constructor
  · apply imp_congr_right
    intro _
    exact accept_clean_iff hinv hlistens hunused hfits
  · apply imp_congr_right
    intro _
    exact UvAcceptor.onConnection_clean_iff hunused' hfits'

/-- A connection with the descriptor 7. -/
def acceptSeven (nonblock ctl : Int) : AcceptEnv where
  socket := some 9
  code := rcodeIoDone
  fd := 7
  family := AF_INET
  ds := some ⟨0, .init, none, none, none⟩
  readCache := some (3, [])
  writeBuff := some (4, [])
  added := true
  nonblock := nonblock
  nodelay := 0
  item := some 5
  ctl := ctl
  remove := 0

theorem acceptSeven_fits (nonblock ctl : Int) : (acceptSeven nonblock ctl).Fits serverSix := by
  refine ⟨fun ha => ?_, fun _ => rfl, fun hb => ?_, fun hc => ?_, fun hd => ⟨?_, fun hc => ?_⟩⟩
  · cases ha
    rfl
  · cases hb
    rfl
  · cases hc
    rfl
  · cases hd
    rfl
  · cases hc
    cases hd
    decide

/-- A TCP server with session 1, whose stream is at 3. -/
def serverTcp : UvAcceptor where
  streamType := .tcp
  sidCur := 1
  mapClients := some (SessionMap.empty.add true 1 1)
  inHandler := true
  count := 2
  sessions := Function.update (fun _ => none) 1 (some ⟨1, .session, some 1, some 2, some 3⟩)
  buffers := fun a => if a = 1 ∨ a = 2 then some (Rbuffer.create cacheSize []) else none
  streams := Function.update (fun _ => none) 3 (some ⟨some 1, true⟩)
  handleQueue := [3]
  events := []

/-- The new data source has the id `dsId` before one is assigned. -/
def connectionFour (dsId : Nat) (init accept : Int) : UvAcceptEnv where
  status := 0
  ds := some ⟨dsId, .unknown, none, none, none⟩
  stream := some 4
  init := init
  accept := accept
  readCache := some (3, [])
  writeBuff := some (4, [])
  added := true
  readStart := 0

theorem connectionFour_fits (dsId : Nat) (init accept : Int) :
    ∀ a, (connectionFour dsId init accept).stream = some a → serverTcp.streams a = none := by
  intro a ha
  cases ha
  rfl

/-- `epoll_ctl` fails, `uv_tcp_init` fails. -/
theorem failsCleanly_iff_ctl :
    (acceptSeven 0 (-1)).FailsCleanly serverSix ∧ (connectionFour 7 (-22) 0).FailsCleanly serverTcp := by
  have h : ((acceptSeven 0 (-1)).FailsCleanly serverSix ↔ _) ∧
      ((connectionFour 7 (-22) 0).FailsCleanly serverTcp ↔ _) :=
    failsCleanly_iff (inv_of_calm freshServer_fresh serverSix_run).sound ⟨1, _, rfl, rfl⟩ rfl
      (acceptSeven_fits 0 (-1)) rfl (connectionFour_fits 7 (-22) 0)
  refine ⟨h.1.mpr fun _ => ⟨?_, fun _ => ⟨⟨rfl, rfl⟩, by decide, ?_⟩⟩, h.2.mpr fun _ => .inr ⟨by decide, ?_⟩⟩
  · simp [AcceptEnv.Short, acceptSeven]
  · intro m hm
    obtain rfl := Option.some.inj hm
    rfl
  · intro x hx
    cases hx
    refine ⟨rfl, rfl, fun m hm => ?_⟩
    cases hm
    rfl

/-- An option of the socket cannot be set; `uv_accept` fails, and the data source has the id 1 before one is
assigned. -/
theorem failed_accepts_leave : (acceptSeven (-1) 0).Fits serverSix ∧ ¬ (acceptSeven (-1) 0).FailsCleanly serverSix ∧
    ¬ (connectionFour 1 0 (-16)).FailsCleanly serverTcp := by
  refine ⟨acceptSeven_fits (-1) 0, fun h => ?_, fun h => ?_⟩
  · obtain ⟨r, hrun, hcode, -⟩ := h (.inr (.inr (.inr (.inr (.inl (by simp [AcceptEnv.OptionsSet, acceptSeven]))))))
    obtain rfl := Except.ok.inj hrun
    exact hcode rfl
  · obtain ⟨r, hrun, -, hrestored⟩ := h (.inr (.inr (.inr (.inr (.inl (by decide))))))
    obtain rfl := Except.ok.inj hrun
    have hlost := congrArg (fun map : Option SessionMap => map.bind fun m => m (some 1)) hrestored.map
    cases hlost

end Funra
