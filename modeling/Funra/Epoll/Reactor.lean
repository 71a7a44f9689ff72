import Funra.Epoll.Client
import Funra.Rdict.Associations

/-!
# The epoll server

The functions of `impl_s` on one context. A call is given what the system calls and the handlers yield. An
accepted connection finds memory and a descriptor that depend on the state, so its answers are a function of
the state.

`map_clients` is the map of its associations; `rdict_next` yields keys in some order, of which those that have
been removed are not met any more. Data sources are known by a number, the server's is `dsServer`; the number
of a session is not used again, so an access to a session that has been freed is a fault.
-/

namespace Funra

open Mem Except

def AF_INET6 : Int := 10

/-- The number of `ds_server`. -/
def dsServer : Nat := 0

/-- The data source of a session. -/
structure ReactorSession where
  dsId : Nat
  state : RipcState
  stream : Option Nat
  readCache : Option Nat
  writeBuff : Option Nat
  deriving DecidableEq, Repr

/-- `state` and `stream` are those of `ds_server`; `count` data sources have been made so far. -/
structure EpollReactor where
  state : RipcState
  stream : Option Nat
  sidCur : Nat
  mapClients : Option SessionMap
  count : Nat
  sessions : Nat → Option ReactorSession
  buffers : BufferMemory
  heap : EpollHeap

/-- What a handler does with the session besides its work on the buffer: it sends, or it stops the server. -/
inductive SessionAction
  | reply (env : SendEnv)
  | stop

/-- What the calls for one result of a poll yield; `input` is `none` where there is no `in_handler`. -/
structure SessionIo where
  ctl : Int
  sendCode : Int
  sentLen : Int
  modify : Int
  recvCode : Int
  receivedLen : Int
  input : Option (Int × Rbuffer × List SessionAction)

/-- The answers to one accept, as far as it gets: the memory of the socket, `rsocket_accept` with the descriptor
and the family of the peer, the memory of the data source with what its fields hold, of the buffers and of the
item, the options, `epoll_ctl`. `added` tells whether the map has had memory for the session. -/
structure AcceptEnv where
  socket : Option Nat
  code : Int
  fd : Int
  family : Int
  ds : Option ReactorSession
  readCache : BufferAlloc
  writeBuff : BufferAlloc
  added : Bool
  nonblock : Int
  nodelay : Int
  item : Option Nat
  ctl : Int
  remove : Int

/-- `ctl` is for the listening socket, `visited` are the keys that `rdict_next` yields. -/
structure CloseEnv where
  ctl : Int
  visited : List (Option Nat × Int)

structure ReactorEnv where
  wait : WaitResult
  io : Nat → SessionIo
  accept : Nat → Nat → EpollReactor → AcceptEnv
  close : Nat → CloseEnv

namespace EpollReactor

/-! ### Access through the pointers -/

def session (s : EpollReactor) (n : Nat) : Except Fault ReactorSession :=
  match s.sessions n with
  | none => .error .useAfterFree
  | some x => .ok x

/-- `rsock_item` of a data source where it is dereferenced. -/
def rsock (stream : Option Nat) (s : EpollReactor) : Except Fault Rsocket :=
  match stream with
  | none => .error .nullDeref
  | some a => s.heap.deref a

def changeInterest (change : Events → Events) (ctl : Int) (stream : Option Nat) (s : EpollReactor) :
    Except Fault (Int × EpollReactor) :=
  match stream with
  | none => .error .nullDeref
  | some a => (s.heap.changeInterest change ctl a).map fun (code, heap) => (code, { s with heap })

/-- Out of epoll, and the socket destroyed. -/
def dropStream (ctl : Int) (stream : Option Nat) (s : EpollReactor) : Except Fault EpollReactor :=
  match stream with
  | none => .ok s
  | some a => (s.heap.dropSocket ctl a).map fun heap => { s with heap }

/-- `rdict_remove`, which finds nothing in a map that is `NULL`. -/
def removeClient (dsId : Nat) (s : EpollReactor) : EpollReactor :=
  { s with mapClients := s.mapClients.map fun m => m.remove dsId }

/-! ### Sessions -/

def closeSession (ctl : Int) (n : Nat) (s : EpollReactor) : Except Fault EpollReactor := do
  let x ← s.session n
  if x.state = .closed then return s
  let s := s.removeClient x.dsId
  let buffers ← s.buffers.release x.readCache
  let buffers ← buffers.release x.writeBuff
  let s ← dropStream ctl x.stream { s with buffers }
  return { s with sessions := Function.update s.sessions n none }

def ripcOnErrorServer (ctl : Int) (n : Nat) (s : EpollReactor) : Except Fault (Int × EpollReactor) :=
  (closeSession ctl n s).map fun s => (0, s)

def ripcSendData2bufferServer (env : SendEnv) (n : Nat) (s : EpollReactor) :
    Except Fault (Int × EpollReactor) := do
  let x ← s.session n
  if x.stream ≠ none ∧ x.state ≠ .start then return (rcodeErrIpcDisconnect, s)
  let (code, buffers) ← s.buffers.process env.output x.writeBuff
  let s := { s with buffers }
  if code ≠ rcodeErrOk then return (code, s)
  let d ← s.buffers.get x.writeBuff
  if d.size > 0 then s.changeInterest repollSetEventOut env.modify x.stream else return (0, s)

def ripcSendDataServer (io : SessionIo) (n : Nat) (s : EpollReactor) : Except Fault (Int × EpollReactor) := do
  let x ← s.session n
  let d ← s.buffers.get x.writeBuff
  let _ ← s.rsock x.stream
  if io.sendCode ≠ rcodeIoDone then
    return (if io.sendCode = rcodeIoTimeout then rcodeErrIpcTimeout else rcodeErrIpcDisconnect, s)
  else
    let buffers ← s.buffers.set x.writeBuff (d.skip io.sentLen)
    let s := { s with buffers }
    if (d.skip io.sentLen).size = 0 then s.changeInterest repollUnsetEventOut io.modify x.stream
    else return (0, s)

def SessionAction.run (n : Nat) (s : EpollReactor) : SessionAction → Except Fault EpollReactor
  | .reply env => (ripcSendData2bufferServer env n s).map Prod.snd
  | .stop => .ok { s with state := .stop }

/-- A timeout is no failure here. -/
def ripcReceiveDataServer (io : SessionIo) (n : Nat) (s : EpollReactor) :
    Except Fault (Int × EpollReactor) := do
  let x ← s.session n
  if x.state ≠ .start then return (rcodeErrIpcDisconnect, s)
  let _ ← s.buffers.get x.readCache
  let _ ← s.rsock x.stream
  if io.recvCode ≠ rcodeIoDone ∧ io.recvCode ≠ rcodeIoTimeout then
    let (_, s) ← ripcOnErrorServer io.ctl n s
    return (rcodeIoClosed, s)
  else
    match io.input with
    | none => return (0, s)
    | some (code, d, actions) =>
      if io.receivedLen > 0 then
        let buffers ← s.buffers.set x.readCache d
        let s ← forEach (fun action s => SessionAction.run n s action) actions { s with buffers }
        return (if code ≠ rcodeErrOk then rcodeErrIpcDecode else 0, s)
      else return (0, s)

/-! ### Accepting -/

/-- The part of `exit1` for the item `b`: where a result of the poll has its descriptor, it is removed. -/
def discardItem (remove : Int) (b : Nat) (s : EpollReactor) : Except Fault EpollReactor := do
  let item ← s.heap.repoll.deref (.owned b)
  let (_, repoll) ← if repollCheck s.heap.repoll item.fd then repollRemove remove s.heap.repoll (.owned b)
    else pure (0, s.heap.repoll)
  let repoll ← repoll.freeItem b
  return { s with heap := { s.heap with repoll } }

/-- The part of `exit1` for the data source. -/
def discardSession (n : Nat) (s : EpollReactor) : Except Fault EpollReactor := do
  let x ← s.session n
  let s := s.removeClient x.dsId
  let buffers ← s.buffers.release x.readCache
  let buffers ← buffers.release x.writeBuff
  return { s with buffers, sessions := Function.update s.sessions n none }

/-- The end of `exit1`. -/
def discardPeer (code : Int) (a : Nat) (s : EpollReactor) : Except Fault (Int × EpollReactor) := do
  let heap ← s.heap.discardSocket a
  return (code, { s with heap })

/-- `++ sid_cur`. -/
def nextId (s : EpollReactor) : Nat := (s.sidCur + 1) % 18446744073709551616

/-- The data source of the new session, with its buffers and its entry in the map. -/
def newSession (env : AcceptEnv) (x : ReactorSession) (s : EpollReactor) : Except Fault EpollReactor := do
  let (readCache, buffers) ← s.buffers.create env.readCache
  let (writeBuff, buffers) ← buffers.create env.writeBuff
  let x := { x with dsId := s.nextId, readCache := some readCache, writeBuff := some writeBuff }
  return { s with
    sidCur := s.nextId
    mapClients := s.mapClients.map fun m => m.add env.added s.nextId s.count
    count := s.count + 1
    sessions := Function.update s.sessions s.count (some x)
    buffers }

/-- The item of session `n`, which waits for input. -/
def enrollSession (env : AcceptEnv) (a n : Nat) (s : EpollReactor) : Except Fault (Int × EpollReactor) :=
  match env.item with
  | none => .error .nullDeref
  | some b => do
    let (code, heap) ← s.heap.addItem env.ctl a b (repollSetEventIn 0) n
    let s := { s with heap }
    if code ≠ 0 then
      let s ← s.discardSession n
      let s ← s.discardItem env.remove b
      s.discardPeer code a
    else
      let heap ← s.heap.bindItem a b
      let x ← s.session n
      return (0, { s with
        heap, sessions := Function.update s.sessions n (some { x with stream := some a, state := .start }) })

/-- `ret_code` is 0 still when an option cannot be set. -/
def ripcAcceptServer (env : AcceptEnv) (s : EpollReactor) : Except Fault (Int × EpollReactor) :=
  match env.socket with
  | none => .error .nullDeref
  | some a => do
    let s := { s with heap := s.heap.newSocket a }
    let _ ← s.rsock s.stream
    let heap ← s.heap.openSocket a env.fd
    let s := { s with heap }
    if env.code ≠ rcodeIoDone then s.discardPeer env.code a
    else if env.fd = SOCKET_INVALID then s.discardPeer rcodeInvalid a
    else if env.family ≠ AF_INET ∧ env.family ≠ AF_INET6 then s.discardPeer rcodeInvalid a
    else
      match env.ds with
      | none => .error .nullDeref
      | some x =>
        let n := s.count
        let s ← s.newSession env x
        if env.nonblock ≠ 0 ∨ env.nodelay ≠ 0 then
          let s ← s.discardSession n
          s.discardPeer 0 a
        else s.enrollSession env a n

/-- At most `k` connections, until an accept fails. -/
def acceptLoop (accept : Nat → EpollReactor → AcceptEnv) : Nat → EpollReactor → Except Fault EpollReactor
  | 0, s => .ok s
  | k + 1, s => do
    let (code, s) ← ripcAcceptServer (accept k s) s
    if code = 0 then acceptLoop accept k s else return s

/-! ### The entries -/

def ripcInitServer (s : EpollReactor) : Except Fault (Int × EpollReactor) :=
  .ok (0, { s with mapClients := some SessionMap.empty, stream := none })

def ripcUninitServer (s : EpollReactor) : Except Fault (Int × EpollReactor) :=
  .ok (0, { s with mapClients := none, state := .uninit })

def ripcOpenServer (listen nonblock nodelay : Int) (env : OpenEnv) (s : EpollReactor) :
    Except Fault (Int × EpollReactor) :=
  (s.heap.openStream listen [nonblock, nodelay] env dsServer).map fun (code, stream, heap) =>
    match stream with
    | none => (code, { s with heap })
    | some a => (0, { s with heap, stream := some a, state := .ready })

/-- One round over `map_clients`. -/
def closeVisited (visit : Option Nat × Int) (s : EpollReactor) : Except Fault EpollReactor :=
  match s.mapClients.bind fun m => m visit.1 with
  | none => .ok s
  | some none => .error .nullDeref
  | some (some n) => closeSession visit.2 n s

/-- The stream is dereferenced before it is looked at, and is not reset. -/
def ripcCloseServer (env : CloseEnv) (s : EpollReactor) : Except Fault (Int × EpollReactor) := do
  let _ ← s.rsock s.stream
  if s.state = .closed then return (0, s)
  let s ← dropStream env.ctl s.stream s
  let s ← forEach closeVisited env.visited s
  return (0, { s with mapClients := s.mapClients.map fun _ => SessionMap.empty, state := .closed })

def ripcStartServer (s : EpollReactor) : Except Fault (Int × EpollReactor) := .ok (0, { s with state := .start })

def ripcStopServer (s : EpollReactor) : Except Fault (Int × EpollReactor) := .ok (0, { s with state := .stop })

/-- A result for the listening socket; `OUT` has no effect. -/
def checkListener (env : ReactorEnv) (i : Nat) (rsp : Events) (s : EpollReactor) : Except Fault EpollReactor :=
  if repollCheckEventErr rsp then (ripcCloseServer (env.close i) s).map Prod.snd
  else if repollCheckEventIn rsp ∧ s.state = .start then acceptLoop (env.accept i) 10 s
  else .ok s

/-- The output or the input of one result, for which the session must be started. -/
def whenStarted (ready : Bool) (n : Nat) (call : EpollReactor → Except Fault (Int × EpollReactor))
    (s : EpollReactor) : Except Fault EpollReactor := do
  if ready then
    let x ← s.session n
    if x.state = .start then (call s).map Prod.snd else return s
  else return s

/-- A result for session `n`. -/
def checkSession (io : SessionIo) (n : Nat) (rsp : Events) (s : EpollReactor) : Except Fault EpollReactor := do
  if repollCheckEventErr rsp then closeSession io.ctl n s
  else
    let s ← s.whenStarted (repollCheckEventOut rsp) n (ripcSendDataServer io n)
    s.whenStarted (repollCheckEventIn rsp) n (ripcReceiveDataServer io n)

/-- A result whose descriptor is 0 has been removed since the poll. -/
def checkItem (env : ReactorEnv) (i : Nat) (s : EpollReactor) : Except Fault EpollReactor := do
  let item ← s.heap.repoll.deref (.slot i)
  if item.fd = 0 then return s
  else if item.ds = dsServer then checkListener env i item.eventValRsp s
  else checkSession (env.io i) item.ds item.eventValRsp s

def ripcCheckDataServer (env : ReactorEnv) (s : EpollReactor) : Except Fault (Int × EpollReactor) := do
  let (code, heap) ← s.heap.poll env.wait
  if code ≠ 0 then return (code, { s with heap })
  else
    let s ← forEach (checkItem env) (List.range heap.repoll.fdDestCount) { s with heap }
    return (if s.state ≠ .start then rcodeInvalid else 0, s)

end EpollReactor

open EpollReactor

/-! ### Calls -/

inductive ReactorCall
  | initS
  | uninitS
  | openS (listen nonblock nodelay : Int) (env : OpenEnv)
  | closeS (env : CloseEnv)
  | startS
  | stopS
  | sendS (n : Nat) (env : SendEnv)
  | checkS (env : ReactorEnv)
  | receiveS (n : Nat) (io : SessionIo)
  | errorS (n : Nat) (ctl : Int)

def ReactorCall.run : ReactorCall → EpollReactor → Except Fault (Int × EpollReactor)
  | .initS => ripcInitServer
  | .uninitS => ripcUninitServer
  | .openS listen nonblock nodelay env => ripcOpenServer listen nonblock nodelay env
  | .closeS env => EpollReactor.ripcCloseServer env
  | .startS => ripcStartServer
  | .stopS => ripcStopServer
  | .sendS n env => EpollReactor.ripcSendData2bufferServer env n
  | .checkS env => ripcCheckDataServer env
  | .receiveS n io => ripcReceiveDataServer io n
  | .errorS n ctl => ripcOnErrorServer ctl n

end Funra
