import Funra.Epoll.Buffers
import Funra.Epoll.Opening

/-!
# The epoll client

The functions of `impl_c` on one context. A call is given what the system calls and the handlers yield; a
handler works on the buffer of its direction only, and `on_code` leaves the data source alone.

The pointers of the data source are addresses, into a memory of buffers and one of sockets. A fresh data
source has any values in its fields; what nothing has been allocated for is not in the memory, and an access
to it is a fault.
-/

namespace Funra

open Mem Except

def rcodeInvalid : Int := 1
def rcodeIoClosed : Int := -2
def rcodeErrIpcDecode : Int := 12008

/-- The address of the client's data source. -/
def dsClient : Nat := 0

/-- The data source of a client, the memory and the kernel. -/
structure EpollClient where
  state : RipcState
  stream : Option Nat
  readCache : Option Nat
  writeBuff : Option Nat
  buffers : BufferMemory
  heap : EpollHeap

/-- What an error notification meets: the code of `on_code`, and the result of `epoll_ctl`. -/
structure ErrorEnv where
  onCode : Option Int
  ctl : Int

/-- What the calls for one result of a poll yield. -/
structure ClientIo where
  error : ErrorEnv
  sendCode : Int
  sentLen : Int
  modify : Int
  recvCode : Int
  receivedLen : Int
  input : HandlerResult

structure StartEnv where
  polls : List WaitResult
  error : ErrorEnv
  modify : Int
  readCache : BufferAlloc
  writeBuff : BufferAlloc

structure CheckEnv where
  wait : WaitResult
  io : Nat → ClientIo

structure SendEnv where
  output : HandlerResult
  modify : Int

namespace EpollClient

/-! ### Access through the pointers -/

/-- `(rsocket_t*)ds->stream` where it is dereferenced. -/
def rsock (s : EpollClient) : Except Fault Rsocket :=
  match s.stream with
  | none => .error .nullDeref
  | some a => s.heap.deref a

def changeInterest (change : Events → Events) (ctl : Int) (s : EpollClient) :
    Except Fault (Int × EpollClient) :=
  match s.stream with
  | none => .error .nullDeref
  | some a => (s.heap.changeInterest change ctl a).map fun (code, heap) => (code, { s with heap })

end EpollClient

open EpollClient

/-! ### The entries -/

def ripcInitC (s : EpollClient) : Except Fault (Int × EpollClient) := .ok (0, { s with stream := none })

/-- Out of epoll, and the socket destroyed. -/
def EpollClient.dropStream (ctl : Int) (s : EpollClient) : Except Fault EpollClient :=
  match s.stream with
  | none => .ok s
  | some a => (s.heap.dropSocket ctl a).map fun heap => { s with heap, stream := none }

/-- The buffers are released, their pointers stay. -/
def ripcCloseC (ctl : Int) (s : EpollClient) : Except Fault (Int × EpollClient) := do
  if s.state = .closed then return (0, s)
  let buffers ← s.buffers.release s.readCache
  let buffers ← buffers.release s.writeBuff
  let s ← EpollClient.dropStream ctl { s with buffers }
  return (0, { s with state := .closed })

def ripcUninitC (ctl : Int) (s : EpollClient) : Except Fault (Int × EpollClient) := do
  if s.state = .uninit then return (0, s)
  if s.state = .closed then return (0, { s with state := .uninit })
  let (code, s) ← ripcCloseC ctl s
  if code ≠ 0 then return (code, s)
  return (code, { s with state := .uninit })

def ripcOpenC (nodelay : Int) (env : OpenEnv) (s : EpollClient) : Except Fault (Int × EpollClient) :=
  (s.heap.openStream 0 [nodelay] env dsClient).map fun (code, stream, heap) =>
    match stream with
    | none => (code, { s with heap })
    | some a => (0, { s with heap, stream := some a, state := .readyPending })

def ripcOnErrorC (env : ErrorEnv) (s : EpollClient) : Except Fault (Int × EpollClient) :=
  (ripcCloseC env.ctl s).map fun (_, s) => (env.onCode.getD rcodeErrOk, s)

def EpollClient.createBuffers (env : StartEnv) (s : EpollClient) : Except Fault EpollClient := do
  let (readCache, buffers) ← s.buffers.create env.readCache
  let (writeBuff, buffers) ← buffers.create env.writeBuff
  return { s with readCache := some readCache, writeBuff := some writeBuff, buffers }

/-- The connection stands: `OUT` is taken back through the slot of `dest_items`, the buffers are created. -/
def startConnected (env : StartEnv) (i : Nat) (item : RepollItem) (s : EpollClient) :
    Except Fault (Option Int × EpollClient) := do
  let repoll ← s.heap.repoll.assign (.slot i)
    { item with eventValReq := repollUnsetEventOut item.eventValReq }
  let (code, repoll) ← repollModify env.modify repoll (.slot i)
  let s := { s with heap := { s.heap with repoll } }
  if code ≠ 0 then return (some code, s)
  let s ← s.createBuffers env
  return (some 0, { s with state := .start })

/-- One result; after an error notification the loop goes on. -/
def startItem (env : StartEnv) (i : Nat) (s : EpollClient) : Except Fault (Option Int × EpollClient) := do
  let item ← s.heap.repoll.deref (.slot i)
  let sock ← s.rsock
  if item.fd ≠ sock.fd then return (none, s)
  else if repollCheckEventErr item.eventValRsp then
    let (_, s) ← ripcOnErrorC env.error s
    return (none, s)
  else if repollCheckEventOut item.eventValRsp ∧ s.state = .readyPending then startConnected env i item s
  else return (none, s)

def startRound (env : StartEnv) (wait : WaitResult) (s : EpollClient) :
    Except Fault (Option Int × EpollClient) := do
  let (code, heap) ← s.heap.poll wait
  if code ≠ 0 then return (some code, { s with heap })
  else forUntil (startItem env) (List.range heap.repoll.fdDestCount) { s with heap }

/-- The polls until the timeout, whose trace looks at the descriptor once more. -/
def ripcStartC (env : StartEnv) (s : EpollClient) : Except Fault (Int × EpollClient) := do
  if s.stream = none then return (rcodeInvalid, s)
  match ← forUntil (startRound env) env.polls s with
  | (some code, s) => return (code, s)
  | (none, s) =>
    let _ ← s.rsock
    return (rcodeIoTimeout, s)

def ripcStopC (s : EpollClient) : Except Fault (Int × EpollClient) := .ok (0, { s with state := .stop })

def ripcSendData2bufferC (env : SendEnv) (s : EpollClient) : Except Fault (Int × EpollClient) := do
  if s.stream = none ∨ s.state ≠ .start then return (rcodeErrIpcDisconnect, s)
  let (code, buffers) ← s.buffers.process env.output s.writeBuff
  let s := { s with buffers }
  if code ≠ rcodeErrOk then return (code, s)
  let d ← s.buffers.get s.writeBuff
  if d.size > 0 then s.changeInterest repollSetEventOut env.modify else return (0, s)

def ripcSendDataC (io : ClientIo) (s : EpollClient) : Except Fault (Int × EpollClient) := do
  let d ← s.buffers.get s.writeBuff
  let _ ← s.rsock
  if io.sendCode ≠ rcodeIoDone then
    let (_, s) ← ripcOnErrorC io.error s
    return (rcodeIoClosed, s)
  else
    let buffers ← s.buffers.set s.writeBuff (d.skip io.sentLen)
    let s := { s with buffers }
    if (d.skip io.sentLen).size = 0 then s.changeInterest repollUnsetEventOut io.modify else return (0, s)

/-- A timeout is no failure here. -/
def ripcReceiveDataC (io : ClientIo) (s : EpollClient) : Except Fault (Int × EpollClient) := do
  if s.state ≠ .start then return (rcodeErrIpcDisconnect, s)
  let _ ← s.buffers.get s.readCache
  let _ ← s.rsock
  if io.recvCode ≠ rcodeIoDone ∧ io.recvCode ≠ rcodeIoTimeout then
    let (_, s) ← ripcOnErrorC io.error s
    return (rcodeIoClosed, s)
  else if io.receivedLen > 0 then
    let (code, buffers) ← s.buffers.process io.input s.readCache
    return (if code ≠ rcodeErrOk then rcodeErrIpcDecode else 0, { s with buffers })
  else return (0, s)

/-- The output or the input of one result, for which the session must be started. -/
def EpollClient.whenStarted (ready : Bool) (call : EpollClient → Except Fault (Int × EpollClient))
    (s : EpollClient) : Except Fault EpollClient :=
  if ready ∧ s.state = .start then (call s).map Prod.snd else .ok s

def checkItemC (io : Nat → ClientIo) (i : Nat) (s : EpollClient) : Except Fault (Option Int × EpollClient) := do
  let item ← s.heap.repoll.deref (.slot i)
  if item.fd = 0 then return (none, s)
  else if repollCheckEventErr item.eventValRsp then
    let (code, s) ← ripcOnErrorC (io i).error s
    return (if code ≠ 0 then some code else none, s)
  else
    let s ← s.whenStarted (repollCheckEventOut item.eventValRsp) (ripcSendDataC (io i))
    let s ← s.whenStarted (repollCheckEventIn item.eventValRsp) (ripcReceiveDataC (io i))
    return (none, s)

def ripcCheckDataC (env : CheckEnv) (s : EpollClient) : Except Fault (Int × EpollClient) := do
  let (code, heap) ← s.heap.poll env.wait
  if code ≠ 0 then return (code, { s with heap })
  else (forUntil (checkItemC env.io) (List.range heap.repoll.fdDestCount) { s with heap }).map fun (r, s) =>
    (r.getD 0, s)

/-! ### Calls -/

inductive ClientCall
  | initC
  | uninitC (ctl : Int)
  | openC (nodelay : Int) (env : OpenEnv)
  | closeC (ctl : Int)
  | startC (env : StartEnv)
  | stopC
  | sendC (env : SendEnv)
  | checkC (env : CheckEnv)
  | receiveC (io : ClientIo)
  | errorC (env : ErrorEnv)

def ClientCall.run : ClientCall → EpollClient → Except Fault (Int × EpollClient)
  | .initC => ripcInitC
  | .uninitC ctl => ripcUninitC ctl
  | .openC nodelay env => ripcOpenC nodelay env
  | .closeC ctl => ripcCloseC ctl
  | .startC env => ripcStartC env
  | .stopC => ripcStopC
  | .sendC env => ripcSendData2bufferC env
  | .checkC env => ripcCheckDataC env
  | .receiveC io => ripcReceiveDataC io
  | .errorC env => ripcOnErrorC env

end Funra
