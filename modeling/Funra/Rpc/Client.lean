import Funra.Lib.Ledger
import Funra.Rpc.Wire
import Funra.Rstring.Cat

/-!
# The RPC client

The client looks its server up, connects, and sends requests while it is connected. Each request comes with a
closure, which is called with the response, or with NULL when the connection fails or the client is destroyed. A
closure may itself make requests, so the client is a machine that stops at every call of a closure (`RpcActivation`)
and goes on when it returns.

Whatever the server sends and in whatever order things happen, every closure is called exactly once as soon as the
connection is over, and every socket is closed once (`rpc_closures_called`). The client must not be destroyed by a
closure that is called with a response: that closure is called twice.
-/

namespace Funra

open Mem Endian System Ownership

inductive RpcAddressType
  | addressLocal | addressTcp
  deriving DecidableEq, Repr

/-- `ProtobufC_RPC_ClientState`, each with its member of the union. -/
inductive RpcClientState
  | init
  | nameLookup (pending destroyedWhilePending : Bool)
  | connecting
  | connected (info : RpcConnected)
  | failedWaiting (errorMessage : Obj)
  | failed (errorMessage : Obj)
  | destroyed
  deriving DecidableEq

/-- `ProtobufC_RPC_Client`. The name is without its NUL. -/
structure RpcClient where
  addressType : RpcAddressType
  name : Obj
  fd : Option Nat
  incoming : Obj
  outgoing : Obj
  autoreconnect : Bool
  state : RpcClientState
  deriving DecidableEq

/-- The handler the dispatcher has for the socket; `events` is always called when there is something to read. -/
inductive RpcWatch
  | connect
  | events (writable : Bool)
  deriving DecidableEq, Repr

/-- What the dispatcher will call the client for: the idle function, the timer, the answer of the resolver, the socket. -/
structure RpcDispatch where
  idle : Bool
  timer : Bool
  resolving : Bool
  watch : Option RpcWatch
  deriving DecidableEq, Repr

/-- A function of the client that has called a closure and waits for it to return. -/
inductive RpcActivation
  | invoked
  | responded (requestId block : Nat)
  | failing (closures : List RpcClosure) (again : Bool)
  | destroying (closures : List RpcClosure)
  deriving DecidableEq

structure RpcCall (M : Type) where
  closure : Nat
  closureData : Nat
  message : Option M

def RpcCall.pair {M : Type} (c : RpcCall M) : Nat × Nat := (c.closure, c.closureData)

/-- The client, `none` once it is freed, and what is around it. The closures of the requests and the calls are
recorded, the latest first; `blocks` counts the arrays. -/
structure RpcRun (M : Type) where
  client : Option RpcClient
  dispatch : RpcDispatch
  stack : List RpcActivation
  sockets : Ledger Nat
  blocks : Nat
  requests : List (Nat × Nat)
  calls : List (RpcCall M)

/-- The service and the texts of the error numbers. -/
structure RpcEnv (M : Type) extends RpcService M where
  strerror : Int → Obj

/-- What `socket` and `connect` do. -/
inductive RpcConnect
  | socketError (errno : Int)
  | established (fd : Nat)
  | inProgress (fd : Nat)
  | refused (fd : Nat) (errno : Int)

inductive RpcLookup
  | found (conn : RpcConnect)
  | notFound (errorMessage : Obj)

inductive RpcWrite
  | wrote (n : Nat)
  | error (errno : Int)

inductive RpcInput
  | bytes (chunk : Obj)
  | eof
  | error (errno : Int)

/-- `EINTR`, `EAGAIN` and `EWOULDBLOCK`. -/
def errnoIsIgnorable (e : Int) : Bool := e = 4 ∨ e = 11

/-! ### Closures -/

section client

variable {M : Type}

/-- The next entry with a request, and what is behind it. -/
def nextOpen : List RpcClosure → Option (RpcClosure × List RpcClosure)
  | [] => none
  | cl :: rest => if cl.responseType.isSome then some (cl, rest) else nextOpen rest

def callClosure (cl : RpcClosure) (message : Option M) (act : RpcActivation) (x : RpcRun M) :
    Except RpcFault (RpcRun M) :=
  match cl.closure with
  | none => .error .nullDeref
  | some f => .ok { x with stack := act :: x.stack, calls := ⟨f, cl.closureData, message⟩ :: x.calls }

/-- The loop of `client_failed`. `again` is for the call in `get_rcvd_message_descriptor`: its NULL makes the caller
call `client_failed` a second time. -/
def failClosures (again : Bool) (closures : List RpcClosure) (x : RpcRun M) : Except RpcFault (RpcRun M) :=
  match nextOpen closures with
  | some (cl, rest) => callClosure cl none (.failing rest again) x
  | none =>
    match x.client with
    | none => .error .useAfterFree
    | some _ => if again then .error .assertion else .ok x

/-- The end of `destroy_client_rpc`: its loop, and `free (client)`. -/
def destroyClosures (closures : List RpcClosure) (x : RpcRun M) : Except RpcFault (RpcRun M) :=
  match nextOpen closures with
  | some (cl, rest) => callClosure cl none (.destroying rest) x
  | none => .ok { x with client := none }

/-- `protobuf_c_rpc_dispatch_close_fd` of a socket there is. -/
def RpcRun.closeFd (fd : Option Nat) (x : RpcRun M) : RpcRun M :=
  { x with
    sockets := x.sockets.free fd
    dispatch := { x.dispatch with watch := if fd.isSome then none else x.dispatch.watch } }

/-! ### Failing and connecting -/

def errorText (format : String) (arg : Obj) : Obj := (format.toUTF8.toList ++ arg).take 511

/-- The switch at the beginning of `client_failed`. -/
def closuresToFail : RpcClientState → Except RpcFault (List RpcClosure)
  | .nameLookup pending _ => if pending then .error .assertion else .ok []
  | .connecting => .ok []
  | .connected info => .ok info.closures
  | _ => .error .assertion

def clientFailed (text : Obj) (again : Bool) (c : RpcClient) (x : RpcRun M) : Except RpcFault (RpcRun M) := do
  let closures ← closuresToFail c.state
  let x := x.closeFd c.fd
  let state := if c.autoreconnect then .failedWaiting text else .failed text
  failClosures again closures { x with
    client := some { c with fd := none, incoming := [], outgoing := [], state }
    dispatch := { x.dispatch with timer := c.autoreconnect } }

/-- `set_state_connected` -/
def RpcRun.connected (c : RpcClient) (x : RpcRun M) : RpcRun M :=
  { x with
    client := some { c with state := .connected (setStateConnected x.blocks) }
    blocks := x.blocks + 1 }

def beginConnecting (env : RpcEnv M) (conn : RpcConnect) (c : RpcClient) (x : RpcRun M) :
    Except RpcFault (RpcRun M) :=
  let c := { c with state := .connecting }
  match conn with
  | .socketError errno =>
    clientFailed (errorText "error creating socket: " (env.strerror errno)) false { c with fd := none } x
  | .established fd => .ok ({ x with sockets := x.sockets.make (some fd) }.connected { c with fd := some fd })
  | .inProgress fd => .ok { x with
      client := some { c with fd := some fd }
      sockets := x.sockets.make (some fd)
      dispatch := { x.dispatch with watch := some .connect } }
  | .refused fd errno =>
    clientFailed (errorText "error connecting to remote host: " (env.strerror errno)) false { c with fd := none }
      { x with sockets := (x.sockets.make (some fd)).free (some fd) }

/-- `begin_name_lookup` behind its assertion. 58 is the colon. -/
def nameLookup (env : RpcEnv M) (conn : RpcConnect) (c : RpcClient) (x : RpcRun M) :
    Except RpcFault (RpcRun M) :=
  match c.addressType with
  | .addressLocal => beginConnecting env conn { c with state := .nameLookup false false } x
  | .addressTcp =>
    if 58 ∉ c.name then
      clientFailed (("name '".toUTF8.toList ++ c.name ++
        "' does not have a : in it (supposed to be HOST:PORT)".toUTF8.toList).take 511) false
        { c with state := .nameLookup false false } x
    else .ok { x with
      client := some { c with state := .nameLookup true false }
      dispatch := { x.dispatch with resolving := true } }

def beginNameLookup (env : RpcEnv M) (conn : RpcConnect) (c : RpcClient) (x : RpcRun M) :
    Except RpcFault (RpcRun M) :=
  match c.state with
  | .init | .failedWaiting _ | .failed _ => nameLookup env conn c x
  | _ => .error .assertion

/-- What is behind the switch. -/
def destroyClient (closures : List RpcClosure) (c : RpcClient) (x : RpcRun M) : Except RpcFault (RpcRun M) :=
  destroyClosures closures { x.closeFd c.fd with
    client := some { c with fd := none, incoming := [], outgoing := [], state := .destroyed } }

def destroyClientRpc (x : RpcRun M) : Except RpcFault (RpcRun M) :=
  match x.client with
  | none => .error .useAfterFree
  | some c =>
    match c.state with
    | .init => destroyClient [] c { x with dispatch := { x.dispatch with idle := false } }
    | .nameLookup pending _ =>
      if pending then .ok { x with client := some { c with state := .nameLookup true true } }
      else destroyClient [] c x
    | .connecting => destroyClient [] c x
    | .connected info => destroyClient info.closures c x
    | .failedWaiting _ => destroyClient [] c { x with dispatch := { x.dispatch with timer := false } }
    | .failed _ => destroyClient [] c x
    | .destroyed => .error .assertion

/-! ### The handlers of the dispatcher -/

def handleInitIdle (env : RpcEnv M) (conn : RpcConnect) (x : RpcRun M) : Except RpcFault (RpcRun M) :=
  match x.client with
  | none => .error .useAfterFree
  | some c =>
    if c.state = .init then
      beginNameLookup env conn c { x with dispatch := { x.dispatch with idle := false } }
    else .error .assertion

def handleAutoreconnectTimeout (env : RpcEnv M) (conn : RpcConnect) (x : RpcRun M) : Except RpcFault (RpcRun M) :=
  match x.client with
  | none => .error .useAfterFree
  | some c =>
    match c.state with
    | .failedWaiting _ => beginNameLookup env conn c { x with dispatch := { x.dispatch with timer := false } }
    | _ => .error .assertion

/-- `handle_name_lookup_success` and `handle_name_lookup_failure`. -/
def handleNameLookup (env : RpcEnv M) (lookup : RpcLookup) (x : RpcRun M) : Except RpcFault (RpcRun M) :=
  match x.client with
  | none => .error .useAfterFree
  | some c =>
    match c.state with
    | .nameLookup pending destroyedWhilePending =>
      if ¬ pending then .error .assertion
      else
        let c := { c with state := .nameLookup false destroyedWhilePending }
        let x := { x with client := some c, dispatch := { x.dispatch with resolving := false } }
        if destroyedWhilePending then destroyClientRpc x
        else
          match lookup with
          | .found conn => beginConnecting env conn c x
          | .notFound errorMessage =>
            clientFailed (("name lookup failed (for name from ".toUTF8.toList ++ c.name ++ "): ".toUTF8.toList ++
              errorMessage).take 511) false c x
    | _ => .error .assertion

def handleClientFdConnectEvents (env : RpcEnv M) (fdErrno : Int) (x : RpcRun M) : Except RpcFault (RpcRun M) :=
  match x.client with
  | none => .error .useAfterFree
  | some c =>
    if fdErrno = 0 then .ok ({ x with dispatch := { x.dispatch with watch := none } }.connected c)
    else if errnoIsIgnorable fdErrno then .ok x
    else clientFailed (errorText "failed connecting to server: " (env.strerror fdErrno)) false c x

/-- The loop over `incoming`, up to the next call of a closure. -/
def processIncoming (env : RpcEnv M) (c : RpcClient) (info : RpcConnected) (x : RpcRun M) :
    Except RpcFault (RpcRun M) := do
  let x := { x with client := some { c with state := .connected info } }
  if c.incoming = [] then return x
  match ← clientDeserialize env.toRpcService info.responseType c.incoming with
  | .incomplete => return x
  | .noDescriptor =>
    clientFailed "bad request-id in response from server".toUTF8.toList true { c with state := .connected info } x
  | .failed =>
    clientFailed "error deserialing server response".toUTF8.toList false { c with state := .connected info } x
  | .success payload rest =>
    match info.entry payload.requestId with
    | none => .error .outOfBounds
    | some cl =>
      callClosure cl payload.message (.responded payload.requestId info.block)
        { x with client := some { c with incoming := rest, state := .connected info } }

/-- The second half of `handle_client_fd_events`. -/
def readEvent (env : RpcEnv M) (input : RpcInput) (c : RpcClient) (info : RpcConnected) (x : RpcRun M) :
    Except RpcFault (RpcRun M) :=
  match input with
  | .error errno =>
    if errnoIsIgnorable errno then .ok x
    else clientFailed (errorText "reading from file-descriptor: " (env.strerror errno)) false c x
  | .eof =>
    clientFailed (("got end-of-file from server [".toUTF8.toList ++ fmtInt 1 c.incoming.length ++
      " bytes incoming, ".toUTF8.toList ++ fmtInt 1 c.outgoing.length ++ " bytes outgoing]".toUTF8.toList).take 511)
      false c x
  | .bytes chunk => processIncoming env { c with incoming := c.incoming ++ chunk } info x

/-- Without output the socket is watched for input only. -/
def RpcRun.watchWritten (c : RpcClient) (x : RpcRun M) : RpcRun M :=
  if c.outgoing = [] then { x with dispatch := { x.dispatch with watch := some (.events false) } } else x

/-- The first half, with the text of an error; `none` when the socket is not ready for output. -/
def writeEvent (env : RpcEnv M) (write : Option RpcWrite) (c : RpcClient) (x : RpcRun M) :
    RpcClient × RpcRun M × Option Obj :=
  match write with
  | none => (c, x, none)
  | some (.error errno) =>
    if errnoIsIgnorable errno then (c, x.watchWritten c, none)
    else (c, x, some (errorText "writing to file-descriptor: " (env.strerror errno)))
  | some (.wrote n) =>
    let c := { c with outgoing := c.outgoing.drop n }
    (c, { x with client := some c }.watchWritten c, none)

def handleClientFdEvents (env : RpcEnv M) (write : Option RpcWrite) (input : Option RpcInput) (x : RpcRun M) :
    Except RpcFault (RpcRun M) :=
  match x.client with
  | none => .error .useAfterFree
  | some c =>
    match c.state with
    | .connected info =>
      let (c, x, failure) := writeEvent env write c x
      match failure, input with
      | some text, _ => clientFailed text false c x
      | none, none => .ok x
      | none, some input => readEvent env input c info x
    | _ => .error .assertion

/-- The rest of the loop body, once the closure has returned. The entry was found before the call. -/
def closureReturned (env : RpcEnv M) (requestId block : Nat) (x : RpcRun M) : Except RpcFault (RpcRun M) :=
  match x.client with
  | none => .error .useAfterFree
  | some c =>
    match c.state with
    | .connected info =>
      if info.block ≠ block then .error .useAfterFree
      else processIncoming env c (releaseClosure requestId info) x
    | _ => .error .useAfterFree

/-! ### Requests -/

def enqueueRequest (env : RpcEnv M) (methodIndex : Nat) (input : M) (closure closureData : Nat) (c : RpcClient)
    (info : RpcConnected) (x : RpcRun M) : Except RpcFault (RpcClient × RpcRun M) := do
  if methodIndex ≥ env.nMethods then throw .assertion
  let t ← allocateRequestId x.blocks info
  let t' ← addClosure (env.output methodIndex) closure closureData t
  let c := { c with
    outgoing := c.outgoing ++ clientSerialize env.toRpcService ⟨methodIndex, t.firstFreeRequestId, some input⟩
    state := .connected t' }
  return (c, { x with client := some c, blocks := x.blocks + 1 })

/-- Before the client is connected the array is not there: the words read are those of another member of the union. -/
def invokeClientRpc (env : RpcEnv M) (methodIndex : Nat) (input : M) (closure closureData : Nat) (x : RpcRun M) :
    Except RpcFault (RpcRun M) :=
  let x := { x with requests := (closure, closureData) :: x.requests }
  match x.client with
  | none => .error .useAfterFree
  | some c =>
    match c.state with
    | .init | .nameLookup _ _ | .connecting => .error .uninitialised
    | .connected info => do
      let hadOutgoing := c.outgoing ≠ []
      let (c, x) ← enqueueRequest env methodIndex input closure closureData c info x
      if hadOutgoing then return x
      else if c.fd = none then throw .assertion
      else return { x with
        dispatch := { x.dispatch with watch := some (.events (c.outgoing ≠ [])) } }
    | .failedWaiting _ | .failed _ | .destroyed => callClosure ⟨none, some closure, closureData⟩ none .invoked x

/-! ### Runs -/

/-- The events of the dispatcher, the calls of the user, and the return of the closure called last. -/
inductive RpcLabel (M : Type)
  | idle (conn : RpcConnect)
  | timer (conn : RpcConnect)
  | resolved (lookup : RpcLookup)
  | connectEvent (fdErrno : Int)
  | fdEvents (write : Option RpcWrite) (input : Option RpcInput)
  | invoke (methodIndex : Nat) (input : M) (closure closureData : Nat)
  | destroy
  | ret

def RpcLabel.exec (env : RpcEnv M) (x : RpcRun M) : RpcLabel M → Except RpcFault (RpcRun M)
  | .idle conn => handleInitIdle env conn x
  | .timer conn => handleAutoreconnectTimeout env conn x
  | .resolved lookup => handleNameLookup env lookup x
  | .connectEvent fdErrno => handleClientFdConnectEvents env fdErrno x
  | .fdEvents write input => handleClientFdEvents env write input x
  | .invoke methodIndex input closure closureData => invokeClientRpc env methodIndex input closure closureData x
  | .destroy => destroyClientRpc x
  | .ret =>
    match x.stack with
    | [] => .ok x
    | .invoked :: stack => .ok { x with stack }
    | .responded requestId block :: stack => closureReturned env requestId block { x with stack }
    | .failing closures again :: stack => failClosures again closures { x with stack }
    | .destroying closures :: stack => destroyClosures closures { x with stack }

/-- The dispatcher calls the handlers it has, and none of them while one is running. -/
def RpcLabel.Enabled (x : RpcRun M) : RpcLabel M → Prop
  | .idle _ => x.stack = [] ∧ x.dispatch.idle = true
  | .timer _ => x.stack = [] ∧ x.dispatch.timer = true
  | .resolved _ => x.stack = [] ∧ x.dispatch.resolving = true
  | .connectEvent _ => x.stack = [] ∧ x.dispatch.watch = some .connect
  | .fdEvents write _ => x.stack = [] ∧ ∃ writable, x.dispatch.watch = some (.events writable) ∧
      (write.isSome = true → writable = true)
  | .invoke _ _ _ _ => True
  | .destroy => True
  | .ret => x.stack ≠ []

def RpcLabel.Step (env : RpcEnv M) (x : RpcRun M) (l : RpcLabel M) (x' : RpcRun M) : Prop :=
  l.Enabled x ∧ l.exec env x = .ok x'

/-- `protobuf_c_rpc_client_new`, and `protobuf_c_rpc_client_disable_autoreconnect` or not. -/
def rpcClientNew (addressType : RpcAddressType) (name : Obj) (autoreconnect : Bool) : RpcRun M where
  client := some ⟨addressType, name, none, [], [], autoreconnect, .init⟩
  dispatch := ⟨true, false, false, none⟩
  stack := []
  sockets := .empty
  blocks := 0
  requests := []
  calls := []

end client

end Funra
