import Funra.Rpc.Lifecycle
import Mathlib.Data.List.InsertIdx

/-!
# An RPC client and its server

A connected client and the connection at the server's side, with the bytes on their way between them. The service
answers the requests it has received in any order; both sides read and write in pieces of any size. In every run
the closures are called in the order of the answers, each with the answer to its own request (`rpc_answers`), and
neither side ever fails. Only a closure that makes a request while the array is full does harm: the array moves, and
the client goes on with the old one.
-/

namespace Funra

open Mem Endian System Ownership

/-! ### The server's side -/

structure RpcRequest (M : Type) where
  methodIndex : Nat
  input : M
  closure : Nat
  closureData : Nat

/-- `ServerRequest`, with its place among the requests received. -/
structure RpcServerRequest where
  requestId : Nat
  methodIndex : Nat
  serial : Nat
  deriving DecidableEq, Repr

/-- `ServerConnection` -/
structure RpcServerConnection where
  incoming : Obj
  outgoing : Obj
  pending : List RpcServerRequest
  deriving DecidableEq, Repr

/-- The two sides and the bytes between them. Requests whose message passes the check, the calls of the service and its
answers are recorded in order; an answer is to the request received at that place. -/
structure RpcNet (M : Type) where
  client : RpcRun M
  toServer : Obj
  toClient : Obj
  server : RpcServerConnection
  requested : List (RpcRequest M)
  received : List (Nat × M)
  answered : List (Nat × Option M)

section net

variable {M : Type}

def RpcRun.outgoing (x : RpcRun M) : Obj := (x.client.map RpcClient.outgoing).getD []

/-- One round of the loop in `handle_server_connection_events`: `create_server_request`, and `invoke` of the service. -/
def RpcNet.receive (env : RpcEnv M) (L : RpcNet M) : Option (RpcNet M) :=
  match serverDeserialize env.toRpcService L.server.incoming with
  | .success ⟨methodIndex, requestId, some m⟩ rest => some { L with
      server := { L.server with incoming := rest, pending := L.server.pending ++ [⟨requestId, methodIndex, L.received.length⟩] }
      received := L.received ++ [(methodIndex, m)] }
  | _ => none

/-- `server_connection_response_closure`, called in the thread of the dispatcher. -/
def RpcNet.respond (env : RpcEnv M) (i : Nat) (answer : Option M) (L : RpcNet M) : Option (RpcNet M) :=
  L.server.pending[i]?.map fun request => { L with
    server := { L.server with
      outgoing := L.server.outgoing ++ serverSerialize env.toRpcService ⟨request.methodIndex, request.requestId, answer⟩
      pending := L.server.pending.eraseIdx i }
    answered := L.answered ++ [(request.serial, answer)] }

/-- What happens next. The client's user makes requests, also in closures; `ret` is the return of a closure. -/
inductive RpcNetLabel (M : Type)
  | invoke (r : RpcRequest M)
  | ret
  | clientWrite (n : Nat)
  | clientRead (n : Nat)
  | serverRead (n : Nat)
  | serverReceive
  | respond (i : Nat) (answer : Option M)
  | serverWrite (n : Nat)

def RpcNetLabel.Step (env : RpcEnv M) (L : RpcNet M) (l : RpcNetLabel M) (L' : RpcNet M) : Prop :=
  match l with
  | .invoke r => ∃ client,
      RpcLabel.Step env L.client (.invoke r.methodIndex r.input r.closure r.closureData) client ∧
      L' = { L with client, requested := L.requested ++ if env.check r.input then [r] else [] }
  | .ret => ∃ client, RpcLabel.Step env L.client .ret client ∧ L' = { L with client }
  | .clientWrite n => n ≤ L.client.outgoing.length ∧ ∃ client,
      RpcLabel.Step env L.client (.fdEvents (some (.wrote n)) none) client ∧
      L' = { L with client, toServer := L.toServer ++ L.client.outgoing.take n }
  | .clientRead n => 0 < n ∧ n ≤ L.toClient.length ∧ ∃ client,
      RpcLabel.Step env L.client (.fdEvents none (some (.bytes (L.toClient.take n)))) client ∧
      L' = { L with client, toClient := L.toClient.drop n }
  | .serverRead n => L' = { L with
      toServer := L.toServer.drop n
      server := { L.server with incoming := L.server.incoming ++ L.toServer.take n } }
  | .serverReceive => L.receive env = some L'
  | .respond i answer => L.respond env i answer = some L'
  | .serverWrite n => L' = { L with
      toClient := L.toClient ++ L.server.outgoing.take n
      server := { L.server with outgoing := L.server.outgoing.drop n } }

/-- Messages have the type of their method and fewer than 2^32 bytes. -/
def RpcNetLabel.Typed (env : RpcEnv M) (L : RpcNet M) : RpcNetLabel M → Prop
  | .invoke r => r.methodIndex < 4294967296 ∧ (env.pack r.input).length < 4294967296 ∧
      (env.unpack (env.input r.methodIndex) (env.pack r.input)).isSome = true
  | .respond i answer => ∀ request ∈ L.server.pending[i]?, ∀ m ∈ answer.filter env.check,
      (env.pack m).length < 4294967296 ∧ (env.unpack (env.output request.methodIndex) (env.pack m)).isSome = true
  | _ => True

/-- A closure makes no request while the array is full. -/
def RpcNetLabel.HasRoom (L : RpcNet M) : RpcNetLabel M → Prop
  | .invoke _ => L.client.stack ≠ [] → ∀ c info, L.client.client = some c → c.state = .connected info →
      info.firstFreeRequestId ≠ 0
  | _ => True

/-- A client that has just connected, and has called the closures `base` before. -/
structure RpcNet.Fresh (L : RpcNet M) (base : List (RpcCall M)) : Prop where
  inv : L.client.Inv
  client : ∃ c block, L.client.client = some c ∧ c.state = .connected (setStateConnected block) ∧
    block < L.client.blocks ∧ c.incoming = [] ∧ c.outgoing = []
  stack : L.client.stack = []
  calls : L.client.calls = base
  wires : L.toServer = [] ∧ L.toClient = []
  server : L.server = ⟨[], [], []⟩
  records : L.requested = [] ∧ L.received = [] ∧ L.answered = []

/-! ### Requests on their way -/

/-- A request that has an id and no response yet, and its place among the requests. -/
structure RpcTicket (M : Type) where
  id : Nat
  serial : Nat
  request : RpcRequest M

def RpcTicket.requestFrame (env : RpcEnv M) (t : RpcTicket M) : Obj :=
  requestBytes t.request.methodIndex t.id (env.pack t.request.input)

def RpcTicket.responseFrame (env : RpcEnv M) (t : RpcTicket M × Option M) : Obj :=
  serverSerialize env.toRpcService ⟨t.1.request.methodIndex, t.1.id, t.2⟩

def RpcTicket.pending (t : RpcTicket M) : RpcServerRequest := ⟨t.id, t.request.methodIndex, t.serial⟩

/-- What the closure gets: nothing for an answer that does not pass the check. -/
def delivered (env : RpcEnv M) (methodIndex : Nat) (answer : Option M) : Option M :=
  (answer.filter env.check).bind fun m => env.unpack (env.output methodIndex) (env.pack m)

/-- The call of the closure of the request. -/
def RpcRequest.call (env : RpcEnv M) (r : RpcRequest M) (answer : Option M) : RpcCall M :=
  ⟨r.closure, r.closureData, delivered env r.methodIndex answer⟩

/-- The entry of the request in the array. -/
def RpcRequest.entry (env : RpcEnv M) (r : RpcRequest M) : RpcClosure :=
  ⟨some (env.output r.methodIndex), some r.closure, r.closureData⟩

/-- The messages fit their headers and their types. -/
structure RpcTicket.Fits (env : RpcEnv M) (t : RpcTicket M) : Prop where
  id : t.id < 4294967296
  methodIndex : t.request.methodIndex < 4294967296
  input : (env.pack t.request.input).length < 4294967296
  method : t.request.methodIndex < env.nMethods
  typed : (env.unpack (env.input t.request.methodIndex) (env.pack t.request.input)).isSome = true

def AnswerFits (env : RpcEnv M) (t : RpcTicket M × Option M) : Prop :=
  ∀ m ∈ t.2.filter env.check, (env.pack m).length < 4294967296 ∧
    (env.unpack (env.output t.1.request.methodIndex) (env.pack m)).isSome = true

/-- Where the requests without a response are: on the way to the server, with the service, on the way back. -/
structure RpcNet.Tracks (env : RpcEnv M) (base : List (RpcCall M)) (L : RpcNet M) (c : RpcClient) (info : RpcConnected)
    (sent served : List (RpcTicket M)) (returned : List (RpcTicket M × Option M)) (calls : List (RpcCall M)) : Prop where
  inv : L.client.Inv
  client : L.client.client = some c
  state : c.state = .connected info
  numbered : info.block < L.client.blocks ∧ ∀ id block, L.client.stack = [.responded id block] → block ≤ info.block
  requests : L.server.incoming ++ L.toServer ++ c.outgoing = sent.flatMap (RpcTicket.requestFrame env)
  pending : L.server.pending = served.map RpcTicket.pending
  responses : c.incoming ++ L.toClient ++ L.server.outgoing = returned.flatMap (RpcTicket.responseFrame env)
  waits : L.client.stack = [] → ∀ t ∈ returned.head?, c.incoming.length < (RpcTicket.responseFrame env t).length
  ids : ((sent ++ served ++ returned.map Prod.fst).map RpcTicket.id).Nodup
  tickets : ∀ t ∈ sent ++ served ++ returned.map Prod.fst, t.Fits env ∧
    L.requested[t.serial]? = some t.request ∧ info.entry t.id = some (t.request.entry env) ∧
    ∀ id block, L.client.stack = [.responded id block] → t.id ≠ id
  answers : ∀ t ∈ returned, AnswerFits env t
  sentSerials : sent.map RpcTicket.serial = List.range' L.received.length sent.length
  requested : L.requested.length = L.received.length + sent.length
  received : ∀ (n : Nat) (e : Nat × M), L.received[n]? = some e → ∃ r : RpcRequest M, L.requested[n]? = some r ∧
    e.1 = r.methodIndex ∧ env.unpack (env.input r.methodIndex) (env.pack r.input) = some e.2
  serials : (L.answered.map Prod.fst ++ served.map RpcTicket.serial).Perm (List.range L.received.length)
  answered : L.answered.drop calls.length = returned.map fun t => (t.1.serial, t.2)
  calls_eq : L.client.calls = calls.reverse ++ base
  called : ∀ (k : Nat) (call : RpcCall M), calls[k]? = some call → ∃ n answer, ∃ r : RpcRequest M,
    L.answered[k]? = some (n, answer) ∧ L.requested[n]? = some r ∧ call = r.call env answer

/-! ### Messages at the front -/

section frames

variable {env : RpcEnv M} {t : RpcTicket M} {rest part tail : Obj}

theorem receive_front (h : t.Fits env) (rest : Obj) :
    ∃ m, env.unpack (env.input t.request.methodIndex) (env.pack t.request.input) = some m ∧
    serverDeserialize env.toRpcService (t.requestFrame env ++ rest) =
      .success ⟨t.request.methodIndex, t.id, some m⟩ rest := by
  obtain ⟨m, hm⟩ := Option.isSome_iff_exists.mp h.typed
  refine ⟨m, hm, ?_⟩
  have hmethod := h.method
  rw [RpcTicket.requestFrame, serverDeserialize_request h.methodIndex h.id h.input, if_neg (by omega), hm]

theorem receive_part (h : t.Fits env) (heq : part ++ tail = t.requestFrame env ++ rest)
    (hlt : part.length < (t.requestFrame env).length) : serverDeserialize env.toRpcService part = .incomplete := by
  rw [RpcTicket.requestFrame, requestBytes_length] at hlt
  exact serverDeserialize_part h.methodIndex h.id h.input heq hlt

variable {answer : Option M} {getDescriptor : Nat → Option Nat}

theorem response_front (h : t.Fits env) (ha : AnswerFits env (t, answer))
    (hdesc : getDescriptor t.id = some (env.output t.request.methodIndex)) :
    clientDeserialize env.toRpcService getDescriptor (RpcTicket.responseFrame env (t, answer) ++ rest) =
      .ok (.success ⟨t.request.methodIndex, t.id, delivered env t.request.methodIndex answer⟩ rest) := by
  unfold RpcTicket.responseFrame serverSerialize delivered
  cases hm : answer.filter env.check with
  | none => exact clientDeserialize_noMessage (by decide) (by decide) h.methodIndex h.id
  | some m =>
    obtain ⟨hlen, htyped⟩ := ha m hm
    obtain ⟨m', hm'⟩ := Option.isSome_iff_exists.mp htyped
    rw [clientDeserialize_success h.methodIndex h.id hlen, hdesc]
    simp only [Option.bind_some, hm']

theorem response_part (h : t.Fits env) (ha : AnswerFits env (t, answer))
    (heq : part ++ tail = RpcTicket.responseFrame env (t, answer) ++ rest)
    (hlt : part.length < (RpcTicket.responseFrame env (t, answer)).length) :
    clientDeserialize env.toRpcService getDescriptor part = .ok .incomplete := by
  unfold RpcTicket.responseFrame serverSerialize at heq hlt
  cases hm : answer.filter env.check with
  | none =>
    simp only [hm] at heq hlt
    rw [responseBytes_length] at hlt
    exact clientDeserialize_part (by decide) h.methodIndex h.id (by decide) heq hlt
  | some m =>
    simp only [hm] at heq hlt
    rw [responseBytes_length] at hlt
    exact clientDeserialize_part (by decide) h.methodIndex h.id (ha m hm).1 heq hlt

theorem responseFrame_ne_nil (t : RpcTicket M × Option M) : RpcTicket.responseFrame env t ≠ [] := by
  intro hnil
  have hlen := congrArg List.length hnil
  unfold RpcTicket.responseFrame serverSerialize at hlen
  split at hlen <;> rw [responseBytes_length] at hlen <;> simp at hlen

/-- The array knows the type of the response to an open request. -/
theorem RpcConnected.Valid.responseType_entry {info : RpcConnected} {cl : RpcClosure} {id : Nat} (h : info.Valid)
    (hcl : info.entry id = some cl) : info.responseType id = cl.responseType := by
  obtain ⟨hpos, hle⟩ := h.bounds hcl
  rw [responseType, if_neg (by omega), hcl]
  rfl

end frames

/-! ### What the client does -/

/-- A full array is copied to a new block. -/
theorem request_block {info t t' : RpcConnected} {output closure closureData block : Nat} (h : info.Valid)
    (hok : allocateRequestId block info = .ok t) (hadd : addClosure output closure closureData t = .ok t') :
    (info.firstFreeRequestId ≠ 0 ∧ t'.block = info.block) ∨ (info.firstFreeRequestId = 0 ∧ t'.block = block) := by
  obtain ⟨ht, hfirst, -, hcases⟩ := allocateRequestId_ok h hok
  obtain ⟨u, hadd', -, -, -, -, hblock, -⟩ := addClosure_spec ht hfirst output closure closureData
  obtain rfl := Except.ok.inj (hadd.symm.trans hadd')
  rcases hcases with ⟨hne, rfl⟩ | ⟨hfull, rfl⟩
  · exact .inl ⟨hne, hblock⟩
  · exact .inr ⟨hfull, hblock⟩

section steps

variable {env : RpcEnv M} {x x' : RpcRun M} {c : RpcClient} {info : RpcConnected}

theorem invoke_spec {methodIndex closure closureData : Nat} {input : M} (hc : x.client = some c)
    (hstate : c.state = .connected info) (hok : invokeClientRpc env methodIndex input closure closureData x = .ok x') :
    methodIndex < env.nMethods ∧ ∃ t t' c', allocateRequestId x.blocks info = .ok t ∧
      addClosure (env.output methodIndex) closure closureData t = .ok t' ∧ x'.client = some c' ∧
      c'.state = .connected t' ∧ c'.incoming = c.incoming ∧
      c'.outgoing = c.outgoing ++ clientSerialize env.toRpcService ⟨methodIndex, t.firstFreeRequestId, some input⟩ ∧
      x'.stack = x.stack ∧ x'.calls = x.calls ∧ x'.blocks = x.blocks + 1 ∧
      (c.outgoing ≠ [] ∧ x'.dispatch = x.dispatch ∨ ∃ writable, x'.dispatch.watch = some (.events writable)) := by
  unfold invokeClientRpc at hok
  simp only [hc, hstate, bind] at hok
  obtain ⟨⟨c1, x1⟩, henq, hok⟩ := Except.of_bind_ok hok
  obtain ⟨hlt, t, t', halloc, hadd, hc1, hx1⟩ := enqueueRequest_ok henq
  have hsame : x'.client = x1.client ∧ x'.stack = x1.stack ∧ x'.calls = x1.calls ∧ x'.blocks = x1.blocks ∧
      (c.outgoing ≠ [] ∧ x'.dispatch = x1.dispatch ∨ ∃ writable, x'.dispatch.watch = some (.events writable)) := by
    simp only at hok
    split at hok
    · next hhad =>
      cases hok
      exact ⟨rfl, rfl, rfl, rfl, .inl ⟨hhad, rfl⟩⟩
    · split at hok
      · cases hok
      · cases hok
        exact ⟨rfl, rfl, rfl, rfl, .inr ⟨_, rfl⟩⟩
  obtain ⟨hclient, hstack, hcalls, hblocks, hwatch⟩ := hsame
  refine ⟨hlt, t, t', c1, halloc, hadd, ?_, ?_, ?_, ?_, ?_, ?_, ?_, ?_⟩
  · rw [hclient, hx1]
  · rw [hc1]
  · rw [hc1]
  · rw [hc1]
  · rw [hstack, hx1]
  · rw [hcalls, hx1]
  · rw [hblocks, hx1]
  · rwa [hx1] at hwatch

theorem write_spec {n : Nat} (hc : x.client = some c) (hstate : c.state = .connected info)
    (hok : handleClientFdEvents env (some (.wrote n)) none x = .ok x') :
    ∃ c', x'.client = some c' ∧ c'.state = .connected info ∧ c'.incoming = c.incoming ∧
      c'.outgoing = c.outgoing.drop n ∧ x'.stack = x.stack ∧ x'.calls = x.calls ∧ x'.blocks = x.blocks ∧
      (x'.dispatch = x.dispatch ∨ x'.dispatch.watch = some (.events false)) := by
  unfold handleClientFdEvents at hok
  simp only [hc, hstate, writeEvent] at hok
  cases hok
  unfold RpcRun.watchWritten
  split
  · exact ⟨_, rfl, rfl, rfl, rfl, rfl, rfl, rfl, .inr rfl⟩
  · exact ⟨_, rfl, rfl, rfl, rfl, rfl, rfl, rfl, .inl rfl⟩

/-- With responses at the front the loop never fails: it waits for more, or calls the closure of the first. -/
theorem processIncoming_front {returned : List (RpcTicket M × Option M)} {tail : Obj} (hvalid : info.Valid)
    (heq : c.incoming ++ tail = returned.flatMap (RpcTicket.responseFrame env))
    (hfits : ∀ t ∈ returned, t.1.Fits env ∧ AnswerFits env t ∧ info.entry t.1.id = some (t.1.request.entry env)) :
    ∃ x' c', processIncoming env c info x = .ok x' ∧ x'.client = some c' ∧ c'.state = .connected info ∧
      c'.outgoing = c.outgoing ∧ x'.dispatch = x.dispatch ∧ x'.blocks = x.blocks ∧
      ((c'.incoming = c.incoming ∧ x'.stack = x.stack ∧ x'.calls = x.calls ∧
          ∀ t ∈ returned.head?, c.incoming.length < (RpcTicket.responseFrame env t).length) ∨
        ∃ t rest, returned = t :: rest ∧ c'.incoming ++ tail = rest.flatMap (RpcTicket.responseFrame env) ∧
          x'.stack = .responded t.1.id info.block :: x.stack ∧ x'.calls = t.1.request.call env t.2 :: x.calls) := by
  by_cases hnil : c.incoming = []
  · refine ⟨_, { c with state := .connected info }, if_pos hnil, rfl, rfl, rfl, rfl, rfl, .inl ⟨rfl, rfl, rfl, fun t _ => ?_⟩⟩
    rw [hnil]
    exact List.length_pos_of_ne_nil (responseFrame_ne_nil t)
  cases returned with
  | nil => exact absurd (List.append_eq_nil_iff.mp heq).1 hnil
  | cons t rest =>
    obtain ⟨hfit, hans, hentry⟩ := hfits t List.mem_cons_self
    rw [List.flatMap_cons] at heq
    rcases front_cases heq with hlt | ⟨part, hpart, hrest⟩
    · refine ⟨{ x with client := some { c with state := .connected info } }, { c with state := .connected info }, ?_,
        rfl, rfl, rfl, rfl, rfl, .inl ⟨rfl, rfl, rfl, ?_⟩⟩
      swap
      · rintro t' ⟨rfl⟩
        exact hlt
      unfold processIncoming
      rw [if_neg hnil, response_part hfit hans heq hlt]
      rfl
    · refine ⟨{ x with
          client := some { c with incoming := part, state := .connected info }
          stack := .responded t.1.id info.block :: x.stack
          calls := t.1.request.call env t.2 :: x.calls }, { c with incoming := part, state := .connected info }, ?_,
        rfl, rfl, rfl, rfl, rfl, .inr ⟨t, rest, rfl, hrest, rfl, rfl⟩⟩
      have hdesc : info.responseType t.1.id = some (env.output t.1.request.methodIndex) :=
        hvalid.responseType_entry hentry
      unfold processIncoming
      rw [if_neg hnil, hpart, response_front hfit hans hdesc]
      simp only [bind, Except.bind, hentry]
      rfl

end steps

/-! ### The server's steps -/

section tracks

variable {env : RpcEnv M} {base calls : List (RpcCall M)} {L L' : RpcNet M} {c : RpcClient} {info : RpcConnected}
  {sent served : List (RpcTicket M)} {returned : List (RpcTicket M × Option M)}

theorem RpcNet.Tracks.serverRead (h : L.Tracks env base c info sent served returned calls) (n : Nat) :
    RpcNet.Tracks env base { L with
      toServer := L.toServer.drop n
      server := { L.server with incoming := L.server.incoming ++ L.toServer.take n } }
      c info sent served returned calls := by
  refine { h with requests := ?_ }
  rw [← h.requests, List.append_assoc L.server.incoming, List.take_append_drop]

theorem RpcNet.Tracks.serverWrite (h : L.Tracks env base c info sent served returned calls) (n : Nat) :
    RpcNet.Tracks env base { L with
      toClient := L.toClient ++ L.server.outgoing.take n
      server := { L.server with outgoing := L.server.outgoing.drop n } }
      c info sent served returned calls := by
  refine { h with responses := ?_ }
  rw [← h.responses, ← List.append_assoc c.incoming, List.append_assoc _ (L.server.outgoing.take n),
    List.take_append_drop]

theorem receive_client (hrec : L.receive env = some L') : L'.client = L.client ∧ L'.requested = L.requested := by
  unfold RpcNet.receive at hrec
  split at hrec
  · cases hrec
    exact ⟨rfl, rfl⟩
  · cases hrec

/-- The request received is the first of those on their way. -/
theorem RpcNet.Tracks.receive (h : L.Tracks env base c info sent served returned calls) (hrec : L.receive env = some L') :
    ∃ t rest, sent = t :: rest ∧ L'.Tracks env base c info rest (served ++ [t]) returned calls := by
  have hparse : ∃ p rest, serverDeserialize env.toRpcService L.server.incoming = .success p rest := by
    unfold RpcNet.receive at hrec
    split at hrec
    · next heq => exact ⟨_, _, heq⟩
    · cases hrec
  cases sent with
  | nil =>
    obtain ⟨p, rest, hparse⟩ := hparse
    have hreq := h.requests
    rw [List.flatMap_nil, List.append_assoc] at hreq
    rw [(List.append_eq_nil_iff.mp hreq).1] at hparse
    cases hparse
  | cons t rest =>
    obtain ⟨hfit, hserial, hentry, hstack⟩ := h.tickets t (by simp)
    have hreq := h.requests
    rw [List.flatMap_cons, List.append_assoc] at hreq
    rcases front_cases hreq with hlt | ⟨part, hpart, hrest⟩
    · obtain ⟨p, rest', hparse⟩ := hparse
      rw [receive_part hfit hreq hlt] at hparse
      cases hparse
    · obtain ⟨m, hm, hfront⟩ := receive_front hfit part
      rw [RpcNet.receive, hpart, hfront] at hrec
      cases hrec
      have hser := h.sentSerials
      rw [List.map_cons, List.length_cons, List.range'_succ] at hser
      obtain ⟨hhead, htail⟩ := List.cons.inj hser
      have hperm : (t :: rest ++ served ++ returned.map Prod.fst).Perm
          (rest ++ (served ++ [t]) ++ returned.map Prod.fst) := by
        refine List.Perm.append_right _ ?_
        rw [← List.append_assoc]
        exact (List.perm_append_singleton t (rest ++ served)).symm
      refine ⟨t, rest, rfl, { h with
        requests := ?_, pending := ?_, ids := ?_, tickets := ?_, sentSerials := ?_, requested := ?_,
        received := ?_, serials := ?_ }⟩
      · rw [← hrest, List.append_assoc]
      · show L.server.pending ++ _ = _
        rw [h.pending, List.map_append, ← hhead]
        rfl
      · exact (hperm.map RpcTicket.id).nodup_iff.mp h.ids
      · exact fun t' ht' => h.tickets t' (hperm.mem_iff.mpr ht')
      · rw [htail, List.length_append]
        rfl
      · have hlen := h.requested
        rw [List.length_cons] at hlen
        show L.requested.length = (L.received ++ _).length + rest.length
        rw [List.length_append, List.length_singleton]
        omega
      · intro n e he
        by_cases hn : n < L.received.length
        · rw [List.getElem?_append_left hn] at he
          exact h.received n e he
        · rw [List.getElem?_append_right (by omega)] at he
          obtain ⟨hzero, rfl⟩ : n - L.received.length = 0 ∧ e = (t.request.methodIndex, m) := by
            cases hk : n - L.received.length with
            | zero =>
              rw [hk] at he
              exact ⟨rfl, (Option.some.inj he).symm⟩
            | succ k =>
              rw [hk] at he
              cases he
          obtain rfl : n = t.serial := by omega
          exact ⟨t.request, hserial, rfl, hm⟩
      · have hperm := h.serials.append_right [t.serial]
        rw [hhead] at hperm
        show (L.answered.map Prod.fst ++ (served ++ [t]).map RpcTicket.serial).Perm
          (List.range (L.received ++ _).length)
        rw [List.length_append, List.length_singleton, List.range_succ, List.map_append, ← List.append_assoc, ← hhead]
        rwa [← hhead] at hperm

theorem RpcNet.Tracks.calls_le (h : L.Tracks env base c info sent served returned calls) :
    calls.length ≤ L.answered.length := by
  cases hlen : calls.length with
  | zero => exact Nat.zero_le _
  | succ n =>
    have hlt : n < calls.length := by omega
    obtain ⟨k, answer, -, hk, -⟩ := h.called n _ (List.getElem?_eq_getElem hlt)
    exact (List.getElem?_eq_some_iff.mp hk).1

/-- The answer is on its way back. -/
theorem RpcNet.Tracks.respond {i : Nat} {answer : Option M} (h : L.Tracks env base c info sent served returned calls)
    (htyped : RpcNetLabel.Typed env L (.respond i answer)) (hres : L.respond env i answer = some L') :
    ∃ t served', L'.Tracks env base c info sent served' (returned ++ [(t, answer)]) calls := by
  obtain ⟨p, hp, rfl⟩ := Option.map_eq_some_iff.mp hres
  have hp' := hp
  rw [h.pending, List.getElem?_map] at hp'
  obtain ⟨t, ht, rfl⟩ := Option.map_eq_some_iff.mp hp'
  have hlt := (List.getElem?_eq_some_iff.mp ht).1
  have hget := (List.getElem?_eq_some_iff.mp ht).2
  have hserved : served.Perm (t :: served.eraseIdx i) := by
    have hperm := (List.getElem_cons_eraseIdx_perm hlt).symm
    rwa [hget] at hperm
  have hall : (sent ++ served ++ returned.map Prod.fst).Perm
      (sent ++ served.eraseIdx i ++ (returned ++ [(t, answer)]).map Prod.fst) := by
    rw [List.map_append, ← List.append_assoc]
    calc (sent ++ served ++ returned.map Prod.fst).Perm
          (sent ++ (t :: served.eraseIdx i) ++ returned.map Prod.fst) := (hserved.append_left sent).append_right _
      List.Perm _ (t :: (sent ++ served.eraseIdx i) ++ returned.map Prod.fst) := List.perm_middle.append_right _
      List.Perm _ (sent ++ served.eraseIdx i ++ returned.map Prod.fst ++ [t]) :=
        (List.perm_append_singleton t _).symm
  refine ⟨t, served.eraseIdx i, { h with
    pending := ?_, responses := ?_, waits := ?_, ids := ?_, tickets := ?_, answers := ?_, serials := ?_, answered := ?_
    called := ?_ }⟩
  · show L.server.pending.eraseIdx i = _
    rw [h.pending, List.eraseIdx_map]
  · show c.incoming ++ L.toClient ++ (L.server.outgoing ++ _) = _
    rw [← List.append_assoc, h.responses, List.flatMap_append, List.flatMap_singleton]
    rfl
  · intro hstack t' ht'
    cases hret : returned with
    | nil =>
      have hnil := h.responses
      rw [hret, List.append_assoc] at hnil
      rw [(List.append_eq_nil_iff.mp hnil).1]
      exact List.length_pos_of_ne_nil (responseFrame_ne_nil t')
    | cons first rest =>
      rw [hret] at ht'
      exact h.waits hstack t' (hret ▸ ht')
  · exact (hall.map RpcTicket.id).nodup_iff.mp h.ids
  · exact fun t' ht' => h.tickets t' (hall.mem_iff.mpr ht')
  · intro t' ht'
    rcases List.mem_append.mp ht' with hold | hnew
    · exact h.answers t' hold
    · obtain rfl := List.mem_singleton.mp hnew
      exact htyped t.pending hp
  · have hser := h.serials
    show ((L.answered ++ [(t.serial, answer)]).map Prod.fst ++ _).Perm _
    rw [List.map_append, List.append_assoc]
    exact ((hserved.map RpcTicket.serial).append_left _).symm.trans hser
  · rw [List.drop_append_of_le_length h.calls_le, h.answered, List.map_append]
    rfl
  · intro k call hk
    obtain ⟨n, ans, r, hans, hr, hcall⟩ := h.called k call hk
    refine ⟨n, ans, r, ?_, hr, hcall⟩
    rw [List.getElem?_append_left (List.getElem?_eq_some_iff.mp hans).1]
    exact hans

/-! ### The client's steps -/

theorem RpcNet.Tracks.online (h : L.Tracks env base c info sent served returned calls) :
    c.Online info L.client.dispatch L.client.stack := h.inv.online c info h.client h.state

theorem RpcNet.Tracks.clientWrite {n : Nat} {client : RpcRun M}
    (h : L.Tracks env base c info sent served returned calls)
    (hstep : RpcLabel.Step env L.client (.fdEvents (some (.wrote n)) none) client) :
    ∃ c', RpcNet.Tracks env base { L with client, toServer := L.toServer ++ L.client.outgoing.take n }
      c' info sent served returned calls := by
  have hinv := RpcRun.Inv.step (l := .fdEvents (some (.wrote n)) none) h.inv trivial hstep
  have hok : handleClientFdEvents env (some (.wrote n)) none L.client = .ok client := hstep.2
  obtain ⟨c', hc', hstate, hin, hout, hstack, hcalls, hblocks, -⟩ := write_spec h.client h.state hok
  have hpend : L.client.outgoing = c.outgoing := by
    rw [RpcRun.outgoing, h.client]
    rfl
  refine ⟨c', { h with
    inv := hinv, client := hc', state := hstate, numbered := ?_, requests := ?_, responses := ?_, waits := ?_
    tickets := ?_, calls_eq := ?_ }⟩
  · show info.block < client.blocks ∧ ∀ id block, client.stack = _ → _
    rw [hblocks, hstack]
    exact h.numbered
  · rw [← h.requests, hout, hpend, ← List.append_assoc L.server.incoming, List.append_assoc _ (c.outgoing.take n),
      List.take_append_drop]
  · rw [← h.responses, hin]
  · show client.stack = [] → _
    rw [hstack, hin]
    exact h.waits
  · intro t ht
    show _ ∧ _ ∧ _ ∧ ∀ id block, client.stack = _ → _
    rw [hstack]
    exact h.tickets t ht
  · show client.calls = _
    rw [hcalls, h.calls_eq]

/-- The loop over `incoming` waits for more or calls the closure of the first response. -/
theorem RpcNet.Tracks.deliver {x1 client : RpcRun M} {c1 : RpcClient} {info1 : RpcConnected} {toClient : Obj}
    (h : L.Tracks env base c info sent served returned calls) (hvalid : info1.Valid) (hblock : info1.block = info.block)
    (hin : c1.incoming ++ (toClient ++ L.server.outgoing) = returned.flatMap (RpcTicket.responseFrame env))
    (hout : c1.outgoing = c.outgoing)
    (hentries : ∀ t ∈ sent ++ served ++ returned.map Prod.fst, info1.entry t.id = some (t.request.entry env))
    (hstack : x1.stack = []) (hcalls : x1.calls = L.client.calls) (hdis : x1.dispatch = L.client.dispatch)
    (hblocks : x1.blocks = L.client.blocks) (hinv : client.Inv)
    (hok : processIncoming env c1 info1 x1 = .ok client) :
    (∃ c' returned' calls', RpcNet.Tracks env base { L with client, toClient } c' info1 sent served returned' calls') ∧
      client.dispatch = L.client.dispatch ∧ ∀ id block, client.stack = [.responded id block] → info1.block = block := by
  have hmem : ∀ t ∈ returned, t.1 ∈ sent ++ served ++ returned.map Prod.fst := fun t ht =>
    List.mem_append_right _ (List.mem_map_of_mem ht)
  obtain ⟨x', c', hok', hc', hstate, hout', hdis', hblocks', hcases⟩ := processIncoming_front hvalid hin
    fun t ht => ⟨(h.tickets t.1 (hmem t ht)).1, h.answers t ht, hentries t.1 (hmem t ht)⟩
  obtain rfl := Except.ok.inj (hok.symm.trans hok')
  have hlt : info1.block < client.blocks := by
    rw [hblock, hblocks', hblocks]
    exact h.numbered.1
  rcases hcases with ⟨hin', hstack', hcalls', hwaits⟩ | ⟨t, rest, rfl, hin', hstack', hcalls'⟩
  · have hidle : client.stack = [] := hstack'.trans hstack
    refine ⟨⟨c', returned, calls, { h with
      inv := hinv, client := hc', state := hstate, numbered := ⟨hlt, ?_⟩, requests := ?_, responses := ?_, waits := ?_
      tickets := ?_, calls_eq := ?_ }⟩, hdis'.trans hdis, fun id block hst => by rw [hidle] at hst; cases hst⟩
    · intro id block hst
      have hst' : client.stack = [.responded id block] := hst
      rw [hidle] at hst'
      cases hst'
    · rw [hout', hout]
      exact h.requests
    · rw [hin', List.append_assoc]
      exact hin
    · rw [hin']
      exact fun _ => hwaits
    · intro t ht
      obtain ⟨hfit, hser, -, -⟩ := h.tickets t ht
      refine ⟨hfit, hser, hentries t ht, fun id block hst => ?_⟩
      have hst' : client.stack = [.responded id block] := hst
      rw [hidle] at hst'
      cases hst'
    · show client.calls = _
      rw [hcalls', hcalls, h.calls_eq]
  · have hids := h.ids
    rw [List.map_cons] at hids hmem
    have hperm : (sent ++ served ++ t.1 :: rest.map Prod.fst).Perm (t.1 :: (sent ++ served ++ rest.map Prod.fst)) :=
      List.perm_middle
    have hnodup := (hperm.map RpcTicket.id).nodup_iff.mp hids
    rw [List.map_cons, List.nodup_cons] at hnodup
    have hsub : ∀ t' ∈ sent ++ served ++ rest.map Prod.fst, t' ∈ sent ++ served ++ (t :: rest).map Prod.fst :=
      fun t' ht' => hperm.mem_iff.mpr (List.mem_cons_of_mem _ ht')
    have hdrop : L.answered[calls.length]? = some (t.1.serial, t.2) ∧
        L.answered.drop (calls.length + 1) = rest.map fun t => (t.1.serial, t.2) := by
      have hans := h.answered
      rw [List.map_cons] at hans
      constructor
      · have hget := congrArg (fun l => l[0]?) hans
        simpa using hget
      · rw [← List.drop_drop, hans]
        rfl
    obtain ⟨-, hser, -, -⟩ := h.tickets t.1 (hmem t List.mem_cons_self)
    have hcalling : client.stack = [.responded t.1.id info1.block] := by rw [hstack', hstack]
    refine ⟨⟨c', rest, calls ++ [t.1.request.call env t.2], { h with
      inv := hinv, client := hc', state := hstate, numbered := ⟨hlt, ?_⟩, requests := ?_, responses := ?_, waits := ?_
      ids := hnodup.2, tickets := ?_, answers := fun t' ht' => h.answers t' (List.mem_cons_of_mem _ ht'), answered := ?_, calls_eq := ?_
      called := ?_ }⟩, hdis'.trans hdis, fun id block hst => by rw [hcalling] at hst; cases hst; rfl⟩
    · intro id block hst
      have hst' : client.stack = [.responded id block] := hst
      rw [hcalling] at hst'
      cases hst'
      exact Nat.le_refl _
    · rw [hout', hout]
      exact h.requests
    · rw [List.append_assoc]
      exact hin'
    · intro hst
      have hst' : client.stack = [] := hst
      rw [hcalling] at hst'
      cases hst'
    · intro t' ht'
      obtain ⟨hfit, hser, -, -⟩ := h.tickets t' (hsub t' ht')
      refine ⟨hfit, hser, hentries t' (hsub t' ht'), fun id block hst heq => ?_⟩
      have hst' : client.stack = [.responded id block] := hst
      rw [hcalling] at hst'
      cases hst'
      exact hnodup.1 (heq ▸ List.mem_map_of_mem ht')
    · rw [List.length_append, List.length_singleton]
      exact hdrop.2
    · show client.calls = _
      rw [hcalls', hcalls, h.calls_eq]
      simp
    · intro k call hk
      by_cases hlt : k < calls.length
      · rw [List.getElem?_append_left hlt] at hk
        exact h.called k call hk
      · rw [List.getElem?_append_right (by omega)] at hk
        obtain ⟨hzero, rfl⟩ : k - calls.length = 0 ∧ call = t.1.request.call env t.2 := by
          cases hd : k - calls.length with
          | zero =>
            rw [hd] at hk
            exact ⟨rfl, (Option.some.inj hk).symm⟩
          | succ d =>
            rw [hd] at hk
            cases hk
        obtain rfl : k = calls.length := by omega
        exact ⟨t.1.serial, t.2, t.1.request, hdrop.1, hser, rfl⟩

theorem RpcNet.Tracks.clientRead {n : Nat} {client : RpcRun M}
    (h : L.Tracks env base c info sent served returned calls)
    (hstep : RpcLabel.Step env L.client (.fdEvents none (some (.bytes (L.toClient.take n)))) client) :
    (∃ c' returned' calls', RpcNet.Tracks env base { L with client, toClient := L.toClient.drop n }
        c' info sent served returned' calls') ∧
      client.dispatch = L.client.dispatch ∧ ∀ id block, client.stack = [.responded id block] → info.block = block := by
  have hinv := RpcRun.Inv.step (l := .fdEvents none (some (.bytes (L.toClient.take n)))) h.inv trivial hstep
  obtain ⟨⟨hstack, -⟩, hok⟩ := hstep
  simp only [RpcLabel.exec, handleClientFdEvents, h.client, h.state, writeEvent, readEvent] at hok
  refine h.deliver h.online.valid rfl ?_ ?_ (fun t ht => (h.tickets t ht).2.2.1) hstack rfl rfl rfl hinv hok
  · rw [← h.responses, List.append_assoc, List.append_assoc, ← List.append_assoc (L.toClient.take n),
      List.take_append_drop]
  · rfl

/-- The closure returns, and the loop goes on behind its response. -/
theorem RpcNet.Tracks.ret {client : RpcRun M} (h : L.Tracks env base c info sent served returned calls)
    (hstep : RpcLabel.Step env L.client .ret client) :
    ∃ info', (∃ c' returned' calls', RpcNet.Tracks env base { L with client } c' info' sent served returned' calls') ∧
      client.dispatch = L.client.dispatch ∧ ∀ id block, client.stack = [.responded id block] → info'.block = block := by
  have hinv := RpcRun.Inv.step (l := .ret) h.inv trivial hstep
  obtain ⟨hne, hok⟩ := hstep
  rcases h.online.stack with hnil | ⟨id, block, hstack, hopen⟩
  · exact absurd hnil hne
  simp only [RpcLabel.exec, hstack, closureReturned, h.client, h.state] at hok
  split at hok
  · cases hok
  · obtain ⟨hvalid, -, hentry⟩ := releaseClosure_spec h.online.valid hopen
    have hentries : ∀ t ∈ sent ++ served ++ returned.map Prod.fst,
        (releaseClosure id info).entry t.id = some (t.request.entry env) := by
      intro t ht
      obtain ⟨-, -, hold, hother⟩ := h.tickets t ht
      rw [hentry, if_neg (hother id block hstack), hold]
    refine ⟨_, h.deliver hvalid rfl ?_ ?_ hentries ?_ ?_ ?_ ?_ hinv hok⟩
    · rw [← List.append_assoc]
      exact h.responses
    all_goals rfl

/-- A request whose message does not pass the check takes an id, and nothing is sent. -/
theorem clientSerialize_request (r : RpcRequest M) (id serial : Nat) :
    clientSerialize env.toRpcService ⟨r.methodIndex, id, some r.input⟩ =
      if env.check r.input then RpcTicket.requestFrame env ⟨id, serial, r⟩ else [] := by
  unfold clientSerialize
  rw [Option.filter_some]
  cases env.check r.input with
  | false => rfl
  | true => rfl

theorem RpcNet.Tracks.invoke {r : RpcRequest M} {client : RpcRun M}
    (h : L.Tracks env base c info sent served returned calls) (htyped : RpcNetLabel.Typed env L (.invoke r))
    (hstep : RpcLabel.Step env L.client (.invoke r.methodIndex r.input r.closure r.closureData) client) :
    ∃ c' info' sent', RpcNet.Tracks env base
      { L with client, requested := L.requested ++ if env.check r.input then [r] else [] }
      c' info' sent' served returned calls := by
  have hinv := RpcRun.Inv.step (l := .invoke r.methodIndex r.input r.closure r.closureData) h.inv trivial hstep
  obtain ⟨-, hok⟩ := hstep
  obtain ⟨hmethod, t, t', c', halloc, hadd, hc', hstate, hin, hout, hstack, hcalls, hblocks, -⟩ :=
    invoke_spec h.client h.state hok
  have hnumbered : t'.block < client.blocks ∧ ∀ id block, client.stack = [.responded id block] → block ≤ t'.block := by
    obtain ⟨hlt, hle⟩ := h.numbered
    rw [hblocks, hstack]
    rcases request_block h.online.valid halloc hadd with ⟨-, heq⟩ | ⟨-, heq⟩
    · exact ⟨by omega, fun id block hst => heq ▸ hle id block hst⟩
    · exact ⟨by omega, fun id block hst => by have := hle id block hst; omega⟩
  obtain ⟨u, hadd', hvalid, -, hnew, hentry, hkeep⟩ :=
    request_spec h.online.valid halloc (env.output r.methodIndex) r.closure r.closureData
  obtain rfl := Except.ok.inj (hadd.symm.trans hadd')
  -- the entries of the requests on their way are open, so the new id is none of theirs
  have hold : ∀ k ∈ sent ++ served ++ returned.map Prod.fst, info.IsOpen k.id := fun k hk =>
    ⟨_, (h.tickets k hk).2.2.1, rfl⟩
  have hkept : ∀ (l : List (RpcRequest M)), ∀ k ∈ sent ++ served ++ returned.map Prod.fst, k.Fits env ∧
      (L.requested ++ l)[k.serial]? = some k.request ∧ t'.entry k.id = some (k.request.entry env) ∧
      ∀ id block, client.stack = [.responded id block] → k.id ≠ id := by
    intro l k hk
    obtain ⟨hfit, hser, hent, hother⟩ := h.tickets k hk
    refine ⟨hfit, ?_, (hkeep k.id (hold k hk)).trans hent, hstack ▸ hother⟩
    rw [List.getElem?_append_left (List.getElem?_eq_some_iff.mp hser).1]
    exact hser
  have hgrown : ∀ (l : List (RpcRequest M)) {n : Nat} {q : RpcRequest M}, L.requested[n]? = some q →
      (L.requested ++ l)[n]? = some q := by
    intro l n q hq
    rw [List.getElem?_append_left (List.getElem?_eq_some_iff.mp hq).1]
    exact hq
  have hwaits : client.stack = [] → ∀ t ∈ returned.head?, c'.incoming.length < (RpcTicket.responseFrame env t).length := by
    rw [hstack, hin]
    exact h.waits
  rw [clientSerialize_request r t.firstFreeRequestId L.requested.length] at hout
  cases hcheck : env.check r.input with
  | false =>
    rw [hcheck] at hout
    simp only [Bool.false_eq_true, if_false, List.append_nil] at hout ⊢
    refine ⟨c', t', sent, { h with
      inv := hinv, client := hc', state := hstate, numbered := hnumbered, requests := ?_, responses := ?_
      waits := hwaits, tickets := ?_, calls_eq := ?_ }⟩
    · rw [hout]
      exact h.requests
    · rw [hin]
      exact h.responses
    · have hall := hkept []
      rw [List.append_nil] at hall
      exact hall
    · show client.calls = _
      rw [hcalls, h.calls_eq]
  | true =>
    rw [hcheck] at hout
    simp only [if_true] at hout ⊢
    let k : RpcTicket M := ⟨t.firstFreeRequestId, L.requested.length, r⟩
    have hperm : (sent ++ [k] ++ served ++ returned.map Prod.fst).Perm
        (k :: (sent ++ served ++ returned.map Prod.fst)) := by
      simp only [List.append_assoc, List.singleton_append]
      exact List.perm_middle
    have hfits : k.Fits env := by
      refine ⟨?_, htyped.1, htyped.2.1, hmethod, htyped.2.2⟩
      obtain ⟨-, hle⟩ := hvalid.bounds hentry
      have hmax := hvalid.alloced_le
      show t.firstFreeRequestId < 4294967296
      omega
    refine ⟨c', t', sent ++ [k], { h with
      inv := hinv, client := hc', state := hstate, numbered := hnumbered, requests := ?_, responses := ?_
      waits := hwaits, ids := ?_, tickets := ?_, sentSerials := ?_, requested := ?_, received := ?_, calls_eq := ?_, called := ?_ }⟩
    · rw [hout, ← List.append_assoc, h.requests, List.flatMap_append, List.flatMap_singleton]
    · rw [hin]
      exact h.responses
    · refine (hperm.map RpcTicket.id).nodup_iff.mpr ?_
      rw [List.map_cons, List.nodup_cons]
      refine ⟨fun hmem => ?_, h.ids⟩
      obtain ⟨k', hk', heq⟩ := List.mem_map.mp hmem
      have hid : k'.id = t.firstFreeRequestId := heq
      exact hnew (hid ▸ hold k' hk')
    · intro k' hk'
      rcases List.mem_cons.mp (hperm.mem_iff.mp hk') with rfl | hk'
      · refine ⟨hfits, ?_, hentry, fun id block hst heq => ?_⟩
        · exact List.getElem?_concat_length
        · have hst' : client.stack = [.responded id block] := hst
          rw [hstack] at hst'
          rcases h.online.stack with hnil | ⟨id', block', hone, hopen⟩
          · rw [hnil] at hst'
            cases hst'
          · rw [hone] at hst'
            cases hst'
            have hid : t.firstFreeRequestId = id := heq
            exact hnew (hid ▸ hopen)
      · exact hkept [r] k' hk'
    · rw [List.map_append, h.sentSerials, List.length_append, List.length_singleton, List.range'_concat]
      show _ ++ [L.requested.length] = _
      rw [h.requested, Nat.one_mul]
    · show (L.requested ++ [r]).length = _
      rw [List.length_append, List.length_append, h.requested, Nat.add_assoc]
      rfl
    · intro n e he
      obtain ⟨q, hq, hrest⟩ := h.received n e he
      exact ⟨q, hgrown [r] hq, hrest⟩
    · show client.calls = _
      rw [hcalls, h.calls_eq]
    · intro n call hn
      obtain ⟨m, answer, q, hans, hq, hcall⟩ := h.called n call hn
      exact ⟨m, answer, q, hans, hgrown [r] hq, hcall⟩

/-! ### Runs -/

theorem RpcNet.Fresh.tracks (h : L.Fresh base) : ∃ c info, L.Tracks env base c info [] [] [] [] := by
  obtain ⟨c, block, hc, hstate, hblock, hin, hout⟩ := h.client
  obtain ⟨htoServer, htoClient⟩ := h.wires
  obtain ⟨hrequested, hreceived, hanswered⟩ := h.records
  refine ⟨c, _, h.inv, hc, hstate, ⟨hblock, ?_⟩, ?_, ?_, ?_, ?_, .nil, ?_, ?_, ?_, ?_, ?_, ?_, ?_, ?_, ?_⟩
  · intro id block hst
    rw [h.stack] at hst
    cases hst
  · rw [h.server, htoServer, hout]
    rfl
  · rw [h.server]
    rfl
  · rw [h.server, htoClient, hin]
    rfl
  · rintro - t ⟨⟩
  · rintro t ⟨⟩
  · rintro t ⟨⟩
  · rfl
  · rw [hrequested, hreceived]
    rfl
  · intro n e he
    rw [hreceived] at he
    cases he
  · rw [hanswered, hreceived]
    exact .nil
  · rw [hanswered]
    rfl
  · exact h.calls
  · intro k call hk
    cases hk

/-- The closure that is being called has not moved the array, and the socket of a client with requests is watched. -/
structure RpcNet.Steady (L : RpcNet M) (info : RpcConnected) : Prop where
  array : ∀ id block, L.client.stack = [.responded id block] → info.block = block
  watched : L.requested ≠ [] → ∃ writable, L.client.dispatch.watch = some (.events writable)

theorem RpcNet.Fresh.steady (h : L.Fresh base) (info : RpcConnected) : L.Steady info := by
  refine ⟨fun id block hst => ?_, fun hne => absurd h.records.1 hne⟩
  rw [h.stack] at hst
  cases hst

theorem RpcNet.Tracks.invoke_steady {r : RpcRequest M} {client : RpcRun M} {c' : RpcClient} {info' : RpcConnected}
    {requested : List (RpcRequest M)} (h : L.Tracks env base c info sent served returned calls) (hsteady : L.Steady info)
    (hroom : RpcNetLabel.HasRoom L (.invoke r))
    (hstep : RpcLabel.Step env L.client (.invoke r.methodIndex r.input r.closure r.closureData) client)
    (hc' : client.client = some c') (hstate' : c'.state = .connected info') :
    RpcNet.Steady { L with client, requested } info' := by
  obtain ⟨-, t, t', c1, halloc, hadd, hc1, hstate1, -, -, hstack, -, -, hwatch⟩ := invoke_spec h.client h.state hstep.2
  obtain rfl := Option.some.inj (hc1.symm.trans hc')
  obtain rfl := RpcClientState.connected.inj (hstate1.symm.trans hstate')
  refine ⟨fun id block hst => ?_, fun _ => ?_⟩
  · have hst' : L.client.stack = [.responded id block] := hstack.symm.trans hst
    have hfirst := hroom (by rw [hst']; exact List.cons_ne_nil _ _) c info h.client h.state
    rcases request_block h.online.valid halloc hadd with ⟨-, hblock⟩ | ⟨hfull, -⟩
    · exact hblock.trans (hsteady.array id block hst')
    · exact absurd hfull hfirst
  · rcases hwatch with ⟨hhad, hsame⟩ | hevents
    · obtain ⟨watch, hdis, -, hout⟩ := h.online.dispatch
      refine ⟨true, ?_⟩
      show client.dispatch.watch = _
      rw [hsame, hdis]
      exact hout hhad
    · exact hevents

theorem RpcNet.Tracks.step {l : RpcNetLabel M} (h : L.Tracks env base c info sent served returned calls)
    (htyped : l.Typed env L) (hstep : l.Step env L L') : ∃ c' info' sent' served' returned' calls',
      L'.Tracks env base c' info' sent' served' returned' calls' ∧ (l.HasRoom L → L.Steady info → L'.Steady info') := by
  cases l with
  | invoke r =>
    obtain ⟨client, hstep, rfl⟩ := hstep
    obtain ⟨c', info', sent', htracks⟩ := h.invoke htyped hstep
    exact ⟨c', info', sent', served, returned, calls, htracks, fun hroom hsteady =>
      h.invoke_steady hsteady hroom hstep htracks.client htracks.state⟩
  | ret =>
    obtain ⟨client, hstep, rfl⟩ := hstep
    obtain ⟨info', ⟨c', returned', calls', htracks⟩, hdis, harray⟩ := h.ret hstep
    refine ⟨c', info', sent, served, returned', calls', htracks, fun _ hsteady => ⟨harray, fun hne => ?_⟩⟩
    show ∃ writable, client.dispatch.watch = _
    rw [hdis]
    exact hsteady.watched hne
  | clientWrite n =>
    obtain ⟨-, client, hstep, rfl⟩ := hstep
    obtain ⟨c', htracks⟩ := h.clientWrite hstep
    have hok : handleClientFdEvents env (some (.wrote n)) none L.client = .ok client := hstep.2
    obtain ⟨-, -, -, -, -, hstack, -, -, hdis⟩ := write_spec h.client h.state hok
    refine ⟨c', info, sent, served, returned, calls, htracks, fun _ hsteady => ⟨fun id block hst =>
      hsteady.array id block (hstack.symm.trans hst), fun hne => ?_⟩⟩
    show ∃ writable, client.dispatch.watch = _
    rcases hdis with hsame | hfalse
    · rw [hsame]
      exact hsteady.watched hne
    · exact ⟨false, hfalse⟩
  | clientRead n =>
    obtain ⟨-, -, client, hstep, rfl⟩ := hstep
    obtain ⟨⟨c', returned', calls', htracks⟩, hdis, harray⟩ := h.clientRead hstep
    refine ⟨c', info, sent, served, returned', calls', htracks, fun _ hsteady => ⟨harray, fun hne => ?_⟩⟩
    show ∃ writable, client.dispatch.watch = _
    rw [hdis]
    exact hsteady.watched hne
  | serverRead n =>
    obtain rfl := hstep
    exact ⟨c, info, sent, served, returned, calls, h.serverRead n, fun _ hsteady => ⟨hsteady.array, hsteady.watched⟩⟩
  | serverReceive =>
    obtain ⟨t, rest, -, htracks⟩ := h.receive hstep
    have hsame := receive_client hstep
    refine ⟨c, info, rest, _, returned, calls, htracks, fun _ hsteady => ⟨?_, ?_⟩⟩
    · rw [hsame.1]
      exact hsteady.array
    · rw [hsame.1, hsame.2]
      exact hsteady.watched
  | respond i answer =>
    obtain ⟨t, served', htracks⟩ := h.respond htyped hstep
    obtain ⟨p, -, rfl⟩ := Option.map_eq_some_iff.mp hstep
    exact ⟨c, info, sent, served', _, calls, htracks, fun _ hsteady => ⟨hsteady.array, hsteady.watched⟩⟩
  | serverWrite n =>
    obtain rfl := hstep
    exact ⟨c, info, sent, served, returned, calls, h.serverWrite n, fun _ hsteady => ⟨hsteady.array, hsteady.watched⟩⟩

/-- With nothing on its way and no call of the service unanswered, all closures have been called. -/
theorem RpcNet.Tracks.quiet (h : L.Tracks env base c info sent served returned calls) (hstack : L.client.stack = [])
    (hout : L.client.outgoing = []) (htoServer : L.toServer = []) (hpending : L.server.pending = [])
    (hincomplete : serverDeserialize env.toRpcService L.server.incoming = .incomplete) (htoClient : L.toClient = [])
    (houtgoing : L.server.outgoing = []) : calls.length = L.requested.length := by
  have hsent : sent = [] := by
    cases sent with
    | nil => rfl
    | cons t rest =>
      have hreq := h.requests
      rw [RpcRun.outgoing, h.client] at hout
      rw [htoServer, show c.outgoing = [] from hout, List.append_nil, List.append_nil, List.flatMap_cons] at hreq
      obtain ⟨m, -, hfront⟩ := receive_front (h.tickets t (by simp)).1 (rest.flatMap (RpcTicket.requestFrame env))
      rw [hreq, hfront] at hincomplete
      cases hincomplete
  have hserved : served = [] := by
    have hpend := h.pending
    rw [hpending] at hpend
    exact List.map_eq_nil_iff.mp hpend.symm
  have hreturned : returned = [] := by
    cases hret : returned with
    | nil => rfl
    | cons t rest =>
      have hres := h.responses
      rw [htoClient, houtgoing, List.append_nil, List.append_nil, hret, List.flatMap_cons] at hres
      have hlt := h.waits hstack t (by rw [hret]; rfl)
      rw [hres, List.length_append] at hlt
      omega
  have hserials := h.serials.length_eq
  have hanswered := congrArg List.length h.answered
  have hle := h.calls_le
  have hrequested := h.requested
  rw [hserved, List.map_nil, List.append_nil, List.length_map, List.length_range] at hserials
  rw [hreturned, List.map_nil, List.length_drop, List.length_nil] at hanswered
  rw [hsent, List.length_nil] at hrequested
  omega

/-! ### Progress -/

/-- Messages at the front are received: the client waits for the rest of a response, or calls a closure. -/
theorem RpcNet.Tracks.clientRead_isOk (h : L.Tracks env base c info sent served returned calls) (hsteady : L.Steady info)
    (hstack : L.client.stack = []) {n : Nat} (hpos : 0 < n) (hn : n ≤ L.toClient.length) :
    ∃ L', RpcNetLabel.Step env L (.clientRead n) L' := by
  have hne : L.requested ≠ [] := by
    intro hnil
    cases hret : returned with
    | nil =>
      have hres := h.responses
      rw [hret] at hres
      have hzero := (List.append_eq_nil_iff.mp (List.append_eq_nil_iff.mp hres).1).2
      rw [hzero, List.length_nil] at hn
      omega
    | cons t rest =>
      have hser := (h.tickets t.1 (by simp [hret])).2.1
      rw [hnil] at hser
      cases hser
  obtain ⟨writable, hwatch⟩ := hsteady.watched hne
  have hin : (c.incoming ++ L.toClient.take n) ++ (L.toClient.drop n ++ L.server.outgoing) =
      returned.flatMap (RpcTicket.responseFrame env) := by
    rw [← h.responses, List.append_assoc, List.append_assoc, ← List.append_assoc (L.toClient.take n),
      List.take_append_drop]
  obtain ⟨client, -, hok, -⟩ := processIncoming_front (x := L.client)
    (c := { c with incoming := c.incoming ++ L.toClient.take n, state := .connected info }) h.online.valid hin
    fun t ht => ⟨(h.tickets t.1 (List.mem_append_right _ (List.mem_map_of_mem ht))).1, h.answers t ht,
      (h.tickets t.1 (List.mem_append_right _ (List.mem_map_of_mem ht))).2.2.1⟩
  refine ⟨_, hpos, hn, client, ⟨⟨hstack, writable, hwatch, fun hsome => by cases hsome⟩, ?_⟩, rfl⟩
  simp only [RpcLabel.exec, handleClientFdEvents, h.client, h.state, writeEvent, readEvent]
  exact hok

theorem RpcNet.Tracks.ret_isOk (h : L.Tracks env base c info sent served returned calls) (hsteady : L.Steady info)
    (hstack : L.client.stack ≠ []) : ∃ L', RpcNetLabel.Step env L .ret L' := by
  rcases h.online.stack with hnil | ⟨id, block, hone, hopen⟩
  · exact absurd hnil hstack
  obtain ⟨hvalid, -, hentry⟩ := releaseClosure_spec h.online.valid hopen
  have hin : c.incoming ++ (L.toClient ++ L.server.outgoing) = returned.flatMap (RpcTicket.responseFrame env) := by
    rw [← List.append_assoc]
    exact h.responses
  obtain ⟨client, -, hok, -⟩ := processIncoming_front (x := { L.client with client := some c, stack := [] }) hvalid hin
    fun t ht => by
      obtain ⟨hfit, -, hold, hother⟩ := h.tickets t.1 (List.mem_append_right _ (List.mem_map_of_mem ht))
      refine ⟨hfit, h.answers t ht, ?_⟩
      rw [hentry, if_neg (hother id block hone), hold]
  refine ⟨_, client, ⟨hstack, ?_⟩, rfl⟩
  simp only [RpcLabel.exec, hone, closureReturned, h.client, h.state, hsteady.array id block hone, ne_eq, not_true,
    if_false]
  exact hok

theorem RpcNet.Tracks.clientWrite_isOk (h : L.Tracks env base c info sent served returned calls)
    (hstack : L.client.stack = []) (hout : L.client.outgoing ≠ []) {n : Nat} (hn : n ≤ L.client.outgoing.length) :
    ∃ L', RpcNetLabel.Step env L (.clientWrite n) L' := by
  obtain ⟨watch, hdis, -, hwatch⟩ := h.online.dispatch
  have hne : c.outgoing ≠ [] := by
    rw [RpcRun.outgoing, h.client] at hout
    exact hout
  obtain ⟨client, hok⟩ : ∃ client, handleClientFdEvents env (some (.wrote n)) none L.client = .ok client := by
    simp only [handleClientFdEvents, h.client, h.state, writeEvent]
    exact ⟨_, rfl⟩
  refine ⟨_, hn, client, ⟨⟨hstack, true, ?_, fun _ => rfl⟩, hok⟩, rfl⟩
  rw [hdis]
  exact hwatch hne

theorem RpcNet.Tracks.receive_isOk (h : L.Tracks env base c info sent served returned calls) :
    serverDeserialize env.toRpcService L.server.incoming = .incomplete ∨
      ∃ L', RpcNetLabel.Step env L .serverReceive L' := by
  have hreq := h.requests
  rw [List.append_assoc] at hreq
  cases sent with
  | nil =>
    rw [List.flatMap_nil] at hreq
    rw [(List.append_eq_nil_iff.mp hreq).1]
    exact .inl rfl
  | cons t rest =>
    have hfit := (h.tickets t (by simp)).1
    rw [List.flatMap_cons] at hreq
    rcases front_cases hreq with hlt | ⟨part, hpart, -⟩
    · exact .inl (receive_part hfit hreq hlt)
    · obtain ⟨m, -, hfront⟩ := receive_front hfit part
      have hsome : (L.receive env).isSome = true := by
        rw [RpcNet.receive, hpart, hfront]
        rfl
      exact .inr (Option.isSome_iff_exists.mp hsome)

/-! ### A full array -/

/-- The array has moved since the closure was called. -/
def RpcNet.Moved (L : RpcNet M) (info : RpcConnected) : Prop :=
  ∃ id block, L.client.stack = [.responded id block] ∧ block < info.block

theorem RpcNet.Tracks.invoke_moved {r : RpcRequest M} {client : RpcRun M} {c' : RpcClient} {info' : RpcConnected}
    {requested : List (RpcRequest M)} (h : L.Tracks env base c info sent served returned calls)
    (hstack : L.client.stack ≠ []) (hmoved : L.Moved info ∨ info.firstFreeRequestId = 0)
    (hstep : RpcLabel.Step env L.client (.invoke r.methodIndex r.input r.closure r.closureData) client)
    (hc' : client.client = some c') (hstate' : c'.state = .connected info') :
    RpcNet.Moved { L with client, requested } info' := by
  obtain ⟨-, t, t', c1, halloc, hadd, hc1, hstate1, -, -, hsame, -⟩ := invoke_spec h.client h.state hstep.2
  obtain rfl := Option.some.inj (hc1.symm.trans hc')
  obtain rfl := RpcClientState.connected.inj (hstate1.symm.trans hstate')
  obtain ⟨hlt, hle⟩ := h.numbered
  rcases h.online.stack with hnil | ⟨id, block, hone, -⟩
  · exact absurd hnil hstack
  refine ⟨id, block, hsame.trans hone, ?_⟩
  have hblock := hle id block hone
  rcases request_block h.online.valid halloc hadd with ⟨hne, heq⟩ | ⟨-, heq⟩
  · obtain ⟨id', block', hone', hmoved⟩ := hmoved.resolve_right hne
    rw [hone] at hone'
    cases hone'
    omega
  · omega

/-- The closure does not return, and nothing else calls the client. -/
theorem RpcNet.Tracks.moved_blocks (h : L.Tracks env base c info sent served returned calls) (hmoved : L.Moved info)
    (L' : RpcNet M) :
    (¬ RpcNetLabel.Step env L .ret L') ∧ (∀ n, ¬ RpcNetLabel.Step env L (.clientRead n) L') ∧
      ∀ n, ¬ RpcNetLabel.Step env L (.clientWrite n) L' := by
  obtain ⟨id, block, hone, hlt⟩ := hmoved
  have hbusy : L.client.stack ≠ [] := by
    rw [hone]
    exact List.cons_ne_nil _ _
  refine ⟨?_, ?_, ?_⟩
  · rintro ⟨client, ⟨-, hok⟩, -⟩
    simp only [RpcLabel.exec, hone, closureReturned, h.client, h.state] at hok
    rw [if_pos (by omega)] at hok
    cases hok
  · rintro n ⟨-, -, client, ⟨⟨hnil, -⟩, -⟩, -⟩
    exact hbusy hnil
  · rintro n ⟨-, client, ⟨⟨hnil, -⟩, -⟩, -⟩
    exact hbusy hnil

theorem RpcNet.Tracks.moved_step {l : RpcNetLabel M} (h : L.Tracks env base c info sent served returned calls)
    (hmoved : L.Moved info) (htyped : l.Typed env L) (hstep : l.Step env L L') :
    ∃ c' info' sent' served' returned' calls',
      L'.Tracks env base c' info' sent' served' returned' calls' ∧ L'.Moved info' := by
  obtain ⟨hret, hread, hwrite⟩ := h.moved_blocks hmoved L'
  obtain ⟨c', info', sent', served', returned', calls', htracks, -⟩ := h.step htyped hstep
  refine ⟨c', info', sent', served', returned', calls', htracks, ?_⟩
  have hkeep : L'.client = L.client → L'.Moved info' := by
    intro heq
    have hc := htracks.client
    rw [heq] at hc
    obtain rfl := Option.some.inj (h.client.symm.trans hc)
    obtain rfl := RpcClientState.connected.inj (h.state.symm.trans htracks.state)
    unfold RpcNet.Moved
    rw [heq]
    exact hmoved
  cases l with
  | invoke r =>
    obtain ⟨client, hstep, rfl⟩ := hstep
    obtain ⟨id, block, hone, -⟩ := id hmoved
    have hbusy : L.client.stack ≠ [] := by
      rw [hone]
      exact List.cons_ne_nil _ _
    exact h.invoke_moved hbusy (.inl hmoved) hstep htracks.client htracks.state
  | ret => exact absurd hstep hret
  | clientWrite n => exact absurd hstep (hwrite n)
  | clientRead n => exact absurd hstep (hread n)
  | serverRead n =>
    obtain rfl := hstep
    exact hkeep rfl
  | serverReceive => exact hkeep (receive_client hstep).1
  | respond i answer =>
    obtain ⟨p, -, rfl⟩ := Option.map_eq_some_iff.mp hstep
    exact hkeep rfl
  | serverWrite n =>
    obtain rfl := hstep
    exact hkeep rfl

end tracks

theorem RpcNet.Fresh.run_tracks {env : RpcEnv M} {base : List (RpcCall M)} {start L : RpcNet M}
    {ls : List (RpcNetLabel M)} (hfresh : start.Fresh base)
    (hrun : Steps (Guarded (fun L l => RpcNetLabel.Typed env L l) (RpcNetLabel.Step env)) start ls L) :
    ∃ c info sent served returned calls, L.Tracks env base c info sent served returned calls := by
  refine hrun.invariant (I := fun L => ∃ c info sent served returned calls,
    RpcNet.Tracks env base L c info sent served returned calls) ?_ ?_
  · rintro L l L' ⟨c, info, sent, served, returned, calls, h⟩ ⟨htyped, hstep⟩
    obtain ⟨c', info', sent', served', returned', calls', h', -⟩ := h.step htyped hstep
    exact ⟨c', info', sent', served', returned', calls', h'⟩
  · obtain ⟨c, info, h⟩ := hfresh.tracks
    exact ⟨c, info, [], [], [], [], h⟩

/-- Unless a closure makes a request while the array is full, no step of the two sides fails: what has been written is
read, closures return, and the server receives every request there is. -/
theorem rpc_net_proceeds {env : RpcEnv M} {base : List (RpcCall M)} {start L : RpcNet M} {ls : List (RpcNetLabel M)}
    (hfresh : start.Fresh base)
    (hrun : Steps (Guarded (fun L l => RpcNetLabel.Typed env L l ∧ l.HasRoom L) (RpcNetLabel.Step env)) start ls L) :
    (L.client.stack ≠ [] → ∃ L', RpcNetLabel.Step env L .ret L') ∧
    (L.client.stack = [] → ∀ n, 0 < n → n ≤ L.toClient.length → ∃ L', RpcNetLabel.Step env L (.clientRead n) L') ∧
    (L.client.stack = [] → L.client.outgoing ≠ [] → ∀ n ≤ L.client.outgoing.length,
      ∃ L', RpcNetLabel.Step env L (.clientWrite n) L') ∧
    (serverDeserialize env.toRpcService L.server.incoming = .incomplete ∨
      ∃ L', RpcNetLabel.Step env L .serverReceive L') := by
  obtain ⟨c, info, sent, served, returned, calls, h, hsteady⟩ : ∃ c info sent served returned calls,
      L.Tracks env base c info sent served returned calls ∧ L.Steady info := by
    refine hrun.invariant (I := fun L => ∃ c info sent served returned calls,
      RpcNet.Tracks env base L c info sent served returned calls ∧ L.Steady info) ?_ ?_
    · rintro L l L' ⟨c, info, sent, served, returned, calls, h, hsteady⟩ ⟨⟨htyped, hroom⟩, hstep⟩
      obtain ⟨c', info', sent', served', returned', calls', h', hsteady'⟩ := h.step htyped hstep
      exact ⟨c', info', sent', served', returned', calls', h', hsteady' hroom hsteady⟩
    · obtain ⟨c, info, h⟩ := hfresh.tracks
      exact ⟨c, info, [], [], [], [], h, hfresh.steady info⟩
  exact ⟨h.ret_isOk hsteady, fun hstack n => h.clientRead_isOk hsteady hstack,
    fun hstack hout n => h.clientWrite_isOk hstack hout, h.receive_isOk⟩

/-- A closure that has made a request while the array was full does not return, whatever else happens. -/
theorem rpc_closure_stuck {env : RpcEnv M} {base : List (RpcCall M)} {start L L' L'' : RpcNet M}
    {ls ls' : List (RpcNetLabel M)} {r : RpcRequest M} {c : RpcClient} {info : RpcConnected} (hfresh : start.Fresh base)
    (hrun : Steps (Guarded (fun L l => RpcNetLabel.Typed env L l) (RpcNetLabel.Step env)) start ls L)
    (hcalled : L.client.stack ≠ []) (hc : L.client.client = some c) (hstate : c.state = .connected info)
    (hfull : info.firstFreeRequestId = 0) (htyped : RpcNetLabel.Typed env L (.invoke r))
    (hstep : RpcNetLabel.Step env L (.invoke r) L')
    (hrun' : Steps (Guarded (fun L l => RpcNetLabel.Typed env L l) (RpcNetLabel.Step env)) L' ls' L'') :
    ∀ next, ¬ RpcNetLabel.Step env L'' .ret next ∧ (∀ n, ¬ RpcNetLabel.Step env L'' (.clientRead n) next) ∧
      ∀ n, ¬ RpcNetLabel.Step env L'' (.clientWrite n) next := by
  obtain ⟨c1, info1, sent, served, returned, calls, h⟩ := hfresh.run_tracks hrun
  obtain rfl := Option.some.inj (h.client.symm.trans hc)
  obtain rfl := RpcClientState.connected.inj (h.state.symm.trans hstate)
  obtain ⟨c', info', sent', served', returned', calls', h', -⟩ := h.step htyped hstep
  have hmoved : L'.Moved info' := by
    obtain ⟨client, hstep, rfl⟩ := hstep
    exact h.invoke_moved hcalled (.inr hfull) hstep h'.client h'.state
  obtain ⟨c2, info2, sent2, served2, returned2, calls2, h2, hmoved2⟩ : ∃ c info sent served returned calls,
      L''.Tracks env base c info sent served returned calls ∧ L''.Moved info := by
    refine hrun'.invariant (I := fun L => ∃ c info sent served returned calls,
      RpcNet.Tracks env base L c info sent served returned calls ∧ L.Moved info) ?_
      ⟨c', info', sent', served', returned', calls', h', hmoved⟩
    rintro L l L' ⟨c, info, sent, served, returned, calls, h, hmoved⟩ ⟨htyped, hstep⟩
    exact h.moved_step hmoved htyped hstep
  exact h2.moved_blocks hmoved2

end net

/-- A connected client of the echo service. -/
def echoStart : RpcNet Unit where
  client := ⟨some ⟨.addressLocal, [], some 3, [], [], false, .connected (setStateConnected 0)⟩, ⟨false, false, false, none⟩, [],
    Ledger.empty.make (some 3), 1, [], []⟩
  toServer := []
  toClient := []
  server := ⟨[], [], []⟩
  requested := []
  received := []
  answered := []

theorem echoStart_fresh : echoStart.Fresh [] where
  inv := (rpcClientNew_inv .addressLocal [] false).step (l := .idle (.established 3)) trivial
    (show RpcLabel.Step echoEnv _ _ _ from ⟨⟨rfl, rfl⟩, rfl⟩)
  client := ⟨_, 0, rfl, rfl, Nat.zero_lt_one, rfl, rfl⟩
  stack := rfl
  calls := rfl
  wires := ⟨rfl, rfl⟩
  server := rfl
  records := ⟨rfl, rfl, rfl⟩

theorem echo_typed (n : Nat) : (echoEnv.pack ()).length < 4294967296 ∧
    (echoEnv.unpack (echoEnv.input n) (echoEnv.pack ())).isSome = true := ⟨by decide, rfl⟩

/-- A closure is called, and can return. -/
theorem rpc_net_proceeds_called : ∃ L, Steps (Guarded (fun L l => RpcNetLabel.Typed echoEnv L l ∧ l.HasRoom L)
      (RpcNetLabel.Step echoEnv)) echoStart [.invoke ⟨0, (), 7, 8⟩, .clientWrite 12, .serverRead 12, .serverReceive,
        .respond 0 (some ()), .serverWrite 16, .clientRead 16] L ∧
    L.client.stack ≠ [] ∧ ∃ L', RpcNetLabel.Step echoEnv L .ret L' := by
  obtain ⟨L, hrun, hstack⟩ : ∃ L, Steps (Guarded (fun L l => RpcNetLabel.Typed echoEnv L l ∧ l.HasRoom L)
      (RpcNetLabel.Step echoEnv)) echoStart [.invoke ⟨0, (), 7, 8⟩, .clientWrite 12, .serverRead 12, .serverReceive,
        .respond 0 (some ()), .serverWrite 16, .clientRead 16] L ∧ L.client.stack ≠ [] :=
    ⟨_, .cons ⟨⟨⟨by decide, echo_typed 0⟩, fun hne => absurd rfl hne⟩, _, ⟨trivial, rfl⟩, rfl⟩
      (.cons ⟨⟨trivial, trivial⟩, by decide, _, ⟨⟨rfl, true, rfl, fun _ => rfl⟩, rfl⟩, rfl⟩
      (.cons ⟨⟨trivial, trivial⟩, rfl⟩ (.cons ⟨⟨trivial, trivial⟩, rfl⟩
      (.cons ⟨⟨fun _ _ _ _ => echo_typed 0, trivial⟩, rfl⟩ (.cons ⟨⟨trivial, trivial⟩, rfl⟩
      (.cons ⟨⟨trivial, trivial⟩, by decide, by decide, _, ⟨⟨rfl, false, rfl, by simp⟩, rfl⟩, rfl⟩ (.nil _))))))),
      List.cons_ne_nil _ _⟩
  exact ⟨L, hrun, hstack, (rpc_net_proceeds echoStart_fresh hrun).1 hstack⟩

/-- The only entry is that of the closure, which makes a request. -/
theorem rpc_closure_stuck_full : ∃ L L', Steps (Guarded (fun L l => RpcNetLabel.Typed echoEnv L l) (RpcNetLabel.Step echoEnv))
      echoStart [.invoke ⟨0, (), 7, 8⟩, .clientWrite 12, .serverRead 12, .serverReceive, .respond 0 (some ()),
        .serverWrite 16, .clientRead 16] L ∧
    RpcNetLabel.Step echoEnv L (.invoke ⟨0, (), 7, 9⟩) L' ∧ ∀ next, ¬ RpcNetLabel.Step echoEnv L' .ret next := by
  obtain ⟨L, L', c, info, hrun, hstack, hc, hstate, hfull, hstep⟩ : ∃ L L' c info,
      Steps (Guarded (fun L l => RpcNetLabel.Typed echoEnv L l) (RpcNetLabel.Step echoEnv))
        echoStart [.invoke ⟨0, (), 7, 8⟩, .clientWrite 12, .serverRead 12, .serverReceive, .respond 0 (some ()),
          .serverWrite 16, .clientRead 16] L ∧ L.client.stack ≠ [] ∧ L.client.client = some c ∧
      c.state = .connected info ∧ info.firstFreeRequestId = 0 ∧ RpcNetLabel.Step echoEnv L (.invoke ⟨0, (), 7, 9⟩) L' :=
    ⟨_, _, _, _, .cons ⟨⟨by decide, echo_typed 0⟩, _, ⟨trivial, rfl⟩, rfl⟩
      (.cons ⟨trivial, by decide, _, ⟨⟨rfl, true, rfl, fun _ => rfl⟩, rfl⟩, rfl⟩ (.cons ⟨trivial, rfl⟩
      (.cons ⟨trivial, rfl⟩ (.cons ⟨fun _ _ _ _ => echo_typed 0, rfl⟩ (.cons ⟨trivial, rfl⟩
      (.cons ⟨trivial, by decide, by decide, _, ⟨⟨rfl, false, rfl, by simp⟩, rfl⟩, rfl⟩ (.nil _))))))),
      List.cons_ne_nil _ _, rfl, rfl, rfl, _, ⟨trivial, rfl⟩, rfl⟩
  have hstuck := rpc_closure_stuck echoStart_fresh hrun hstack hc hstate hfull ⟨by decide, echo_typed 0⟩ hstep (.nil L')
  exact ⟨L, L', hrun, hstep, fun next => (hstuck next).1⟩

end Funra
