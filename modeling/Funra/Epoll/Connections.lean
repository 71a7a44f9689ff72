import Funra.Epoll.Reactor

/-!
# Accepting a connection

What `ripc_accept_server` leaves behind, whatever answers it gets (`accept_outcome`): nothing; a used id and an
association less where the id had one, with or without a code; or a session with its socket, its item and its
buffers.
-/

namespace Funra

open Mem Except

/-- A connection with a peer of a known family. -/
def AcceptEnv.Arrived (env : AcceptEnv) : Prop :=
  env.code = rcodeIoDone ∧ env.fd ≠ SOCKET_INVALID ∧ (env.family = AF_INET ∨ env.family = AF_INET6)

def AcceptEnv.OptionsSet (env : AcceptEnv) : Prop := env.nonblock = 0 ∧ env.nodelay = 0

/-- There is no memory for a step that the call gets to. -/
def AcceptEnv.Short (env : AcceptEnv) : Prop :=
  env.socket = none ∨ env.Arrived ∧
    (env.ds = none ∨ env.readCache = none ∨ env.writeBuff = none ∨ env.OptionsSet ∧ env.item = none)

/-- `malloc` and `accept` yield what is free. -/
structure AcceptEnv.Fits (env : AcceptEnv) (s : EpollReactor) : Prop where
  socket : ∀ {a}, env.socket = some a → s.heap.sockets a = none
  fd : s.heap.FreshFd env.fd
  item : ∀ {b}, env.item = some b → s.heap.repoll.items b = none
  readCache : ∀ {c block}, env.readCache = some (c, block) → s.buffers c = none
  writeBuff : ∀ {d block}, env.writeBuff = some (d, block) → s.buffers d = none ∧
    ∀ {c block'}, env.readCache = some (c, block') → c ≠ d

namespace EpollReactor

/-- The listening socket is there. -/
def Listens (s : EpollReactor) : Prop := ∃ a sock, s.stream = some a ∧ s.heap.sockets a = some sock

/-- A session has been begun and given up. -/
def forgotten (s : EpollReactor) (heap : EpollHeap) : EpollReactor :=
  { s with
    sidCur := s.nextId
    mapClients := s.mapClients.map fun m => m.remove s.nextId
    count := s.count + 1
    sessions := Function.update s.sessions s.count none
    heap }

/-- A session has been begun. -/
def begun (env : AcceptEnv) (x : ReactorSession) (c d : Nat × Obj) (s : EpollReactor) : EpollReactor :=
  { s with
    sidCur := s.nextId
    mapClients := s.mapClients.map fun m => m.add env.added s.nextId s.count
    count := s.count + 1
    sessions := Function.update s.sessions s.count
      (some { x with dsId := s.nextId, readCache := some c.1, writeBuff := some d.1 })
    buffers := Function.update (Function.update s.buffers c.1 (some (Rbuffer.create cacheSize c.2))) d.1
      (some (Rbuffer.create cacheSize d.2)) }

/-- A session with the socket at `a` and the item at `b`. -/
def accepted (env : AcceptEnv) (a b : Nat) (c d : Nat × Obj) (s : EpollReactor) : EpollReactor :=
  { s.begun env ⟨0, .start, some a, none, none⟩ c d with
    heap := s.heap.attach a env.fd b (repollSetEventIn 0) s.count }

inductive Outcome (env : AcceptEnv) (s : EpollReactor) : Int × EpollReactor → Prop
  | nothing {code : Int} (hno : ¬ env.Arrived) (hcode : code ≠ 0) : Outcome env s (code, s)
  | unset (harrived : env.Arrived) (hno : ¬ env.OptionsSet) :
      Outcome env s (0, s.forgotten s.heap)
  | unregistered (harrived : env.Arrived) (hset : env.OptionsSet) (hctl : env.ctl ≠ 0) {items : List RepollItem}
      (hitems : items = s.heap.repoll.destItems ∨
        items = clearFirst env.fd s.heap.repoll.fdDestCount s.heap.repoll.destItems) :
      Outcome env s (env.ctl, s.forgotten (s.heap.polled s.heap.repoll.fdDestCount items))
  | accepted (harrived : env.Arrived) (hset : env.OptionsSet) (hctl : env.ctl = 0) {a b : Nat} {c d : Nat × Obj}
      (hroom : s.heap.Room a env.fd b) (hc : s.buffers c.1 = none) (hd : s.buffers d.1 = none) (hne : c.1 ≠ d.1) :
      Outcome env s (0, s.accepted env a b c d)

variable {s : EpollReactor} {h : EpollHeap} {env : AcceptEnv} {a b ds : Nat} {fd : Int} {req : Events}

/-! ### Giving up -/

@[simp] theorem repoll_pending : (h.pending a fd).repoll = h.repoll := rfl

theorem discardPeer_pending (s : EpollReactor) (code : Int) (hinv : h.Sound) (hfd : h.FreshFd fd)
    (hfresh : h.sockets a = none) :
    discardPeer code a { s with heap := h.pending a fd } = .ok (code, { s with heap := h }) := by
  simp only [discardPeer, EpollHeap.discardSocket_pending hinv hfd hfresh, bind, Except.bind]
  rfl

/-- The heap of an accept whose item could not be registered. -/
theorem discardItem_pending (s : EpollReactor) (a : Nat) (req : Events) (ds : Nat) (remove : Int) (hinv : h.Sound)
    (hfd : h.openFds fd = false) (hfree : h.repoll.items b = none) : ∃ items, (items = h.repoll.destItems ∨
        items = clearFirst fd h.repoll.fdDestCount h.repoll.destItems) ∧
      discardItem remove b { s with heap := { h.pending a fd with
        repoll := h.repoll.newItem b ⟨fd, req, 0, ds⟩ } } =
          .ok { s with heap := (h.polled h.repoll.fdDestCount items).pending a fd } := by
  have hitem : (h.repoll.newItem b ⟨fd, req, 0, ds⟩).items b = some ⟨fd, req, 0, ds⟩ := Function.update_self ..
  have hkernel : Function.update h.repoll.kernel fd none = h.repoll.kernel := by
    rw [← hinv.kernel_none hfd, Function.update_eq_self]
  have hitems : Function.update h.repoll.items b none = h.repoll.items := by
    rw [← hfree, Function.update_eq_self]
  simp only [discardItem, Repoll.deref, hitem, bind, Except.bind]
  split
  · simp only [repollRemove, Repoll.deref, hitem, bind, Except.bind]
    by_cases hremove : remove < 0
    · refine ⟨_, .inl rfl, ?_⟩
      simp only [if_pos hremove, pure, Except.pure, Repoll.freeItem, hitem]
      simp only [Repoll.newItem, Function.update_idem, hitems]
      rfl
    · refine ⟨_, .inr rfl, ?_⟩
      simp only [if_neg hremove, pure, Except.pure, Repoll.freeItem, hitem]
      simp only [Repoll.newItem, Function.update_idem, hitems, hkernel]
      rfl
  · refine ⟨_, .inl rfl, ?_⟩
    simp only [pure, Except.pure, Repoll.freeItem, hitem]
    simp only [Repoll.newItem, Function.update_idem, hitems]
    rfl

theorem newSession_ok {c d : Nat × Obj} (hc : env.readCache = some c) (hd : env.writeBuff = some d)
    (x : ReactorSession) (h : EpollHeap) :
    newSession env x { s with heap := h } = .ok { s.begun env x c d with heap := h } := by
  simp only [newSession, hc, hd, BufferMemory.create, bind, Except.bind]
  rfl

/-- Two new buffers are released again. -/
theorem release_new {mem : BufferMemory} {c d : Nat} (hc : mem c = none) (hd : mem d = none) (hne : c ≠ d)
    (p q : Rbuffer) :
    (BufferMemory.release (Function.update (Function.update mem c (some p)) d (some q)) (some c)).bind
      (fun mem => mem.release (some d)) = .ok mem := by
  have hlive : Function.update (Function.update mem c (some p)) d (some q) c ≠ none := by
    rw [Function.update_of_ne hne, Function.update_self]
    exact Option.some_ne_none _
  have hlive' : Function.update (Function.update mem c (some p)) d (some q) d ≠ none := by
    rw [Function.update_self]
    exact Option.some_ne_none _
  rw [BufferMemory.release_two hlive hlive' hne]
  congr 1
  funext x
  by_cases hx : x = d
  · rw [hx, Function.update_self, hd]
  · rw [Function.update_of_ne hx]
    by_cases hx' : x = c
    · rw [hx', Function.update_self, hc]
    · rw [Function.update_of_ne hx', Function.update_of_ne hx, Function.update_of_ne hx']

theorem discardSession_begun {c d : Nat × Obj} (hc : s.buffers c.1 = none) (hd : s.buffers d.1 = none)
    (hne : c.1 ≠ d.1) (env : AcceptEnv) (x : ReactorSession) (h : EpollHeap) :
    discardSession s.count { s.begun env x c d with heap := h } = .ok (s.forgotten h) := by
  obtain ⟨mem, hrelease, hrelease'⟩ := Except.of_bind_ok (release_new hc hd hne (Rbuffer.create cacheSize c.2)
    (Rbuffer.create cacheSize d.2))
  simp only [discardSession, session, begun, Function.update_self, removeClient, bind, Except.bind]
  simp only [hrelease, hrelease', Function.update_idem, Option.map_map]
  simp only [forgotten, Function.comp_def, SessionMap.remove_add]
  rfl

/-! ### The outcome -/

theorem enrollSession_outcome (hinv : s.heap.Sound) (hfits : env.Fits s) (harrived : env.Arrived)
    (hset : env.OptionsSet) (hsocket : env.socket = some a) {c d : Nat × Obj} (hc : s.buffers c.1 = none)
    (hd : s.buffers d.1 = none) (hne : c.1 ≠ d.1) (x : ReactorSession) :
    (enrollSession env a s.count { s.begun env x c d with heap := s.heap.pending a env.fd }).Ends
      (fun f => f = .nullDeref ∧ env.item = none) (fun r => env.item ≠ none ∧ Outcome env s r) := by
  rw [enrollSession]
  cases hitem : env.item with
  | none => exact ⟨rfl, rfl⟩
  | some b =>
    have hroom : s.heap.Room a env.fd b :=
      ⟨hfits.socket hsocket, hfits.item hitem, harrived.2.1, hfits.fd harrived.2.1⟩
    have hsock : (s.heap.pending a env.fd).sockets a = some ⟨env.fd, 0⟩ := Function.update_self ..
    dsimp only
    by_cases hctl : env.ctl = 0
    · have hbind := EpollHeap.bindItem_pending s.heap a b (repollSetEventIn 0) s.count hroom.valid
      simp only [hctl, EpollHeap.addItem_ok hsock, bind, Except.bind, ne_eq, not_true_eq_false, if_false]
      simp only [EpollHeap.pending] at hbind ⊢
      rw [hbind]
      simp only [begun, session, Function.update_self, Function.update_idem]
      exact ⟨Option.some_ne_none b, .accepted harrived hset hctl hroom hc hd hne⟩
    · obtain ⟨items, hitems, hdiscard⟩ := discardItem_pending (s.forgotten s.heap) a (repollSetEventIn 0)
        s.count env.remove hinv hroom.fresh hroom.item
      have hinv' : (s.heap.polled s.heap.repoll.fdDestCount items).Sound := hinv.polled (by
        rcases hitems with rfl | rfl
        · rfl
        · exact EpollHeap.clearFirst_length ..)
      have hpeer := discardPeer_pending (s.forgotten s.heap) env.ctl hinv' (fun _ => hroom.fresh) hroom.socket
      simp only [forgotten] at hdiscard hpeer
      simp only [EpollHeap.addItem_failed hctl hsock, bind, Except.bind, ne_eq, hctl, not_false_eq_true, if_true,
        discardSession_begun hc hd hne, forgotten, repoll_pending, hdiscard, hpeer]
      exact ⟨Option.some_ne_none b, .unregistered harrived hset hctl hitems⟩

/-- The stream of the server, with the new socket pending. -/
theorem rsock_ends : (rsock s.stream { s with heap := s.heap.pending a fd }).Ends
    (fun _ => ¬ s.Listens) fun _ => True := by
  cases hstream : s.stream with
  | none =>
    rintro ⟨a', sock, heq, -⟩
    cases hstream.symm.trans heq
  | some a' =>
    simp only [rsock, EpollHeap.deref]
    split
    · rename_i hnone
      rintro ⟨a'', sock, heq, hsocket⟩
      cases hstream.symm.trans heq
      by_cases ha : a' = a
      · subst ha
        cases (Function.update_self ..).symm.trans hnone
      · cases hsocket.symm.trans ((Function.update_of_ne ha ..).symm.trans hnone)
    · exact trivial

/-- The buffers of the new session, and what follows. -/
theorem newSession_outcome (hinv : s.heap.Sound) (hfits : env.Fits s) (harrived : env.Arrived)
    (hsocket : env.socket = some a) (x : ReactorSession) :
    ((newSession env x { s with heap := s.heap.pending a env.fd }).bind fun s' =>
      if env.nonblock ≠ 0 ∨ env.nodelay ≠ 0 then
        (s'.discardSession s.count).bind fun s' => s'.discardPeer 0 a
      else s'.enrollSession env a s.count).Ends (fun f => f = .nullDeref ∧ (env.readCache = none ∨
        env.writeBuff = none ∨ env.OptionsSet ∧ env.item = none)) (fun r => ¬ (env.readCache = none ∨
          env.writeBuff = none ∨ env.OptionsSet ∧ env.item = none) ∧ Outcome env s r) := by
  cases hc : env.readCache with
  | none =>
    simp only [newSession, hc, BufferMemory.create]
    exact ⟨rfl, .inl trivial⟩
  | some c =>
    cases hd : env.writeBuff with
    | none =>
      simp only [newSession, hc, hd, BufferMemory.create]
      exact ⟨rfl, .inr (.inl trivial)⟩
    | some d =>
      have hfree := hfits.readCache hc
      obtain ⟨hfree', hne⟩ := hfits.writeBuff hd
      have hne := hne hc
      rw [newSession_ok hc hd]
      simp only [Except.bind]
      split
      · rename_i hopt
        have hpeer : discardPeer 0 a (s.forgotten (s.heap.pending a env.fd)) = .ok (0, s.forgotten s.heap) :=
          discardPeer_pending (s.forgotten s.heap) 0 hinv hfits.fd (hfits.socket hsocket)
        rw [discardSession_begun hfree hfree' hne]
        dsimp only
        rw [hpeer]
        have hunset : ¬ env.OptionsSet := fun hset => hopt.elim (fun hne => hne hset.1) fun hne => hne hset.2
        exact ⟨by simp [hunset], .unset harrived hunset⟩
      · rename_i hopt
        rw [not_or, not_not, not_not] at hopt
        have hset : env.OptionsSet := hopt
        simp only [hset, true_and, reduceCtorEq, false_or]
        exact enrollSession_outcome hinv hfits harrived hset hsocket hfree hfree' hne x

theorem accept_outcome (hinv : s.heap.Sound) (hfits : env.Fits s) :
    (ripcAcceptServer env s).Ends (fun f => s.Listens → f = .nullDeref ∧ env.Short)
      (fun r => ¬ env.Short ∧ Outcome env s r) := by
  rw [ripcAcceptServer]
  cases hsocket : env.socket with
  | none => exact fun _ => ⟨rfl, .inl hsocket⟩
  | some a =>
    have hshort : ¬ env.Arrived → ¬ env.Short := by simp +contextual [AcceptEnv.Short, hsocket]
    have hgiveUp := fun code => discardPeer_pending s code hinv hfits.fd (hfits.socket hsocket)
    simp only [EpollHeap.newSocket_eq]
    refine Ends.bind (rsock_ends.mono_error fun f hno h => absurd h hno) fun _ _ => ?_
    simp only [EpollHeap.openSocket_pending, bind, Except.bind, hgiveUp]
    split
    · rename_i hcode
      have hno : ¬ env.Arrived := fun h => hcode h.1
      exact ⟨hshort hno, .nothing hno hcode⟩
    rename_i hcode
    split
    · rename_i hfd
      have hno : ¬ env.Arrived := fun h => h.2.1 hfd
      exact ⟨hshort hno, .nothing hno (by decide)⟩
    rename_i hfd
    split
    · rename_i hfamily
      have hno : ¬ env.Arrived := fun h => h.2.2.elim hfamily.1 hfamily.2
      exact ⟨hshort hno, .nothing hno (by decide)⟩
    rename_i hfamily
    have harrived : env.Arrived := ⟨not_not.mp hcode, hfd, by tauto⟩
    cases hds : env.ds with
    | none => exact fun _ => ⟨rfl, .inr ⟨harrived, .inl hds⟩⟩
    | some x =>
      have hiff : env.Short ↔ env.readCache = none ∨ env.writeBuff = none ∨ env.OptionsSet ∧ env.item = none := by
        simp [AcceptEnv.Short, hsocket, hds, harrived]
      rw [hiff]
      exact (newSession_outcome hinv hfits harrived hsocket x).mono_error fun f hf _ => hf

/-! ### Runs -/

/-- A context before its first call. -/
structure Fresh (s : EpollReactor) : Prop where
  map : s.mapClients = none
  count : 0 < s.count
  sessions : ∀ n, s.sessions n = none
  sockets : ∀ a, s.heap.sockets a = none
  kernel : ∀ fd, s.heap.repoll.kernel fd = none

end EpollReactor

/-- What `epoll_wait` and the accepts of a check may answer. -/
structure ReactorEnv.Fits (env : ReactorEnv) (s : EpollReactor) : Prop where
  wait : s.heap.WaitFits env.wait
  accept : ∀ i k s, (env.accept i k s).Fits s

def ReactorCall.Fits (s : EpollReactor) : ReactorCall → Prop
  | .openS _ _ _ env => s.heap.OpenFits env
  | .checkS env => env.Fits s
  | _ => True

/-- A call that returns. -/
def ReactorCall.Step (s : EpollReactor) (call : ReactorCall) (s' : EpollReactor) : Prop :=
  call.Fits s ∧ ∃ code, call.run s = .ok (code, s')

end Funra
