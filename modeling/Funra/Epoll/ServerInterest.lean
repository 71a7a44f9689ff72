import Funra.Epoll.Connections
import Funra.Epoll.Interest

/-!
# What epoll is asked for by the server

The calls of the server register the items of the sockets only, so all of them keep `Mirrored`. With the client
this gives `mirrors_run`.
-/

namespace Funra

open Mem Except System

namespace EpollReactor

variable {s : EpollReactor}

theorem changeInterest_mirrored (hm : s.heap.Mirrored) (change : Events → Events) (stream : Option Nat) :
    (s.changeInterest change 0 stream).Returns fun r => r.2.heap.Mirrored := by
  cases stream with
  | none => exact .error
  | some a => exact Returns.map ((hm.changeInterest a change).mono fun _ hr => hr)

theorem dropStream_mirrored (hm : s.heap.Mirrored) (ctl : Int) (stream : Option Nat) :
    (dropStream ctl stream s).Returns fun s' => s'.heap.Mirrored := by
  cases stream with
  | none => exact .ok hm
  | some a => exact Returns.map ((hm.dropSocket a ctl).mono fun _ hr => hr.1)

theorem closeSession_mirrored (hm : s.heap.Mirrored) (ctl : Int) (n : Nat) :
    (closeSession ctl n s).Returns fun s' => s'.heap.Mirrored := by
  rw [closeSession]
  refine Returns.bind_of_forall fun x => ?_
  split
  · exact .ok hm
  refine Returns.bind_of_forall fun mem₁ => Returns.bind_of_forall fun mem₂ => ?_
  exact Returns.bind (dropStream_mirrored (by exact hm) ctl x.stream) fun s' hs' => .ok hs'

theorem onError_mirrored (hm : s.heap.Mirrored) (ctl : Int) (n : Nat) :
    (ripcOnErrorServer ctl n s).Returns fun r => r.2.heap.Mirrored :=
  Returns.map (closeSession_mirrored hm ctl n)

theorem send_mirrored (hm : s.heap.Mirrored) (env : SendEnv) (hmodify : env.modify = 0) (n : Nat) :
    (ripcSendData2bufferServer env n s).Returns fun r => r.2.heap.Mirrored := by
  rw [ripcSendData2bufferServer]
  refine Returns.bind_of_forall fun x => ?_
  split
  · exact .ok hm
  refine Returns.bind_of_forall ?_
  rintro ⟨code, mem⟩
  dsimp only
  split
  · exact .ok hm
  refine Returns.bind_of_forall fun d => ?_
  split
  · rw [hmodify]
    exact changeInterest_mirrored (by exact hm) _ _
  · exact .ok hm

theorem sendData_mirrored (hm : s.heap.Mirrored) (io : SessionIo) (hmodify : io.modify = 0) (n : Nat) :
    (ripcSendDataServer io n s).Returns fun r => r.2.heap.Mirrored := by
  rw [ripcSendDataServer]
  refine Returns.bind_of_forall fun x => Returns.bind_of_forall fun d => Returns.bind_of_forall fun _ => ?_
  split
  · exact .ok hm
  refine Returns.bind_of_forall fun mem => ?_
  split
  · rw [hmodify]
    exact changeInterest_mirrored (by exact hm) _ _
  · exact .ok hm

end EpollReactor

open EpollReactor

/-- `repoll_modify` succeeds. -/
def SessionAction.Modifies : SessionAction → Prop
  | .reply env => env.modify = 0
  | .stop => True

structure SessionIo.Modifies (io : SessionIo) : Prop where
  modify : io.modify = 0
  input : ∀ code d actions, io.input = some (code, d, actions) → ∀ action ∈ actions, SessionAction.Modifies action

namespace EpollReactor

variable {s : EpollReactor}

/-- What the handler does. -/
theorem actions_mirrored (hm : s.heap.Mirrored) (n : Nat) {actions : List SessionAction}
    (hmodify : ∀ action ∈ actions, action.Modifies) :
    (forEach (fun action s => SessionAction.run n s action) actions s).Returns fun s' => s'.heap.Mirrored := by
  refine Returns.mono (Ends.forEach (I := fun rest s' => s'.heap.Mirrored ∧ ∀ action ∈ rest, action.Modifies)
    (E := fun _ => True) ?_ ⟨hm, hmodify⟩).returns fun s' hs' => hs'.1
  rintro action rest s' ⟨hm', hrest⟩
  refine returns_iff.mp (Returns.mono ?_ fun s'' hs'' => ⟨hs'', fun x hx => hrest x (List.mem_cons_of_mem _ hx)⟩)
  have hact := hrest action List.mem_cons_self
  cases action with
  | reply env => exact Returns.map (send_mirrored hm' env hact n)
  | stop => exact .ok hm'

theorem receive_mirrored (hm : s.heap.Mirrored) (io : SessionIo) (hmodify : io.Modifies) (n : Nat) :
    (ripcReceiveDataServer io n s).Returns fun r => r.2.heap.Mirrored := by
  rw [ripcReceiveDataServer]
  refine Returns.bind_of_forall fun x => ?_
  split
  · exact .ok hm
  refine Returns.bind_of_forall fun d => Returns.bind_of_forall fun _ => ?_
  split
  · exact Returns.bind (onError_mirrored hm io.ctl n) fun r hr => .ok hr
  split
  · exact .ok hm
  rename_i code d' actions hinput
  split
  · refine Returns.bind_of_forall fun mem => ?_
    exact Returns.bind (actions_mirrored (by exact hm) n (hmodify.input code d' actions hinput)) fun s' hs' =>
      .ok hs'
  · exact .ok hm

theorem accept_mirrored (hm : s.heap.Mirrored) {env : AcceptEnv} (hfits : env.Fits s) :
    (ripcAcceptServer env s).Returns fun r => r.2.heap.Mirrored := by
  refine (accept_outcome hm.sound hfits).returns.mono ?_
  rintro _ ⟨-, ⟨-, -⟩ | ⟨-, -⟩ | ⟨-, -, -, hitems⟩ | ⟨-, -, -, hroom, -, -, -⟩⟩
  · exact hm
  · exact hm
  · apply hm.polled
    rcases hitems with rfl | rfl
    · rfl
    · exact EpollHeap.clearFirst_length ..
  · exact hm.attach hroom _ _

theorem acceptLoop_mirrored (hm : s.heap.Mirrored) {accept : Nat → EpollReactor → AcceptEnv}
    (hfits : ∀ k s, (accept k s).Fits s) (k : Nat) :
    (acceptLoop accept k s).Returns fun s' => s'.heap.Mirrored := by
  induction k generalizing s with
  | zero => exact .ok hm
  | succ k ih =>
    refine Returns.bind (accept_mirrored hm (hfits k s)) ?_
    rintro ⟨code, s'⟩ hm'
    dsimp only
    split
    · exact ih hm'
    · exact .ok hm'

theorem closeServer_mirrored (hm : s.heap.Mirrored) (env : CloseEnv) :
    (ripcCloseServer env s).Returns fun r => r.2.heap.Mirrored := by
  rw [ripcCloseServer]
  refine Returns.bind_of_forall fun _ => ?_
  split
  · exact .ok hm
  refine Returns.bind (dropStream_mirrored hm env.ctl s.stream) fun s₁ h₁ => ?_
  refine Returns.bind ?_ fun s₂ (h₂ : s₂.heap.Mirrored) => .ok h₂
  refine Returns.forEach_inv (fun visit s' hs' => ?_) h₁
  rw [closeVisited]
  split
  · exact .ok hs'
  · exact .error
  · exact closeSession_mirrored hs' _ _

theorem whenStarted_mirrored (hm : s.heap.Mirrored) (ready : Bool) (n : Nat)
    {call : EpollReactor → Except Fault (Int × EpollReactor)}
    (hcall : (call s).Returns fun r => r.2.heap.Mirrored) :
    (s.whenStarted ready n call).Returns fun s' => s'.heap.Mirrored := by
  rw [whenStarted]
  split
  · refine Returns.bind_of_forall fun x => ?_
    split
    · exact Returns.map hcall
    · exact .ok hm
  · exact .ok hm

theorem checkItem_mirrored (hm : s.heap.Mirrored) (env : ReactorEnv) (hfits : ∀ i k s, (env.accept i k s).Fits s)
    (hmodify : ∀ i, (env.io i).Modifies) (i : Nat) :
    (checkItem env i s).Returns fun s' => s'.heap.Mirrored := by
  rw [checkItem]
  refine Returns.bind_of_forall fun item => ?_
  split
  · exact .ok hm
  split
  · rw [checkListener]
    split
    · exact Returns.map (closeServer_mirrored hm _)
    split
    · exact acceptLoop_mirrored hm (hfits i) 10
    · exact .ok hm
  · rw [checkSession]
    split
    · exact closeSession_mirrored hm _ _
    · refine Returns.bind (whenStarted_mirrored hm _ _ (sendData_mirrored hm _ (hmodify i).modify _)) fun s₁ h₁ => ?_
      exact whenStarted_mirrored h₁ _ _ (receive_mirrored h₁ _ (hmodify i) _)

theorem check_mirrored (hm : s.heap.Mirrored) (env : ReactorEnv) (hfits : env.Fits s)
    (hmodify : ∀ i, (env.io i).Modifies) :
    (ripcCheckDataServer env s).Returns fun r => r.2.heap.Mirrored := by
  obtain ⟨code, items, hpoll, -, hres⟩ := EpollHeap.poll_ok hm.sound hfits.wait
  have hm' := hm.polled (n := (s.heap.reports env.wait).length) hres.length
  simp only [ripcCheckDataServer, hpoll, bind, Except.bind]
  split
  · exact .ok hm'
  · refine Returns.bind ?_ fun s' (hs' : s'.heap.Mirrored) => .ok hs'
    exact Returns.forEach_inv (fun i s' hs' => checkItem_mirrored hs' env hfits.accept hmodify i) hm'

theorem open_mirrored (hm : s.heap.Mirrored) (listen nonblock nodelay : Int) {env : OpenEnv}
    (hfits : s.heap.OpenFits env) :
    (ripcOpenServer listen nonblock nodelay env s).Returns fun r => r.2.heap.Mirrored := by
  apply Returns.map
  refine Returns.mono (hm.openStream hfits listen [nonblock, nodelay] dsServer) ?_
  rintro ⟨code, stream, heap⟩ hr
  cases stream with
  | none => exact hr
  | some a => exact hr

theorem Fresh.mirrored (h : s.Fresh) : s.heap.Mirrored := by
  refine ⟨⟨fun hs => ?_, fun hs => ?_, fun hs => ?_, fun hreg => ?_⟩, fun fd reg hreg => ?_⟩
  · cases (h.sockets _).symm.trans hs
  · cases (h.sockets _).symm.trans hs
  · cases (h.sockets _).symm.trans hs
  · cases (h.kernel _).symm.trans hreg
  · cases (h.kernel _).symm.trans hreg

end EpollReactor

/-! ### Runs -/

def ReactorCall.Modifies : ReactorCall → Prop
  | .sendS _ env => env.modify = 0
  | .checkS env => ∀ i, (env.io i).Modifies
  | .receiveS _ io => io.Modifies
  | _ => True

theorem ReactorCall.mirrored {s : EpollReactor} (hm : s.heap.Mirrored) {call : ReactorCall} (hfits : call.Fits s)
    (hmodify : call.Modifies) : (call.run s).Returns fun r => r.2.heap.Mirrored := by
  cases call with
  | initS => exact .ok hm
  | uninitS => exact .ok hm
  | openS listen nonblock nodelay env => exact open_mirrored hm listen nonblock nodelay hfits
  | closeS env => exact closeServer_mirrored hm env
  | startS => exact .ok hm
  | stopS => exact .ok hm
  | sendS n env => exact EpollReactor.send_mirrored hm env hmodify n
  | checkS env => exact EpollReactor.check_mirrored hm env hfits hmodify
  | receiveS n io => exact receive_mirrored hm io hmodify n
  | errorS n ctl => exact EpollReactor.onError_mirrored hm ctl n

/-- Epoll has what the owners' items ask for, in every state of a client that is not told that its connection
stands, and in every state of a server. -/
theorem mirrors_run {s s' : EpollClient} {t t' : EpollReactor} (calls : List ClientCall) (calls' : List ReactorCall)
    (hfresh : s.Fresh) (hrun : Steps (Guarded (fun s call => call.Modifies ∧ ¬ ClientCall.Connects s call)
      (fun s call s' => ClientCall.Step s call s')) s calls s')
    (hfresh' : t.Fresh) (hrun' : Steps (Guarded (fun _ call => call.Modifies)
      (fun t call t' => ReactorCall.Step t call t')) t calls' t') : s'.heap.Mirrors ∧ t'.heap.Mirrors := by
  constructor
  · refine EpollHeap.Mirrored.mirrors (hrun.invariant (I := fun s => s.heap.Mirrored) ?_ hfresh.mirrored)
    rintro s call s' hm ⟨⟨hmodify, hno⟩, hfits, code, hreturn⟩
    exact ClientCall.mirrored hm hfits hmodify hno _ hreturn
  · refine EpollHeap.Mirrored.mirrors (hrun'.invariant (I := fun t => t.heap.Mirrored) ?_ hfresh'.mirrored)
    rintro t call t' hm ⟨hmodify, hfits, code, hreturn⟩
    exact ReactorCall.mirrored hm hfits hmodify _ hreturn

/-- A server before its first call, with room for one result. -/
def freshServer : EpollReactor where
  state := .init
  stream := none
  sidCur := 0
  mapClients := none
  count := 1
  sessions := fun _ => none
  buffers := fun _ => none
  heap := EpollClient.freshClient.heap

theorem freshServer_fresh : freshServer.Fresh :=
  ⟨rfl, Nat.one_pos, fun _ => rfl, fun _ => rfl, fun _ => rfl⟩

/-- After `init` and `open`, of a client and of a server. -/
theorem mirrors_run_open : ∃ (s' : EpollClient) (t' : EpollReactor), s'.heap.repoll.kernel 5 ≠ none ∧
    t'.heap.repoll.kernel 5 ≠ none ∧ s'.heap.Mirrors ∧ t'.heap.Mirrors := by
  refine ⟨_, _, ?_, ?_, mirrors_run [.initC, .openC 0 EpollClient.openFive] [.initS, .openS 0 0 0 EpollClient.openFive]
    EpollClient.freshClient_fresh (.cons ⟨⟨trivial, not_false⟩, trivial, 0, rfl⟩
      (.cons ⟨⟨trivial, not_false⟩, EpollClient.openFive_fits rfl rfl rfl, 0, rfl⟩ (.nil _)))
    freshServer_fresh (.cons ⟨trivial, trivial, 0, rfl⟩
      (.cons ⟨trivial, EpollClient.openFive_fits rfl rfl rfl, 0, rfl⟩ (.nil _)))⟩
  · decide
  · decide

end Funra
