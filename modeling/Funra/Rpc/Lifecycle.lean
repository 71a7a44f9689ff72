import Funra.Lib.Except
import Funra.Rpc.Client

/-!
# The life of an RPC client

`RpcRun.Inv` is what every step keeps: the closures called and those still to be called are together those of the
requests, each as often as it was handed over; the sockets closed and the one in use are together those opened; and
the dispatcher has the handlers that belong to the client's state. A client with output is watched for writing.
-/

namespace Funra

open Mem System Ownership

/-! ### Closures still to be called -/

/-- The closures of the entries with a request. -/
def openPairs (closures : List RpcClosure) : List (Nat × Nat) :=
  closures.filterMap fun cl => if cl.responseType.isSome then cl.closure.map (·, cl.closureData) else none

/-- Those that the function will call when it goes on. -/
def RpcActivation.held : RpcActivation → List (Nat × Nat)
  | .failing closures _ => openPairs closures
  | .destroying closures => openPairs closures
  | _ => []

def stackHeld (stack : List RpcActivation) : List (Nat × Nat) := stack.flatMap RpcActivation.held

/-- Once the closure that is being called with a response has returned, its entry is free. -/
def RpcConnected.afterwards (info : RpcConnected) : List RpcActivation → RpcConnected
  | [.responded id _] => releaseClosure id info
  | _ => info

def RpcClientState.held (stack : List RpcActivation) : RpcClientState → List (Nat × Nat)
  | .connected info => openPairs (info.afterwards stack).closures
  | _ => []

section waiting

variable {M : Type}

def RpcRun.ledger (x : RpcRun M) : Ledger (Nat × Nat) := ⟨x.requests, x.calls.map RpcCall.pair⟩

def RpcRun.waiting (x : RpcRun M) : List (Nat × Nat) :=
  (x.client.toList.flatMap fun c => c.state.held x.stack) ++ stackHeld x.stack

end waiting

section pairs

variable {closures rest : List RpcClosure} {cl new : RpcClosure} {i : Nat}

theorem nextOpen_some (h : nextOpen closures = some (cl, rest)) :
    cl.responseType.isSome = true ∧ openPairs closures = (cl.closure.map (·, cl.closureData)).toList ++ openPairs rest := by
  induction closures with
  | nil => cases h
  | cons head tail ih =>
    unfold nextOpen at h
    split at h
    · next hs =>
      cases h
      refine ⟨hs, ?_⟩
      simp only [openPairs, List.filterMap_cons, if_pos hs]
      cases cl.closure <;> rfl
    · next hs =>
      obtain ⟨hty, heq⟩ := ih h
      refine ⟨hty, ?_⟩
      rw [← heq]
      simp only [openPairs, List.filterMap_cons, if_neg hs]

theorem nextOpen_none (h : nextOpen closures = none) : openPairs closures = [] := by
  induction closures with
  | nil => rfl
  | cons head tail ih =>
    unfold nextOpen at h
    split at h
    · cases h
    · next hs =>
      simp only [openPairs, List.filterMap_cons, if_neg hs]
      exact ih h

/-- Another entry at one place. -/
theorem openPairs_set (h : closures[i]? = some cl) (new : RpcClosure) :
    (openPairs [cl] ++ openPairs (closures.set i new)).Perm (openPairs [new] ++ openPairs closures) := by
  induction closures generalizing i with
  | nil => cases h
  | cons head tail ih =>
    have hcons : ∀ a l, openPairs (a :: l) = openPairs [a] ++ openPairs l := fun a l =>
      @List.filterMap_append _ _ [a] l _
    cases i with
    | zero =>
      obtain rfl : head = cl := Option.some.inj h
      rw [List.set_cons_zero, hcons new, hcons head tail]
      exact List.perm_append_comm_assoc ..
    | succ i =>
      rw [List.set_cons_succ, hcons head, hcons head tail]
      calc (openPairs [cl] ++ (openPairs [head] ++ openPairs (tail.set i new))).Perm
            (openPairs [head] ++ (openPairs [cl] ++ openPairs (tail.set i new))) := List.perm_append_comm_assoc ..
        List.Perm _ (openPairs [head] ++ (openPairs [new] ++ openPairs tail)) := (ih h).append_left _
        List.Perm _ (openPairs [new] ++ (openPairs [head] ++ openPairs tail)) := List.perm_append_comm_assoc ..

theorem openPairs_free (h : cl.responseType = none) : openPairs [cl] = [] := by
  simp [openPairs, h]

theorem openPairs_open {f : Nat} (h : cl.responseType.isSome = true) (hf : cl.closure = some f) :
    openPairs [cl] = [(f, cl.closureData)] := by
  simp [openPairs, h, hf]

theorem release_pairs {info : RpcConnected} {id f : Nat} (hcl : info.entry id = some cl)
    (hs : cl.responseType.isSome = true) (hf : cl.closure = some f) :
    (openPairs info.closures).Perm ((f, cl.closureData) :: openPairs (releaseClosure id info).closures) := by
  have hset := openPairs_set ((RpcConnected.entry_eq (RpcConnected.entry_ne_zero hcl)).symm.trans hcl)
    ⟨none, none, info.firstFreeRequestId⟩
  rw [openPairs_open hs hf] at hset
  exact hset.symm

theorem grown_pairs {info : RpcConnected} {block : Nat} :
    openPairs (info.grown block).closures = openPairs info.closures := by
  show openPairs (info.closures ++ newFreeList _ _ _) = _
  have hnone : openPairs (newFreeList info.closuresAlloced (info.closuresAlloced * 2) info.firstFreeRequestId) = [] := by
    rw [openPairs, List.filterMap_eq_nil_iff]
    simp only [newFreeList, List.mem_append, List.mem_map, List.mem_singleton]
    rintro cl (⟨i, -, rfl⟩ | rfl) <;> rfl
  rw [openPairs, List.filterMap_append]
  show openPairs _ ++ openPairs _ = _
  rw [hnone, List.append_nil]

theorem addClosure_pairs {info info' : RpcConnected} {output closure closureData : Nat}
    (hfree : info.IsFree info.firstFreeRequestId) (hok : addClosure output closure closureData info = .ok info') :
    (openPairs info'.closures).Perm ((closure, closureData) :: openPairs info.closures) := by
  obtain ⟨cl, hcl, hnone⟩ := hfree
  rw [addClosure, hcl] at hok
  cases hok
  have hset := openPairs_set ((RpcConnected.entry_eq (RpcConnected.entry_ne_zero hcl)).symm.trans hcl)
    ⟨some output, some closure, closureData⟩
  rw [openPairs_free hnone] at hset
  exact hset

end pairs

/-! ### The invariant -/

/-- The function may run in this state: only a client that is being destroyed has `destroying`. -/
def RpcActivation.MayRun (state : RpcClientState) : RpcActivation → Prop
  | .invoked | .failing _ _ => True
  | .destroying _ => state = .destroyed
  | .responded _ _ => False

def RpcClientState.registered : RpcClientState → RpcDispatch
  | .init => ⟨true, false, false, none⟩
  | .nameLookup _ _ => ⟨false, false, true, none⟩
  | .connecting => ⟨false, false, false, some .connect⟩
  | .failedWaiting _ => ⟨false, true, false, none⟩
  | _ => ⟨false, false, false, none⟩

/-- A client that is not connected. -/
structure RpcClient.Offline (c : RpcClient) (dispatch : RpcDispatch) (stack : List RpcActivation) : Prop where
  dispatch : dispatch = c.state.registered
  pending : ∀ b, c.state ≠ .nameLookup false b
  outgoing : c.outgoing = []
  fd : c.fd.isSome = true ↔ c.state = .connecting
  stack : ∀ act ∈ stack, act.MayRun c.state

/-- A connected client. A closure that it calls is that of an open request. -/
structure RpcClient.Online (c : RpcClient) (info : RpcConnected) (dispatch : RpcDispatch)
    (stack : List RpcActivation) : Prop where
  valid : info.Valid
  fd : c.fd.isSome = true
  dispatch : ∃ watch, dispatch = ⟨false, false, false, watch⟩ ∧ watch ≠ some .connect ∧
    (c.outgoing ≠ [] → watch = some (.events true))
  stack : stack = [] ∨ ∃ id block, stack = [.responded id block] ∧ info.IsOpen id

def RpcClientState.IsOffline (state : RpcClientState) : Prop := ∀ info, state ≠ .connected info

section invariant

variable {M : Type}

/-- The closures `owed` are to be called as well, before the client waits again. -/
structure RpcRun.Owing (x : RpcRun M) (owed : List (Nat × Nat)) : Prop where
  ledger : x.ledger.Balanced (owed ++ x.waiting)
  sockets : x.sockets.Balanced (x.client.bind RpcClient.fd).toList
  offline : ∀ c, x.client = some c → c.state.IsOffline → c.Offline x.dispatch x.stack
  online : ∀ c info, x.client = some c → c.state = .connected info → c.Online info x.dispatch x.stack
  freed : x.client = none → x.dispatch = ⟨false, false, false, none⟩ ∧ ∀ act ∈ x.stack, act.MayRun .destroyed

def RpcRun.Inv (x : RpcRun M) : Prop := x.Owing []

variable {env : RpcEnv M} {x x' : RpcRun M} {c : RpcClient} {owed : List (Nat × Nat)} {closures : List RpcClosure}
  {again : Bool}

theorem held_offline {state : RpcClientState} (h : state.IsOffline) (stack : List RpcActivation) :
    state.held stack = [] := by
  cases state with
  | connected info => exact absurd rfl (h info)
  | _ => rfl

/-- Without a connection only the functions that have called a closure have closures to call. -/
theorem waiting_offline (h : ∀ c, x.client = some c → c.state.IsOffline) : x.waiting = stackHeld x.stack := by
  unfold RpcRun.waiting
  cases hc : x.client with
  | none => rfl
  | some c =>
    simp only [Option.toList_some, List.flatMap_cons, List.flatMap_nil, held_offline (h c hc), List.nil_append]

theorem waiting_online {info : RpcConnected} (hc : x.client = some c) (hinfo : c.state = .connected info)
    (hstack : x.stack = [] ∨ ∃ id block, x.stack = [.responded id block]) :
    x.waiting = openPairs (info.afterwards x.stack).closures := by
  have hnil : stackHeld x.stack = [] := by
    rcases hstack with h | ⟨id, block, h⟩ <;> rw [h] <;> rfl
  unfold RpcRun.waiting
  rw [hc, hnil]
  simp [RpcClientState.held, hinfo]

/-- The invariant of a client without a connection. -/
theorem RpcClient.Offline.inv (h : c.Offline x.dispatch x.stack) (hc : x.client = some c) (hoff : c.state.IsOffline)
    (hledger : x.ledger.Balanced (owed ++ stackHeld x.stack)) (hsock : x.sockets.Balanced c.fd.toList) :
    x.Owing owed := by
  refine ⟨?_, by rwa [hc], fun c' hc' _ => ?_, fun c' info hc' hinfo => ?_, fun hnone => ?_⟩
  · rwa [waiting_offline fun c' hc' => Option.some.inj (hc.symm.trans hc') ▸ hoff]
  · obtain rfl := Option.some.inj (hc.symm.trans hc')
    exact h
  · obtain rfl := Option.some.inj (hc.symm.trans hc')
    exact absurd hinfo (hoff info)
  · rw [hc] at hnone
    cases hnone

/-- The invariant of a connected client. -/
theorem RpcClient.Online.inv {info : RpcConnected} (h : c.Online info x.dispatch x.stack) (hc : x.client = some c)
    (hinfo : c.state = .connected info) (hledger : x.ledger.Balanced (openPairs (info.afterwards x.stack).closures))
    (hsock : x.sockets.Balanced c.fd.toList) : x.Inv := by
  have hwait := waiting_online hc hinfo (h.stack.imp_right fun ⟨id, block, hstack, _⟩ => ⟨id, block, hstack⟩)
  refine ⟨?_, by rwa [hc], fun c' hc' hoff => ?_, fun c' info' hc' hinfo' => ?_, fun hnone => ?_⟩
  · rwa [List.nil_append, hwait]
  · obtain rfl := Option.some.inj (hc.symm.trans hc')
    exact absurd hinfo (hoff info)
  · obtain rfl := Option.some.inj (hc.symm.trans hc')
    obtain rfl := RpcClientState.connected.inj (hinfo.symm.trans hinfo')
    exact h
  · rw [hc] at hnone
    cases hnone

/-! ### Closures called in a row -/

theorem RpcRun.Owing.call {cl : RpcClosure} {message : Option M} (act : RpcActivation)
    (h : x.Owing ((cl.closure.map (·, cl.closureData)).toList ++ act.held))
    (hoff : ∀ c, x.client = some c → c.state.IsOffline ∧ act.MayRun c.state) (hfreed : act.MayRun .destroyed)
    (hok : callClosure cl message act x = .ok x') : x'.Inv := by
  have hwait := waiting_offline fun c hc => (hoff c hc).1
  cases hf : cl.closure with
  | none =>
    rw [callClosure, hf] at hok
    cases hok
  | some f =>
    rw [callClosure, hf] at hok
    cases hok
    have hledger := h.ledger
    rw [hf, hwait, List.append_assoc] at hledger
    refine ⟨?_, h.sockets, fun c hc hc' => ?_, fun c info hc hinfo => absurd hinfo ((hoff c hc).1 info), fun hnone => ?_⟩
    · have hfree : (x.ledger.free (some (f, cl.closureData))).Balanced (act.held ++ stackHeld x.stack) := hledger.free
      have hwait' := waiting_offline
        (x := { x with stack := act :: x.stack, calls := ⟨f, cl.closureData, message⟩ :: x.calls })
        fun c hc => (hoff c hc).1
      rw [List.nil_append, hwait']
      exact hfree
    · obtain ⟨hdispatch, hpending, hout, hfd, hstack⟩ := h.offline c hc hc'
      exact ⟨hdispatch, hpending, hout, hfd, List.forall_mem_cons.mpr ⟨(hoff c hc).2, hstack⟩⟩
    · obtain ⟨hdispatch, hstack⟩ := h.freed hnone
      exact ⟨hdispatch, List.forall_mem_cons.mpr ⟨hfreed, hstack⟩⟩

theorem failClosures_inv (h : x.Owing (openPairs closures)) (hoff : ∀ c, x.client = some c → c.state.IsOffline)
    (hok : failClosures again closures x = .ok x') : x'.Inv := by
  rw [failClosures] at hok
  cases hnext : nextOpen closures with
  | some next =>
    obtain ⟨cl, rest⟩ := next
    rw [hnext] at hok
    rw [(nextOpen_some hnext).2] at h
    exact h.call (.failing rest again) (fun c hc => ⟨hoff c hc, trivial⟩) trivial hok
  | none =>
    rw [hnext] at hok
    rw [nextOpen_none hnext] at h
    cases hc : x.client with
    | none =>
      simp only [hc] at hok
      cases hok
    | some c =>
      simp only [hc] at hok
      cases again <;> cases hok
      exact h

theorem destroyClosures_inv (h : x.Owing (openPairs closures)) (hdes : ∀ c, x.client = some c → c.state = .destroyed)
    (hok : destroyClosures closures x = .ok x') : x'.Inv := by
  have hoff : ∀ c, x.client = some c → c.state.IsOffline := by
    intro c hc info hinfo
    rw [hdes c hc] at hinfo
    cases hinfo
  rw [destroyClosures] at hok
  cases hnext : nextOpen closures with
  | some next =>
    obtain ⟨cl, rest⟩ := next
    rw [hnext] at hok
    rw [(nextOpen_some hnext).2] at h
    exact h.call (.destroying rest) (fun c hc => ⟨hoff c hc, hdes c hc⟩) rfl hok
  | none =>
    rw [hnext] at hok
    rw [nextOpen_none hnext] at h
    cases hok
    have hledger := h.ledger
    rw [waiting_offline hoff] at hledger
    cases hc : x.client with
    | none =>
      have heq : { x with client := none } = x := by
        rw [← hc]
      rw [heq]
      exact h
    | some c =>
      obtain ⟨hdispatch, -, -, hfd, hstack⟩ := h.offline c hc (hoff c hc)
      rw [hdes c hc] at hdispatch hfd hstack
      have hsock := h.sockets
      have hnofd : c.fd = none := by
        cases hcfd : c.fd with
        | none => rfl
        | some fd => exact absurd (hfd.mp (by rw [hcfd]; rfl)) (by simp)
      rw [hc, Option.bind_some, hnofd] at hsock
      refine ⟨?_, hsock, ?_, ?_, fun _ => ⟨hdispatch, hstack⟩⟩
      · rw [waiting_offline (x := { x with client := none }) (by simp)]
        exact hledger
      · simp
      · simp

/-! ### Failing and connecting -/

def RpcClientState.array : RpcClientState → List RpcClosure
  | .connected info => info.closures
  | _ => []

theorem closuresToFail_ok {state : RpcClientState} (h : closuresToFail state = .ok closures) : closures = state.array := by
  cases state with
  | nameLookup pending b =>
    cases pending <;> cases h
    rfl
  | connecting | connected info =>
    cases h
    rfl
  | _ => cases h

/-- The handler runs with the client `c`, which is not waiting for anything else. -/
structure RpcRun.Handling (x : RpcRun M) (c : RpcClient) : Prop where
  stack : x.stack = []
  ledger : x.ledger.Balanced (openPairs c.state.array)
  sockets : x.sockets.Balanced c.fd.toList
  idle : x.dispatch.idle = false
  resolving : x.dispatch.resolving = false
  watch : c.fd = none → x.dispatch.watch = none

theorem closeFd_sockets (hsock : x.sockets.Balanced c.fd.toList) : (x.closeFd c.fd).sockets.Balanced [] := by
  refine Ledger.Balanced.free (x := c.fd) ?_
  rwa [List.append_nil]

theorem clientFailed_inv {text : Obj} (h : x.Handling c) (hok : clientFailed text again c x = .ok x') : x'.Inv := by
  obtain ⟨hstack, hledger, hsock, hidle, hres, hwatch⟩ := h
  simp only [clientFailed, bind] at hok
  obtain ⟨closures, hcl, hok⟩ := Except.of_bind_ok hok
  obtain rfl := closuresToFail_ok hcl
  let state : RpcClientState := if c.autoreconnect then .failedWaiting text else .failed text
  have hoff : state.IsOffline := by
    intro info hinfo
    simp only [state] at hinfo
    split at hinfo <;> cases hinfo
  have hconn : state ≠ .connecting := by
    simp only [state]
    split <;> simp
  have hpend : ∀ b, state ≠ .nameLookup false b := by
    intro b
    simp only [state]
    split <;> simp
  have hreg : (⟨x.dispatch.idle, c.autoreconnect, x.dispatch.resolving,
      if c.fd.isSome then none else x.dispatch.watch⟩ : RpcDispatch) = state.registered := by
    have hw : (if c.fd.isSome then none else x.dispatch.watch) = none := by
      split
      · rfl
      · next hfd => exact hwatch (by simpa using hfd)
    rw [hidle, hres, hw]
    cases hauto : c.autoreconnect <;> simp [state, hauto, RpcClientState.registered]
  refine failClosures_inv (x := { x.closeFd c.fd with
    client := some { c with fd := none, incoming := [], outgoing := [], state }
    dispatch := { (x.closeFd c.fd).dispatch with timer := c.autoreconnect } }) ?_ (by rintro c' ⟨rfl⟩; exact hoff) hok
  refine RpcClient.Offline.inv (c := { c with fd := none, incoming := [], outgoing := [], state })
    ⟨hreg, hpend, rfl, ?_, fun act hact => ?_⟩ rfl hoff ?_ (closeFd_sockets hsock)
  · exact ⟨fun hfd => absurd hfd (by simp), fun heq => absurd heq hconn⟩
  · have hact' : act ∈ x.stack := hact
    rw [hstack] at hact'
    cases hact'
  · show x.ledger.Balanced (openPairs c.state.array ++ stackHeld x.stack)
    rw [hstack]
    show x.ledger.Balanced (openPairs c.state.array ++ [])
    rwa [List.append_nil]

/-- The handler runs, and nothing is open. -/
structure RpcRun.Unconnected (x : RpcRun M) : Prop where
  stack : x.stack = []
  ledger : x.ledger.Balanced []
  sockets : x.sockets.Balanced []
  dispatch : x.dispatch = ⟨false, false, false, none⟩

theorem RpcRun.Unconnected.handling (h : x.Unconnected) (hfd : c.fd = none) (hstate : c.state.array = []) :
    x.Handling c := by
  obtain ⟨hstack, hledger, hsock, hdis⟩ := h
  refine ⟨hstack, ?_, ?_, ?_, ?_, fun _ => ?_⟩
  · rwa [hstate]
  · rwa [hfd]
  · rw [hdis]
  · rw [hdis]
  · rw [hdis]

/-- A connection is there. -/
theorem connected_inv {fd : Nat} (hstack : x.stack = []) (hledger : x.ledger.Balanced []) (hfd : c.fd = some fd)
    (hsock : x.sockets.Balanced [fd]) (hdis : x.dispatch = ⟨false, false, false, none⟩) (hout : c.outgoing = []) :
    (x.connected c).Inv := by
  refine RpcClient.Online.inv (c := { c with state := .connected (setStateConnected x.blocks) })
    ⟨setStateConnected_valid x.blocks, ?_, ⟨none, hdis, by simp, fun hne => absurd hout hne⟩, .inl hstack⟩ rfl rfl ?_ ?_
  · show c.fd.isSome = true
    rw [hfd]
    rfl
  · show x.ledger.Balanced (openPairs (RpcConnected.afterwards _ x.stack).closures)
    rw [hstack]
    exact hledger
  · show x.sockets.Balanced c.fd.toList
    rwa [hfd]

theorem beginConnecting_inv {conn : RpcConnect} (h : x.Unconnected) (hout : c.outgoing = [])
    (hok : beginConnecting env conn c x = .ok x') : x'.Inv := by
  cases conn with
  | socketError errno =>
    simp only [beginConnecting] at hok
    exact clientFailed_inv (h.handling rfl rfl) hok
  | refused fd errno =>
    simp only [beginConnecting] at hok
    have hsock : ((x.sockets.make (some fd)).free (some fd)).Balanced [] := (h.sockets.make (some fd)).free
    refine clientFailed_inv (RpcRun.Unconnected.handling ⟨?_, ?_, hsock, ?_⟩ rfl rfl) hok
    · exact h.stack
    · exact h.ledger
    · exact h.dispatch
  | established fd =>
    cases hok
    exact connected_inv h.stack h.ledger rfl (h.sockets.make (some fd)) h.dispatch hout
  | inProgress fd =>
    cases hok
    refine RpcClient.Offline.inv (c := { c with fd := some fd, state := .connecting })
      ⟨?_, by simp, hout, by simp, fun act hact => ?_⟩ rfl ?_ ?_ (h.sockets.make (some fd))
    · show RpcDispatch.mk _ _ _ _ = _
      rw [h.dispatch]
      rfl
    · have hact' : act ∈ x.stack := hact
      rw [h.stack] at hact'
      cases hact'
    · intro info hinfo
      cases hinfo
    · show x.ledger.Balanced ([] ++ stackHeld x.stack)
      rw [h.stack]
      exact h.ledger

theorem nameLookup_inv {conn : RpcConnect} (h : x.Unconnected) (hfd : c.fd = none) (hout : c.outgoing = [])
    (hok : nameLookup env conn c x = .ok x') : x'.Inv := by
  unfold nameLookup at hok
  split at hok
  · exact beginConnecting_inv h hout hok
  · split at hok
    · refine clientFailed_inv ?_ hok
      exact h.handling hfd rfl
    · cases hok
      refine RpcClient.Offline.inv (c := { c with state := .nameLookup true false })
        ⟨?_, by simp, hout, by simp [hfd], fun act hact => ?_⟩ rfl ?_ ?_ ?_
      · show RpcDispatch.mk _ _ _ _ = _
        rw [h.dispatch]
        rfl
      · have hact' : act ∈ x.stack := hact
        rw [h.stack] at hact'
        cases hact'
      · intro info hinfo
        cases hinfo
      · show x.ledger.Balanced ([] ++ stackHeld x.stack)
        rw [h.stack]
        exact h.ledger
      · show x.sockets.Balanced c.fd.toList
        rw [hfd]
        exact h.sockets

theorem beginNameLookup_inv {conn : RpcConnect} (h : x.Unconnected) (hfd : c.fd = none) (hout : c.outgoing = [])
    (hok : beginNameLookup env conn c x = .ok x') : x'.Inv := by
  unfold beginNameLookup at hok
  split at hok
  · exact nameLookup_inv h hfd hout hok
  · exact nameLookup_inv h hfd hout hok
  · exact nameLookup_inv h hfd hout hok
  · cases hok

/-! ### Destroying -/

theorem destroyClient_inv (hledger : x.ledger.Balanced (openPairs closures ++ stackHeld x.stack))
    (hsock : x.sockets.Balanced c.fd.toList)
    (hdis : ∃ watch, x.dispatch = ⟨false, false, false, watch⟩ ∧ (c.fd = none → watch = none))
    (hstack : ∀ act ∈ x.stack, act.MayRun .destroyed) (hok : destroyClient closures c x = .ok x') : x'.Inv := by
  obtain ⟨watch, hdis, hwatch⟩ := hdis
  have hdis' : (x.closeFd c.fd).dispatch = ⟨false, false, false, none⟩ := by
    show RpcDispatch.mk _ _ _ (if c.fd.isSome then none else x.dispatch.watch) = _
    rw [hdis]
    cases hfd : c.fd with
    | none => rw [hwatch hfd]; rfl
    | some fd => rfl
  refine destroyClosures_inv (x := { x.closeFd c.fd with
    client := some { c with fd := none, incoming := [], outgoing := [], state := .destroyed } }) ?_
    (by rintro c' ⟨rfl⟩; rfl) hok
  refine RpcClient.Offline.inv (c := { c with fd := none, incoming := [], outgoing := [], state := .destroyed })
    ⟨hdis', by simp, rfl, by simp, hstack⟩ rfl ?_ hledger (closeFd_sockets hsock)
  intro info hinfo
  cases hinfo

theorem RpcActivation.MayRun.destroyed {state : RpcClientState} {act : RpcActivation} (h : act.MayRun state) :
    act.MayRun .destroyed := by
  cases act with
  | destroying closures => rfl
  | _ => exact h

theorem RpcActivation.MayRun.anywhere {state state' : RpcClientState} {act : RpcActivation} (h : act.MayRun state)
    (hne : state ≠ .destroyed) : act.MayRun state' := by
  cases act with
  | destroying closures => exact absurd h hne
  | _ => exact h

theorem destroyClientRpc_inv (h : x.Inv) (hguard : ∀ id block, .responded id block ∉ x.stack)
    (hok : destroyClientRpc x = .ok x') : x'.Inv := by
  cases hc : x.client with
  | none =>
    simp only [destroyClientRpc, hc] at hok
    cases hok
  | some c =>
    have hsock := h.sockets
    rw [hc, Option.bind_some] at hsock
    have hledger := h.ledger
    rw [List.nil_append] at hledger
    by_cases hon : ∃ info, c.state = .connected info
    · obtain ⟨info, hinfo⟩ := hon
      obtain ⟨-, -, ⟨watch, hdis, -, -⟩, hstack⟩ := h.online c info hc hinfo
      have hnil : x.stack = [] := by
        rcases hstack with hstack | ⟨id, block, hstack, -⟩
        · exact hstack
        · exact absurd (hstack ▸ List.mem_singleton_self _) (hguard id block)
      rw [waiting_online hc hinfo (.inl hnil), hnil] at hledger
      simp only [destroyClientRpc, hc, hinfo] at hok
      refine destroyClient_inv ?_ hsock ⟨watch, hdis, fun hfd => ?_⟩ ?_ hok
      · rw [hnil]
        show x.ledger.Balanced (openPairs info.closures ++ [])
        rw [List.append_nil]
        exact hledger
      · have hsome := (h.online c info hc hinfo).fd
        rw [hfd] at hsome
        cases hsome
      · rw [hnil]
        simp
    · have hoff : c.state.IsOffline := fun info hinfo => hon ⟨info, hinfo⟩
      obtain ⟨hdis, hpend, hout, hfd, hstack⟩ := h.offline c hc hoff
      have hstack' : ∀ act ∈ x.stack, act.MayRun .destroyed := fun act hact => (hstack act hact).destroyed
      have hwait : x.waiting = stackHeld x.stack := waiting_offline (by rw [hc]; rintro c' ⟨rfl⟩; exact hoff)
      rw [hwait] at hledger
      have hdone : ∀ d : RpcDispatch, (∃ watch, d = ⟨false, false, false, watch⟩ ∧ (c.fd = none → watch = none)) →
          destroyClient [] c { x with dispatch := d } = .ok x' → x'.Inv := by
        intro d hd hok
        refine destroyClient_inv (x := { x with dispatch := d }) ?_ hsock hd hstack' hok
        exact hledger
      cases hstate : c.state with
      | connected info => exact absurd hstate (hoff info)
      | destroyed =>
        simp only [destroyClientRpc, hc, hstate] at hok
        cases hok
      | nameLookup pending b =>
        cases pending with
        | false => exact absurd hstate (hpend b)
        | true =>
          simp only [destroyClientRpc, hc, hstate] at hok
          cases hok
          rw [hstate] at hdis hfd hstack
          refine RpcClient.Offline.inv (c := { c with state := .nameLookup true true })
            ⟨hdis, by simp, hout, by simpa using hfd, fun act hact => ?_⟩ rfl ?_ hledger hsock
          · exact (hstack act hact).anywhere (by simp)
          · intro info hinfo
            cases hinfo
      | connecting =>
        rw [hstate] at hdis hfd
        simp only [destroyClientRpc, hc, hstate] at hok
        refine hdone x.dispatch ⟨_, hdis, fun hnone => ?_⟩ hok
        rw [hnone] at hfd
        exact absurd (hfd.mpr rfl) (by simp)
      | init | failedWaiting msg | failed msg =>
        rw [hstate] at hdis
        simp only [destroyClientRpc, hc, hstate] at hok
        refine hdone _ ⟨none, ?_, fun _ => rfl⟩ hok
        simp only [hdis, RpcClientState.registered]

/-! ### The handlers -/

/-- What the invariant says of a client without a connection when the dispatcher calls it. -/
theorem RpcRun.Inv.unconnected (h : x.Inv) (hstack : x.stack = []) (hc : x.client = some c)
    (hoff : c.state.IsOffline) : x.ledger.Balanced [] ∧ x.sockets.Balanced c.fd.toList ∧
      c.Offline x.dispatch x.stack := by
  have hledger := h.ledger
  have hsock := h.sockets
  rw [waiting_offline (by rw [hc]; rintro c' ⟨rfl⟩; exact hoff), hstack] at hledger
  rw [hc] at hsock
  exact ⟨hledger, hsock, h.offline c hc hoff⟩

theorem RpcClient.Offline.fd_none (h : c.Offline x.dispatch x.stack) (hne : c.state ≠ .connecting) : c.fd = none := by
  cases hfd : c.fd with
  | none => rfl
  | some fd => exact absurd (h.fd.mp (by rw [hfd]; rfl)) hne

theorem handleInitIdle_inv {conn : RpcConnect} (h : x.Inv) (hstack : x.stack = [])
    (hok : handleInitIdle env conn x = .ok x') : x'.Inv := by
  unfold handleInitIdle at hok
  split at hok
  · cases hok
  · next c hc =>
    split at hok
    · next hstate =>
      obtain ⟨hledger, hsock, hoff⟩ := h.unconnected hstack hc (by rw [hstate]; intro info hinfo; cases hinfo)
      have hfd := hoff.fd_none (by rw [hstate]; simp)
      rw [hfd] at hsock
      refine beginNameLookup_inv ?_ hfd hoff.outgoing hok
      refine ⟨hstack, hledger, hsock, ?_⟩
      simp only [hoff.dispatch, hstate, RpcClientState.registered]
    · cases hok

theorem handleAutoreconnectTimeout_inv {conn : RpcConnect} (h : x.Inv) (hstack : x.stack = [])
    (hok : handleAutoreconnectTimeout env conn x = .ok x') : x'.Inv := by
  unfold handleAutoreconnectTimeout at hok
  split at hok
  · cases hok
  · next c hc =>
    split at hok
    · next msg hstate =>
      obtain ⟨hledger, hsock, hoff⟩ := h.unconnected hstack hc (by rw [hstate]; intro info hinfo; cases hinfo)
      have hfd := hoff.fd_none (by rw [hstate]; simp)
      rw [hfd] at hsock
      refine beginNameLookup_inv ?_ hfd hoff.outgoing hok
      refine ⟨hstack, hledger, hsock, ?_⟩
      simp only [hoff.dispatch, hstate, RpcClientState.registered]
    · cases hok

theorem handleNameLookup_inv {lookup : RpcLookup} (h : x.Inv) (hstack : x.stack = [])
    (hok : handleNameLookup env lookup x = .ok x') : x'.Inv := by
  unfold handleNameLookup at hok
  split at hok
  · cases hok
  · next c hc =>
    split at hok
    · next pending destroyedWhilePending hstate =>
      obtain ⟨hledger, hsock, hoff⟩ := h.unconnected hstack hc (by rw [hstate]; intro info hinfo; cases hinfo)
      have hfd := hoff.fd_none (by rw [hstate]; simp)
      rw [hfd] at hsock
      have hdis : ({ x.dispatch with resolving := false } : RpcDispatch) = ⟨false, false, false, none⟩ := by
        simp only [hoff.dispatch, hstate, RpcClientState.registered]
      split at hok
      · cases hok
      · split at hok
        · simp only [destroyClientRpc, Bool.false_eq_true, if_false] at hok
          refine destroyClient_inv ?_ ?_ ⟨none, hdis, fun _ => rfl⟩ ?_ hok
          · show x.ledger.Balanced (openPairs [] ++ stackHeld x.stack)
            rw [hstack]
            exact hledger
          · show x.sockets.Balanced c.fd.toList
            rwa [hfd]
          · intro act hact
            have hact' : act ∈ x.stack := hact
            rw [hstack] at hact'
            cases hact'
        · have hun : RpcRun.Unconnected { x with
              client := some { c with state := .nameLookup false destroyedWhilePending }
              dispatch := { x.dispatch with resolving := false } } := ⟨hstack, hledger, hsock, hdis⟩
          split at hok
          · exact beginConnecting_inv hun hoff.outgoing hok
          · refine clientFailed_inv ?_ hok
            exact hun.handling hfd rfl
    · cases hok

theorem handleClientFdConnectEvents_inv {fdErrno : Int} (h : x.Inv) (hstack : x.stack = [])
    (hwatch : x.dispatch.watch = some .connect) (hok : handleClientFdConnectEvents env fdErrno x = .ok x') :
    x'.Inv := by
  unfold handleClientFdConnectEvents at hok
  split at hok
  · cases hok
  · next c hc =>
    have hoff : c.state.IsOffline := by
      intro info hinfo
      obtain ⟨watch, hdis, hne, -⟩ := (h.online c info hc hinfo).dispatch
      rw [hdis] at hwatch
      exact hne hwatch
    obtain ⟨hledger, hsock, hoff'⟩ := h.unconnected hstack hc hoff
    have hstate : c.state = .connecting := by
      rw [hoff'.dispatch] at hwatch
      cases hcs : c.state with
      | connecting => rfl
      | _ =>
        rw [hcs] at hwatch
        cases hwatch
    have hdis := hoff'.dispatch
    rw [hstate] at hdis
    split at hok
    · cases hok
      obtain ⟨fd, hfd⟩ := Option.isSome_iff_exists.mp (hoff'.fd.mpr hstate)
      rw [hfd] at hsock
      refine connected_inv hstack hledger hfd hsock ?_ hoff'.outgoing
      simp only [hdis, RpcClientState.registered]
    · split at hok
      · cases hok
        exact h
      · refine clientFailed_inv ⟨hstack, ?_, hsock, ?_, ?_, fun hnone => ?_⟩ hok
        · rw [hstate]
          exact hledger
        · rw [hdis]
          rfl
        · rw [hdis]
          rfl
        · have hsome := hoff'.fd.mpr hstate
          rw [hnone] at hsome
          cases hsome

/-- `handle_client_fd_events` runs, with the client `c` and its array. -/
structure RpcRun.Serving (x : RpcRun M) (c : RpcClient) (info : RpcConnected) : Prop where
  stack : x.stack = []
  ledger : x.ledger.Balanced (openPairs info.closures)
  sockets : x.sockets.Balanced c.fd.toList
  valid : info.Valid
  fd : c.fd.isSome = true
  dispatch : ∃ watch, x.dispatch = ⟨false, false, false, watch⟩ ∧ watch ≠ some .connect ∧
    (c.outgoing ≠ [] → watch = some (.events true))

theorem RpcRun.Serving.inv {info : RpcConnected} (h : x.Serving c info) (hc : x.client = some c)
    (hinfo : c.state = .connected info) : x.Inv := by
  refine RpcClient.Online.inv ⟨h.valid, h.fd, h.dispatch, .inl h.stack⟩ hc hinfo ?_ h.sockets
  rw [h.stack]
  exact h.ledger

theorem RpcRun.Serving.handling {info : RpcConnected} (h : x.Serving c info) (hinfo : c.state = .connected info) :
    x.Handling c := by
  obtain ⟨watch, hdis, -, -⟩ := h.dispatch
  refine ⟨h.stack, by rw [hinfo]; exact h.ledger, h.sockets, by rw [hdis], by rw [hdis], fun hnone => ?_⟩
  have hfd := h.fd
  rw [hnone] at hfd
  cases hfd

/-- A loop over `incoming` that has been entered, or goes on after a closure has returned. -/
theorem processIncoming_inv {info : RpcConnected} (h : x.Serving c info)
    (hok : processIncoming env c info x = .ok x') : x'.Inv := by
  have hserving : ({ x with client := some { c with state := .connected info } } : RpcRun M).Serving
      { c with state := .connected info } info := ⟨h.stack, h.ledger, h.sockets, h.valid, h.fd, h.dispatch⟩
  have hidle := hserving.inv rfl rfl
  have hhandling := hserving.handling rfl
  obtain ⟨hstack, hledger, hsock, hvalid, hfd, hdis⟩ := h
  unfold processIncoming at hok
  simp only [bind] at hok
  split at hok
  · cases hok
    exact hidle
  obtain ⟨result, -, hok⟩ := Except.of_bind_ok hok
  cases result with
  | incomplete =>
    cases hok
    exact hidle
  | noDescriptor => exact clientFailed_inv hhandling hok
  | failed => exact clientFailed_inv hhandling hok
  | success payload rest =>
    simp only at hok
    cases hentry : info.entry payload.requestId with
    | none =>
      rw [hentry] at hok
      cases hok
    | some cl =>
      rw [hentry] at hok
      simp only [callClosure] at hok
      cases hf : cl.closure with
      | none =>
        rw [hf] at hok
        cases hok
      | some f =>
        rw [hf] at hok
        cases hok
        have hs : cl.responseType.isSome = true := by
          rw [← hvalid.callable _ _ hentry, hf]
          rfl
        have hpairs := release_pairs hentry hs hf
        refine RpcClient.Online.inv (c := { c with incoming := rest, state := .connected info })
          ⟨hvalid, hfd, hdis, .inr ⟨payload.requestId, info.block, ?_, cl, hentry, hs⟩⟩ rfl rfl ?_ hsock
        · show _ :: x.stack = _
          rw [hstack]
        · show Ledger.Balanced _
            (openPairs (RpcConnected.afterwards info (.responded payload.requestId info.block :: x.stack)).closures)
          rw [hstack]
          exact Ledger.Balanced.free (x := some (f, cl.closureData)) (hledger.perm hpairs)

theorem readEvent_inv {input : RpcInput} {info : RpcConnected} (h : x.Serving c info) (hc : x.client = some c)
    (hinfo : c.state = .connected info) (hok : readEvent env input c info x = .ok x') : x'.Inv := by
  cases input with
  | error errno =>
    simp only [readEvent] at hok
    split at hok
    · cases hok
      exact h.inv hc hinfo
    · exact clientFailed_inv (h.handling hinfo) hok
  | eof => exact clientFailed_inv (h.handling hinfo) hok
  | bytes chunk =>
    refine processIncoming_inv (c := { c with incoming := c.incoming ++ chunk }) ?_ hok
    exact ⟨h.stack, h.ledger, h.sockets, h.valid, h.fd, h.dispatch⟩

theorem watchWritten_serving {info : RpcConnected} (h : x.Serving c info) : (x.watchWritten c).Serving c info := by
  obtain ⟨watch, hdis, -, -⟩ := h.dispatch
  unfold RpcRun.watchWritten
  split
  · next hout =>
    refine ⟨h.stack, h.ledger, h.sockets, h.valid, h.fd, some (.events false), ?_, by simp, fun hne => absurd hout hne⟩
    simp only [hdis]
  · exact h

theorem writeEvent_serving {write : Option RpcWrite} {info : RpcConnected} {c' : RpcClient} {failure : Option Obj}
    (h : x.Serving c info) (hc : x.client = some c) (hw : writeEvent env write c x = (c', x', failure)) :
    x'.Serving c' info ∧ x'.client = some c' ∧ c'.state = c.state := by
  have hclient : ∀ {c : RpcClient} {x : RpcRun M}, x.client = some c → (x.watchWritten c).client = some c := by
    intro c x hc
    unfold RpcRun.watchWritten
    split <;> exact hc
  unfold writeEvent at hw
  split at hw
  · cases hw
    exact ⟨h, hc, rfl⟩
  · split at hw
    · cases hw
      exact ⟨watchWritten_serving h, hclient hc, rfl⟩
    · cases hw
      exact ⟨h, hc, rfl⟩
  · next n =>
    cases hw
    refine ⟨watchWritten_serving ?_, hclient rfl, rfl⟩
    obtain ⟨watch, hdis, hne, hout⟩ := h.dispatch
    refine ⟨h.stack, h.ledger, h.sockets, h.valid, h.fd, watch, hdis, hne, fun hrest => hout fun hnil => hrest ?_⟩
    show c.outgoing.drop n = []
    rw [hnil, List.drop_nil]

theorem RpcRun.Inv.serving {info : RpcConnected} (h : x.Inv) (hstack : x.stack = []) (hc : x.client = some c)
    (hinfo : c.state = .connected info) : x.Serving c info := by
  obtain ⟨hvalid, hfd, hdis, -⟩ := h.online c info hc hinfo
  have hledger := h.ledger
  have hsock := h.sockets
  rw [List.nil_append, waiting_online hc hinfo (.inl hstack), hstack] at hledger
  rw [hc] at hsock
  exact ⟨hstack, hledger, hsock, hvalid, hfd, hdis⟩

theorem handleClientFdEvents_inv {write : Option RpcWrite} {input : Option RpcInput} (h : x.Inv)
    (hstack : x.stack = []) (hok : handleClientFdEvents env write input x = .ok x') : x'.Inv := by
  unfold handleClientFdEvents at hok
  split at hok
  · cases hok
  · next c hc =>
    split at hok
    · next info hinfo =>
      have hserving := h.serving hstack hc hinfo
      rcases hw : writeEvent env write c x with ⟨c1, x1, failure⟩
      obtain ⟨hserving, hc1, heq⟩ := writeEvent_serving hserving hc hw
      have hinfo1 := heq.trans hinfo
      simp only [hw] at hok
      cases failure with
      | some text => exact clientFailed_inv (hserving.handling hinfo1) hok
      | none =>
        cases input with
        | none =>
          cases hok
          exact hserving.inv hc1 hinfo1
        | some input => exact readEvent_inv hserving hc1 hinfo1 hok
    · cases hok

theorem closureReturned_inv {id block : Nat} {stack : List RpcActivation} (h : x.Inv)
    (hstack : x.stack = .responded id block :: stack) (hok : closureReturned env id block { x with stack } = .ok x') :
    x'.Inv := by
  have hmem : .responded id block ∈ x.stack := hstack ▸ List.mem_cons_self
  unfold closureReturned at hok
  split at hok
  · cases hok
  · next c hc =>
    have hc' : x.client = some c := hc
    split at hok
    · next info hinfo =>
      split at hok
      · cases hok
      · obtain ⟨hvalid, hfd, hdis, hst⟩ := h.online c info hc' hinfo
        rcases hst with hnil | ⟨id', block', hone, hopen⟩
        · rw [hnil] at hmem
          cases hmem
        · rw [hstack] at hone
          cases hone
          have hledger := h.ledger
          have hsock := h.sockets
          rw [List.nil_append, waiting_online hc' hinfo (.inr ⟨id, block, hstack⟩), hstack] at hledger
          rw [hc'] at hsock
          refine processIncoming_inv ?_ hok
          exact ⟨rfl, hledger, hsock, (releaseClosure_spec hvalid hopen).1, hfd, hdis⟩
    · cases hok

/-! ### Requests -/

/-- A new request is one more to wait for, also while a closure is being called. -/
theorem request_pairs {info t t' : RpcConnected} {output closure closureData block : Nat} {stack : List RpcActivation}
    (hvalid : info.Valid) (hstack : stack = [] ∨ ∃ id block, stack = [.responded id block] ∧ info.IsOpen id)
    (hok : allocateRequestId block info = .ok t) (hadd : addClosure output closure closureData t = .ok t') :
    t'.Valid ∧ (stack = [] ∨ ∃ id block, stack = [.responded id block] ∧ t'.IsOpen id) ∧
      ((closure, closureData) :: openPairs (info.afterwards stack).closures).Perm
        (openPairs (t'.afterwards stack).closures) := by
  obtain ⟨u, hadd', hvalid', -, -, -, hkeep⟩ := request_spec hvalid hok output closure closureData
  obtain rfl := Except.ok.inj (hadd.symm.trans hadd')
  obtain ⟨ht, hfirst, -, hcases⟩ := allocateRequestId_ok hvalid hok
  obtain ⟨-, -, -, hfree, -⟩ := addClosure_spec ht hfirst output closure closureData
  have hall : (openPairs t'.closures).Perm ((closure, closureData) :: openPairs info.closures) := by
    have hpairs := addClosure_pairs hfree hadd
    rcases hcases with ⟨-, rfl⟩ | ⟨-, rfl⟩
    · exact hpairs
    · rwa [grown_pairs] at hpairs
  rcases hstack with rfl | ⟨id, block', rfl, hopen⟩
  · exact ⟨hvalid', .inl rfl, hall.symm⟩
  · have hsame := hkeep id hopen
    obtain ⟨cl, hcl, hs⟩ := hopen
    have hcl' : t'.entry id = some cl := hsame.trans hcl
    refine ⟨hvalid', .inr ⟨id, block', rfl, cl, hcl', hs⟩, ?_⟩
    obtain ⟨f, hf⟩ := Option.isSome_iff_exists.mp ((hvalid.callable id cl hcl).trans hs)
    have hold := release_pairs hcl hs hf
    have hnew := release_pairs hcl' hs hf
    refine List.Perm.cons_inv (a := (f, cl.closureData)) ?_
    calc List.Perm ((f, cl.closureData) :: (closure, closureData) :: openPairs (releaseClosure id info).closures)
          ((closure, closureData) :: (f, cl.closureData) :: openPairs (releaseClosure id info).closures) :=
          List.Perm.swap ..
      List.Perm _ ((closure, closureData) :: openPairs info.closures) := hold.symm.cons _
      List.Perm _ (openPairs t'.closures) := hall.symm
      List.Perm _ ((f, cl.closureData) :: openPairs (releaseClosure id t').closures) := hnew

theorem enqueueRequest_ok {methodIndex closure closureData : Nat} {input : M} {info : RpcConnected} {c' : RpcClient}
    (hok : enqueueRequest env methodIndex input closure closureData c info x = .ok (c', x')) :
    methodIndex < env.nMethods ∧ ∃ t t', allocateRequestId x.blocks info = .ok t ∧
      addClosure (env.output methodIndex) closure closureData t = .ok t' ∧
      c' = { c with
        outgoing := c.outgoing ++ clientSerialize env.toRpcService ⟨methodIndex, t.firstFreeRequestId, some input⟩
        state := .connected t' } ∧
      x' = { x with client := some c', blocks := x.blocks + 1 } := by
  unfold enqueueRequest at hok
  split at hok
  · cases hok
  · next hlt =>
    simp only [bind, pure, Except.pure, Except.bind] at hok
    cases halloc : allocateRequestId x.blocks info with
    | error e =>
      rw [halloc] at hok
      cases hok
    | ok t =>
      rw [halloc] at hok
      simp only at hok
      cases hadd : addClosure (env.output methodIndex) closure closureData t with
      | error e =>
        rw [hadd] at hok
        cases hok
      | ok t' =>
        rw [hadd] at hok
        cases hok
        exact ⟨by omega, t, t', rfl, hadd, rfl, rfl⟩

theorem invokeClientRpc_inv {methodIndex closure closureData : Nat} {input : M} (h : x.Inv)
    (hok : invokeClientRpc env methodIndex input closure closureData x = .ok x') : x'.Inv := by
  have hmade := h.ledger.make (some (closure, closureData))
  unfold invokeClientRpc at hok
  simp only at hok
  cases hc : x.client with
  | none =>
    rw [hc] at hok
    cases hok
  | some c =>
    have hsock := h.sockets
    rw [hc] at hok hsock
    simp only at hok
    have hcall : c.state.IsOffline → callClosure ⟨none, some closure, closureData⟩ none .invoked
        { x with requests := (closure, closureData) :: x.requests, client := some c } = .ok x' → x'.Inv := by
      intro hoff hok
      have howing : RpcRun.Owing { x with requests := (closure, closureData) :: x.requests, client := some c }
          [(closure, closureData)] := by
        refine RpcClient.Offline.inv (h.offline c hc hoff) rfl hoff ?_ hsock
        rw [waiting_offline (by rw [hc]; rintro c' ⟨rfl⟩; exact hoff)] at hmade
        exact hmade
      refine howing.call .invoked ?_ trivial hok
      rintro c' ⟨rfl⟩
      exact ⟨hoff, trivial⟩
    cases hstate : c.state with
    | connected info =>
      have honline := h.online c info hc hstate
      rw [hstate] at hok
      simp only [bind] at hok
      obtain ⟨⟨c1, x1⟩, henq, hok⟩ := Except.of_bind_ok hok
      obtain ⟨-, t, t', halloc, hadd, hc1, rfl⟩ := enqueueRequest_ok henq
      have hfd1 : c1.fd = c.fd := by rw [hc1]
      have hstate1 : c1.state = .connected t' := by rw [hc1]
      have hsome : c1.fd.isSome = true := by rw [hfd1, honline.fd]
      have hsock1 : x.sockets.Balanced c1.fd.toList := by rw [hfd1]; exact hsock
      obtain ⟨hvalid', hst, hperm⟩ := request_pairs honline.valid honline.stack halloc hadd
      obtain ⟨watch, hdis, hne, hout⟩ := honline.dispatch
      have hwait := waiting_online hc hstate (honline.stack.imp_right fun ⟨id, block, hstack, _⟩ => ⟨id, block, hstack⟩)
      rw [List.nil_append, hwait] at hmade
      have hledger := hmade.perm hperm
      simp only at hok
      split at hok
      · next hhad =>
        cases hok
        exact RpcClient.Online.inv ⟨hvalid', hsome, ⟨watch, hdis, hne, fun _ => hout hhad⟩, hst⟩ rfl hstate1 hledger hsock1
      · split at hok
        · cases hok
        · cases hok
          refine RpcClient.Online.inv (c := c1) ⟨hvalid', hsome, ⟨some (.events (c1.outgoing ≠ [])), ?_, by simp,
            fun hne' => ?_⟩, hst⟩ rfl hstate1 hledger hsock1
          · simp only [hdis]
          · simp [hne']
    | init | connecting =>
      rw [hstate] at hok
      cases hok
    | nameLookup pending b =>
      rw [hstate] at hok
      cases hok
    | failedWaiting msg | failed msg | destroyed =>
      rw [hstate] at hok
      refine hcall ?_ hok
      rw [hstate]
      intro info hinfo
      cases hinfo

/-! ### Runs -/

/-- A function that has called a closure and is not answering it goes on. -/
theorem RpcRun.Inv.pop {act : RpcActivation} {stack : List RpcActivation} (h : x.Inv) (hstack : x.stack = act :: stack)
    (hact : ∀ id block, act ≠ .responded id block) :
    (∀ c, x.client = some c → c.state.IsOffline ∧ act.MayRun c.state) ∧ RpcRun.Owing { x with stack } act.held := by
  have hoff : ∀ c, x.client = some c → c.state.IsOffline ∧ act.MayRun c.state := by
    intro c hc
    have hoff : c.state.IsOffline := by
      intro info hinfo
      rcases (h.online c info hc hinfo).stack with hnil | ⟨id, block, hone, -⟩
      · rw [hnil] at hstack
        cases hstack
      · rw [hone] at hstack
        cases hstack
        exact hact id block rfl
    exact ⟨hoff, (h.offline c hc hoff).stack act (hstack ▸ List.mem_cons_self)⟩
  refine ⟨hoff, ?_, h.sockets, fun c hc hc' => ?_, fun c info hc hinfo => absurd hinfo ((hoff c hc).1 info), fun hnone => ?_⟩
  · have hledger := h.ledger
    rw [List.nil_append, waiting_offline fun c hc => (hoff c hc).1, hstack] at hledger
    rw [waiting_offline (x := { x with stack }) fun c hc => (hoff c hc).1]
    exact hledger
  · obtain ⟨hdis, hpend, hout, hfd, hst⟩ := h.offline c hc hc'
    rw [hstack] at hst
    exact ⟨hdis, hpend, hout, hfd, fun act hact => hst act (List.mem_cons_of_mem _ hact)⟩
  · obtain ⟨hdis, hst⟩ := h.freed hnone
    rw [hstack] at hst
    exact ⟨hdis, fun act hact => hst act (List.mem_cons_of_mem _ hact)⟩

/-- The client is not destroyed by a closure that is called with a response. -/
def RpcLabel.KeepsClient (x : RpcRun M) : RpcLabel M → Prop
  | .destroy => ∀ id block, .responded id block ∉ x.stack
  | _ => True

theorem RpcRun.Inv.step {l : RpcLabel M} (h : x.Inv) (hguard : l.KeepsClient x) (hstep : RpcLabel.Step env x l x') :
    x'.Inv := by
  obtain ⟨henabled, hok⟩ := hstep
  cases l with
  | idle conn => exact handleInitIdle_inv h henabled.1 hok
  | timer conn => exact handleAutoreconnectTimeout_inv h henabled.1 hok
  | resolved lookup => exact handleNameLookup_inv h henabled.1 hok
  | connectEvent fdErrno => exact handleClientFdConnectEvents_inv h henabled.1 henabled.2 hok
  | fdEvents write input => exact handleClientFdEvents_inv h henabled.1 hok
  | invoke methodIndex input closure closureData => exact invokeClientRpc_inv h hok
  | destroy => exact destroyClientRpc_inv h hguard hok
  | ret =>
    simp only [RpcLabel.exec] at hok
    cases hstack : x.stack with
    | nil => exact absurd hstack henabled
    | cons act stack =>
      rw [hstack] at hok
      cases act with
      | invoked =>
        cases hok
        exact (h.pop hstack (by simp)).2
      | responded id block => exact closureReturned_inv h hstack hok
      | failing closures again =>
        obtain ⟨hoff, howing⟩ := h.pop hstack (by simp)
        exact failClosures_inv howing (fun c hc => (hoff c hc).1) hok
      | destroying closures =>
        obtain ⟨hoff, howing⟩ := h.pop hstack (by simp)
        exact destroyClosures_inv howing (fun c hc => (hoff c hc).2) hok

theorem rpcClientNew_inv (addressType : RpcAddressType) (name : Obj) (autoreconnect : Bool) :
    (rpcClientNew addressType name autoreconnect : RpcRun M).Inv := by
  refine RpcClient.Offline.inv ⟨rfl, by simp, rfl, by simp, by simp [rpcClientNew]⟩ rfl ?_ Ledger.balanced_empty
    Ledger.balanced_empty
  intro info hinfo
  cases hinfo

end invariant

/-- One method, and messages of no bytes. -/
def echoEnv : RpcEnv Unit where
  nMethods := 1
  input _ := 0
  output _ := 0
  check _ := true
  pack _ := []
  unpack _ _ := some ()
  strerror _ := []

end Funra
