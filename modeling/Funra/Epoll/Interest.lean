import Funra.Epoll.Discipline

/-!
# What epoll is asked for

Epoll should have, for every registered descriptor, the pointer to the item of its socket and the mask of that
item's `event_val_req` (`Mirrors`). Every operation on a socket keeps this (`Mirrored`), so every call of the
client does that returns, but one: when the connection stands, `ripc_start_c` registers the slot of `dest_items`
it has the result in, and not the item of the socket (`ClientCall.mirrored`, `start_registers_slot`).
-/

namespace Funra

open Mem Except System

namespace EpollHeap

/-- The kernel has the owner's item and its mask. -/
def Mirrors (h : EpollHeap) : Prop :=
  ∀ fd reg, h.repoll.kernel fd = some reg → ∃ a sock item, h.sockets a = some sock ∧ sock.fd = fd ∧
    reg.ptr = .owned sock.userData ∧ h.repoll.items sock.userData = some item ∧
      reg.events = repollGetEventReq item.eventValReq

structure Mirrored (h : EpollHeap) : Prop where
  sound : Sound h
  mirror : Mirror h

variable {h h' : EpollHeap} {a b ds : Nat} {fd ctl : Int}

theorem Mirrored.mirrors (hm : Mirrored h) : Mirrors h := by
  intro fd reg hreg
  obtain ⟨b, item, hptr, hitem, hmask⟩ := hm.mirror fd reg hreg
  obtain ⟨-, hat⟩ := hm.sound.registered hreg
  rw [hptr] at hat
  obtain ⟨a, ds, hat⟩ := hat
  exact ⟨a, ⟨fd, b⟩, item, hat.socket, rfl, hptr, hitem, hmask⟩

/-! ### The operations -/

/-- A socket that can be dereferenced has an item. -/
theorem Sound.attached_of_deref (hinv : Sound h) {sock : Rsocket} (hderef : h.deref a = .ok sock) :
    ∃ ds, Attached h a sock.fd sock.userData ds := by
  rw [deref] at hderef
  cases hs : h.sockets a with
  | none =>
    rw [hs] at hderef
    cases hderef
  | some s =>
    rw [hs] at hderef
    cases hderef
    exact hinv.attached hs

theorem Mirrored.dropSocket (hm : Mirrored h) (a : Nat) (ctl : Int) :
    (h.dropSocket ctl a).Returns fun h' => Mirrored h' ∧
      h'.repoll.destItems.length = h.repoll.destItems.length := by
  intro h' hrun
  have hrun' := hrun
  rw [EpollHeap.dropSocket] at hrun'
  obtain ⟨sock, hderef, -⟩ := Except.of_bind_ok hrun'
  obtain ⟨ds, hat⟩ := hm.sound.attached_of_deref hderef
  rw [dropSocket_ok hm.sound hat] at hrun
  cases hrun
  exact ⟨⟨hm.sound.drop hat, hm.mirror.drop hm.sound hat⟩, length_drop h⟩

theorem Mirrored.changeInterest (hm : Mirrored h) (a : Nat) (change : Events → Events) :
    (h.changeInterest change 0 a).Returns fun r => Mirrored r.2 := by
  intro r hrun
  have hrun' := hrun
  rw [EpollHeap.changeInterest] at hrun'
  obtain ⟨sock, hderef, -⟩ := Except.of_bind_ok hrun'
  obtain ⟨ds, hat⟩ := hm.sound.attached_of_deref hderef
  obtain ⟨item, hitem, -⟩ := hat.item
  rw [changeInterest_rearm hat hitem] at hrun
  cases hrun
  exact ⟨hm.sound.rearm hat hitem rfl rfl, hm.mirror.rearm hm.sound hitem rfl⟩

theorem Mirrored.polled (hm : Mirrored h) {n : Nat} {items : List RepollItem}
    (hlen : items.length = h.repoll.destItems.length) : Mirrored (h.polled n items) :=
  ⟨hm.sound.polled hlen, hm.mirror⟩

theorem Mirrored.attach (hm : Mirrored h) (hroom : h.Room a fd b) (req : Events) (ds : Nat) :
    Mirrored (h.attach a fd b req ds) :=
  ⟨hm.sound.attach hroom, hm.mirror.attach hroom⟩

theorem Mirrored.openStream (hm : Mirrored h) {env : OpenEnv} (hfits : h.OpenFits env) (listen : Int)
    (options : List Int) (ds : Nat) :
    (h.openStream listen options env ds).Returns fun r => Mirrored r.2.2 := by
  refine Returns.mono (openStream_returns hm.sound hfits) ?_
  rintro ⟨code, stream, h'⟩ (⟨-, heq⟩ | ⟨-, a, fd, b, hroom, -, heq⟩)
  · dsimp only at heq ⊢
    rw [heq]
    exact hm
  · dsimp only at heq ⊢
    rw [heq]
    exact hm.attach hroom _ ds

end EpollHeap

/-! ### The calls of the client -/

namespace EpollClient

variable {s : EpollClient}

theorem changeInterest_mirrored (hm : s.heap.Mirrored) (change : Events → Events) :
    (s.changeInterest change 0).Returns fun r => r.2.heap.Mirrored := by
  rw [EpollClient.changeInterest]
  split
  · exact .error
  · exact Returns.map ((hm.changeInterest _ change).mono fun _ hr => hr)

/-- A call that has closed the session, or found it closed. -/
def ClosedBy (s s' : EpollClient) : Prop :=
  s'.heap.Mirrored ∧ s'.state = .closed ∧ s'.heap.repoll.destItems.length = s.heap.repoll.destItems.length

theorem close_mirrored (hm : s.heap.Mirrored) (ctl : Int) : (ripcCloseC ctl s).Returns fun r => s.ClosedBy r.2 := by
  rw [ripcCloseC]
  split
  · rename_i hstate
    exact .ok ⟨hm, hstate, rfl⟩
  refine Returns.bind_of_forall fun mem₁ => Returns.bind_of_forall fun mem₂ => ?_
  refine Returns.bind (P := fun s' => s'.heap.Mirrored ∧
    s'.heap.repoll.destItems.length = s.heap.repoll.destItems.length) ?_ fun s₃ h₃ => .ok ⟨h₃.1, rfl, h₃.2⟩
  rw [EpollClient.dropStream]
  split
  · exact .ok ⟨hm, rfl⟩
  · exact Returns.map (hm.dropSocket _ ctl)

theorem onError_mirrored (hm : s.heap.Mirrored) (env : ErrorEnv) :
    (ripcOnErrorC env s).Returns fun r => s.ClosedBy r.2 :=
  Returns.map (close_mirrored hm env.ctl)

theorem sendData_mirrored (hm : s.heap.Mirrored) (io : ClientIo) (hmodify : io.modify = 0) :
    (ripcSendDataC io s).Returns fun r => r.2.heap.Mirrored := by
  rw [ripcSendDataC]
  refine Returns.bind_of_forall fun d => ?_
  refine Returns.bind_of_forall fun _ => ?_
  split
  · exact Returns.bind (onError_mirrored hm io.error) fun r hr => .ok hr.1
  · refine Returns.bind_of_forall fun mem => ?_
    split
    · rw [hmodify]
      exact changeInterest_mirrored (s := { s with buffers := mem }) hm _
    · exact .ok hm

theorem receiveData_mirrored (hm : s.heap.Mirrored) (io : ClientIo) :
    (ripcReceiveDataC io s).Returns fun r => r.2.heap.Mirrored := by
  rw [ripcReceiveDataC]
  split
  · exact .ok hm
  refine Returns.bind_of_forall fun d => ?_
  refine Returns.bind_of_forall fun _ => ?_
  split
  · exact Returns.bind (onError_mirrored hm io.error) fun r hr => .ok hr.1
  split
  · exact Returns.bind_of_forall fun r => .ok hm
  · exact .ok hm

theorem whenStarted_mirrored (hm : s.heap.Mirrored) (ready : Bool)
    {call : EpollClient → Except Fault (Int × EpollClient)}
    (hcall : (call s).Returns fun r => r.2.heap.Mirrored) :
    (s.whenStarted ready call).Returns fun s' => s'.heap.Mirrored := by
  rw [EpollClient.whenStarted]
  split
  · exact Returns.map hcall
  · exact .ok hm

theorem checkItem_mirrored (io : Nat → ClientIo) (hmodify : ∀ i, (io i).modify = 0) (i : Nat)
    (hm : s.heap.Mirrored) : (checkItemC io i s).Returns fun r => r.2.heap.Mirrored := by
  rw [checkItemC]
  refine Returns.bind_of_forall fun item => ?_
  split
  · exact .ok hm
  split
  · exact Returns.bind (onError_mirrored hm (io i).error) fun r hr => .ok hr.1
  · refine Returns.bind (whenStarted_mirrored hm _ (sendData_mirrored hm (io i) (hmodify i))) fun s₁ h₁ => ?_
    exact Returns.bind (whenStarted_mirrored h₁ _ (receiveData_mirrored h₁ (io i))) fun s₂ h₂ => .ok h₂

theorem check_mirrored (hm : s.heap.Mirrored) (env : CheckEnv) (hfits : s.heap.WaitFits env.wait)
    (hmodify : ∀ i, (env.io i).modify = 0) : (ripcCheckDataC env s).Returns fun r => r.2.heap.Mirrored := by
  obtain ⟨code, items, hpoll, -, hres⟩ := EpollHeap.poll_ok hm.sound hfits
  have hm' := hm.polled (n := (s.heap.reports env.wait).length) hres.length
  simp only [ripcCheckDataC, hpoll, bind, Except.bind]
  split
  · exact .ok hm'
  · apply Returns.map
    exact Returns.forUntil_inv (J := fun s' : EpollClient => s'.heap.Mirrored)
      (fun i s' hs' => checkItem_mirrored env.io hmodify i hs') hm'

theorem send_mirrored (hm : s.heap.Mirrored) (env : SendEnv) (hmodify : env.modify = 0) :
    (ripcSendData2bufferC env s).Returns fun r => r.2.heap.Mirrored := by
  rw [ripcSendData2bufferC]
  split
  · exact .ok hm
  refine Returns.bind_of_forall ?_
  rintro ⟨code, mem⟩
  dsimp only
  split
  · exact .ok hm
  refine Returns.bind_of_forall fun d => ?_
  split
  · rw [hmodify]
    exact changeInterest_mirrored (s := { s with buffers := mem }) hm _
  · exact .ok hm

theorem uninit_mirrored (hm : s.heap.Mirrored) (ctl : Int) :
    (ripcUninitC ctl s).Returns fun r => r.2.heap.Mirrored := by
  rw [ripcUninitC]
  split
  · exact .ok hm
  split
  · exact .ok hm
  · refine Returns.bind (close_mirrored hm ctl) ?_
    rintro ⟨code, s₁⟩ h₁
    dsimp only at h₁ ⊢
    split
    · exact .ok h₁.1
    · exact .ok h₁.1

theorem open_mirrored (hm : s.heap.Mirrored) (nodelay : Int) {env : OpenEnv} (hfits : s.heap.OpenFits env) :
    (ripcOpenC nodelay env s).Returns fun r => r.2.heap.Mirrored := by
  apply Returns.map
  refine Returns.mono (hm.openStream hfits 0 [nodelay] dsClient) ?_
  rintro ⟨code, stream, heap⟩ hr
  cases stream with
  | none => exact hr
  | some a => exact hr

/-! ### Starting -/

/-- The descriptor of the stream is reported writable and without an error. -/
def Writable (s : EpollClient) : WaitResult → Prop
  | .error _ => False
  | .ready batch => ∃ a sock p, s.stream = some a ∧ s.heap.sockets a = some sock ∧ p ∈ batch ∧ p.1 = sock.fd ∧
      s.heap.repoll.kernel p.1 ≠ none ∧ hasEvent p.2 EPOLLERR = false ∧ hasEvent p.2 EPOLLOUT = true

theorem rsock_some {sock : Rsocket} (h : s.rsock = .ok sock) :
    ∃ a, s.stream = some a ∧ s.heap.sockets a = some sock := by
  unfold EpollClient.rsock at h
  split at h
  · cases h
  · rename_i a hstream
    refine ⟨a, hstream, ?_⟩
    unfold EpollHeap.deref at h
    split at h
    · cases h
    · rename_i hsocket
      cases h
      exact hsocket

/-- A result that does not start the session: it is passed over, or the session is closed. -/
theorem startItem_mirrored (hm : s.heap.Mirrored) (env : StartEnv) (i : Nat)
    (hno : s.state = .readyPending → ∀ item sock, s.heap.repoll.deref (.slot i) = .ok item → s.rsock = .ok sock →
      item.fd = sock.fd → repollCheckEventErr item.eventValRsp = false →
      repollCheckEventOut item.eventValRsp = false) :
    (startItem env i s).Returns fun r => r.1 = none ∧ (r.2 = s ∨ s.ClosedBy r.2) := by
  rw [startItem]
  refine Returns.bind (P := fun item => s.heap.repoll.deref (.slot i) = .ok item) (fun _ heq => heq) ?_
  intro item hitem
  refine Returns.bind (P := fun sock => s.rsock = .ok sock) (fun _ heq => heq) ?_
  intro sock hsock
  split
  · exact .ok ⟨rfl, .inl rfl⟩
  rename_i hfd
  split
  · exact Returns.bind (onError_mirrored hm env.error) fun r hr => .ok ⟨rfl, .inr hr⟩
  rename_i herr
  rw [Bool.not_eq_true] at herr
  split
  · rename_i hready
    have hout := hno hready.2 item sock hitem hsock (not_not.mp hfd) herr
    cases hout.symm.trans hready.1
  · exact .ok ⟨rfl, .inl rfl⟩

/-- The results of a poll that does not report the stream writable. -/
theorem not_writable (hm : s.heap.Mirrored) {wait : WaitResult} (hno : ¬ s.Writable wait)
    {items : List RepollItem} (hres : s.heap.Results wait items) {i : Nat}
    (hi : i < (s.heap.reports wait).length) {item : RepollItem} {sock : Rsocket}
    (hget : items[i]? = some item) (hsock : s.rsock = .ok sock) (hfd : item.fd = sock.fd)
    (herr : repollCheckEventErr item.eventValRsp = false) : repollCheckEventOut item.eventValRsp = false := by
  obtain ⟨batch, p, a, b, ds, own, rfl, hp, hkernel, hat, hown, rfl⟩ :=
    hres.own hm.sound hm.mirror.owned hi hget
  obtain ⟨a', hstream, hsocket⟩ := rsock_some hsock
  rw [repollCheckEventErr_rsp] at herr
  rw [repollCheckEventOut_rsp]
  by_contra hout
  rw [Bool.not_eq_false] at hout
  exact hno ⟨a', sock, p, hstream, hsocket, hp, (hat.item_fd hown).1.symm.trans hfd, hkernel, herr, hout⟩

/-- The contexts that a start is in while it has not started the session. -/
def NotStarted (s s' : EpollClient) : Prop :=
  (∃ n items, items.length = s.heap.repoll.destItems.length ∧ s' = s.polled n items) ∨
    s'.heap.Mirrored ∧ s'.state ≠ .readyPending ∧
      s'.heap.repoll.destItems.length = s.heap.repoll.destItems.length

variable {s' : EpollClient}

theorem NotStarted.mirrored (h : s.NotStarted s') (hm : s.heap.Mirrored) : s'.heap.Mirrored := by
  rcases h with ⟨n, items, hlen, rfl⟩ | ⟨hm', -⟩
  · exact hm.polled hlen
  · exact hm'

theorem NotStarted.length (h : s.NotStarted s') :
    s'.heap.repoll.destItems.length = s.heap.repoll.destItems.length := by
  rcases h with ⟨n, items, hlen, rfl⟩ | ⟨-, -, hlen⟩
  · exact hlen
  · exact hlen

theorem ClosedBy.notStarted (h : s'.ClosedBy s'') (hlen : s'.heap.repoll.destItems.length =
    s.heap.repoll.destItems.length) : s.NotStarted s'' := by
  refine .inr ⟨h.1, ?_, h.2.2.trans hlen⟩
  rw [h.2.1]
  decide

/-- One poll of a start that does not start the session. -/
theorem startRound_mirrored (hm : s.heap.Mirrored) (h : s.NotStarted s') (env : StartEnv) {wait : WaitResult}
    (hfits : s.heap.WaitFits wait) (hno : ¬ (s.state = .readyPending ∧ s.Writable wait)) :
    (startRound env wait s').Returns fun r => s.NotStarted r.2 := by
  have hm' := h.mirrored hm
  have hfits' : s'.heap.WaitFits wait := by
    cases wait with
    | error errno => trivial
    | ready batch => exact hfits.trans_eq h.length.symm
  obtain ⟨code, items, hpoll, -, hres⟩ := EpollHeap.poll_ok hm'.sound hfits'
  obtain ⟨n, hn⟩ : ∃ n, n = (s'.heap.reports wait).length := ⟨_, rfl⟩
  have hlen' := hres.length.trans h.length
  have hpolled : s.NotStarted (s'.polled n items) := by
    rcases h with ⟨n', items', -, rfl⟩ | ⟨-, hstate, -⟩
    · exact .inl ⟨n, items, hlen', rfl⟩
    · exact .inr ⟨hm'.polled hres.length, hstate, hlen'⟩
  have hno' : s'.state = .readyPending → ¬ s'.Writable wait := by
    intro hstate hw
    rcases h with ⟨n', items', -, rfl⟩ | ⟨-, hne, -⟩
    · cases wait with
      | error errno => exact hw
      | ready batch => exact hno ⟨hstate, hw⟩
    · exact hne hstate
  simp only [startRound, hpoll, bind, Except.bind]
  rw [← hn]
  split
  · exact .ok hpolled
  refine Returns.forUntil (I := fun rest s₁ => (s₁ = s'.polled n items ∧ ∀ i ∈ rest, i < n) ∨
    s.NotStarted s₁ ∧ s₁.state ≠ .readyPending) (Q := fun r => s.NotStarted r.2) ?_ ?_
    (.inl ⟨rfl, fun i hi => List.mem_range.mp hi⟩)
  · rintro i rest s₁ (⟨rfl, hi⟩ | ⟨hs₁, hstate⟩)
    · have hlt := hi i List.mem_cons_self
      refine (startItem_mirrored (s := s'.polled n items) (hm'.polled hres.length) env i ?_).mono ?_
      · intro hstate item sock hderef hsock hfd herr
        obtain ⟨item', hget, hderef'⟩ := deref_slot (s'.polled n items).heap.repoll
          (hlt.trans_le (hn ▸ hres.fits))
        obtain rfl : item = item' := Except.ok.inj (hderef.symm.trans hderef')
        exact not_writable hm' (hno' hstate) hres (hn ▸ hlt) hget hsock hfd herr
      · rintro r ⟨hnone, hr⟩
        refine ⟨fun _ => ?_, fun hne => absurd hnone hne⟩
        rcases hr with heq | hclosed
        · exact .inl ⟨heq, fun j hj => hi j (List.mem_cons_of_mem i hj)⟩
        · refine .inr ⟨hclosed.notStarted hlen', ?_⟩
          rw [hclosed.2.1]
          decide
    · refine (startItem_mirrored (hs₁.mirrored hm) env i fun hready => absurd hready hstate).mono ?_
      rintro r ⟨hnone, hr⟩
      refine ⟨fun _ => .inr ?_, fun hne => absurd hnone hne⟩
      rcases hr with heq | hclosed
      · rw [heq]
        exact ⟨hs₁, hstate⟩
      · refine ⟨hclosed.notStarted hs₁.length, ?_⟩
        rw [hclosed.2.1]
        decide
  · rintro s₁ (⟨rfl, -⟩ | ⟨hs₁, -⟩)
    · exact hpolled
    · exact hs₁

/-- A start that is not told that the stream is writable. -/
theorem start_mirrored (hm : s.heap.Mirrored) (env : StartEnv) (hfits : ∀ wait ∈ env.polls, s.heap.WaitFits wait)
    (hno : ∀ wait ∈ env.polls, ¬ (s.state = .readyPending ∧ s.Writable wait)) :
    (ripcStartC env s).Returns fun r => r.2.heap.Mirrored := by
  rw [ripcStartC]
  split
  · exact .ok hm
  have hloop : (forUntil (startRound env) env.polls s).Returns fun r => s.NotStarted r.2 := by
    refine Returns.forUntil (I := fun rest s₁ => s.NotStarted s₁ ∧
      ∀ wait ∈ rest, s.heap.WaitFits wait ∧ ¬ (s.state = .readyPending ∧ s.Writable wait)) ?_ ?_
      ⟨.inl ⟨_, _, rfl, rfl⟩, fun wait hw => ⟨hfits wait hw, hno wait hw⟩⟩
    · rintro wait rest s₁ ⟨hs₁, hwait⟩
      obtain ⟨hfit, hw⟩ := hwait wait List.mem_cons_self
      refine (startRound_mirrored hm hs₁ env hfit hw).mono fun r hr => ⟨fun _ => ⟨hr, ?_⟩, fun _ => hr⟩
      exact fun w hmem => hwait w (List.mem_cons_of_mem wait hmem)
    · exact fun s₁ hs₁ => hs₁.1
  refine Returns.bind hloop ?_
  rintro ⟨_ | code, s₁⟩ hs₁
  · exact Returns.bind_of_forall fun _ => .ok (hs₁.mirrored hm)
  · exact .ok (hs₁.mirrored hm)

end EpollClient

open EpollClient

/-! ### Runs of the client -/

/-- `repoll_modify` succeeds. -/
def ClientCall.Modifies : ClientCall → Prop
  | .startC env => env.modify = 0
  | .sendC env => env.modify = 0
  | .checkC env => ∀ i, (env.io i).modify = 0
  | _ => True

/-- A start that is told that the connection stands. -/
def ClientCall.Connects (s : EpollClient) : ClientCall → Prop
  | .startC env => s.state = .readyPending ∧ ∃ wait ∈ env.polls, s.Writable wait
  | _ => False

theorem ClientCall.mirrored {s : EpollClient} (hm : s.heap.Mirrored) {call : ClientCall} (hfits : call.Fits s)
    (hmodify : call.Modifies) (hno : ¬ call.Connects s) : (call.run s).Returns fun r => r.2.heap.Mirrored := by
  cases call with
  | initC => exact .ok hm
  | uninitC ctl => exact uninit_mirrored hm ctl
  | openC nodelay env => exact open_mirrored hm nodelay hfits
  | closeC ctl => exact (close_mirrored hm ctl).mono fun _ hr => hr.1
  | startC env =>
    exact start_mirrored hm env hfits.1 fun wait hw hc => hno ⟨hc.1, wait, hw, hc.2⟩
  | stopC => exact .ok hm
  | sendC env => exact send_mirrored hm env hmodify
  | checkC env => exact check_mirrored hm env hfits hmodify
  | receiveC io => exact receiveData_mirrored hm io
  | errorC env => exact (onError_mirrored hm env).mono fun _ hr => hr.1

theorem EpollClient.Fresh.mirrored {s : EpollClient} (h : s.Fresh) : s.heap.Mirrored := by
  refine ⟨h.inv.sound, fun fd reg hreg => ?_⟩
  cases (h.kernel fd).symm.trans hreg

/-- `ripc_start_c` registers slot 0. -/
theorem start_registers_slot : ∃ s', Steps (fun s call s' => ClientCall.Step s call s') freshClient
    [.initC, .openC 0 openFive, .startC startFive] s' ∧ ¬ s'.heap.Mirrors := by
  refine ⟨_, .cons ⟨trivial, 0, rfl⟩ (.cons ⟨openFive_fits rfl rfl rfl, 0, rfl⟩
    (.cons ⟨startFive_fits rfl rfl rfl, 0, rfl⟩ (.nil _))), fun hmirrors => ?_⟩
  obtain ⟨a, sock, item, -, -, hptr, -⟩ := hmirrors 5 _ rfl
  cases hptr

end Funra
