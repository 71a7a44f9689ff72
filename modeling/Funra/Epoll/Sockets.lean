import Funra.Epoll.Send

/-!
# Sockets, descriptors and the container

The part of the state that both epoll endpoints work on: the `rsocket_t` objects, the open descriptors and
the container. Between calls every socket has a descriptor and a registered item (`Sound`); a call that
opens a socket works on one that has none yet (`pending`) and either attaches it or leaves no trace of it
(`discardSocket_pending`). `Mirror` says that epoll has the pointer to the owner's item and the mask of its
`event_val_req`.
-/

namespace Funra

open Mem

def SOCKET_INVALID : Int := -1

structure EpollHeap where
  sockets : Nat → Option Rsocket
  openFds : Int → Bool
  repoll : Repoll

/-- Where an updated memory has an object. -/
theorem update_some {κ ν : Type*} [DecidableEq κ] {f : κ → Option ν} {k k' : κ} {v : Option ν} {w : ν}
    (h : Function.update f k v k' = some w) : k' = k ∧ v = some w ∨ k' ≠ k ∧ f k' = some w := by
  by_cases hk : k' = k
  · subst hk
    rw [Function.update_self] at h
    exact .inl ⟨rfl, h⟩
  · rw [Function.update_of_ne hk] at h
    exact .inr ⟨hk, h⟩

namespace EpollHeap

/-! ### The operations -/

def deref (h : EpollHeap) (a : Nat) : Except Fault Rsocket :=
  match h.sockets a with
  | none => .error .useAfterFree
  | some sock => .ok sock

/-- `rdata_new(rsocket_t)` at the fresh address `a`, with an invalid descriptor. -/
def newSocket (h : EpollHeap) (a : Nat) : EpollHeap :=
  { h with sockets := Function.update h.sockets a (some ⟨SOCKET_INVALID, 0⟩) }

/-- `fd` is what `socket` or `accept` returns. -/
def openSocket (h : EpollHeap) (a : Nat) (fd : Int) : Except Fault EpollHeap := do
  let sock ← h.deref a
  return { h with
    sockets := Function.update h.sockets a (some { sock with fd })
    openFds := if fd = SOCKET_INVALID then h.openFds else Function.update h.openFds fd true }

/-- `close` also takes the descriptor out of epoll. -/
def rsocketClose (h : EpollHeap) (a : Nat) : Except Fault EpollHeap := do
  let sock ← h.deref a
  if sock.fd = SOCKET_INVALID then return h
  return {
    sockets := Function.update h.sockets a (some { sock with fd := SOCKET_INVALID })
    openFds := Function.update h.openFds sock.fd false
    repoll := h.repoll.closeFd sock.fd }

def rsocketDestroy (h : EpollHeap) (a : Nat) : Except Fault EpollHeap := do
  let _ ← h.deref a
  return { h with sockets := Function.update h.sockets a none }

/-- The exit of a failed open or accept. -/
def discardSocket (h : EpollHeap) (a : Nat) : Except Fault EpollHeap := do
  let h ← h.rsocketClose a
  h.rsocketDestroy a

/-- A new item at `b` for the socket at `a`, and `repoll_add`. -/
def addItem (ctl : Int) (h : EpollHeap) (a b : Nat) (req : Events) (ds : Nat) :
    Except Fault (Int × EpollHeap) := do
  let sock ← h.deref a
  let (code, repoll) ← repollAdd ctl (h.repoll.newItem b ⟨sock.fd, req, 0, ds⟩) (.owned b)
  return (code, { h with repoll })

/-- `userdata.data = repoll_item`. -/
def bindItem (h : EpollHeap) (a b : Nat) : Except Fault EpollHeap := do
  let sock ← h.deref a
  return { h with sockets := Function.update h.sockets a (some { sock with userData := b }) }

def changeInterest (change : Events → Events) (ctl : Int) (h : EpollHeap) (a : Nat) :
    Except Fault (Int × EpollHeap) := do
  let sock ← h.deref a
  let (code, repoll) ← h.repoll.changeInterest change ctl sock.userData
  return (code, { h with repoll })

/-- The end of the close functions: out of epoll, then the item, the descriptor and the socket. -/
def dropSocket (ctl : Int) (h : EpollHeap) (a : Nat) : Except Fault EpollHeap := do
  let sock ← h.deref a
  let (_, repoll) ← repollRemove ctl h.repoll (.owned sock.userData)
  let repoll ← repoll.freeItem sock.userData
  discardSocket { h with repoll } a

def poll (wait : WaitResult) (h : EpollHeap) : Except Fault (Int × EpollHeap) :=
  (repollPoll wait h.repoll).map fun (code, repoll) => (code, { h with repoll })

/-! ### What the operations leave behind -/

/-- A socket that has been created and has got a descriptor at most. -/
def pending (h : EpollHeap) (a : Nat) (fd : Int) : EpollHeap :=
  { h with
    sockets := Function.update h.sockets a (some ⟨fd, 0⟩)
    openFds := if fd = SOCKET_INVALID then h.openFds else Function.update h.openFds fd true }

/-- A socket with its descriptor, its item and its registration. -/
def attach (h : EpollHeap) (a : Nat) (fd : Int) (b : Nat) (req : Events) (ds : Nat) : EpollHeap where
  sockets := Function.update h.sockets a (some ⟨fd, b⟩)
  openFds := Function.update h.openFds fd true
  repoll := (h.repoll.newItem b ⟨fd, req, 0, ds⟩).rearm b ⟨fd, req, 0, ds⟩

/-- The socket at `a` is gone, and what it had. -/
def drop (h : EpollHeap) (ctl : Int) (a : Nat) (fd : Int) (b : Nat) : EpollHeap where
  sockets := Function.update h.sockets a none
  openFds := Function.update h.openFds fd false
  repoll := { h.repoll with
    items := Function.update h.repoll.items b none
    kernel := Function.update h.repoll.kernel fd none
    destItems := if ctl < 0 then h.repoll.destItems
      else clearFirst fd h.repoll.fdDestCount h.repoll.destItems }

/-- The item at `b` is `item` now, and registered. -/
def rearm (h : EpollHeap) (b : Nat) (item : RepollItem) : EpollHeap :=
  { h with repoll := h.repoll.rearm b item }

/-! ### The invariant -/

/-- The socket at `a` has the descriptor `fd` and the item at `b`, which belongs to `ds`. -/
structure Attached (h : EpollHeap) (a : Nat) (fd : Int) (b ds : Nat) : Prop where
  socket : h.sockets a = some ⟨fd, b⟩
  item : ∃ item, h.repoll.items b = some item ∧ item.fd = fd ∧ item.ds = ds

/-- The pointer registered for `fd`: the item of the socket that has it, or a slot of `dest_items`. -/
def Registered (h : EpollHeap) (fd : Int) : ItemPtr → Prop
  | .owned b => ∃ a ds, Attached h a fd b ds
  | .slot i => i < h.repoll.destItems.length

structure Sound (h : EpollHeap) : Prop where
  attached : ∀ {a : Nat} {s : Rsocket}, h.sockets a = some s → ∃ ds, Attached h a s.fd s.userData ds
  unique : ∀ {a a' : Nat} {s s' : Rsocket}, h.sockets a = some s → h.sockets a' = some s' →
    s.fd = s'.fd → a = a'
  opened : ∀ {a : Nat} {s : Rsocket}, h.sockets a = some s → s.fd ≠ SOCKET_INVALID ∧ h.openFds s.fd = true
  registered : ∀ {fd : Int} {reg : Registration}, h.repoll.kernel fd = some reg →
    h.openFds fd = true ∧ Registered h fd reg.ptr

/-- Every registration is that of the owner's item: its address and its mask. -/
def Mirror (h : EpollHeap) : Prop :=
  ∀ fd reg, h.repoll.kernel fd = some reg → ∃ b item, reg.ptr = .owned b ∧
    h.repoll.items b = some item ∧ reg.events = repollGetEventReq item.eventValReq

/-- Every registration has the pointer to an item, not to a slot. -/
def Owned (h : EpollHeap) : Prop :=
  ∀ fd reg, h.repoll.kernel fd = some reg → ∃ b, reg.ptr = .owned b

variable {h h' : EpollHeap} {a a' b b' ds ds' : Nat} {fd fd' ctl : Int} {sock : Rsocket} {req : Events}

theorem Mirror.owned (hm : Mirror h) : Owned h := by
  intro fd reg hreg
  obtain ⟨b, -, hptr, -⟩ := hm fd reg hreg
  exact ⟨b, hptr⟩

theorem deref_eq (hs : h.sockets a = some sock) : h.deref a = .ok sock := by rw [deref, hs]

theorem Attached.valid (hinv : Sound h) (hat : Attached h a fd b ds) : fd ≠ SOCKET_INVALID :=
  (hinv.opened hat.socket).1

/-- An item belongs to one socket. -/
theorem Attached.inj (hinv : Sound h) (hat : Attached h a fd b ds) (hat' : Attached h a' fd' b ds') :
    a = a' := by
  obtain ⟨item, hitem, hfd, -⟩ := hat.item
  obtain ⟨item', hitem', hfd', -⟩ := hat'.item
  obtain rfl : item = item' := Option.some.inj (hitem.symm.trans hitem')
  exact hinv.unique hat.socket hat'.socket (hfd.symm.trans hfd')

theorem Attached.item_ne (hinv : Sound h) (hat : Attached h a fd b ds)
    (hat' : Attached h a' fd' b' ds') (hne : a' ≠ a) : b' ≠ b := by
  rintro rfl
  exact hne (hat'.inj hinv hat)

theorem Attached.fd_ne (hinv : Sound h) (hat : Attached h a fd b ds)
    (hat' : Attached h a' fd' b' ds') (hne : a' ≠ a) : fd' ≠ fd :=
  fun heq => hne (hinv.unique hat'.socket hat.socket heq)

/-- What a change of the item at `b` or of the socket at `a` leaves alone. -/
theorem Attached.frame (hat : Attached h a fd b ds) (hsocket : h'.sockets a = h.sockets a)
    (hitem : h'.repoll.items b = h.repoll.items b) : Attached h' a fd b ds :=
  ⟨hsocket.trans hat.socket, by rw [hitem]; exact hat.item⟩

theorem Registered.mono {ptr : ItemPtr} (hptr : Registered h fd ptr)
    (hkeep : ∀ a b ds, Attached h a fd b ds → Attached h' a fd b ds)
    (hlen : h'.repoll.destItems.length = h.repoll.destItems.length) : Registered h' fd ptr := by
  cases ptr with
  | owned b =>
    obtain ⟨a, ds, hat⟩ := hptr
    exact ⟨a, ds, hkeep a b ds hat⟩
  | slot i => exact lt_of_lt_of_eq hptr hlen.symm

/-- A descriptor that is not open is not registered. -/
theorem Sound.kernel_none (hinv : Sound h) (hfd : h.openFds fd = false) : h.repoll.kernel fd = none := by
  cases hk : h.repoll.kernel fd with
  | none => rfl
  | some reg =>
    have := (hinv.registered hk).1
    rw [hfd] at this
    cases this

/-! ### Opening a socket -/

theorem newSocket_eq (h : EpollHeap) (a : Nat) : h.newSocket a = h.pending a SOCKET_INVALID := rfl

theorem deref_pending : (h.pending a fd).deref a = .ok ⟨fd, 0⟩ := by
  apply deref_eq
  exact Function.update_self ..

theorem openSocket_pending : (h.pending a SOCKET_INVALID).openSocket a fd = .ok (h.pending a fd) := by
  simp only [openSocket, deref_pending, bind, Except.bind]
  simp only [pending, if_pos, Function.update_idem]
  rfl

/-- The new descriptor was not open before. -/
def FreshFd (h : EpollHeap) (fd : Int) : Prop := fd ≠ SOCKET_INVALID → h.openFds fd = false

theorem rsocketClose_pending (hinv : Sound h) (hfresh : h.FreshFd fd) :
    (h.pending a fd).rsocketClose a = .ok (h.pending a SOCKET_INVALID) := by
  simp only [rsocketClose, deref_pending, bind, Except.bind]
  split
  · rename_i hfd
    rw [hfd]
    rfl
  · rename_i hfd
    have hopen := hfresh hfd
    have hkernel : h.repoll.closeFd fd = h.repoll := by
      simp only [Repoll.closeFd]
      rw [← hinv.kernel_none hopen, Function.update_eq_self]
    have hfds : Function.update h.openFds fd false = h.openFds := by rw [← hopen, Function.update_eq_self]
    simp only [pending, if_neg hfd, Function.update_idem, hfds, hkernel, if_pos]
    rfl

theorem rsocketDestroy_pending (hfresh : h.sockets a = none) :
    (h.pending a SOCKET_INVALID).rsocketDestroy a = .ok h := by
  simp only [rsocketDestroy, deref_pending, bind, Except.bind]
  simp only [pending, if_pos, Function.update_idem]
  rw [← hfresh, Function.update_eq_self]
  rfl

/-- A socket that is given up leaves no trace. -/
theorem discardSocket_pending (hinv : Sound h) (hfd : h.FreshFd fd) (hfresh : h.sockets a = none) :
    (h.pending a fd).discardSocket a = .ok h := by
  simp only [discardSocket, rsocketClose_pending hinv hfd, bind, Except.bind]
  exact rsocketDestroy_pending hfresh

/-! ### The item of a new socket -/

/-- What a new socket and its item find free. -/
structure Room (h : EpollHeap) (a : Nat) (fd : Int) (b : Nat) : Prop where
  socket : h.sockets a = none
  item : h.repoll.items b = none
  valid : fd ≠ SOCKET_INVALID
  fresh : h.openFds fd = false

theorem Room.freshFd (hroom : h.Room a fd b) : h.FreshFd fd := fun _ => hroom.fresh

theorem addItem_ok (hsocket : h.sockets a = some ⟨fd, b'⟩) : h.addItem 0 a b req ds =
    .ok (0, { h with repoll := (h.repoll.newItem b ⟨fd, req, 0, ds⟩).rearm b ⟨fd, req, 0, ds⟩ }) := by
  have hitem : (h.repoll.newItem b ⟨fd, req, 0, ds⟩).items b = some ⟨fd, req, 0, ds⟩ :=
    Function.update_self ..
  simp only [addItem, deref_eq hsocket, bind, Except.bind, repollAdd, repollRegister_owned hitem]
  simp only [Repoll.rearm, Repoll.newItem, Function.update_idem]
  rfl

/-- The item that could not be registered is given up with the socket. -/
theorem addItem_failed (hctl : ctl ≠ 0) (hsocket : h.sockets a = some ⟨fd, b'⟩) :
    h.addItem ctl a b req ds =
      .ok (ctl, { h with repoll := h.repoll.newItem b ⟨fd, req, 0, ds⟩ }) := by
  have hitem : (h.repoll.newItem b ⟨fd, req, 0, ds⟩).items b = some ⟨fd, req, 0, ds⟩ :=
    Function.update_self ..
  simp only [addItem, deref_eq hsocket, bind, Except.bind, repollAdd, repollRegister, Repoll.deref, hitem,
    if_pos hctl]
  rfl

theorem bindItem_pending (h : EpollHeap) (a b : Nat) (req : Events) (ds : Nat) (hfd : fd ≠ SOCKET_INVALID) :
    EpollHeap.bindItem { h.pending a fd with
      repoll := (h.repoll.newItem b ⟨fd, req, 0, ds⟩).rearm b ⟨fd, req, 0, ds⟩ } a b =
      .ok (h.attach a fd b req ds) := by
  rw [bindItem, @deref_eq _ a ⟨fd, 0⟩ (Function.update_self ..)]
  simp only [pending, if_neg hfd, bind, Except.bind, Function.update_idem]
  rfl

theorem attached_attach : Attached (h.attach a fd b req ds) a fd b ds :=
  ⟨Function.update_self .., ⟨fd, req, 0, ds⟩, Function.update_self .., rfl, rfl⟩

/-- The other sockets keep their items. -/
theorem Attached.attach (hat : Attached h a' fd' b' ds') (hroom : h.Room a fd b) :
    Attached (h.attach a fd b req ds) a' fd' b' ds' := by
  obtain ⟨item, hitem, -⟩ := hat.item
  have ha : a' ≠ a := by
    rintro rfl
    cases hroom.socket.symm.trans hat.socket
  have hb : b' ≠ b := by
    rintro rfl
    cases hroom.item.symm.trans hitem
  apply hat.frame
  · exact Function.update_of_ne ha ..
  · simp [EpollHeap.attach, Repoll.rearm, Repoll.newItem, hb]

theorem sockets_attach {s : Rsocket} (hs : (h.attach a fd b req ds).sockets a' = some s) :
    a' = a ∧ s = ⟨fd, b⟩ ∨ a' ≠ a ∧ h.sockets a' = some s := by
  rcases update_some hs with ⟨ha, hs⟩ | hs
  · exact .inl ⟨ha, (Option.some.inj hs).symm⟩
  · exact .inr hs

theorem Sound.attach (hinv : Sound h) (hroom : h.Room a fd b) : Sound (h.attach a fd b req ds) := by
  have hne : ∀ {a' : Nat} {s : Rsocket}, h.sockets a' = some s → s.fd ≠ fd := by
    rintro a' s hs rfl
    cases hroom.fresh.symm.trans (hinv.opened hs).2
  constructor
  case attached =>
    intro a' s hs
    rcases sockets_attach hs with ⟨rfl, rfl⟩ | ⟨-, hs⟩
    · exact ⟨ds, attached_attach⟩
    · obtain ⟨ds', hat⟩ := hinv.attached hs
      exact ⟨ds', hat.attach hroom⟩
  case unique =>
    intro a₁ a₂ s₁ s₂ h₁ h₂ hfd
    rcases sockets_attach h₁ with ⟨ha₁, hs₁⟩ | ⟨-, hold₁⟩
    · rcases sockets_attach h₂ with ⟨ha₂, -⟩ | ⟨-, hold₂⟩
      · rw [ha₁, ha₂]
      · exact absurd (hfd.symm.trans (congrArg Rsocket.fd hs₁)) (hne hold₂)
    · rcases sockets_attach h₂ with ⟨-, hs₂⟩ | ⟨-, hold₂⟩
      · exact absurd (hfd.trans (congrArg Rsocket.fd hs₂)) (hne hold₁)
      · exact hinv.unique hold₁ hold₂ hfd
  case opened =>
    intro a' s hs
    rcases sockets_attach hs with ⟨rfl, rfl⟩ | ⟨-, hs⟩
    · exact ⟨hroom.valid, Function.update_self ..⟩
    · obtain ⟨hvalid, hopen⟩ := hinv.opened hs
      exact ⟨hvalid, (Function.update_of_ne (hne hs) ..).trans hopen⟩
  case registered =>
    intro fd' reg hreg
    rcases update_some hreg with ⟨rfl, heq⟩ | ⟨hfd, hreg⟩
    · cases heq
      exact ⟨Function.update_self .., a, ds, attached_attach⟩
    · obtain ⟨hopen, hptr⟩ := hinv.registered hreg
      exact ⟨(Function.update_of_ne hfd ..).trans hopen,
        hptr.mono (fun a' b' ds' hat => hat.attach hroom) rfl⟩

theorem Mirror.attach (hm : Mirror h) (hroom : h.Room a fd b) : Mirror (h.attach a fd b req ds) := by
  intro fd' reg hreg
  rcases update_some hreg with ⟨rfl, heq⟩ | ⟨-, hreg⟩
  · cases heq
    exact ⟨b, ⟨fd', req, 0, ds⟩, rfl, Function.update_self .., rfl⟩
  · obtain ⟨b', item, hptr, hitem, hmask⟩ := hm fd' reg hreg
    refine ⟨b', item, hptr, ?_, hmask⟩
    have hb : b' ≠ b := by
      rintro rfl
      cases hroom.item.symm.trans hitem
    simp [EpollHeap.attach, Repoll.rearm, Repoll.newItem, hb, hitem]

/-- An item that belongs to no socket. -/
theorem Sound.spare (hinv : Sound h) (hfree : h.repoll.items b = none) (item : RepollItem) :
    Sound { h with repoll := h.repoll.newItem b item } := by
  have hkeep : ∀ {a' : Nat} {fd' : Int} {b' ds' : Nat}, Attached h a' fd' b' ds' →
      Attached { h with repoll := h.repoll.newItem b item } a' fd' b' ds' := by
    intro a' fd' b' ds' hat
    obtain ⟨item', hitem', -⟩ := hat.item
    refine hat.frame rfl (Function.update_of_ne ?_ ..)
    rintro rfl
    cases hfree.symm.trans hitem'
  constructor
  case attached =>
    intro a' s hs
    obtain ⟨ds', hat⟩ := hinv.attached hs
    exact ⟨ds', hkeep hat⟩
  case unique => exact hinv.unique
  case opened => exact hinv.opened
  case registered =>
    intro fd' reg hreg
    obtain ⟨hopen, hptr⟩ := hinv.registered hreg
    exact ⟨hopen, hptr.mono (fun a' b' ds' => hkeep) rfl⟩

theorem freeItem_newItem {c : Repoll} (hfree : c.items b = none) (item : RepollItem) :
    (c.newItem b item).freeItem b = .ok c := by
  simp only [Repoll.freeItem, Repoll.newItem, Function.update_self, Function.update_idem]
  rw [← hfree, Function.update_eq_self]

theorem Owned.attach (ho : Owned h) : Owned (h.attach a fd b req ds) := by
  intro fd' reg hreg
  rcases update_some hreg with ⟨-, heq⟩ | ⟨-, hold⟩
  · cases heq
    exact ⟨b, rfl⟩
  · exact ho fd' reg hold

/-! ### Closing a socket -/

theorem dropSocket_ok (hinv : Sound h) (hat : Attached h a fd b ds) :
    h.dropSocket ctl a = .ok (h.drop ctl a fd b) := by
  obtain ⟨item, hitem, hfd, -⟩ := hat.item
  have hvalid := hat.valid hinv
  simp only [dropSocket, deref_eq hat.socket, repollRemove, Repoll.deref, hitem, bind, Except.bind]
  by_cases hctl : ctl < 0
  all_goals
    simp only [hctl, if_true, if_false, pure, Except.pure, Repoll.freeItem, hitem, discardSocket, rsocketClose,
      deref, hat.socket, bind, Except.bind, hvalid, rsocketDestroy, Function.update_self, Function.update_idem,
      Repoll.closeFd, drop, hfd]

theorem Attached.drop (hinv : Sound h) (hat : Attached h a fd b ds) (hat' : Attached h a' fd' b' ds')
    (hne : a' ≠ a) : Attached (h.drop ctl a fd b) a' fd' b' ds' := by
  apply hat'.frame
  · exact Function.update_of_ne hne ..
  · exact Function.update_of_ne (hat.item_ne hinv hat' hne) ..

theorem sockets_drop {s : Rsocket} (hs : (h.drop ctl a fd b).sockets a' = some s) :
    a' ≠ a ∧ h.sockets a' = some s := by
  rcases update_some hs with ⟨-, hs⟩ | hs
  · cases hs
  · exact hs

theorem kernel_drop {reg : Registration} (hreg : (h.drop ctl a fd b).repoll.kernel fd' = some reg) :
    fd' ≠ fd ∧ h.repoll.kernel fd' = some reg := by
  rcases update_some hreg with ⟨-, hreg⟩ | hreg
  · cases hreg
  · exact hreg

theorem clearFirst_length (fd : Int) (n : Nat) (items : List RepollItem) :
    (clearFirst fd n items).length = items.length := by
  induction items generalizing n with
  | nil => cases n <;> rfl
  | cons item items ih =>
    cases n with
    | zero => rfl
    | succ n =>
      rw [clearFirst]
      split
      · rfl
      · simp [ih]

theorem length_drop (h : EpollHeap) :
    (h.drop ctl a fd b).repoll.destItems.length = h.repoll.destItems.length := by
  rw [EpollHeap.drop]
  dsimp only
  split
  · rfl
  · exact clearFirst_length ..

theorem Sound.drop (hinv : Sound h) (hat : Attached h a fd b ds) : Sound (h.drop ctl a fd b) := by
  constructor
  case attached =>
    intro a' s hs
    obtain ⟨hne, hs⟩ := sockets_drop hs
    obtain ⟨ds', hat'⟩ := hinv.attached hs
    exact ⟨ds', hat.drop hinv hat' hne⟩
  case unique =>
    intro a₁ a₂ s₁ s₂ h₁ h₂
    exact hinv.unique (sockets_drop h₁).2 (sockets_drop h₂).2
  case opened =>
    intro a' s hs
    obtain ⟨hne, hs⟩ := sockets_drop hs
    obtain ⟨ds', hat'⟩ := hinv.attached hs
    obtain ⟨hvalid, hopen⟩ := hinv.opened hs
    exact ⟨hvalid, (Function.update_of_ne (hat.fd_ne hinv hat' hne) ..).trans hopen⟩
  case registered =>
    intro fd' reg hreg
    obtain ⟨hne, hreg⟩ := kernel_drop hreg
    obtain ⟨hopen, hptr⟩ := hinv.registered hreg
    refine ⟨(Function.update_of_ne hne ..).trans hopen, hptr.mono (fun a' b' ds' hat' => ?_) (length_drop h)⟩
    apply hat.drop hinv hat'
    -- the socket at `a'` has the descriptor `fd'`
    rintro rfl
    cases hat.socket.symm.trans hat'.socket
    exact hne rfl

theorem Mirror.drop (hinv : Sound h) (hm : Mirror h) (hat : Attached h a fd b ds) :
    Mirror (h.drop ctl a fd b) := by
  intro fd' reg hreg
  obtain ⟨hne, hreg⟩ := kernel_drop hreg
  obtain ⟨b', item, hptr, hitem, hmask⟩ := hm fd' reg hreg
  obtain ⟨-, hat'⟩ := hinv.registered hreg
  rw [hptr] at hat'
  obtain ⟨a', ds', hat'⟩ := hat'
  have ha : a' ≠ a := by
    rintro rfl
    cases hat.socket.symm.trans hat'.socket
    exact hne rfl
  exact ⟨b', item, hptr, (Function.update_of_ne (hat.item_ne hinv hat' ha) ..).trans hitem, hmask⟩

theorem Owned.drop (ho : Owned h) : Owned (h.drop ctl a fd b) :=
  fun fd' reg hreg => ho fd' reg (kernel_drop hreg).2

/-! ### The request mask -/

theorem changeInterest_rearm {item : RepollItem} (hat : Attached h a fd b ds)
    (hitem : h.repoll.items b = some item) (change : Events → Events) : h.changeInterest change 0 a =
      .ok (0, h.rearm b { item with eventValReq := change item.eventValReq }) := by
  simp only [changeInterest, deref_eq hat.socket, bind, Except.bind, Repoll.changeInterest_ok hitem]
  rfl

/-- The registration fails, the item has changed. -/
theorem changeInterest_failed {item : RepollItem} (hat : Attached h a fd b ds)
    (hitem : h.repoll.items b = some item) (change : Events → Events) (hctl : ctl ≠ 0) :
    h.changeInterest change ctl a = .ok (ctl, { h with
      repoll := h.repoll.newItem b { item with eventValReq := change item.eventValReq } }) := by
  simp only [changeInterest, deref_eq hat.socket, bind, Except.bind, Repoll.changeInterest, Repoll.deref, hitem,
    Repoll.assign_owned hitem, repollModify, repollRegister, Function.update_self, if_pos hctl]
  rfl

section item

variable {item item' : RepollItem} (hitem : h.repoll.items b = some item)
  (hsame : item'.fd = item.fd ∧ item'.ds = item.ds)

include hitem hsame

theorem Attached.newItem (hat : Attached h a' fd' b' ds') :
    Attached { h with repoll := h.repoll.newItem b item' } a' fd' b' ds' := by
  obtain ⟨item₁, hitem₁, hfd, hds⟩ := hat.item
  refine ⟨hat.socket, ?_⟩
  by_cases hb : b' = b
  · subst hb
    obtain rfl : item = item₁ := Option.some.inj (hitem.symm.trans hitem₁)
    exact ⟨item', Function.update_self .., hsame.1.trans hfd, hsame.2.trans hds⟩
  · exact ⟨item₁, (Function.update_of_ne hb ..).trans hitem₁, hfd, hds⟩

/-- The item keeps its owner. -/
theorem attached_newItem : Attached { h with repoll := h.repoll.newItem b item' } a' fd' b' ds' ↔
    Attached h a' fd' b' ds' := by
  refine ⟨fun hat => ⟨hat.socket, ?_⟩, fun hat => hat.newItem hitem hsame⟩
  obtain ⟨item₁, hitem₁, hfd, hds⟩ := hat.item
  rcases update_some hitem₁ with ⟨rfl, heq⟩ | ⟨-, hold⟩
  · cases heq
    exact ⟨item, hitem, hsame.1.symm.trans hfd, hsame.2.symm.trans hds⟩
  · exact ⟨item₁, hold, hfd, hds⟩

theorem Sound.newItem (hinv : Sound h) : Sound { h with repoll := h.repoll.newItem b item' } := by
  constructor
  case attached =>
    intro a' s hs
    obtain ⟨ds', hat⟩ := hinv.attached hs
    exact ⟨ds', hat.newItem hitem hsame⟩
  case unique => exact hinv.unique
  case opened => exact hinv.opened
  case registered =>
    intro fd' reg hreg
    obtain ⟨hopen, hptr⟩ := hinv.registered hreg
    exact ⟨hopen, hptr.mono (fun a' b' ds' hat => hat.newItem hitem hsame) rfl⟩

end item

/-- Only the results and the table have changed. -/
theorem Sound.frame (hinv : Sound h) (hsockets : h'.sockets = h.sockets) (hfds : h'.openFds = h.openFds)
    (hitems : h'.repoll.items = h.repoll.items)
    (hlen : h'.repoll.destItems.length = h.repoll.destItems.length)
    (hkernel : ∀ {fd : Int} {reg : Registration}, h'.repoll.kernel fd = some reg →
      h.openFds fd = true ∧ Registered h fd reg.ptr) : Sound h' := by
  constructor
  case attached =>
    intro a s hs
    rw [hsockets] at hs
    obtain ⟨ds, hat⟩ := hinv.attached hs
    exact ⟨ds, hat.frame (congrFun hsockets a) (congrFun hitems _)⟩
  case unique =>
    rw [hsockets]
    exact hinv.unique
  case opened =>
    rw [hsockets, hfds]
    exact hinv.opened
  case registered =>
    intro fd reg hreg
    obtain ⟨hopen, hptr⟩ := hkernel hreg
    rw [hfds]
    exact ⟨hopen, hptr.mono (fun a b ds hat => hat.frame (congrFun hsockets a) (congrFun hitems b)) hlen⟩

theorem Sound.rearm {item item' : RepollItem} (hinv : Sound h) (hat : Attached h a fd b ds)
    (hitem : h.repoll.items b = some item) (hfd : item'.fd = item.fd) (hds : item'.ds = item.ds) :
    Sound (h.rearm b item') := by
  have hinv' := hinv.newItem hitem ⟨hfd, hds⟩
  have hat' := hat.newItem hitem ⟨hfd, hds⟩
  refine hinv'.frame rfl rfl rfl rfl fun {fd' reg} hreg => ?_
  rcases update_some hreg with ⟨rfl, heq⟩ | ⟨-, hold⟩
  · cases heq
    obtain ⟨item'', hitem'', hfd'', -⟩ := hat'.item
    cases (Function.update_self ..).symm.trans hitem''
    rw [hfd'']
    exact ⟨(hinv'.opened hat'.socket).2, a, ds, hat'⟩
  · exact hinv'.registered hold

theorem Mirror.rearm {item item' : RepollItem} (hinv : Sound h) (hm : Mirror h)
    (hitem : h.repoll.items b = some item) (hfd : item'.fd = item.fd) : Mirror (h.rearm b item') := by
  intro fd' reg hreg
  rcases update_some hreg with ⟨rfl, heq⟩ | ⟨hne, hold⟩
  · cases heq
    exact ⟨b, item', rfl, Function.update_self .., rfl⟩
  · obtain ⟨b', item₁, hptr, hitem₁, hmask⟩ := hm fd' reg hold
    refine ⟨b', item₁, hptr, (Function.update_of_ne ?_ ..).trans hitem₁, hmask⟩
    -- the item at `b` has another descriptor than the registration
    rintro rfl
    obtain ⟨-, hown⟩ := hinv.registered hold
    rw [hptr] at hown
    obtain ⟨a', ds', hat'⟩ := hown
    obtain ⟨item₂, hitem₂, hfd₂, -⟩ := hat'.item
    obtain rfl : item = item₂ := Option.some.inj (hitem.symm.trans hitem₂)
    exact hne (hfd₂.symm.trans hfd.symm)

/-- `h'` has the sockets, the descriptors and the results of `h`, and is sound. -/
structure Kept (h h' : EpollHeap) : Prop where
  sound : Sound h'
  sockets : h'.sockets = h.sockets
  openFds : h'.openFds = h.openFds
  results : h'.repoll.destItems = h.repoll.destItems
  count : h'.repoll.fdDestCount = h.repoll.fdDestCount
  owned : Owned h → Owned h'
  attached : ∀ {a : Nat} {fd : Int} {b ds : Nat}, Attached h' a fd b ds ↔ Attached h a fd b ds

theorem changeInterest_kept (hinv : Sound h) (hat : Attached h a fd b ds) (change : Events → Events) (ctl : Int) :
    ∃ code h', h.changeInterest change ctl a = .ok (code, h') ∧ Kept h h' := by
  obtain ⟨item, hitem, -⟩ := hat.item
  by_cases hctl : ctl = 0
  · subst hctl
    refine ⟨_, _, changeInterest_rearm hat hitem change, hinv.rearm hat hitem rfl rfl, rfl, rfl, rfl, rfl, ?_, ?_⟩
    · intro ho fd' reg hreg
      rcases update_some hreg with ⟨-, heq⟩ | ⟨-, hold⟩
      · cases heq
        exact ⟨b, rfl⟩
      · exact ho fd' reg hold
    · intro a' fd' b' ds'
      obtain ⟨item', hitem'⟩ : ∃ item', item' = { item with eventValReq := change item.eventValReq } := ⟨_, rfl⟩
      have hnew : Attached { h with repoll := h.repoll.newItem b item' } a' fd' b' ds' ↔
          Attached h a' fd' b' ds' := attached_newItem hitem (hitem' ▸ ⟨rfl, rfl⟩)
      rw [← hitem']
      exact ⟨fun hat' => hnew.mp (hat'.frame rfl rfl), fun hat' => (hnew.mpr hat').frame rfl rfl⟩
  · exact ⟨_, _, changeInterest_failed hat hitem change hctl, hinv.newItem hitem ⟨rfl, rfl⟩, rfl, rfl, rfl, rfl,
      fun ho => ho, attached_newItem hitem ⟨rfl, rfl⟩⟩

/-! ### Polling -/

/-- `item` holds the result `(ptr, events)`: the mask is translated, and the rest is what an owner's item was. -/
def Copied (c : Repoll) (result : ItemPtr × Events) (item : RepollItem) : Prop :=
  item.eventValRsp = repollGetEventRsp result.2 ∧ ∀ b, result.1 = .owned b →
    ∃ own, c.items b = some own ∧ item = { own with eventValRsp := repollGetEventRsp result.2 }

/-- The results from the `i`-th on. -/
theorem copyResults_ok (c : Repoll) (i : Nat) (results : List (ItemPtr × Events))
    (hroom : i + results.length ≤ c.destItems.length)
    (hptrs : ∀ p ∈ results, ∀ c' : Repoll, c'.items = c.items → c'.destItems.length = c.destItems.length →
      ∃ item, c'.deref p.1 = .ok item) :
    ∃ items, copyResults c i results = .ok { c with destItems := items } ∧
      items.length = c.destItems.length ∧ (∀ j < i, items[j]? = c.destItems[j]?) ∧
        ∀ j result, results[j]? = some result → ∃ item, items[i + j]? = some item ∧ Copied c result item := by
  induction results generalizing c i with
  | nil => exact ⟨c.destItems, rfl, rfl, fun j _ => rfl, fun j result hj => by cases hj⟩
  | cons p rest ih =>
    obtain ⟨ptr, events⟩ := p
    obtain ⟨own, hderef⟩ := hptrs (ptr, events) List.mem_cons_self c rfl rfl
    rw [List.length_cons] at hroom
    have hi : i < c.destItems.length := by omega
    obtain ⟨item, hitem⟩ : ∃ item : RepollItem,
      item = { own with eventValRsp := repollGetEventRsp events } := ⟨_, rfl⟩
    obtain ⟨c₁, hc₁⟩ : ∃ c₁ : Repoll, c₁ = { c with destItems := c.destItems.set i item } := ⟨_, rfl⟩
    have hlen : c₁.destItems.length = c.destItems.length := by rw [hc₁, List.length_set]
    obtain ⟨items, hrun, hitems, hbefore, hafter⟩ := ih c₁ (i + 1) (by omega) (fun q hq c' h₁ h₂ =>
      hptrs q (List.mem_cons_of_mem _ hq) c' (h₁.trans (by rw [hc₁])) (h₂.trans hlen))
    refine ⟨items, ?_, hitems.trans hlen, fun j hj => ?_, fun j result hj => ?_⟩
    · simp only [copyResults, hderef, Repoll.assign, if_pos hi, bind, Except.bind]
      rw [← hitem, ← hc₁, hrun, hc₁]
    · rw [hbefore j (by omega), hc₁]
      exact List.getElem?_set_ne (by omega)
    · cases j with
      | zero =>
        cases hj
        refine ⟨item, ?_, by rw [hitem], fun b hb => ?_⟩
        · rw [Nat.add_zero, hbefore i (by omega), hc₁]
          exact List.getElem?_set_self hi
        · dsimp only at hb
          subst hb
          rw [Repoll.deref] at hderef
          cases hown : c.items b with
          | none =>
            rw [hown] at hderef
            cases hderef
          | some own' =>
            rw [hown] at hderef
            cases hderef
            exact ⟨own, rfl, hitem⟩
      | succ j =>
        obtain ⟨item', hget, hcopied, hown⟩ := hafter j result hj
        refine ⟨item', ?_, hcopied, fun b hb => ?_⟩
        · rw [← hget]
          congr 1
          omega
        · obtain ⟨own', hown', heq⟩ := hown b hb
          rw [hc₁] at hown'
          exact ⟨own', hown', heq⟩

/-- What `epoll_wait` may report: at most `fd_amount` descriptors. -/
def WaitFits (h : EpollHeap) : WaitResult → Prop
  | .error _ => True
  | .ready batch => batch.length ≤ h.repoll.destItems.length

theorem readyPtrs_length (c : Repoll) (batch : List (Int × Events)) :
    (c.readyPtrs batch).length ≤ batch.length := List.length_filterMap_le ..

/-- The results that a poll is about to copy, none when it fails. -/
def reports (h : EpollHeap) : WaitResult → List (ItemPtr × Events)
  | .error _ => []
  | .ready batch => h.repoll.readyPtrs batch

/-- The heap after a poll whose results are in `items`. -/
def polled (h : EpollHeap) (n : Nat) (items : List RepollItem) : EpollHeap :=
  { h with repoll := { h.repoll with fdDestCount := n, destItems := items } }

/-- The first items hold the reports of `wait`, in order. -/
structure Results (h : EpollHeap) (wait : WaitResult) (items : List RepollItem) : Prop where
  length : items.length = h.repoll.destItems.length
  fits : (h.reports wait).length ≤ items.length
  copied : ∀ (j : Nat) (result : ItemPtr × Events), (h.reports wait)[j]? = some result →
    ∃ item, items[j]? = some item ∧ Copied h.repoll result item

/-- A poll changes nothing but the results. -/
theorem poll_ok (hinv : Sound h) {wait : WaitResult} (hfits : h.WaitFits wait) :
    ∃ code items, h.poll wait = .ok (code, h.polled (h.reports wait).length items) ∧
      (code ≠ 0 → h.reports wait = []) ∧ Results h wait items := by
  cases wait with
  | error errno =>
    exact ⟨_, h.repoll.destItems, rfl, fun _ => rfl, rfl, Nat.zero_le _, fun j result hj => by cases hj⟩
  | ready batch =>
    have hle : (h.repoll.readyPtrs batch).length ≤ h.repoll.destItems.length :=
      (readyPtrs_length h.repoll batch).trans hfits
    obtain ⟨items, hrun, hlen, -, hcopied⟩ := copyResults_ok h.repoll 0 (h.repoll.readyPtrs batch)
      (by omega) (by
        intro p hp c' hitems hlen
        obtain ⟨⟨fd, events⟩, -, hmap⟩ := List.mem_filterMap.mp hp
        obtain ⟨reg, hreg, rfl⟩ := Option.map_eq_some_iff.mp hmap
        obtain ⟨-, hptr⟩ := hinv.registered hreg
        cases hkind : reg.ptr with
        | owned b =>
          rw [hkind] at hptr
          obtain ⟨a, ds, hat⟩ := hptr
          obtain ⟨item, hitem, -⟩ := hat.item
          exact ⟨item, by simp only [Repoll.deref, hitems, hitem]⟩
        | slot i =>
          rw [hkind] at hptr
          have hi : i < c'.destItems.length := lt_of_lt_of_eq hptr hlen.symm
          exact ⟨c'.destItems[i], by simp only [Repoll.deref, List.getElem?_eq_getElem hi]⟩)
    refine ⟨0, items, ?_, fun hne => absurd rfl hne, hlen, ?_, fun j result hj => ?_⟩
    · simp only [poll, repollPoll, hrun]
      rfl
    · rw [hlen]
      exact hle
    · obtain ⟨item, hget, hitem⟩ := hcopied j result hj
      rw [Nat.zero_add] at hget
      exact ⟨item, hget, hitem⟩

/-- The `i`-th result, when the pointers of the kernel are those of the items. -/
theorem Results.own (hinv : Sound h) (howned : Owned h)
    {wait : WaitResult} {items : List RepollItem} (hres : Results h wait items) {i : Nat} {item : RepollItem}
    (hi : i < (h.reports wait).length) (hget : items[i]? = some item) :
    ∃ batch p a b ds own, wait = .ready batch ∧ p ∈ batch ∧ h.repoll.kernel p.1 ≠ none ∧ Attached h a p.1 b ds ∧
      h.repoll.items b = some own ∧ item = { own with eventValRsp := repollGetEventRsp p.2 } := by
  obtain ⟨item', hget', -, hown⟩ := hres.copied i _ (List.getElem?_eq_getElem hi)
  obtain rfl : item = item' := Option.some.inj (hget.symm.trans hget')
  have hmem := List.getElem_mem hi
  cases wait with
  | error errno => cases hi
  | ready batch =>
    obtain ⟨p, hp, hmap⟩ := List.mem_filterMap.mp hmem
    obtain ⟨reg, hreg, heq⟩ := Option.map_eq_some_iff.mp hmap
    obtain ⟨b, hptr⟩ := howned p.1 reg hreg
    obtain ⟨own, hitem, hcopy⟩ := hown b (by rw [← heq, hptr])
    obtain ⟨-, hat⟩ := hinv.registered hreg
    rw [hptr] at hat
    obtain ⟨a, ds, hat⟩ := hat
    rw [← heq] at hcopy
    exact ⟨batch, p, a, b, ds, own, rfl, hp, by simp [hreg], hat, hitem, hcopy⟩

theorem Attached.item_fd {own : RepollItem} (hat : Attached h a fd b ds) (hown : h.repoll.items b = some own) :
    own.fd = fd ∧ own.ds = ds := by
  obtain ⟨item, hitem, hfd, hds⟩ := hat.item
  obtain rfl : own = item := Option.some.inj (hown.symm.trans hitem)
  exact ⟨hfd, hds⟩

theorem Sound.polled (hinv : Sound h) {n : Nat} {items : List RepollItem}
    (hlen : items.length = h.repoll.destItems.length) : Sound (h.polled n items) :=
  hinv.frame rfl rfl rfl hlen hinv.registered

end EpollHeap

end Funra
