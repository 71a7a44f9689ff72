import Funra.Epoll.Sockets

/-!
# Opening a stream

What `ripc_open_c` and `ripc_open_server` have in common: the loop over the addresses of `getaddrinfo`, the
options, the item. A call that fails leaves nothing behind; what it yields otherwise is a socket with its item
(`openStream_returns`).
-/

namespace Funra

open Mem

def AF_INET : Int := 2

/-- An address of `getaddrinfo`, with the results of `rsocket_create` (and the descriptor) and of
`rsocket_connect` or `rsocket_bind`. -/
structure OpenAddr where
  family : Int
  create : Int
  fd : Int
  join : Int
  deriving DecidableEq, Repr

/-- What the calls of an open function yield: the address of the socket and of the item (`none` is the `NULL` of
`malloc`), the code of `getaddrinfo` and the addresses, the error of `epoll_ctl`. -/
structure OpenEnv where
  socket : Option Nat
  gai : Int
  addrs : List OpenAddr
  item : Option Nat
  ctl : Int

namespace EpollHeap

/-! ### The functions -/

/-- `exit1` of the open functions, `b` is the item that could not be registered. -/
def giveUp (code : Int) (a : Nat) (b : Option Nat) (h : EpollHeap) :
    Except Fault (Int × Option Nat × EpollHeap) := do
  let h ← h.discardSocket a
  match b with
  | none => return (code, none, h)
  | some b =>
    let repoll ← h.repoll.freeItem b
    return (code, none, { h with repoll })

/-- A descriptor for the address, where there is none or one of another family: the code and the family. -/
def socketFor (a : Nat) (addr : OpenAddr) (family : Int) (h : EpollHeap) :
    Except Fault (Int × Int × EpollHeap) := do
  let sock ← h.deref a
  if family = addr.family ∧ sock.fd ≠ SOCKET_INVALID then return (rcodeIoDone, family, h)
  let h ← h.rsocketClose a
  let h ← h.openSocket a addr.fd
  return (addr.create, if addr.create = rcodeIoDone then addr.family else family, h)

/-- The loop over the addresses, with the code of the last call. -/
def addressLoop (a : Nat) : List OpenAddr → Int → Int → EpollHeap → Except Fault (Int × EpollHeap)
  | [], _, code, h => .ok (code, h)
  | addr :: rest, family, _, h => do
    let (code, family, h) ← h.socketFor a addr family
    if code ≠ rcodeIoDone then addressLoop a rest family code h
    else if addr.join = rcodeIoDone then return (addr.join, h)
    else addressLoop a rest family addr.join h

/-- The item of the new socket; it waits for everything. -/
def enroll (item : Option Nat) (ctl : Int) (a ds : Nat) (h : EpollHeap) :
    Except Fault (Int × Option Nat × EpollHeap) :=
  match item with
  | none => .error .nullDeref
  | some b => do
    let (code, h) ← h.addItem ctl a b (repollSetEventAll 0) ds
    if code ≠ 0 then h.giveUp code a (some b)
    else
      let h ← h.bindItem a b
      return (0, some a, h)

/-- `ripc_open_c` and `ripc_open_server` up to `ds->stream`: the code and the new socket. `options` are the
results of `rsocket_setopt`, which leave the code as it is. -/
def openStream (listen : Int) (options : List Int) (env : OpenEnv) (ds : Nat) (h : EpollHeap) :
    Except Fault (Int × Option Nat × EpollHeap) :=
  match env.socket with
  | none => .error .nullDeref
  | some a => do
    let h := h.newSocket a
    if env.gai ≠ 0 then h.giveUp env.gai a none
    else
      let (code, h) ← h.addressLoop a env.addrs AF_INET env.gai
      if code ≠ 0 then h.giveUp code a none
      else if listen ≠ 0 then h.giveUp listen a none
      else if options.any (· != 0) then h.giveUp 0 a none
      else h.enroll env.item env.ctl a ds

/-! ### What an open function yields -/

/-- Whether one of the addresses is joined; `fd` is the descriptor from the addresses before. -/
def joins : List OpenAddr → Int → Int → Bool
  | [], _, _ => false
  | addr :: rest, family, fd =>
    if family = addr.family ∧ fd ≠ SOCKET_INVALID then addr.join == 0 || joins rest family fd
    else if addr.create = 0 then addr.join == 0 || joins rest addr.family addr.fd
    else joins rest family addr.fd

/-- The call gets as far as the item. -/
def Joined (listen : Int) (options : List Int) (env : OpenEnv) : Prop :=
  env.gai = 0 ∧ joins env.addrs AF_INET SOCKET_INVALID = true ∧ listen = 0 ∧ options.any (· != 0) = false

/-- `malloc` and `socket` yield what is free, and `getaddrinfo` an address when it succeeds. -/
structure OpenFits (h : EpollHeap) (env : OpenEnv) : Prop where
  socket : ∀ {a}, env.socket = some a → h.sockets a = none
  item : ∀ {b}, env.item = some b → h.repoll.items b = none
  fds : ∀ addr ∈ env.addrs, h.FreshFd addr.fd ∧ (addr.create = 0 → addr.fd ≠ SOCKET_INVALID)
  addrs : env.gai = 0 → env.addrs ≠ []

variable {h : EpollHeap} {a b ds : Nat} {fd ctl : Int} {env : OpenEnv} {addr : OpenAddr} {addrs : List OpenAddr}
  {family code : Int}

theorem socketFor_pending (hinv : Sound h) (hfd : h.FreshFd fd) : (h.pending a fd).socketFor a addr family =
    if family = addr.family ∧ fd ≠ SOCKET_INVALID then .ok (rcodeIoDone, family, h.pending a fd)
    else .ok (addr.create, if addr.create = rcodeIoDone then addr.family else family,
      h.pending a addr.fd) := by
  simp only [socketFor, deref_pending, bind, Except.bind]
  split
  · rfl
  · simp only [rsocketClose_pending hinv hfd, openSocket_pending]
    rfl

theorem addressLoop_pending (a : Nat) (family code : Int) (hinv : Sound h) (hfd : h.FreshFd fd)
    (haddrs : ∀ addr ∈ addrs, h.FreshFd addr.fd ∧ (addr.create = 0 → addr.fd ≠ SOCKET_INVALID))
    (hcode : addrs = [] → code ≠ 0) : ∃ code' fd',
      (h.pending a fd).addressLoop a addrs family code = .ok (code', h.pending a fd') ∧ h.FreshFd fd' ∧
        (code' = 0 ↔ joins addrs family fd = true) ∧ (code' = 0 → fd' ≠ SOCKET_INVALID) := by
  induction addrs generalizing family code fd with
  | nil =>
    have hcode := hcode rfl
    exact ⟨code, fd, rfl, hfd, iff_of_false hcode (by simp [joins]), fun h0 => absurd h0 hcode⟩
  | cons addr rest ih =>
    obtain ⟨hfresh, hvalid⟩ := haddrs addr List.mem_cons_self
    have hrest : ∀ x ∈ rest, h.FreshFd x.fd ∧ (x.create = 0 → x.fd ≠ SOCKET_INVALID) :=
      fun x hx => haddrs x (List.mem_cons_of_mem addr hx)
    rw [addressLoop, socketFor_pending hinv hfd, joins]
    by_cases hkeep : family = addr.family ∧ fd ≠ SOCKET_INVALID
    · simp only [if_pos hkeep, bind, Except.bind, ne_eq, not_true_eq_false, if_false]
      by_cases hjoin : addr.join = rcodeIoDone
      · rw [if_pos hjoin]
        exact ⟨addr.join, fd, rfl, hfd, iff_of_true hjoin (by simp [hjoin, rcodeIoDone]),
          fun _ => hkeep.2⟩
      · have hne : (addr.join == 0) = false := by simpa [rcodeIoDone] using hjoin
        rw [if_neg hjoin, hne, Bool.false_or]
        exact ih _ _ hfd hrest fun _ => hjoin
    · simp only [if_neg hkeep, bind, Except.bind]
      by_cases hcreate : addr.create = rcodeIoDone
      · rw [if_neg (not_not.mpr hcreate), if_pos hcreate, if_pos (show addr.create = 0 from hcreate)]
        by_cases hjoin : addr.join = rcodeIoDone
        · rw [if_pos hjoin]
          exact ⟨addr.join, addr.fd, rfl, hfresh, iff_of_true hjoin (by simp [hjoin, rcodeIoDone]),
            fun _ => hvalid hcreate⟩
        · have hne : (addr.join == 0) = false := by simpa [rcodeIoDone] using hjoin
          rw [if_neg hjoin, hne, Bool.false_or]
          exact ih _ _ hfresh hrest fun _ => hjoin
      · rw [if_pos hcreate, if_neg hcreate, if_neg (show ¬ addr.create = 0 from hcreate)]
        exact ih _ _ hfresh hrest fun _ => hcreate

theorem giveUp_pending (hinv : Sound h) (hfd : h.FreshFd fd) (hfresh : h.sockets a = none) :
    (h.pending a fd).giveUp code a none = .ok (code, none, h) := by
  simp only [giveUp, discardSocket_pending hinv hfd hfresh, bind, Except.bind]
  rfl

/-- The call fails and leaves nothing behind, or it gets to the item. -/
theorem openStream_cases {listen : Int} {options : List Int} (ds : Nat) (hinv : Sound h) (hfits : h.OpenFits env)
    (hsocket : env.socket = some a) :
    (¬ Joined listen options env ∧
      ∃ code, h.openStream listen options env ds = .ok (code, none, h)) ∨
    (Joined listen options env ∧ ∃ fd, fd ≠ SOCKET_INVALID ∧ h.openFds fd = false ∧
      h.openStream listen options env ds = (h.pending a fd).enroll env.item env.ctl a ds) := by
  have hfresh := hfits.socket hsocket
  have hnone : h.FreshFd SOCKET_INVALID := fun hne => absurd rfl hne
  simp only [openStream, hsocket, newSocket_eq]
  by_cases hgai : env.gai = 0
  · obtain ⟨code, fd, hloop, hfd, hiff, hvalid⟩ := addressLoop_pending a AF_INET 0 hinv
      hnone hfits.fds fun hnil => absurd hnil (hfits.addrs hgai)
    rw [if_neg (not_not.mpr hgai), hgai, hloop]
    simp only [bind, Except.bind]
    by_cases hcode : code = 0
    · rw [if_neg (not_not.mpr hcode)]
      by_cases hlisten : listen = 0
      · rw [if_neg (not_not.mpr hlisten)]
        by_cases hopt : options.any (· != 0) = true
        · rw [if_pos hopt]
          refine .inl ⟨fun hjoined => ?_, 0, giveUp_pending hinv hfd hfresh⟩
          cases hopt.symm.trans hjoined.2.2.2
        · rw [if_neg hopt]
          rw [Bool.not_eq_true] at hopt
          exact .inr ⟨⟨hgai, hiff.mp hcode, hlisten, hopt⟩, fd, hvalid hcode, hfd (hvalid hcode), rfl⟩
      · rw [if_pos hlisten]
        exact .inl ⟨fun hjoined => hlisten hjoined.2.2.1, listen, giveUp_pending hinv hfd hfresh⟩
    · rw [if_pos hcode]
      exact .inl ⟨fun hjoined => hcode (hiff.mpr hjoined.2.1), code, giveUp_pending hinv hfd hfresh⟩
  · rw [if_pos hgai]
    exact .inl ⟨fun hjoined => hgai hjoined.1, env.gai, giveUp_pending hinv hnone hfresh⟩

/-- A new socket with its item, or a failure that leaves no trace. -/
theorem enroll_pending (hinv : Sound h) (hroom : h.Room a fd b) :
    (h.pending a fd).enroll (some b) ctl a ds =
      if ctl = 0 then .ok (0, some a, h.attach a fd b (repollSetEventAll 0) ds) else .ok (ctl, none, h) := by
  have hsocket : (h.pending a fd).sockets a = some ⟨fd, 0⟩ := Function.update_self ..
  simp only [enroll]
  by_cases hctl : ctl = 0
  · subst hctl
    simp only [addItem_ok hsocket, bind, Except.bind, ne_eq, not_true_eq_false, if_false, if_true]
    have hbind := bindItem_pending h a b (repollSetEventAll 0) ds hroom.valid
    simp only [pending] at hbind ⊢
    rw [hbind]
    rfl
  · have hsound := hinv.spare hroom.item ⟨fd, repollSetEventAll 0, 0, ds⟩
    have hdiscard := discardSocket_pending hsound hroom.freshFd hroom.socket
    rw [if_neg hctl, addItem_failed hctl hsocket]
    simp only [bind, Except.bind, ne_eq, hctl, not_false_eq_true, if_true, giveUp]
    simp only [pending] at hdiscard ⊢
    rw [hdiscard]
    dsimp only
    rw [freeItem_newItem hroom.item]
    rfl

/-- Nothing has been opened, or the socket with its item. -/
def Opened (listen : Int) (options : List Int) (env : OpenEnv) (ds : Nat) (h : EpollHeap) (stream : Option Nat)
    (h' : EpollHeap) : Prop :=
  stream = none ∧ h' = h ∨ (Joined listen options env ∧ env.ctl = 0) ∧ ∃ a fd b, Room h a fd b ∧
    stream = some a ∧ h' = h.attach a fd b (repollSetEventAll 0) ds

variable {listen : Int} {options : List Int}

theorem openStream_returns (hinv : Sound h) (hfits : h.OpenFits env) :
    (h.openStream listen options env ds).Returns fun r => Opened listen options env ds h r.2.1 r.2.2 := by
  cases hsocket : env.socket with
  | none =>
    simp only [openStream, hsocket]
    exact .error
  | some a =>
    rcases openStream_cases ds hinv hfits hsocket with
      ⟨-, code, hrun⟩ | ⟨hjoined, fd, hvalid, hfresh, hrun⟩
    · rw [hrun]
      exact .ok (.inl ⟨rfl, rfl⟩)
    · rw [hrun]
      cases hitem : env.item with
      | none => exact .error
      | some b =>
        have hroom : Room h a fd b := ⟨hfits.socket hsocket, hfits.item hitem, hvalid, hfresh⟩
        rw [enroll_pending hinv hroom]
        split
        · rename_i hctl
          exact .ok (.inr ⟨⟨hjoined, hctl⟩, a, fd, b, hroom, rfl, rfl⟩)
        · exact .ok (.inl ⟨rfl, rfl⟩)

/-- With memory for the socket and the item the call returns. -/
theorem openStream_succeeds (hinv : Sound h) (hfits : h.OpenFits env) (hsocket : env.socket = some a)
    (hitem : env.item = some b) :
    (h.openStream listen options env ds).Succeeds fun r => Opened listen options env ds h r.2.1 r.2.2 := by
  obtain ⟨r, hrun⟩ : ∃ r, h.openStream listen options env ds = .ok r := by
    rcases openStream_cases ds hinv hfits hsocket with
      ⟨-, code, hrun⟩ | ⟨-, fd, hvalid, hfresh, hrun⟩
    · exact ⟨_, hrun⟩
    · rw [hrun, hitem, enroll_pending hinv ⟨hfits.socket hsocket, hfits.item hitem, hvalid, hfresh⟩]
      split
      · exact ⟨_, rfl⟩
      · exact ⟨_, rfl⟩
  exact ⟨r, hrun, openStream_returns hinv hfits r hrun⟩

end EpollHeap

end Funra
