import Funra.Epoll.Connections

/-!
# Connections that are not accepted

When a step of `ripc_accept_server` fails, the call should return a code, with the associations of `map_clients`
as they were and with everything released that it has allocated (`FailsCleanly`). It does while nothing has been
put into the map, and where the item cannot be registered, unless the new id had an association
(`Recovers`, `accept_clean_iff`).
-/

namespace Funra

open Mem Except

namespace EpollReactor

/-- The associations are the same, and nothing is allocated that was not. -/
structure Restored (s s' : EpollReactor) : Prop where
  map : s'.mapClients = s.mapClients
  sessions : s'.sessions = s.sessions
  buffers : s'.buffers = s.buffers
  sockets : s'.heap.sockets = s.heap.sockets
  openFds : s'.heap.openFds = s.heap.openFds
  items : s'.heap.repoll.items = s.heap.repoll.items
  kernel : s'.heap.repoll.kernel = s.heap.repoll.kernel

end EpollReactor

namespace AcceptEnv

open EpollReactor

/-- A step of the call fails. -/
def Fails (env : AcceptEnv) (s : EpollReactor) : Prop :=
  env.Short ∨ ¬ env.Arrived ∨ s.mapClients = none ∨ env.added = false ∨ ¬ env.OptionsSet ∨ env.ctl ≠ 0

def FailsCleanly (env : AcceptEnv) (s : EpollReactor) : Prop :=
  env.Fails s → (ripcAcceptServer env s).Succeeds fun r => r.1 ≠ 0 ∧ s.Restored r.2

/-- The condition: there is memory, and a connection with a peer is given up by `epoll_ctl`, with an id that had
no association. -/
def Recovers (env : AcceptEnv) (s : EpollReactor) : Prop :=
  ¬ env.Short ∧ (env.Arrived →
    env.OptionsSet ∧ env.ctl ≠ 0 ∧ ∀ m, s.mapClients = some m → m (uint64Key s.nextId) = none)

end AcceptEnv

namespace EpollReactor

variable {s : EpollReactor} {env : AcceptEnv}

theorem restored_forgotten_iff (hunused : s.sessions s.count = none) (k : Nat) (items : List RepollItem) :
    s.Restored (s.forgotten (s.heap.polled k items)) ↔
      ∀ m, s.mapClients = some m → m (uint64Key s.nextId) = none := by
  rw [← SessionMap.map_remove_iff]
  constructor
  · intro h
    exact h.map
  · intro h
    refine ⟨h, ?_, rfl, rfl, rfl, rfl, rfl⟩
    apply Function.update_eq_self_iff.mpr
    exact hunused.symm

theorem accept_clean_iff (hinv : s.heap.Sound) (hlistens : s.Listens) (hunused : s.sessions s.count = none)
    (hfits : env.Fits s) :
    ((ripcAcceptServer env s).Succeeds fun r => r.1 ≠ 0 ∧ s.Restored r.2) ↔ env.Recovers s := by
  have hends := accept_outcome hinv hfits
  cases hrun : ripcAcceptServer env s with
  | error f =>
    rw [hrun] at hends
    obtain ⟨-, hshort⟩ := hends hlistens
    constructor
    · rintro ⟨r, heq, -⟩
      simp at heq
    · intro hrecovers
      exact absurd hshort hrecovers.1
  | ok r =>
    rw [hrun] at hends
    obtain ⟨hshort, houtcome⟩ := hends
    have hiff : Succeeds (.ok r : Except Fault (Int × EpollReactor)) (fun r => r.1 ≠ 0 ∧ s.Restored r.2) ↔
        r.1 ≠ 0 ∧ s.Restored r.2 := by simp [Succeeds]
    rw [hiff]
    cases houtcome with
    | nothing hno hcode =>
      refine iff_of_true ⟨hcode, ⟨rfl, rfl, rfl, rfl, rfl, rfl, rfl⟩⟩ ⟨hshort, ?_⟩
      intro harrived
      exact absurd harrived hno
    | unset harrived hno => simp [AcceptEnv.Recovers, harrived, hno]
    | unregistered harrived hset hctl hitems =>
      rw [restored_forgotten_iff hunused]
      simp [AcceptEnv.Recovers, hshort, harrived, hset]
    | accepted harrived hset hctl hroom hc hd hne => simp [AcceptEnv.Recovers, harrived, hctl]

end EpollReactor

end Funra
