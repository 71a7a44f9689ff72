import Funra.Rdict.Iter
import Funra.Rdict.Runs
import Funra.Codec.Basic

/-!
# Sessions of the libuv server

A session starts in `on_connection` and is released in `on_session_close`, the callback of `uv_close`,
which looks its id up in `map_clients` first. `UvServerStep` is any order of connections, reads, completed
shutdowns, stops and close callbacks. libuv runs a callback once for each call it belongs to, later, reads
no more behind an error or the end of a stream, and accepts no connection on a closed server.

`SessionsInv` holds in every state of a run that stops the server only when the map is empty
(`SessionsInv.step`): each session in memory is in the map, and one thing at most will lead to its close.
It gives `ReleasedOnce`.

A session is known by its number; numbers are not used again.
-/

namespace Funra

open Mem Table System

def uvEof : Int := -4095

/-- The data source of a session with its stream, which libuv reads or not. -/
structure UvServerSession where
  dsId : Nat
  dsType : RipcDataSourceType
  reading : Bool
  deriving DecidableEq, Repr

inductive UvSessionEvent
  | uvClose (s : Nat)
  | onCode (s : Nat) (code : Int)
  | releaseReadCache (s : Nat)
  | releaseWriteBuff (s : Nat)
  | freeStream (s : Nat)
  | freeDs (s : Nat)
  deriving DecidableEq, Repr

/-- `sessions` is the memory of the sessions, `count` how many there have been. `closing` and `shutdowns`
are the calls whose callbacks have not run. -/
structure UvServer where
  state : RipcState
  sidCur : Nat
  mapClients : Rdict Nat Nat Unit
  inHandler : Bool
  sessions : Nat → Option UvServerSession
  count : Nat
  listening : Bool
  closing : List Nat
  shutdowns : List Nat
  events : List UvSessionEvent

namespace UvServer

/-- `uv_close` on the stream of a session. -/
def uvClose (srv : UvServer) (s : Nat) : Except Fault UvServer :=
  match srv.sessions s with
  | none => .error .useAfterFree
  | some x => .ok { srv with
      sessions := Function.update srv.sessions s (some { x with reading := false })
      closing := srv.closing ++ [s]
      events := srv.events ++ [.uvClose s] }

/-- `in_handler->on_code`, when there is a handler. -/
def onCode (srv : UvServer) (s : Nat) (code : Int) : List UvSessionEvent :=
  if srv.inHandler then [.onCode s code] else []

/-- A call in which the memory, `uv_tcp_init`, `uv_accept` and `uv_read_start` succeed. -/
def onConnection (scale : Nat → Nat) (fuel : Nat) (srv : UvServer) : Except Fault UvServer := do
  let s := srv.count
  let dsId := (srv.sidCur + 1) % 18446744073709551616
  let (_, map) ← rdictAdd uint64Funcs (fun _ => true) scale fuel srv.mapClients (uint64Key dsId) (some s)
  return { srv with
    sidCur := dsId
    mapClients := map
    sessions := Function.update srv.sessions s (some ⟨dsId, .session, true⟩)
    count := s + 1
    events := srv.events ++ srv.onCode s rcodeErrIpcConnect }

/-- `writable` and `uvShutdown` are the answers of `uv_is_writable` and `uv_shutdown`. The handler of the
data does nothing to the life of a session. -/
def afterRead (srv : UvServer) (s : Nat) (nread : Int) (writable : Bool) (uvShutdown : Int) :
    Except Fault UvServer :=
  match srv.sessions s with
  | none => .error .useAfterFree
  | some _ =>
    if nread < 0 then
      if nread ≠ uvEof then srv.uvClose s
      else if writable ∧ uvShutdown = 0 then .ok { srv with shutdowns := srv.shutdowns ++ [s] }
      else .ok srv
    else .ok srv

def afterShutdownClient (srv : UvServer) (s : Nat) : Except Fault UvServer := srv.uvClose s

def onSessionClose (srv : UvServer) (s : Nat) : Except Fault UvServer :=
  match srv.sessions s with
  | none => .error .useAfterFree
  | some x =>
    if x.dsType = .session then do
      match ← rdictFind uint64Funcs srv.mapClients (uint64Key x.dsId) with
      | none => return srv
      | some _ =>
        let (_, map) ← rdictRemove uint64Funcs srv.mapClients (uint64Key x.dsId)
        return { srv with
          mapClients := map
          sessions := Function.update srv.sessions s none
          events := srv.events ++ (srv.onCode s rcodeErrIpcDisconnect ++
            [.releaseReadCache s, .releaseWriteBuff s, .freeStream s, .freeDs s]) }
    else .ok srv

/-- The loop of `ripc_stop`. -/
def stopLoop : Nat → UvServer → Option Nat → Except Fault UvServer
  | 0, _, _ => .error .outOfFuel
  | fuel + 1, srv, next => do
    match ← rdictNext srv.mapClients next with
    | (none, _) => return srv
    | (some ref, next) =>
      match refValue srv.mapClients ref with
      | none => .error .nullDeref
      | some s =>
        let srv ← srv.uvClose s
        stopLoop fuel srv next

def stopClients (srv : UvServer) : Except Fault UvServer :=
  if srv.mapClients.size > 0 then do
    let srv ← stopLoop (srv.mapClients.capacity + 2) srv none
    let map ← rdictClear uint64Funcs srv.mapClients
    return { srv with mapClients := map }
  else .ok srv

def ripcStop (srv : UvServer) : Except Fault UvServer := do
  let srv ← srv.stopClients
  return { srv with listening := false, state := .stop }

/-- libuv has stopped reading a stream. -/
def readStop (srv : UvServer) (s : Nat) : UvServer :=
  { srv with
    sessions := Function.update srv.sessions s
      ((srv.sessions s).map fun x => { x with reading := false }) }

end UvServer

/-! ### Runs -/

inductive UvServerInput
  | connection
  | read (s : Nat) (nread : Int) (writable : Bool) (uvShutdown : Int)
  | shutdownDone (s : Nat)
  | stop
  | closeDone (s : Nat)
  deriving DecidableEq, Repr

namespace UvServerInput

/-- What libuv may do next. -/
def Enabled (srv : UvServer) : UvServerInput → Prop
  | .connection => srv.listening = true
  | .read s _ _ _ => (srv.sessions s).any UvServerSession.reading = true
  | .shutdownDone s => s ∈ srv.shutdowns
  | .stop => True
  | .closeDone s => s ∈ srv.closing

instance (srv : UvServer) : DecidablePred (Enabled srv)
  | .connection => inferInstanceAs (Decidable (_ = _))
  | .read _ _ _ _ => inferInstanceAs (Decidable (_ = _))
  | .shutdownDone _ => inferInstanceAs (Decidable (_ ∈ _))
  | .stop => inferInstanceAs (Decidable True)
  | .closeDone _ => inferInstanceAs (Decidable (_ ∈ _))

def exec (scale : Nat → Nat) (fuel : Nat) (srv : UvServer) : UvServerInput → Except Fault UvServer
  | .connection => srv.onConnection scale fuel
  | .read s nread writable uvShutdown =>
    (if nread < 0 then srv.readStop s else srv).afterRead s nread writable uvShutdown
  | .shutdownDone s => { srv with shutdowns := srv.shutdowns.erase s }.afterShutdownClient s
  | .stop => srv.ripcStop
  | .closeDone s => { srv with closing := srv.closing.erase s }.onSessionClose s

end UvServerInput

def UvServerStep (scale : Nat → Nat) (srv : UvServer) (input : UvServerInput) (srv' : UvServer) : Prop :=
  input.Enabled srv ∧ ∃ fuel, input.exec scale fuel srv = .ok srv'

/-! ### The property -/

/-- How often the parts of a session were released. -/
def UvServer.released (srv : UvServer) (s : Nat) : Nat × Nat × Nat × Nat :=
  (srv.events.count (.releaseReadCache s), srv.events.count (.releaseWriteBuff s),
    srv.events.count (.freeStream s), srv.events.count (.freeDs s))

structure ReleasedOnce (srv : UvServer) : Prop where
  closes : ∀ s, srv.events.count (.uvClose s) ≤ 1
  released : srv.state = .stop → srv.closing = [] → srv.shutdowns = [] →
    ∀ s < srv.count, srv.released s = (1, 1, 1, 1)

/-- The condition on a step: the server is stopped only when the map is empty; an id is not used again,
and the map takes it with room in every bucket. -/
structure StopsEmpty (scale : Nat → Nat) (srv : UvServer) (input : UvServerInput) : Prop where
  stop : input = .stop → srv.mapClients.size = 0
  sidCur : input = .connection → srv.sidCur + 1 < 18446744073709551616
  room : input = .connection → KeepsRoom uint64Funcs (fun _ => true) scale srv.mapClients
    (.add (some (srv.sidCur + 1)) (some srv.count))

/-- A server that has been started, without a session. -/
structure Started (srv : UvServer) : Prop where
  state : srv.state ≠ .stop
  listening : srv.listening = true
  roomy : Roomy uint64Funcs srv.mapClients
  empty : srv.mapClients.entries = []
  null : srv.mapClients.entryNull = none
  sessions : ∀ s, srv.sessions s = none
  count : srv.count = 0
  closing : srv.closing = []
  shutdowns : srv.shutdowns = []
  events : srv.events = []

/-! ### The invariant -/

/-- A session in memory: it is in the map, and one thing at most will lead to its next close. -/
structure OpenSession (srv : UvServer) (s : Nat) (x : UvServerSession) : Prop where
  known : s < srv.count
  dsType : x.dsType = .session
  id_pos : x.dsId ≠ 0
  id_le : x.dsId ≤ srv.sidCur
  entry : ∃ e ∈ srv.mapClients.entries, e.key = some x.dsId ∧ e.value = some s
  closes : srv.events.count (.uvClose s) = srv.closing.count s
  pending : x.reading.toNat + srv.shutdowns.count s + srv.closing.count s ≤ 1
  released : srv.released s = (0, 0, 0, 0)

/-- A number without a session: released, or not used yet. -/
structure NoSession (srv : UvServer) (s : Nat) : Prop where
  closing : srv.closing.count s = 0
  shutdowns : srv.shutdowns.count s = 0
  gone : s < srv.count → srv.events.count (.uvClose s) ≤ 1 ∧ srv.released s = (1, 1, 1, 1)
  unused : srv.count ≤ s → srv.events.count (.uvClose s) = 0 ∧ srv.released s = (0, 0, 0, 0)

structure SessionsInv (srv : UvServer) : Prop where
  roomy : Roomy uint64Funcs srv.mapClients
  null : srv.mapClients.entryNull = none
  entry : ∀ e ∈ srv.mapClients.entries, ∃ s x, e.value = some s ∧ srv.sessions s = some x ∧
    e.key = some x.dsId
  live : ∀ s x, srv.sessions s = some x → OpenSession srv s x
  free : ∀ s, srv.sessions s = none → NoSession srv s
  stopped : srv.state = .stop → srv.listening = false
  empty : srv.listening = false → srv.mapClients.entries = []

theorem Started.inv {srv : UvServer} (h : Started srv) : SessionsInv srv := by
  refine ⟨h.roomy, h.null, fun e he => ?_, fun s x hs => ?_, fun s _ => ?_, fun hs => ?_, fun hl => ?_⟩
  · rw [h.empty] at he
    cases he
  · rw [h.sessions s] at hs
    cases hs
  · refine ⟨by rw [h.closing]; rfl, by rw [h.shutdowns]; rfl, fun hlt => ?_, fun _ => ?_⟩
    · rw [h.count] at hlt
      omega
    · rw [UvServer.released, h.events]
      exact ⟨rfl, rfl⟩
  · exact absurd hs h.state
  · rw [h.listening] at hl
    cases hl

theorem SessionsInv.releasedOnce {srv : UvServer} (h : SessionsInv srv) : ReleasedOnce srv := by
  refine ⟨fun s => ?_, fun hstop _ _ s hs => ?_⟩
  · cases hx : srv.sessions s with
    | some x =>
      have hopen := h.live s x hx
      have := hopen.pending
      rw [hopen.closes]
      omega
    | none =>
      have hno := h.free s hx
      rcases Nat.lt_or_ge s srv.count with hlt | hge
      · exact (hno.gone hlt).1
      · rw [(hno.unused hge).1]
        exact Nat.zero_le 1
  · cases hx : srv.sessions s with
    | some x =>
      obtain ⟨e, he, -⟩ := (h.live s x hx).entry
      rw [h.empty (h.stopped hstop)] at he
      cases he
    | none => exact ((h.free s hx).gone hs).2

/-! ### What a step does to the other sessions -/

def UvSessionEvent.session : UvSessionEvent → Nat
  | .uvClose s => s
  | .onCode s _ => s
  | .releaseReadCache s => s
  | .releaseWriteBuff s => s
  | .freeStream s => s
  | .freeDs s => s

section steps

variable {srv srv' : UvServer} {s r : Nat} {x : UvServerSession} {scale : Nat → Nat}

/-- Nothing has happened to session `s`. -/
structure Untouched (srv srv' : UvServer) (s : Nat) : Prop where
  sessions : srv'.sessions s = srv.sessions s
  closing : srv'.closing.count s = srv.closing.count s
  shutdowns : srv'.shutdowns.count s = srv.shutdowns.count s
  closes : srv'.events.count (.uvClose s) = srv.events.count (.uvClose s)
  released : srv'.released s = srv.released s

theorem count_append_other {evs : List UvSessionEvent} (hevs : ∀ ev ∈ evs, ev.session = s)
    {ev : UvSessionEvent} (hne : ev.session ≠ s) (events : List UvSessionEvent) :
    (events ++ evs).count ev = events.count ev := by
  have hzero : evs.count ev = 0 := by
    apply List.count_eq_zero.mpr
    intro hmem
    exact hne (hevs ev hmem)
  rw [List.count_append, hzero, Nat.add_zero]

/-- Events of another session. -/
theorem untouched_of_events {evs : List UvSessionEvent} (hevs : ∀ ev ∈ evs, ev.session = s)
    (hne : r ≠ s) (hevents : srv'.events = srv.events ++ evs)
    (hsessions : srv'.sessions r = srv.sessions r) (hclosing : srv'.closing.count r = srv.closing.count r)
    (hshutdowns : srv'.shutdowns.count r = srv.shutdowns.count r) : Untouched srv srv' r := by
  have hcount : ∀ ev : UvSessionEvent, ev.session = r →
      srv'.events.count ev = srv.events.count ev := by
    intro ev hev
    rw [hevents]
    exact count_append_other hevs (hev ▸ hne) _
  refine ⟨hsessions, hclosing, hshutdowns, hcount _ rfl, ?_⟩
  rw [UvServer.released, UvServer.released, hcount _ rfl, hcount _ rfl, hcount _ rfl, hcount _ rfl]

theorem OpenSession.of_untouched (h : OpenSession srv s x) (hu : Untouched srv srv' s)
    (hknown : s < srv'.count) (hsid : srv.sidCur ≤ srv'.sidCur)
    (hentry : ∃ e ∈ srv'.mapClients.entries, e.key = some x.dsId ∧ e.value = some s) :
    OpenSession srv' s x :=
  ⟨hknown, h.dsType, h.id_pos, h.id_le.trans hsid, hentry,
    by rw [hu.closes, hu.closing, h.closes], by rw [hu.shutdowns, hu.closing]; exact h.pending,
    hu.released.trans h.released⟩

theorem NoSession.of_untouched (h : NoSession srv s) (hu : Untouched srv srv' s)
    (hcount : s < srv.count ↔ s < srv'.count) : NoSession srv' s := by
  refine ⟨hu.closing.trans h.closing, hu.shutdowns.trans h.shutdowns, fun hlt => ?_, fun hge => ?_⟩
  · rw [hu.closes, hu.released]
    exact h.gone (hcount.mpr hlt)
  · rw [hu.closes, hu.released]
    exact h.unused (by omega)

/-- A step about session `s`: nothing happens to the others, and the entries of the map that are not its
own stay. -/
structure About (srv srv' : UvServer) (s : Nat) : Prop where
  other : ∀ r, r ≠ s → Untouched srv srv' r
  entries : ∀ e, e.value ≠ some s → (e ∈ srv'.mapClients.entries ↔ e ∈ srv.mapClients.entries)
  count : ∀ r, r ≠ s → (r < srv.count ↔ r < srv'.count)
  sidCur : srv.sidCur ≤ srv'.sidCur
  roomy : Roomy uint64Funcs srv'.mapClients
  null : srv'.mapClients.entryNull = none
  state : srv'.state = srv.state
  listening : srv'.listening = srv.listening

theorem SessionsInv.about (h : SessionsInv srv) (ha : About srv srv' s)
    (hopen : ∀ x, srv'.sessions s = some x → OpenSession srv' s x)
    (hfree : srv'.sessions s = none → NoSession srv' s)
    (hentry : ∀ e ∈ srv'.mapClients.entries, e.value = some s →
      ∃ x, srv'.sessions s = some x ∧ e.key = some x.dsId)
    (hempty : srv.listening = false → srv'.mapClients.entries = []) : SessionsInv srv' := by
  refine ⟨ha.roomy, ha.null, fun e he => ?_, fun r x hr => ?_, fun r hr => ?_, fun hstop => ?_,
    fun hl => hempty (ha.listening ▸ hl)⟩
  · by_cases hval : e.value = some s
    · obtain ⟨x, hx, hkey⟩ := hentry e he hval
      exact ⟨s, x, hval, hx, hkey⟩
    · obtain ⟨r, x, hval', hr, hkey⟩ := h.entry e ((ha.entries e hval).mp he)
      have hrs : r ≠ s := by
        rintro rfl
        exact hval hval'
      exact ⟨r, x, hval', (ha.other r hrs).sessions.trans hr, hkey⟩
  · by_cases hrs : r = s
    · subst hrs
      exact hopen x hr
    · have hu := ha.other r hrs
      have hold := h.live r x (hu.sessions ▸ hr)
      obtain ⟨e, he, hkey, hval⟩ := hold.entry
      have hne : e.value ≠ some s := by
        rw [hval]
        simpa using hrs
      exact hold.of_untouched hu ((ha.count r hrs).mp hold.known) ha.sidCur
        ⟨e, (ha.entries e hne).mpr he, hkey, hval⟩
  · by_cases hrs : r = s
    · subst hrs
      exact hfree hr
    · have hu := ha.other r hrs
      exact (h.free r (hu.sessions ▸ hr)).of_untouched hu (ha.count r hrs)
  · rw [ha.state] at hstop
    exact ha.listening.trans (h.stopped hstop)

/-- A step that leaves the map alone, about a session in memory. -/
theorem SessionsInv.of_session (h : SessionsInv srv) (hmap : srv'.mapClients = srv.mapClients)
    (hstate : srv'.state = srv.state) (hlisten : srv'.listening = srv.listening)
    (hcount : srv'.count = srv.count) (hsid : srv'.sidCur = srv.sidCur)
    (hx : srv.sessions s = some x) {x' : UvServerSession} (hx' : srv'.sessions s = some x')
    (hid : x'.dsId = x.dsId) (hopen : OpenSession srv' s x')
    (hother : ∀ r, r ≠ s → Untouched srv srv' r) : SessionsInv srv' := by
  have habout : About srv srv' s := {
    other := hother
    entries := fun e _ => by rw [hmap]
    count := fun r _ => by rw [hcount]
    sidCur := hsid.ge
    roomy := hmap ▸ h.roomy
    null := hmap ▸ h.null
    state := hstate
    listening := hlisten }
  apply h.about habout
  · intro y hy
    rw [hx'] at hy
    cases hy
    exact hopen
  · intro hnone
    rw [hx'] at hnone
    cases hnone
  · intro e he hval
    rw [hmap] at he
    obtain ⟨r, y, hval', hr, hkey⟩ := h.entry e he
    rw [hval] at hval'
    cases hval'
    rw [hx] at hr
    cases hr
    exact ⟨x', hx', hid ▸ hkey⟩
  · intro hl
    rw [hmap]
    exact h.empty hl

/-! ### Closing a session -/

/-- libuv stops reading. -/
theorem SessionsInv.readStop (h : SessionsInv srv) (hx : srv.sessions s = some x) :
    SessionsInv (srv.readStop s) := by
  have hx' : (srv.readStop s).sessions s = some { x with reading := false } := by
    show Function.update _ _ _ s = _
    rw [Function.update_self, hx]
    rfl
  have hopen := h.live s x hx
  refine h.of_session rfl rfl rfl rfl rfl hx hx' rfl ?_ fun r hr => ?_
  · refine ⟨hopen.known, hopen.dsType, hopen.id_pos, hopen.id_le, hopen.entry, hopen.closes, ?_,
      hopen.released⟩
    have hpending := hopen.pending
    show 0 + srv.shutdowns.count s + srv.closing.count s ≤ 1
    omega
  · exact ⟨Function.update_of_ne hr _ _, rfl, rfl, rfl, rfl⟩

/-- `uv_close` for a session without a callback to come. -/
theorem SessionsInv.uvClose (h : SessionsInv srv) (hx : srv.sessions s = some x)
    (hshutdowns : srv.shutdowns.count s = 0) (hclosing : srv.closing.count s = 0)
    (hrun : srv.uvClose s = .ok srv') : SessionsInv srv' := by
  rw [UvServer.uvClose, hx] at hrun
  cases hrun
  have hopen := h.live s x hx
  refine h.of_session rfl rfl rfl rfl rfl hx (Function.update_self ..) rfl ?_ fun r hr => ?_
  · refine ⟨hopen.known, hopen.dsType, hopen.id_pos, hopen.id_le, hopen.entry, ?_, ?_, ?_⟩
    · rw [List.count_append, List.count_append, hopen.closes]
      simp
    · show 0 + srv.shutdowns.count s + (srv.closing ++ [s]).count s ≤ 1
      rw [List.count_append, hshutdowns, hclosing]
      simp
    · have hreleased := hopen.released
      rw [UvServer.released] at hreleased ⊢
      simpa [List.count_append, List.count_cons] using hreleased
  · have hevs : ∀ ev ∈ [UvSessionEvent.uvClose s], ev.session = s := by
      intro ev hev
      rw [List.mem_singleton.mp hev]
      rfl
    refine untouched_of_events hevs hr rfl (Function.update_of_ne hr _ _) ?_ rfl
    rw [List.count_append, List.count_singleton, if_neg (by simpa using Ne.symm hr), Nat.add_zero]

/-- An open session of which libuv has stopped reading and a shutdown was requested. -/
theorem SessionsInv.shutdown (h : SessionsInv srv) (hx : srv.sessions s = some x)
    (hreading : x.reading = false) (hshutdowns : srv.shutdowns.count s = 0)
    (hclosing : srv.closing.count s = 0) :
    SessionsInv { srv with shutdowns := srv.shutdowns ++ [s] } := by
  have hopen := h.live s x hx
  refine h.of_session rfl rfl rfl rfl rfl hx hx rfl ?_ fun r hr => ?_
  · refine ⟨hopen.known, hopen.dsType, hopen.id_pos, hopen.id_le, hopen.entry, hopen.closes, ?_,
      hopen.released⟩
    show x.reading.toNat + (srv.shutdowns ++ [s]).count s + srv.closing.count s ≤ 1
    rw [hreading, List.count_append, hshutdowns, hclosing]
    simp
  · refine ⟨rfl, rfl, ?_, rfl, rfl⟩
    show (srv.shutdowns ++ [s]).count r = _
    rw [List.count_append, List.count_singleton, if_neg (by simpa using Ne.symm hr), Nat.add_zero]

/-- What `after_read` leaves: libuv reads while nothing else is to come for the session. -/
theorem SessionsInv.read (h : SessionsInv srv) {nread uvShutdown : Int} {writable : Bool}
    (hreading : (srv.sessions s).any UvServerSession.reading = true)
    (hrun : (if nread < 0 then srv.readStop s else srv).afterRead s nread writable uvShutdown =
      .ok srv') : SessionsInv srv' := by
  obtain ⟨x, hx, hxr⟩ := (Option.any_eq_true _ _).mp hreading
  have hpending := (h.live s x hx).pending
  rw [hxr, Bool.toNat_true] at hpending
  have hshutdowns : srv.shutdowns.count s = 0 := by omega
  have hclosing : srv.closing.count s = 0 := by omega
  by_cases hneg : nread < 0
  · have hstop := h.readStop hx
    have hx' : (srv.readStop s).sessions s = some { x with reading := false } := by
      show Function.update _ _ _ s = _
      rw [Function.update_self, hx]
      rfl
    rw [if_pos hneg, UvServer.afterRead, hx'] at hrun
    dsimp only at hrun
    rw [if_pos hneg] at hrun
    split at hrun
    · exact hstop.uvClose hx' hshutdowns hclosing hrun
    · split at hrun
      · cases hrun
        exact hstop.shutdown hx' rfl hshutdowns hclosing
      · cases hrun
        exact hstop
  · rw [if_neg hneg, UvServer.afterRead, hx] at hrun
    dsimp only at hrun
    rw [if_neg hneg] at hrun
    cases hrun
    exact h

/-- The callback of `uv_shutdown` closes the session. -/
theorem SessionsInv.shutdownDone (h : SessionsInv srv) (hmem : s ∈ srv.shutdowns)
    (hrun : UvServer.afterShutdownClient { srv with shutdowns := srv.shutdowns.erase s } s =
      .ok srv') : SessionsInv srv' := by
  have hpos : 0 < srv.shutdowns.count s := List.count_pos_iff.mpr hmem
  cases hx : srv.sessions s with
  | none =>
    have := (h.free s hx).shutdowns
    omega
  | some x =>
    have hopen := h.live s x hx
    have hpending := hopen.pending
    have herase : (srv.shutdowns.erase s).count s = srv.shutdowns.count s - 1 := List.count_erase_self
    have hstart : SessionsInv { srv with shutdowns := srv.shutdowns.erase s } := by
      refine h.of_session rfl rfl rfl rfl rfl hx hx rfl ?_ fun r hr => ?_
      · refine ⟨hopen.known, hopen.dsType, hopen.id_pos, hopen.id_le, hopen.entry, hopen.closes, ?_,
          hopen.released⟩
        show x.reading.toNat + (srv.shutdowns.erase s).count s + srv.closing.count s ≤ 1
        omega
      · exact ⟨rfl, rfl, List.count_erase_of_ne hr, rfl, rfl⟩
    refine hstart.uvClose hx ?_ ?_ hrun
    · show (srv.shutdowns.erase s).count s = 0
      omega
    · show srv.closing.count s = 0
      omega

/-- The events of a release. -/
theorem count_release (srv : UvServer) (s : Nat) (code : Int) :
    let evs := srv.onCode s code ++
      [.releaseReadCache s, .releaseWriteBuff s, .freeStream s, .freeDs s]
    (∀ ev ∈ evs, ev.session = s) ∧ evs.count (.uvClose s) = 0 ∧
      evs.count (.releaseReadCache s) = 1 ∧ evs.count (.releaseWriteBuff s) = 1 ∧
      evs.count (.freeStream s) = 1 ∧ evs.count (.freeDs s) = 1 := by
  unfold UvServer.onCode
  cases srv.inHandler <;> simp [UvSessionEvent.session]

theorem count_onCode (srv : UvServer) (s : Nat) (code : Int) :
    (∀ ev ∈ srv.onCode s code, ev.session = s) ∧ (srv.onCode s code).count (.uvClose s) = 0 ∧
      (srv.onCode s code).count (.releaseReadCache s) = 0 ∧
      (srv.onCode s code).count (.releaseWriteBuff s) = 0 ∧
      (srv.onCode s code).count (.freeStream s) = 0 ∧ (srv.onCode s code).count (.freeDs s) = 0 := by
  unfold UvServer.onCode
  cases srv.inHandler <;> simp [UvSessionEvent.session]

/-- The number of the next session has not been used. -/
theorem SessionsInv.next_unused (h : SessionsInv srv) : srv.sessions srv.count = none := by
  cases hx : srv.sessions srv.count with
  | none => rfl
  | some x => exact absurd (h.live _ x hx).known (lt_irrefl _)

/-- An id above `sid_cur` is new to the map. -/
theorem SessionsInv.id_fresh (h : SessionsInv srv) {e : RdictEntry Nat Nat}
    (he : e ∈ srv.mapClients.entries) : ¬ HasKey uint64Funcs (srv.sidCur + 1) e := by
  rintro ⟨k, hk, heq⟩
  obtain ⟨r, y, -, hr, hkey⟩ := h.entry e he
  have hle := (h.live r y hr).id_le
  rw [hk] at hkey
  cases hkey
  have : y.dsId = srv.sidCur + 1 := by simpa [uint64Funcs] using heq
  omega

/-- What `on_session_close` does to a session in memory: it takes the only entry of the session. -/
theorem SessionsInv.onSessionClose_eq (h : SessionsInv srv) (hx : srv.sessions s = some x)
    (closing : List Nat) :
    ∃ d' e, UvServer.onSessionClose { srv with closing } s = .ok { srv with
        closing
        mapClients := d'
        sessions := Function.update srv.sessions s none
        events := srv.events ++ (srv.onCode s rcodeErrIpcDisconnect ++
          [.releaseReadCache s, .releaseWriteBuff s, .freeStream s, .freeDs s]) } ∧
      Roomy uint64Funcs d' ∧ d'.entryNull = none ∧ srv.mapClients.entries.Perm (e :: d'.entries) ∧
      e.value = some s ∧ ∀ e' ∈ d'.entries, e'.value ≠ some s := by
  have hopen := h.live s x hx
  obtain ⟨e, he, hkey, hval⟩ := hopen.entry
  have hkey' : uint64Key x.dsId = some x.dsId := if_neg hopen.id_pos
  have hhas : HasKey uint64Funcs x.dsId e := ⟨x.dsId, hkey, beq_self_eq_true _⟩
  have hfind := rdictFind_present uint64Funcs_compatible h.roomy.inv h.roomy.buckets he hhas
  obtain ⟨d', hremove, hinv', hshape, hperm⟩ :=
    rdictRemove_entry uint64Funcs_compatible h.roomy.inv he hkey
  have hroomy' : Roomy uint64Funcs d' := by
    obtain ⟨-, -, -, hfree⟩ := rdictRemove_spec uint64Funcs_compatible h.roomy.inv hremove
    exact ⟨hinv', hshape.buckets ▸ h.roomy.buckets, fun b => hfree b (h.roomy.lastFree b)⟩
  refine ⟨d', e, ?_, hroomy', hshape.entryNull.trans h.null, hperm, hval, fun e' he' hval' => ?_⟩
  · simp only [UvServer.onSessionClose, hx, if_pos hopen.dsType, hkey', hfind, hremove, bind,
      Except.bind, pure, Except.pure]
    rfl
  · obtain ⟨r, y, hr, hy, hkey''⟩ := h.entry e' (hperm.mem_iff.mpr (List.mem_cons_of_mem e he'))
    rw [hval'] at hr
    cases hr
    rw [hx] at hy
    cases hy
    have hpair := pairwise_perm hperm h.roomy.inv.unique
    exact (List.pairwise_cons.mp hpair).1 e' he' ⟨x.dsId, hhas, x.dsId, hkey'', beq_self_eq_true _⟩

/-- A released session. -/
theorem OpenSession.release (h : OpenSession srv s x) {code : Int}
    (hclosing : srv.closing.count s = 1) (hcount : srv'.count = srv.count)
    (hclosing' : srv'.closing = srv.closing.erase s) (hshutdowns : srv'.shutdowns = srv.shutdowns)
    (hevents : srv'.events = srv.events ++ (srv.onCode s code ++
      [.releaseReadCache s, .releaseWriteBuff s, .freeStream s, .freeDs s])) : NoSession srv' s := by
  obtain ⟨-, hcloses, hread, hwrite, hstream, hds⟩ := count_release srv s code
  generalize srv.onCode s code ++
    [.releaseReadCache s, .releaseWriteBuff s, .freeStream s, .freeDs s] = evs at *
  have hpending := h.pending
  have hreleased := h.released
  simp only [UvServer.released, Prod.mk.injEq] at hreleased
  obtain ⟨h₁, h₂, h₃, h₄⟩ := hreleased
  refine ⟨?_, ?_, fun _ => ⟨?_, ?_⟩, fun hge => ?_⟩
  · rw [hclosing', List.count_erase_self]
    omega
  · rw [hshutdowns]
    omega
  · rw [hevents, List.count_append, hcloses, h.closes]
    omega
  · rw [UvServer.released, hevents, List.count_append, List.count_append, List.count_append,
      List.count_append, h₁, h₂, h₃, h₄, hread, hwrite, hstream, hds]
  · have := h.known
    omega

/-- The callback of `uv_close` finds the session in the map and releases it. -/
theorem SessionsInv.closeDone (h : SessionsInv srv) (hmem : s ∈ srv.closing)
    (hrun : UvServer.onSessionClose { srv with closing := srv.closing.erase s } s = .ok srv') :
    SessionsInv srv' := by
  have hpos : 0 < srv.closing.count s := List.count_pos_iff.mpr hmem
  rcases hx : srv.sessions s with _ | x
  · have := (h.free s hx).closing
    omega
  have hopen := h.live s x hx
  have hpending := hopen.pending
  obtain ⟨d', e, heq, hroomy, hnull, hperm, hval, hrest⟩ := h.onSessionClose_eq hx (srv.closing.erase s)
  rw [heq] at hrun
  cases hrun
  obtain ⟨hevs, -⟩ := count_release srv s rcodeErrIpcDisconnect
  have hgone : Function.update srv.sessions s none s = none := Function.update_self ..
  have habout : About srv { srv with
      closing := srv.closing.erase s
      mapClients := d'
      sessions := Function.update srv.sessions s none
      events := srv.events ++ (srv.onCode s rcodeErrIpcDisconnect ++
        [.releaseReadCache s, .releaseWriteBuff s, .freeStream s, .freeDs s]) } s := by
    refine ⟨fun r hr => ?_, fun e' hne => ?_, fun _ _ => Iff.rfl, le_refl _, hroomy, hnull, rfl, rfl⟩
    · exact untouched_of_events hevs hr rfl (Function.update_of_ne hr _ _) (List.count_erase_of_ne hr) rfl
    · rw [hperm.mem_iff, List.mem_cons, or_iff_right]
      rintro rfl
      exact hne hval
  apply h.about habout
  · intro y hy
    cases hgone.symm.trans hy
  · intro _
    exact hopen.release (by omega) rfl rfl rfl rfl
  · intro e' he' hval'
    exact absurd hval' (hrest e' he')
  · intro hl
    rw [h.empty hl] at hperm
    exact absurd hperm.length_eq (by simp)

/-- What `on_connection` does: the map has one more entry, for a new id. -/
theorem SessionsInv.onConnection_inv (h : SessionsInv srv) {fuel : Nat}
    (hsid : srv.sidCur + 1 < 18446744073709551616)
    (hroom : KeepsRoom uint64Funcs (fun _ => true) scale srv.mapClients
      (.add (some (srv.sidCur + 1)) (some srv.count)))
    (hrun : srv.onConnection scale fuel = .ok srv') :
    ∃ d' e, srv' = { srv with
        sidCur := srv.sidCur + 1
        mapClients := d'
        sessions := Function.update srv.sessions srv.count (some ⟨srv.sidCur + 1, .session, true⟩)
        count := srv.count + 1
        events := srv.events ++ srv.onCode srv.count rcodeErrIpcConnect } ∧
      Roomy uint64Funcs d' ∧ d'.entryNull = none ∧ d'.entries.Perm (e :: srv.mapClients.entries) ∧
      e.key = some (srv.sidCur + 1) ∧ e.value = some srv.count := by
  have hmod : (srv.sidCur + 1) % 18446744073709551616 = srv.sidCur + 1 := Nat.mod_eq_of_lt hsid
  have hkey : uint64Key (srv.sidCur + 1) = some (srv.sidCur + 1) := if_neg (Nat.succ_ne_zero _)
  simp only [UvServer.onConnection, hmod, hkey] at hrun
  obtain ⟨⟨code, d'⟩, hadd, hrun⟩ := Except.of_bind_ok hrun
  simp only [pure, Except.pure, Except.ok.injEq] at hrun
  have hroomy' := h.roomy.step uint64Funcs_compatible hroom ⟨fuel, code, hadd⟩
  have hadded := rdictAdd_spec uint64Funcs_compatible h.roomy.inv
    (fun n hn => (hroom.settled n hn).2.1) hadd
  rcases hadded.entries with ⟨-, ext, rest, e, hperm, ⟨k, hk, heq⟩, hval, -, hold⟩ | ⟨-, -, i, hi⟩
  · have hkk : k = srv.sidCur + 1 := by simpa [uint64Funcs] using heq
    refine ⟨d', e, hrun.symm, hroomy', hadded.entryNull.trans h.null, ?_, hkk ▸ hk, hval⟩
    rcases hold with hsame | ⟨y, hy, hmore⟩
    · exact hperm.trans (hsame.symm.cons e)
    · exact absurd hy (h.id_fresh (hmore.mem_iff.mpr List.mem_cons_self))
  · cases hi

/-- The session of a new connection. -/
theorem NoSession.opened (h : NoSession srv srv.count) {id : Nat} {code : Int} (hid : id ≠ 0)
    (hsid : srv'.sidCur = id) (hcount : srv'.count = srv.count + 1)
    (hclosing : srv'.closing = srv.closing) (hshutdowns : srv'.shutdowns = srv.shutdowns)
    (hevents : srv'.events = srv.events ++ srv.onCode srv.count code)
    (hentry : ∃ e ∈ srv'.mapClients.entries, e.key = some id ∧ e.value = some srv.count) :
    OpenSession srv' srv.count ⟨id, .session, true⟩ := by
  obtain ⟨-, hcloses, hread, hwrite, hstream, hds⟩ := count_onCode srv srv.count code
  obtain ⟨hcloses₀, hreleased₀⟩ := h.unused (le_refl _)
  simp only [UvServer.released, Prod.mk.injEq] at hreleased₀
  obtain ⟨h₁, h₂, h₃, h₄⟩ := hreleased₀
  refine ⟨by omega, rfl, hid, hsid.ge, hentry, ?_, ?_, ?_⟩
  · rw [hevents, List.count_append, hcloses, hcloses₀, hclosing, h.closing]
  · rw [hshutdowns, hclosing, h.closing, h.shutdowns]
    exact le_refl 1
  · rw [UvServer.released, hevents, List.count_append, List.count_append, List.count_append,
      List.count_append, h₁, h₂, h₃, h₄, hread, hwrite, hstream, hds]

/-- A new session. -/
theorem SessionsInv.connection (h : SessionsInv srv) {fuel : Nat}
    (hlisten : srv.listening = true) (hsid : srv.sidCur + 1 < 18446744073709551616)
    (hroom : KeepsRoom uint64Funcs (fun _ => true) scale srv.mapClients
      (.add (some (srv.sidCur + 1)) (some srv.count)))
    (hrun : srv.onConnection scale fuel = .ok srv') : SessionsInv srv' := by
  obtain ⟨d', e, rfl, hroomy, hnull, hperm, hkey, hval⟩ := h.onConnection_inv hsid hroom hrun
  have hnone := h.next_unused
  obtain ⟨hevs, -⟩ := count_onCode srv srv.count rcodeErrIpcConnect
  have hself : Function.update srv.sessions srv.count (some ⟨srv.sidCur + 1, .session, true⟩) srv.count =
      some ⟨srv.sidCur + 1, .session, true⟩ := Function.update_self ..
  have habout : About srv { srv with
      sidCur := srv.sidCur + 1
      mapClients := d'
      sessions := Function.update srv.sessions srv.count (some ⟨srv.sidCur + 1, .session, true⟩)
      count := srv.count + 1
      events := srv.events ++ srv.onCode srv.count rcodeErrIpcConnect } srv.count := by
    refine ⟨fun r hr => ?_, fun e' hne => ?_, fun r hr => ?_, Nat.le_succ _, hroomy, hnull, rfl, rfl⟩
    · exact untouched_of_events hevs hr rfl (Function.update_of_ne hr _ _) rfl rfl
    · rw [hperm.mem_iff, List.mem_cons, or_iff_right]
      rintro rfl
      exact hne hval
    · show r < srv.count ↔ r < srv.count + 1
      omega
  apply h.about habout
  · intro y hy
    cases hself.symm.trans hy
    exact (h.free _ hnone).opened (Nat.succ_ne_zero _) rfl rfl rfl rfl rfl
      ⟨e, hperm.mem_iff.mpr List.mem_cons_self, hkey, hval⟩
  · intro hn
    cases hself.symm.trans hn
  · intro e' he' hval'
    rcases List.mem_cons.mp (hperm.mem_iff.mp he') with rfl | hold
    · exact ⟨_, hself, hkey⟩
    · obtain ⟨r, y, hr, hy, -⟩ := h.entry e' hold
      rw [hval'] at hr
      cases hr
      rw [hnone] at hy
      cases hy
  · intro hl
    rw [hlisten] at hl
    cases hl

/-- A stop that finds the map empty. -/
theorem SessionsInv.stop (h : SessionsInv srv) (hsize : srv.mapClients.size = 0)
    (hrun : srv.ripcStop = .ok srv') : SessionsInv srv' := by
  have hskip : srv.stopClients = .ok srv := by
    rw [UvServer.stopClients, if_neg (by omega)]
  simp only [UvServer.ripcStop, hskip, bind, Except.bind, pure, Except.pure, Except.ok.injEq] at hrun
  have hnil : srv.mapClients.entries = [] := by
    have hlen := h.roomy.inv.size_eq
    exact List.eq_nil_of_length_eq_zero (by omega)
  have hu : ∀ r, Untouched srv srv' r := by
    intro r
    rw [← hrun]
    exact ⟨rfl, rfl, rfl, rfl, rfl⟩
  have hmap : srv'.mapClients = srv.mapClients := by rw [← hrun]
  have hcount : srv'.count = srv.count := by rw [← hrun]
  have hsid : srv'.sidCur = srv.sidCur := by rw [← hrun]
  refine ⟨hmap ▸ h.roomy, hmap ▸ h.null, fun e he => ?_, fun r y hr => ?_, fun r hr => ?_,
    fun _ => by rw [← hrun], fun _ => hmap ▸ hnil⟩
  · rw [hmap, hnil] at he
    cases he
  · have hopen := h.live r y ((hu r).sessions ▸ hr)
    exact hopen.of_untouched (hu r) (hcount ▸ hopen.known) hsid.ge (hmap ▸ hopen.entry)
  · exact (h.free r ((hu r).sessions ▸ hr)).of_untouched (hu r) (by rw [hcount])

theorem SessionsInv.step (h : SessionsInv srv) {input : UvServerInput}
    (hguard : StopsEmpty scale srv input) (hstep : UvServerStep scale srv input srv') :
    SessionsInv srv' := by
  obtain ⟨henabled, fuel, hrun⟩ := hstep
  cases input with
  | connection => exact h.connection henabled (hguard.sidCur rfl) (hguard.room rfl) hrun
  | read s nread writable uvShutdown => exact h.read henabled hrun
  | shutdownDone s => exact h.shutdownDone henabled hrun
  | stop => exact h.stop (hguard.stop rfl) hrun
  | closeDone s => exact h.closeDone henabled hrun

end steps

end Funra
