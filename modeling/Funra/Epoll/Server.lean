import Mathlib.Data.List.Nodup
import Funra.Codec.Basic
import Funra.Rdict.Iter
import Funra.Rdict.Runs

/-!
# Closing the epoll server

`ripc_close_server` iterates over `map_clients` while `close_session` removes from it the session the
iteration has just returned. `rdict_remove` moves the last entry of the bucket into the freed slot, which
the iteration has passed: that session is not closed. `ClosesEverySession` therefore holds exactly when no
bucket has two sessions (`closesEverySession_iff`).

A session is known by the address of its data source; `events` tell what is done to it.
-/

namespace Funra

open Mem Table

/-- A pointer to a socket. -/
inductive StreamPtr
  | null | live | freed
  deriving DecidableEq, Repr

/-- What is done to a data source, `none` is the server. -/
inductive ServerEvent
  | releaseBuffers (ds : Nat)
  | epollRemove (ds : Option Nat)
  | socketClose (ds : Option Nat)
  | freeSession (ds : Nat)
  deriving DecidableEq, Repr

structure EpollSession where
  dsId : Nat
  state : RipcState
  stream : StreamPtr
  deriving DecidableEq, Repr

/-- `sessions` is the memory of the data sources. -/
structure EpollServer where
  state : RipcState
  stream : StreamPtr
  mapClients : Option (Rdict Nat Nat Unit)
  sessions : Nat → Option EpollSession
  events : List ServerEvent

/-- `rdict_remove`; on a missing map it does nothing. -/
def removeClient (map : Option (Rdict Nat Nat Unit)) (dsId : Nat) :
    Except Fault (Option (Rdict Nat Nat Unit)) :=
  match map with
  | none => .ok none
  | some d => (rdictRemove uint64Funcs d (uint64Key dsId)).map fun r => some r.2

def closeEvents (a : Nat) (stream : StreamPtr) : List ServerEvent :=
  .releaseBuffers a ::
    ((if stream = .null then [] else [.epollRemove (some a), .socketClose (some a)]) ++ [.freeSession a])

/-- What happens to the listening socket. -/
def serverEvents : List ServerEvent := [.epollRemove none, .socketClose none]

def closeSession (srv : EpollServer) (a : Nat) : Except Fault EpollServer :=
  match srv.sessions a with
  | none => .error .useAfterFree
  | some s =>
    if s.state = .closed then .ok srv
    else if s.stream = .freed then .error .useAfterFree
    else do
      let map ← removeClient srv.mapClients s.dsId
      return { srv with
        mapClients := map
        sessions := Function.update srv.sessions a none
        events := srv.events ++ closeEvents a s.stream }

/-- The loop over `map_clients`; each round goes on to a later slot. -/
def closeLoop : Nat → EpollServer → Option Nat → Except Fault EpollServer
  | 0, _, _ => .error .outOfFuel
  | fuel + 1, srv, next =>
    match srv.mapClients with
    | none => .error .nullDeref
    | some d => do
      match ← rdictNext d next with
      | (none, _) => return srv
      | (some ref, next) =>
        match refValue d ref with
        | none => .error .nullDeref
        | some a =>
          let srv ← closeSession srv a
          closeLoop fuel srv next

/-- The loop and the `rdict_clear` behind it. -/
def closeClients (srv : EpollServer) : Except Fault EpollServer :=
  match srv.mapClients with
  | none => .ok srv
  | some d =>
    if d.size > 0 then do
      let srv ← closeLoop (d.capacity + 2) srv none
      let map ← match srv.mapClients with
        | none => pure none
        | some d => (rdictClear uint64Funcs d).map some
      return { srv with mapClients := map }
    else .ok srv

/-- `stream` is dereferenced before it is looked at, and is not reset. -/
def ripcCloseServer (srv : EpollServer) : Except Fault EpollServer :=
  match srv.stream with
  | .null => .error .nullDeref
  | .freed => .error .useAfterFree
  | .live =>
    if srv.state = .closed then .ok srv
    else do
      let srv ← closeClients { srv with
        stream := .freed
        events := srv.events ++ serverEvents }
      return { srv with state := .closed }

/-! ### The property -/

/-- The addresses in the map, the one of the `NULL` key first. -/
def clients (d : Rdict Nat Nat Unit) : List (Option Nat) :=
  (d.entryNull.toList ++ d.entries).map RdictEntry.value

/-- The session was removed from epoll, its socket closed, its buffers released and it itself freed, each
of it once. -/
def ClosedOnce (events : List ServerEvent) (a : Nat) : Prop :=
  events.count (.releaseBuffers a) = 1 ∧ events.count (.epollRemove (some a)) = 1 ∧
    events.count (.socketClose (some a)) = 1 ∧ events.count (.freeSession a) = 1

def ClosesEverySession (srv : EpollServer) (d : Rdict Nat Nat Unit) : Prop :=
  ∃ srv', ripcCloseServer srv = .ok srv' ∧ ∀ a, some a ∈ clients d → ClosedOnce srv'.events a

/-- `e` is the entry of an open session with the key `key`. -/
def Client (srv : EpollServer) (key : Option Nat) (e : RdictEntry Nat Nat) : Prop :=
  ∃ a s, e.value = some a ∧ srv.sessions a = some s ∧ uint64Key s.dsId = key ∧ s.state ≠ .closed ∧
    s.stream = .live

/-- An open server, `d` is its map. -/
structure Serving (srv : EpollServer) (d : Rdict Nat Nat Unit) : Prop where
  state : srv.state ≠ .closed
  stream : srv.stream = .live
  map : srv.mapClients = some d
  inv : d.Inv uint64Funcs
  width : 2 ≤ d.bucketCapacity
  client : ∀ e ∈ d.entries, Client srv e.key e
  clientNull : ∀ e, d.entryNull = some e → Client srv none e
  distinct : (clients d).Nodup
  events : srv.events = []

/-! ### What a removal leaves behind the cursor -/

section cursor

variable {d d' : Rdict Nat Nat Unit} {e : RdictEntry Nat Nat} {i j : Nat}

/-- An entry in a slot that the iteration has passed. -/
def LeftBehind (d : Rdict Nat Nat Unit) (i : Nat) : Prop :=
  ∃ j < i, Occupied RdictEntry.occupied d.slots j

/-- A bucket that the iteration has not reached, with two entries. -/
def Shared (d : Rdict Nat Nat Unit) (i : Nat) : Prop :=
  ∃ b, i ≤ b * d.bucketCapacity ∧ 2 ≤ load uint64Funcs d.buckets d.entries b

/-- Slots and loads, by the row and the place in it. -/
theorem occupied_iff_mod (h : d.Inv uint64Funcs) (i : Nat) :
    Occupied RdictEntry.occupied d.slots i ↔
      i % d.bucketCapacity < load uint64Funcs d.buckets d.entries (i / d.bucketCapacity) := by
  have hiff := occupied_iff_lt_load (b := i / d.bucketCapacity) h.compact h.placed
    (Nat.mod_lt i h.width)
  rw [Nat.mul_comm, Nat.div_add_mod] at hiff
  exact hiff

/-- `d'` is `d` without the entry `e` of slot `j`. -/
structure Removed (d d' : Rdict Nat Nat Unit) (j : Nat) (e : RdictEntry Nat Nat) : Prop where
  inv : d.Inv uint64Funcs
  inv' : d'.Inv uint64Funcs
  shape : SameShape d d'
  slot : d.slots[j]? = some e
  occupied : e.occupied = true
  perm : d.entries.Perm (e :: d'.entries)

theorem Removed.load_eq (h : Removed d d' j e) (b : Nat) :
    load uint64Funcs d.buckets d.entries b = load uint64Funcs d'.buckets d'.entries b +
      if b = j / d.bucketCapacity then 1 else 0 := by
  obtain ⟨k, hk⟩ := occupied_iff.mp h.occupied
  have hrow := h.inv.placed j e k h.slot hk
  rw [load_perm h.perm, load, load, List.countP_cons, h.shape.buckets]
  congr 1
  apply if_congr _ rfl rfl
  rw [inBucket_iff hk, ← hrow]
  exact eq_comm

/-- Entries before the cursor stay. -/
theorem Removed.leftBehind (h : Removed d d' j e) (hij : i ≤ j) (hleft : LeftBehind d i) :
    LeftBehind d' (j + 1) := by
  obtain ⟨l, hl, hocc⟩ := hleft
  have hocc' : Occupied RdictEntry.occupied d.slots j := ⟨e, h.slot, h.occupied⟩
  refine ⟨l, by omega, ?_⟩
  rw [occupied_iff_mod h.inv] at hocc hocc'
  rw [occupied_iff_mod h.inv', h.shape.bucketCapacity]
  rw [h.load_eq] at hocc hocc'
  rw [if_pos rfl] at hocc'
  by_cases hrow : l / d.bucketCapacity = j / d.bucketCapacity
  · have hdl := Nat.div_add_mod l d.bucketCapacity
    have hdj := Nat.div_add_mod j d.bucketCapacity
    rw [hrow] at hdl ⊢
    omega
  · rw [if_neg hrow] at hocc
    exact hocc

/-- The second entry of a bucket moves into the slot of the first. -/
theorem Removed.shared (h : Removed d d' j e)
    (hfirst : ∀ l, i ≤ l → l < j → ¬ Occupied RdictEntry.occupied d.slots l) (hshared : Shared d i) :
    LeftBehind d' (j + 1) ∨ Shared d' (j + 1) := by
  obtain ⟨b, hb, hload⟩ := hshared
  have hw := h.inv.width
  have hdiv : b * d.bucketCapacity / d.bucketCapacity = b := Nat.mul_div_cancel b hw
  have hstart : Occupied RdictEntry.occupied d.slots (b * d.bucketCapacity) := by
    rw [occupied_iff_mod h.inv, Nat.mul_mod_left, hdiv]
    omega
  have hle : j ≤ b * d.bucketCapacity := by
    by_contra hlt
    exact hfirst _ hb (by omega) hstart
  rw [h.load_eq] at hload
  rcases Nat.lt_or_eq_of_le hle with hlt | heq
  · have hrow : ¬ b = j / d.bucketCapacity := by
      have := Nat.div_lt_of_lt_mul (show j < d.bucketCapacity * b by rw [Nat.mul_comm]; exact hlt)
      omega
    rw [if_neg hrow] at hload
    exact .inr ⟨b, by rw [h.shape.bucketCapacity]; omega, hload⟩
  · refine .inl ⟨j, Nat.lt_succ_self j, ?_⟩
    rw [occupied_iff_mod h.inv', h.shape.bucketCapacity, heq, Nat.mul_mod_left, hdiv]
    split at hload <;> omega

/-- Buckets of one entry leave nothing behind. -/
theorem Removed.nothing_left (h : Removed d d' j e)
    (hone : ∀ b, load uint64Funcs d.buckets d.entries b ≤ 1)
    (hfirst : ∀ l < j, ¬ Occupied RdictEntry.occupied d.slots l) :
    (∀ b, load uint64Funcs d'.buckets d'.entries b ≤ 1) ∧
      ∀ l < j + 1, ¬ Occupied RdictEntry.occupied d'.slots l := by
  have hle : ∀ b, load uint64Funcs d'.buckets d'.entries b ≤
      load uint64Funcs d.buckets d.entries b := by
    intro b
    rw [h.load_eq b]
    omega
  refine ⟨fun b => (hle b).trans (hone b), fun l hl hocc => ?_⟩
  rw [occupied_iff_mod h.inv', h.shape.bucketCapacity] at hocc
  rcases Nat.lt_or_eq_of_le (Nat.lt_succ_iff.mp hl) with hlt | rfl
  · apply hfirst l hlt
    rw [occupied_iff_mod h.inv]
    exact lt_of_lt_of_le hocc (hle _)
  · have hrow := h.load_eq (l / d.bucketCapacity)
    rw [if_pos rfl] at hrow
    have := hone (l / d.bucketCapacity)
    omega

end cursor

/-! ### The loop -/

/-- `cs` are closed, the sessions of the map are open; together they are `all`. -/
structure Closing (all : List (Option Nat)) (base : List ServerEvent) (srv : EpollServer)
    (d : Rdict Nat Nat Unit) (cs : List Nat) : Prop where
  map : srv.mapClients = some d
  inv : d.Inv uint64Funcs
  width : 2 ≤ d.bucketCapacity
  null : d.entryNull = none
  client : ∀ e ∈ d.entries, Client srv e.key e
  all_eq : all.Perm (cs.map some ++ d.entries.map RdictEntry.value)
  distinct : all.Nodup
  events : srv.events = base ++ cs.flatMap fun a => closeEvents a .live

section loop

variable {all : List (Option Nat)} {base : List ServerEvent} {srv : EpollServer}
  {d : Rdict Nat Nat Unit} {cs : List Nat} {e : RdictEntry Nat Nat} {j : Nat}

/-- The session of another address is as it was. -/
theorem Client.update {srv' : EpollServer} {a : Nat} {key : Option Nat} (h : Client srv key e)
    (hsessions : srv'.sessions = Function.update srv.sessions a none) (hne : e.value ≠ some a) :
    Client srv' key e := by
  obtain ⟨a', s, hval, hs, hrest⟩ := h
  refine ⟨a', s, hval, ?_, hrest⟩
  have hne' : a' ≠ a := by
    rintro rfl
    exact hne hval
  rw [hsessions, Function.update_of_ne hne']
  exact hs

/-- `close_session` on the session of an entry. -/
theorem Closing.close (h : Closing all base srv d cs) (hslot : d.slots[j]? = some e)
    (hocc : e.occupied = true) : ∃ a srv' d', e.value = some a ∧ closeSession srv a = .ok srv' ∧
      Closing all base srv' d' (cs ++ [a]) ∧ Removed d d' j e := by
  have he : e ∈ d.entries := mem_entries.mpr ⟨j, hslot, hocc⟩
  obtain ⟨a, s, hval, hs, hkey, hstate, hstream⟩ := h.client e he
  obtain ⟨k, hk⟩ := occupied_iff.mp hocc
  rw [hk] at hkey
  obtain ⟨d', hrun, hinv', hshape, hperm⟩ := rdictRemove_entry uint64Funcs_compatible h.inv he hk
  have hremove : removeClient srv.mapClients s.dsId = .ok (some d') := by
    rw [h.map, removeClient, hkey, hrun]
    rfl
  have hnotfreed : ¬ s.stream = .freed := by
    rw [hstream]
    decide
  obtain ⟨srv', hsrv'⟩ : ∃ srv', srv' = { srv with
      mapClients := some d'
      sessions := Function.update srv.sessions a none
      events := srv.events ++ closeEvents a s.stream } := ⟨_, rfl⟩
  refine ⟨a, srv', d', hval, ?_, ?_, ⟨h.inv, hinv', hshape, hslot, hocc, hperm⟩⟩
  · rw [hsrv']
    simp only [closeSession, hs, if_neg hstate, if_neg hnotfreed, hremove, bind, Except.bind]
    rfl
  · -- the address is that of no other entry
    have hall : all.Perm (some a :: (cs.map some ++ d'.entries.map RdictEntry.value)) := by
      have hvals := hperm.map RdictEntry.value
      rw [List.map_cons, hval] at hvals
      exact h.all_eq.trans ((hvals.append_left _).trans List.perm_middle)
    have hfresh := (List.nodup_cons.mp (hall.nodup h.distinct)).1
    refine ⟨by rw [hsrv'], hinv', ?_, hshape.entryNull.trans h.null, fun x hx => ?_, ?_, h.distinct, ?_⟩
    · rw [hshape.bucketCapacity]
      exact h.width
    · apply (h.client x (hperm.mem_iff.mpr (List.mem_cons_of_mem e hx))).update (by rw [hsrv'])
      intro hxval
      exact hfresh (List.mem_append_right _ (hxval ▸ List.mem_map_of_mem hx))
    · rw [List.map_append, List.append_assoc]
      exact hall.trans List.perm_middle.symm
    · rw [hsrv', h.events, hstream, List.flatMap_append, List.append_assoc, List.flatMap_singleton]

theorem closeLoop_round {fuel : Nat} {next next' : Option Nat} {ref : RdictRef} {a : Nat}
    {srv' : EpollServer} (hmap : srv.mapClients = some d)
    (hnext : rdictNext d next = .ok (some ref, next')) (hvalue : refValue d ref = some a)
    (hclose : closeSession srv a = .ok srv') :
    closeLoop (fuel + 1) srv next = closeLoop fuel srv' next' := by
  simp only [closeLoop, hmap, hnext, hvalue, hclose, bind, Except.bind]

theorem closeLoop_end {fuel : Nat} {next next' : Option Nat} (hmap : srv.mapClients = some d)
    (hnext : rdictNext d next = .ok (none, next')) : closeLoop (fuel + 1) srv next = .ok srv := by
  simp only [closeLoop, hmap, hnext, bind, Except.bind]
  rfl

/-- The loop ends, and what is left in the map then. -/
theorem Closing.loop {fuel i : Nat} (h : Closing all base srv d cs) (hi : i ≤ d.capacity)
    (hfuel : d.capacity < i + fuel) :
    ∃ srv' d' cs', closeLoop fuel srv (some i) = .ok srv' ∧ Closing all base srv' d' cs' ∧
      (LeftBehind d i ∨ Shared d i → d'.entries ≠ []) ∧
      ((∀ b, load uint64Funcs d.buckets d.entries b ≤ 1) →
        (∀ l < i, ¬ Occupied RdictEntry.occupied d.slots l) → d'.entries = []) := by
  induction fuel generalizing srv d cs i with
  | zero => omega
  | succ fuel ih =>
    obtain ⟨r, hr, hnext⟩ := nextFrom_spec (h.inv.tidy.iterable h.width i)
    have hrdict : rdictNext d (some i) = .ok r := hr
    rcases hnext with ⟨j, hij, rfl, ⟨e, hslot, hocc⟩, hskip⟩ | ⟨i', hii', rfl, hnone⟩
    · obtain ⟨a, srv₁, d₁, hval, hclose, hclosing, hremoved⟩ := h.close hslot hocc
      have hlt := (List.getElem?_eq_some_iff.mp hslot).1
      rw [h.inv.length] at hlt
      have hcap := hremoved.shape.capacity
      obtain ⟨srv', d', cs', hrun, hclosing', hleft, hempty⟩ :=
        ih (i := j + 1) hclosing (by omega) (by omega)
      refine ⟨srv', d', cs', ?_, hclosing', fun hbad => hleft ?_, fun hone hfirst => ?_⟩
      · have hvalue : refValue d (.slot j) = some a := by
          rw [refValue, hslot]
          exact hval
        rw [closeLoop_round h.map hrdict hvalue hclose]
        exact hrun
      · rcases hbad with hb | hs
        · exact .inl (hremoved.leftBehind hij hb)
        · exact hremoved.shared hskip hs
      · have hfirst' : ∀ l < j, ¬ Occupied RdictEntry.occupied d.slots l := by
          intro l hl
          rcases Nat.lt_or_ge l i with hlt | hge
          · exact hfirst l hlt
          · exact hskip l hge hl
        obtain ⟨hone', hnothing⟩ := hremoved.nothing_left hone hfirst'
        exact hempty hone' hnothing
    · refine ⟨srv, d, cs, closeLoop_end h.map hrdict, h, fun hbad => ?_, fun _ hfirst => ?_⟩
      · rcases hbad with ⟨l, -, x, hx, ho⟩ | ⟨b, hb, hload⟩
        · exact List.ne_nil_of_mem (mem_entries.mpr ⟨l, hx, ho⟩)
        · intro hnil
          rw [hnil, load, List.countP_nil] at hload
          omega
      · apply filter_eq_nil_of_free
        intro l hocc
        rcases Nat.lt_or_ge l i with hlt | hge
        · exact hfirst l hlt hocc
        · exact hnone l hge hocc

end loop

/-! ### Every session, once -/

theorem count_closeEvents (ev : ServerEvent) {a : Nat} (cs : List Nat)
    (hev : ∀ c, (closeEvents c .live).count ev = if c = a then 1 else 0)
    (hserver : serverEvents.count ev = 0) :
    (serverEvents ++ cs.flatMap fun c => closeEvents c .live).count ev = cs.count a := by
  rw [List.count_append, hserver, Nat.zero_add]
  induction cs with
  | nil => rfl
  | cons c cs ih =>
    rw [List.flatMap_cons, List.count_append, ih, hev, List.count_cons]
    by_cases hc : c = a
    · simp [hc, Nat.add_comm]
    · simp [hc]

theorem closedOnce_iff (cs : List Nat) (a : Nat) :
    ClosedOnce (serverEvents ++ cs.flatMap fun c => closeEvents c .live) a ↔ cs.count a = 1 := by
  have hbuffers := count_closeEvents (.releaseBuffers a) (a := a) cs
    (fun c => by simp [closeEvents, List.count_cons]) rfl
  have hepoll := count_closeEvents (.epollRemove (some a)) (a := a) cs
    (fun c => by simp [closeEvents, List.count_cons]) rfl
  have hsocket := count_closeEvents (.socketClose (some a)) (a := a) cs
    (fun c => by simp [closeEvents, List.count_cons]) rfl
  have hfree := count_closeEvents (.freeSession a) (a := a) cs
    (fun c => by simp [closeEvents, List.count_cons]) rfl
  rw [ClosedOnce, hbuffers, hepoll, hsocket, hfree]
  constructor
  · rintro ⟨h, -, -, -⟩
    exact h
  · intro h
    exact ⟨h, h, h, h⟩

section server

variable {srv : EpollServer} {d : Rdict Nat Nat Unit}

/-- The first round is about the `NULL` key. -/
theorem Serving.start (h : Serving srv d) : ∃ srv₀ d₀ cs fuel,
    closeLoop (d.capacity + 2) { srv with
      stream := .freed
      events := srv.events ++ serverEvents } none = closeLoop fuel srv₀ (some 0) ∧
    d₀.capacity < 0 + fuel ∧ d₀.buckets = d.buckets ∧ d₀.entries = d.entries ∧
    Closing (clients d) serverEvents srv₀ d₀ cs := by
  have hevents : srv.events ++ serverEvents = serverEvents ++ [] := by rw [h.events, List.append_nil]; rfl
  rw [hevents]
  cases hnull : d.entryNull with
  | none =>
    refine ⟨{ srv with stream := .freed, events := serverEvents ++ [] }, d, [], d.capacity + 2, ?_,
      by omega, rfl, rfl, h.map, h.inv, h.width, hnull, h.client, ?_, h.distinct, rfl⟩
    · unfold closeLoop
      simp only [h.map, rdictNext_none hnull]
    · rw [clients, hnull]
      exact List.Perm.refl _
  | some e =>
    obtain ⟨a, s, hval, hs, hkey, hstate, hstream⟩ := h.clientNull e hnull
    obtain ⟨hinv, hentries, -, hnull', hbc⟩ := removeNull_spec h.inv
    have hdist : (some a :: d.entries.map RdictEntry.value).Nodup := by
      have := h.distinct
      rw [clients, hnull, List.map_append] at this
      rw [← hval]
      exact this
    refine ⟨{ srv with
        stream := .freed
        mapClients := some (removeNull uint64Funcs d)
        sessions := Function.update srv.sessions a none
        events := serverEvents ++ closeEvents a .live },
      removeNull uint64Funcs d, [a], d.capacity + 1, ?_, ?_, removeNull_buckets, hentries,
      rfl, hinv, hbc ▸ h.width, hnull', ?_, ?_, h.distinct, by simp⟩
    · have hremove : removeClient (some d) s.dsId = .ok (some (removeNull uint64Funcs d)) := by
        rw [removeClient, hkey]
        rfl
      have hnext : rdictNext d none = .ok (some .null, some 0) := by
        rw [rdictNext, hnull]
        rfl
      have hvalue : refValue d .null = some a := by
        rw [refValue, hnull]
        exact hval
      have hclose : closeSession { srv with
          stream := .freed
          events := serverEvents ++ [] } a = .ok { srv with
            stream := .freed
            mapClients := some (removeNull uint64Funcs d)
            sessions := Function.update srv.sessions a none
            events := serverEvents ++ closeEvents a .live } := by
        simp only [closeSession, hs, if_neg hstate, hstream, h.map, hremove, bind, Except.bind,
          List.append_nil]
        rfl
      exact closeLoop_round h.map hnext hvalue hclose
    · rw [removeNull_capacity]
      omega
    · intro x hx
      rw [hentries] at hx
      apply (h.client x hx).update rfl
      intro hxval
      exact (List.nodup_cons.mp hdist).1 (hxval ▸ List.mem_map_of_mem hx)
    · rw [clients, hnull, hentries]
      show (e.value :: d.entries.map RdictEntry.value).Perm (some a :: d.entries.map RdictEntry.value)
      rw [hval]

theorem mem_clients {a : Nat} (h : some a ∈ clients d) (hsize : ¬ d.size > 0)
    (hinv : d.Inv uint64Funcs) : False := by
  have hzero := hinv.size_eq
  rw [clients, List.map_append] at h
  cases hnull : d.entryNull with
  | some e =>
    rw [hnull] at hzero
    simp only [Option.isSome_some, if_true] at hzero
    omega
  | none =>
    rw [hnull] at hzero h
    have hnil : d.entries = [] := List.eq_nil_of_length_eq_zero (by omega)
    rw [hnil] at h
    simp at h

theorem closeClients_eq {srv₁ : EpollServer} {d₁ d₂ : Rdict Nat Nat Unit}
    (hmap : srv.mapClients = some d) (hsize : d.size > 0)
    (hloop : closeLoop (d.capacity + 2) srv none = .ok srv₁) (hmap₁ : srv₁.mapClients = some d₁)
    (hclear : rdictClear uint64Funcs d₁ = .ok d₂) :
    closeClients srv = .ok { srv₁ with mapClients := some d₂ } := by
  simp only [closeClients, hmap, if_pos hsize, bind, Except.bind, hloop, hmap₁, hclear]
  rfl

/-- What `ripc_close_server` does to the sessions of a server. -/
theorem Serving.closed (h : Serving srv d) (hsize : d.size > 0) :
    ∃ srv', ∃ d' : Rdict Nat Nat Unit, ∃ cs : List Nat, ripcCloseServer srv = .ok srv' ∧
      srv'.events = serverEvents ++ (cs.flatMap fun c => closeEvents c .live) ∧
      (clients d).Perm (cs.map some ++ d'.entries.map RdictEntry.value) ∧
      (∀ e ∈ d'.entries, ∃ a, e.value = some a) ∧
      (d'.entries = [] ↔ ∀ b, load uint64Funcs d.buckets d.entries b ≤ 1) := by
  obtain ⟨srv₀, d₀, cs₀, fuel, hstart, hfuel, hbuckets, hentries, hclosing⟩ := h.start
  obtain ⟨srv₁, d₁, cs, hloop, hclosed, hbad, hgood⟩ := hclosing.loop (Nat.zero_le _) hfuel
  obtain ⟨d₂, hclear⟩ := rdictClear_total hclosed.inv.tidy hclosed.width
  refine ⟨{ srv₁ with mapClients := some d₂, state := .closed }, d₁, cs, ?_, hclosed.events,
    hclosed.all_eq, fun e he => ?_, fun hnil b => ?_, fun hone => ?_⟩
  · have hclients : closeClients { srv with
        stream := .freed
        events := srv.events ++ serverEvents } = .ok { srv₁ with mapClients := some d₂ } :=
      closeClients_eq h.map hsize (hstart.trans hloop) hclosed.map hclear
    simp only [ripcCloseServer, h.stream, if_neg h.state, bind, Except.bind, hclients]
    rfl
  · obtain ⟨a, -, hval, -⟩ := hclosed.client e he
    exact ⟨a, hval⟩
  · by_contra hlt
    refine hbad (.inr ⟨b, Nat.zero_le _, ?_⟩) hnil
    rw [hbuckets, hentries]
    omega
  · refine hgood (fun b => ?_) fun l hl => absurd hl (Nat.not_lt_zero l)
    rw [hbuckets, hentries]
    exact hone b

/-- A session that shares its bucket is left, or one it shares the bucket with. -/
theorem Serving.not_closes (h : Serving srv d) {b : Nat}
    (hb : 1 < load uint64Funcs d.buckets d.entries b) : ¬ ClosesEverySession srv d := by
  have hsize : d.size > 0 := by
    have hlen := h.inv.size_eq
    have hle : load uint64Funcs d.buckets d.entries b ≤ d.entries.length := List.countP_le_length
    omega
  obtain ⟨srv', d', cs, hrun, hevents, hperm, hvalue, hempty⟩ := h.closed hsize
  have hnodup := hperm.nodup h.distinct
  rintro ⟨srv'', hrun', honce⟩
  rw [hrun] at hrun'
  cases hrun'
  have hne : d'.entries ≠ [] := by
    intro hnil
    have hle := hempty.mp hnil b
    omega
  obtain ⟨e, he⟩ := List.exists_mem_of_ne_nil _ hne
  obtain ⟨a, hval⟩ := hvalue e he
  have hleft : some a ∈ d'.entries.map RdictEntry.value := hval ▸ List.mem_map_of_mem he
  have hone := honce a (hperm.mem_iff.mpr (List.mem_append_right _ hleft))
  rw [hevents, closedOnce_iff] at hone
  have hmem : a ∈ cs := List.count_pos_iff.mp (by omega)
  exact (List.nodup_append.mp hnodup).2.2 _ (List.mem_map_of_mem hmem) _ hleft rfl

theorem Serving.closes (h : Serving srv d) (hone : ∀ b, load uint64Funcs d.buckets d.entries b ≤ 1) :
    ClosesEverySession srv d := by
  by_cases hsize : d.size > 0
  · obtain ⟨srv', d', cs, hrun, hevents, hperm, -, hempty⟩ := h.closed hsize
    have hnodup := hperm.nodup h.distinct
    rw [hempty.mpr hone, List.map_nil, List.append_nil] at hperm hnodup
    refine ⟨srv', hrun, fun a ha => ?_⟩
    rw [hevents, closedOnce_iff]
    obtain ⟨c, hc, hca⟩ := List.mem_map.mp (hperm.mem_iff.mp ha)
    cases hca
    rw [(List.Nodup.of_map _ hnodup).count, if_pos hc]
  · have hclients : closeClients { srv with
        stream := .freed
        events := srv.events ++ serverEvents } = .ok { srv with
          stream := .freed
          events := srv.events ++ serverEvents } := by
      simp only [closeClients, h.map, if_neg hsize]
    refine ⟨{ srv with
      stream := .freed
      events := srv.events ++ serverEvents
      state := .closed }, ?_, fun a ha => (mem_clients ha hsize h.inv).elim⟩
    simp only [ripcCloseServer, h.stream, if_neg h.state, bind, Except.bind, hclients]
    rfl

/-- `ripc_close_server` closes every session exactly when no bucket of the map has two. -/
theorem closesEverySession_iff (h : Serving srv d) :
    ClosesEverySession srv d ↔ ∀ b, load uint64Funcs d.buckets d.entries b ≤ 1 := by
  constructor
  · intro hcloses b
    by_contra hb
    exact h.not_closes (Nat.lt_of_not_le hb) hcloses
  · exact h.closes

end server

/-! ### Two sessions in a bucket -/

/-- The server with the connections 1 and 168, their data sources at 100 and 200. -/
def twoClients (d : Rdict Nat Nat Unit) : EpollServer where
  state := .ready
  stream := .live
  mapClients := some d
  sessions a :=
    if a = 100 then some ⟨1, .start, .live⟩
    else if a = 200 then some ⟨168, .start, .live⟩
    else none
  events := []

/-- The map of the two connections. -/
def twoClientsMap : Except Fault (Rdict Nat Nat Unit) :=
  uint64Run 2000 16 [.add (some 1) (some 100), .add (some 168) (some 200)]

theorem twoClients_facts {d : Rdict Nat Nat Unit} (hrun : twoClientsMap = .ok d) :
    d.entryNull = none ∧ d.bucketCapacity = 16 ∧ d.buckets = 167 ∧
      d.entries = [⟨some 1, some 100⟩, ⟨some 168, some 200⟩] := by
  have hfacts : twoClientsMap.map (fun d => (d.entryNull, d.bucketCapacity, d.buckets, d.entries)) =
      .ok (none, 16, 167, [⟨some 1, some 100⟩, ⟨some 168, some 200⟩]) := by
    decide +kernel
  rw [hrun] at hfacts
  simpa only [Except.map, Except.ok.injEq, Prod.mk.injEq] using hfacts

theorem twoClients_serving {d : Rdict Nat Nat Unit} (hrun : twoClientsMap = .ok d) :
    Serving (twoClients d) d := by
  obtain ⟨hnull, hbc, -, hentries⟩ := twoClients_facts hrun
  obtain ⟨d₀, hcreate, hsteps⟩ := steps_of_uint64Run hrun
  have hroomy₀ : Roomy uint64Funcs d₀ := roomy_create (by decide) rfl (by decide) (by decide) hcreate
  obtain ⟨n, -, hvacant, hbc₀, -⟩ := rdictCreate_spec (by decide) rfl hcreate
  have hroomy : Roomy uint64Funcs d := by
    refine roomy_adds uint64Funcs_compatible [(1, some 100), (168, some 200)] hroomy₀ ?_ hsteps
    rw [hvacant.entries, hbc₀]
    decide
  refine ⟨?_, rfl, rfl, hroomy.inv, by rw [hbc]; decide, fun e he => ?_, fun e he => ?_, ?_, rfl⟩
  · show RipcState.ready ≠ .closed
    decide
  · rw [hentries] at he
    rcases List.mem_cons.mp he with rfl | he
    · exact ⟨100, _, rfl, rfl, rfl, by decide, rfl⟩
    · rw [List.mem_singleton.mp he]
      exact ⟨200, _, rfl, rfl, rfl, by decide, rfl⟩
  · rw [hnull] at he
    cases he
  · rw [clients, hnull, hentries]
    decide

theorem twoClients_map : ∃ d, twoClientsMap = .ok d := by
  have hok : (twoClientsMap.map fun d => d.size) = .ok 2 := by decide +kernel
  obtain ⟨d, hrun, -⟩ := Except.of_map_ok hok
  exact ⟨d, hrun⟩

/-- The equivalence for the two connections. -/
theorem closesEverySession_iff_two : ∃ d, twoClientsMap = .ok d ∧
    (ClosesEverySession (twoClients d) d ↔ ∀ b, load uint64Funcs d.buckets d.entries b ≤ 1) := by
  obtain ⟨d, hrun⟩ := twoClients_map
  exact ⟨d, hrun, closesEverySession_iff (twoClients_serving hrun)⟩

/-- 1 and 168 are equal modulo 167: the second connection is not closed. -/
theorem closesEverySession_two : ∃ d, twoClientsMap = .ok d ∧ Serving (twoClients d) d ∧
    ¬ ClosesEverySession (twoClients d) d := by
  obtain ⟨d, hrun⟩ := twoClients_map
  obtain ⟨-, -, hbuckets, hentries⟩ := twoClients_facts hrun
  refine ⟨d, hrun, twoClients_serving hrun, (twoClients_serving hrun).not_closes (b := 1) ?_⟩
  rw [hbuckets, hentries]
  decide

end Funra
