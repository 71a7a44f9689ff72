import Funra.Uv.Session

/-!
# Releasing the sessions of the libuv server

In a run that stops the server only when the map is empty, every session is closed at most once and
released exactly once (`releasedOnce_run`).

`ripc_stop` calls `uv_close` for every session of the map, also for one whose close was requested before,
and empties the map at once. None of the callbacks finds its session: a session in memory at that time is
never released (`stop_leaks`).
-/

namespace Funra

open Mem Table System

/-! ### The loop of `ripc_stop` -/

section stop

variable {srv srv' srv'' : UvServer} {s : Nat} {scale : Nat → Nat}

/-- `srv'` is `srv` after `uv_close` for each of `ss`. -/
structure StopCloses (srv srv' : UvServer) (ss : List Nat) : Prop where
  mapClients : srv'.mapClients = srv.mapClients
  closing : srv'.closing = srv.closing ++ ss
  shutdowns : srv'.shutdowns = srv.shutdowns
  listening : srv'.listening = srv.listening
  count : srv'.count = srv.count
  events : srv'.events = srv.events ++ ss.map .uvClose
  sessions : ∀ r, (srv'.sessions r).isSome = (srv.sessions r).isSome

theorem StopCloses.trans {ss ss' : List Nat} (h : StopCloses srv srv' ss)
    (h' : StopCloses srv' srv'' ss') : StopCloses srv srv'' (ss ++ ss') where
  mapClients := h'.mapClients.trans h.mapClients
  closing := by rw [h'.closing, h.closing, List.append_assoc]
  shutdowns := h'.shutdowns.trans h.shutdowns
  listening := h'.listening.trans h.listening
  count := h'.count.trans h.count
  events := by rw [h'.events, h.events, List.map_append, List.append_assoc]
  sessions r := (h'.sessions r).trans (h.sessions r)

theorem StopCloses.released {ss : List Nat} (h : StopCloses srv srv' ss) (s : Nat) :
    srv'.released s = srv.released s := by
  have hcount : ∀ ev : UvSessionEvent, (∀ r, ev ≠ .uvClose r) →
      srv'.events.count ev = srv.events.count ev := by
    intro ev hev
    rw [h.events, List.count_append, Nat.add_eq_left, List.count_eq_zero]
    intro hmem
    obtain ⟨r, -, hr⟩ := List.mem_map.mp hmem
    exact hev r hr.symm
  rw [UvServer.released, UvServer.released, hcount _ (by simp), hcount _ (by simp),
    hcount _ (by simp), hcount _ (by simp)]

theorem uvClose_closes (hrun : srv.uvClose s = .ok srv') : StopCloses srv srv' [s] := by
  unfold UvServer.uvClose at hrun
  split at hrun
  · cases hrun
  · rename_i x hx
    cases hrun
    refine ⟨rfl, rfl, rfl, rfl, rfl, rfl, fun r => ?_⟩
    by_cases hr : r = s
    · subst hr
      simp [hx]
    · exact congrArg Option.isSome (Function.update_of_ne hr _ _)

theorem uvClose_ok (hs : (srv.sessions s).isSome = true) :
    ∃ srv', srv.uvClose s = .ok srv' := by
  obtain ⟨x, hx⟩ := Option.isSome_iff_exists.mp hs
  rw [UvServer.uvClose, hx]
  exact ⟨_, rfl⟩

/-- The loop closes the sessions of all entries from the cursor on. -/
theorem stopLoop_spec {fuel i : Nat} (h : Iterable srv.mapClients i)
    (hmem : ∀ e ∈ srv.mapClients.entries, ∃ s, e.value = some s ∧ (srv.sessions s).isSome = true)
    (hi : i ≤ srv.mapClients.capacity) (hfuel : srv.mapClients.capacity < i + fuel) :
    ∃ srv' ss, UvServer.stopLoop fuel srv (some i) = .ok srv' ∧ StopCloses srv srv' ss ∧
      ss.map some = ((srv.mapClients.slots.drop i).filter RdictEntry.occupied).map RdictEntry.value := by
  induction fuel generalizing srv i with
  | zero => omega
  | succ fuel ih =>
    obtain ⟨r, hr, hnext⟩ := nextFrom_spec h
    simp only [UvServer.stopLoop, rdictNext, hr, bind, Except.bind]
    rcases hnext.entries with ⟨j, e, hj, rfl, hget, hlt, hcons⟩ | ⟨i', rfl, hnil⟩
    · have he : e ∈ (srv.mapClients.slots.drop i).filter RdictEntry.occupied := by
        rw [hcons]
        exact List.mem_cons_self
      obtain ⟨hedrop, hocc⟩ := List.mem_filter.mp he
      obtain ⟨s, hval, hs⟩ := hmem e (List.mem_filter.mpr ⟨List.mem_of_mem_drop hedrop, hocc⟩)
      obtain ⟨srv₁, hclose⟩ := uvClose_ok hs
      have hcloses := uvClose_closes hclose
      have href : refValue srv.mapClients (.slot j) = some s := by
        rw [refValue, hget]
        exact hval
      simp only [href, hclose]
      rw [h.length] at hlt
      have hmem₁ : ∀ e ∈ srv₁.mapClients.entries, ∃ s, e.value = some s ∧
          (srv₁.sessions s).isSome = true := by
        intro e he
        rw [hcloses.mapClients] at he
        obtain ⟨s, hval, hs⟩ := hmem e he
        exact ⟨s, hval, (hcloses.sessions s).trans hs⟩
      have hnext₁ : Iterable srv₁.mapClients (j + 1) := by
        rw [hcloses.mapClients]
        exact h.mono (by omega)
      obtain ⟨srv₂, ss, hloop, hcloses₂, hss⟩ := ih hnext₁ hmem₁
        (by rw [hcloses.mapClients]; omega) (by rw [hcloses.mapClients]; omega)
      refine ⟨srv₂, [s] ++ ss, hloop, hcloses.trans hcloses₂, ?_⟩
      rw [List.map_append, hss, hcons, hcloses.mapClients, List.map_cons (f := RdictEntry.value), hval]
      rfl
    · refine ⟨srv, [], rfl, ⟨rfl, (List.append_nil _).symm, rfl, rfl, rfl,
        (List.append_nil _).symm, fun _ => rfl⟩, ?_⟩
      rw [hnil]
      rfl

/-- A bucket with an entry and a free last slot has two slots. -/
theorem Roomy.width {d : Rdict Nat Nat Unit} {e : RdictEntry Nat Nat} (h : Roomy uint64Funcs d)
    (he : e ∈ d.entries) : 2 ≤ d.bucketCapacity := by
  obtain ⟨i, hget, ho⟩ := mem_entries.mp he
  have hpos := h.inv.width
  have hlast := h.lastFree (i / d.bucketCapacity)
  by_contra hw
  have hone : d.bucketCapacity = 1 := by omega
  apply hlast
  rw [hone]
  exact ⟨e, by simpa using hget, ho⟩

/-- What `ripc_stop` does when there are sessions. -/
theorem SessionsInv.stop_closes (h : SessionsInv srv) (hne : srv.mapClients.entries ≠ []) :
    ∃ srv₁ d ss, srv.ripcStop = .ok { srv₁ with mapClients := d, listening := false, state := .stop } ∧
      StopCloses srv srv₁ ss ∧ ss.map some = srv.mapClients.entries.map RdictEntry.value ∧
      Roomy uint64Funcs d ∧ d.entries = [] ∧ d.entryNull = none := by
  obtain ⟨e, he⟩ := List.exists_mem_of_ne_nil _ hne
  have hw := h.roomy.width he
  have hsize : srv.mapClients.size > 0 := by
    have hpos := List.length_pos_of_mem he
    have hlen := h.roomy.inv.size_eq
    omega
  have hmem : ∀ e ∈ srv.mapClients.entries, ∃ s, e.value = some s ∧
      (srv.sessions s).isSome = true := by
    intro e he
    obtain ⟨s, x, hval, hx, -⟩ := h.entry e he
    exact ⟨s, hval, by rw [hx]; rfl⟩
  have hfuel : srv.mapClients.capacity < 0 + (srv.mapClients.capacity + 2) := by omega
  obtain ⟨srv₁, ss, hloop, hcloses, hss⟩ :=
    stopLoop_spec (h.roomy.inv.tidy.iterable hw 0) hmem (Nat.zero_le _) hfuel
  obtain ⟨d, hclear⟩ := rdictClear_total h.roomy.inv.tidy hw
  obtain ⟨hinv, hvacant, -⟩ := rdictClear_spec h.roomy.inv hclear
  have hnone : UvServer.stopLoop (srv.mapClients.capacity + 2) srv none = .ok srv₁ := by
    rw [← hloop]
    unfold UvServer.stopLoop
    rw [rdictNext_none h.null]
  refine ⟨srv₁, d, ss, ?_, hcloses, hss, ⟨hinv, ?_, hvacant.lastFree⟩, hvacant.entries,
    hvacant.entryNull⟩
  · simp only [UvServer.ripcStop, UvServer.stopClients, if_pos hsize, hnone, hcloses.mapClients,
      hclear, bind, Except.bind, pure, Except.pure]
  · rw [hvacant.buckets]
    exact h.roomy.buckets

/-! ### After the stop -/

/-- `s` was not released, and no callback will find it. -/
structure Leaked (srv : UvServer) (s : Nat) : Prop where
  listening : srv.listening = false
  roomy : Roomy uint64Funcs srv.mapClients
  entries : srv.mapClients.entries = []
  null : srv.mapClients.entryNull = none
  released : srv.released s = (0, 0, 0, 0)

theorem Leaked.of_same (h : Leaked srv s) (hmap : srv'.mapClients = srv.mapClients)
    (hlisten : srv'.listening = srv.listening) (hreleased : srv'.released s = srv.released s) :
    Leaked srv' s :=
  ⟨hlisten.trans h.listening, hmap ▸ h.roomy, hmap ▸ h.entries, hmap ▸ h.null,
    hreleased.trans h.released⟩

theorem Leaked.uvClose {r : Nat} (h : Leaked srv s) (hrun : srv.uvClose r = .ok srv') :
    Leaked srv' s := by
  have hcloses := uvClose_closes hrun
  exact h.of_same hcloses.mapClients hcloses.listening (hcloses.released s)

/-- Nothing is found in a map without entries. -/
theorem find_of_empty {d : Rdict Nat Nat Unit} (h : Roomy uint64Funcs d) (hnil : d.entries = [])
    (hnull : d.entryNull = none) (key : Option Nat) : rdictFind uint64Funcs d key = .ok none := by
  rcases key with _ | k
  · exact congrArg Except.ok hnull
  · obtain ⟨n, x, -, hscan⟩ := h.scan_ok k
    have hfree : ¬ x.key.isSome = true := by
      intro hsome
      have hmem : x ∈ d.entries := mem_entries.mpr ⟨_, (scan_slot hscan).1, hsome⟩
      rw [hnil] at hmem
      cases hmem
    rw [rdictFind_scan h.inv.tidy h.buckets, hscan, Except.bind, if_neg hfree]

/-- The close callback only warns. -/
theorem Leaked.closeDone (h : Leaked srv s) {r : Nat} (hr : (srv.sessions r).isSome = true)
    (scale : Nat → Nat) (fuel : Nat) : (UvServerInput.closeDone r).exec scale fuel srv =
      .ok { srv with closing := srv.closing.erase r } := by
  obtain ⟨x, hx⟩ := Option.isSome_iff_exists.mp hr
  simp only [UvServerInput.exec, UvServer.onSessionClose, hx]
  split
  · simp only [find_of_empty h.roomy h.entries h.null, bind, Except.bind, pure, Except.pure]
  · rfl

theorem Leaked.afterRead (h : Leaked srv s) {r : Nat} {nread uvShutdown : Int} {writable : Bool}
    (hrun : srv.afterRead r nread writable uvShutdown = .ok srv') : Leaked srv' s := by
  unfold UvServer.afterRead at hrun
  split at hrun
  · cases hrun
  · split at hrun
    · split at hrun
      · exact h.uvClose hrun
      · split at hrun
        · cases hrun
          exact h.of_same rfl rfl rfl
        · cases hrun
          exact h
    · cases hrun
      exact h

theorem Leaked.step (h : Leaked srv s) {input : UvServerInput}
    (hstep : UvServerStep scale srv input srv') : Leaked srv' s := by
  obtain ⟨henabled, fuel, hrun⟩ := hstep
  rcases input with _ | ⟨r, nread, writable, uvShutdown⟩ | r | _ | r
  · have hlisten : srv.listening = true := henabled
    rw [h.listening] at hlisten
    cases hlisten
  · have hstart : Leaked (if nread < 0 then srv.readStop r else srv) s := by
      split
      · exact h.of_same rfl rfl rfl
      · exact h
    exact hstart.afterRead hrun
  · have hstart : Leaked { srv with shutdowns := srv.shutdowns.erase r } s := h.of_same rfl rfl rfl
    exact hstart.uvClose hrun
  · have hskip : srv.stopClients = .ok srv := by
      have hsize := h.roomy.inv.size_eq
      rw [h.entries, h.null] at hsize
      rw [UvServer.stopClients, hsize]
      rfl
    simp only [UvServerInput.exec, UvServer.ripcStop, hskip, bind, Except.bind, pure, Except.pure,
      Except.ok.injEq] at hrun
    subst hrun
    exact h.of_same rfl h.listening.symm rfl
  · rcases hr : srv.sessions r with _ | x
    · simp only [UvServerInput.exec, UvServer.onSessionClose, hr] at hrun
      cases hrun
    · rw [h.closeDone (by rw [hr]; rfl)] at hrun
      cases hrun
      exact h.of_same rfl rfl rfl

/-- A session in memory when the server is stopped is closed once more, and never released. -/
theorem stop_leaks {x : UvServerSession} (h : SessionsInv srv) (hx : srv.sessions s = some x) :
    ∃ srv', UvServerStep scale srv .stop srv' ∧ s ∈ srv'.closing ∧
      srv.events.count (.uvClose s) < srv'.events.count (.uvClose s) ∧
      ∀ inputs srv'', Steps (UvServerStep scale) srv' inputs srv'' →
        srv''.released s = (0, 0, 0, 0) := by
  have hopen := h.live s x hx
  obtain ⟨e, he, -, hval⟩ := hopen.entry
  obtain ⟨srv₁, d, ss, hstop, hcloses, hss, hroomy, hnil, hnull⟩ :=
    h.stop_closes (List.ne_nil_of_mem he)
  have hs : s ∈ ss := by
    have hmem : some s ∈ ss.map some := by
      rw [hss, ← hval]
      exact List.mem_map_of_mem he
    simpa using hmem
  have hleaked : Leaked { srv₁ with mapClients := d, listening := false, state := .stop } s :=
    ⟨rfl, hroomy, hnil, hnull, (hcloses.released s).trans hopen.released⟩
  refine ⟨_, ⟨trivial, 0, hstop⟩, ?_, ?_, fun inputs srv'' hrun => ?_⟩
  · show s ∈ srv₁.closing
    rw [hcloses.closing]
    exact List.mem_append_right _ hs
  · show _ < srv₁.events.count _
    rw [hcloses.events, List.count_append, Nat.lt_add_right_iff_pos, List.count_pos_iff]
    exact List.mem_map_of_mem hs
  · have hend : Leaked srv'' s := by
      refine hrun.invariant (I := fun srv => Leaked srv s) ?_ hleaked
      intro _ _ _ hs hstep
      exact hs.step hstep
    exact hend.released

end stop

/-! ### Runs -/

/-- The inputs one after the other, while libuv may do them. -/
def UvServerInput.execAll (scale : Nat → Nat) (fuel : Nat) (srv : UvServer) :
    List UvServerInput → Option UvServer
  | [] => some srv
  | input :: inputs =>
    if input.Enabled srv then
      match input.exec scale fuel srv with
      | .error _ => none
      | .ok srv => UvServerInput.execAll scale fuel srv inputs
    else none

theorem steps_of_inputs {srv srv' : UvServer} {scale : Nat → Nat} {fuel : Nat}
    {inputs : List UvServerInput} (h : UvServerInput.execAll scale fuel srv inputs = some srv') :
    Steps (UvServerStep scale) srv inputs srv' := by
  induction inputs generalizing srv with
  | nil =>
    cases h
    exact .nil _
  | cons input inputs ih =>
    rw [UvServerInput.execAll] at h
    split at h
    · rename_i henabled
      split at h
      · cases h
      · rename_i srv₁ hexec
        exact .cons ⟨henabled, fuel, hexec⟩ (ih h)
    · cases h

/-- A server that has just been started on the map `d`. -/
def newServer (d : Rdict Nat Nat Unit) : UvServer where
  state := .start
  sidCur := 0
  mapClients := d
  inHandler := true
  sessions _ := none
  count := 0
  listening := true
  closing := []
  shutdowns := []
  events := []

/-- `rdict_init` in `ripc_init`. -/
def clientsMap : Except Fault (Rdict Nat Nat Unit) :=
  rdictCreate uint64Funcs (fun _ => true) exactScale 1 2000 16 () ⟨0, []⟩

def serverRun (inputs : List UvServerInput) : Option UvServer :=
  match clientsMap with
  | .error _ => none
  | .ok d => UvServerInput.execAll exactScale 1 (newServer d) inputs

theorem newServer_started {d : Rdict Nat Nat Unit} (hd : clientsMap = .ok d) :
    Started (newServer d) ∧ d.bucketCapacity = 16 := by
  have hroomy : Roomy uint64Funcs d := roomy_create (by decide) rfl (by decide) (by decide) hd
  obtain ⟨n, -, hvacant, hbc, -⟩ := rdictCreate_spec (by decide) rfl hd
  refine ⟨⟨?_, rfl, hroomy, hvacant.entries, hvacant.entryNull, fun _ => rfl, rfl, rfl, rfl, rfl⟩, hbc⟩
  show RipcState.start ≠ .stop
  decide

theorem serverRun_steps {inputs : List UvServerInput} {srv : UvServer}
    (h : serverRun inputs = some srv) :
    ∃ d, clientsMap = .ok d ∧ Steps (UvServerStep exactScale) (newServer d) inputs srv := by
  unfold serverRun at h
  split at h
  · cases h
  · rename_i d hd
    exact ⟨d, hd, steps_of_inputs h⟩

/-- The first connection has room. -/
theorem newServer_guard {d : Rdict Nat Nat Unit} (hd : clientsMap = .ok d) :
    StopsEmpty exactScale (newServer d) .connection := by
  obtain ⟨hstart, hbc⟩ := newServer_started hd
  have hnil : d.entries = [] := hstart.empty
  refine ⟨fun h => (by cases h), fun _ => ?_, fun _ => ⟨fun n hn => ?_, fun _ h => (by cases h)⟩⟩
  · show 0 + 1 < 18446744073709551616
    decide
  · have hadd : AddSettles uint64Funcs exactScale d.bucketCapacity d.entries 1 d.buckets n := hn
    rw [hnil, hbc] at hadd
    exact absurd hadd (not_addSettles (by decide))

/-- A connection, then neither a stop nor another one. -/
theorem newServer_run {d : Rdict Nat Nat Unit} (hd : clientsMap = .ok d) {inputs : List UvServerInput}
    {srv : UvServer} (hinputs : ∀ input ∈ inputs, input ≠ .stop ∧ input ≠ .connection)
    (hrun : Steps (UvServerStep exactScale) (newServer d) (.connection :: inputs) srv) :
    Steps (Guarded (StopsEmpty exactScale) (UvServerStep exactScale)) (newServer d)
      (.connection :: inputs) srv := by
  rcases hrun with _ | ⟨hconnection, hrun⟩
  refine .cons ⟨newServer_guard hd, hconnection⟩ (hrun.guarded fun input hi srv => ?_)
  obtain ⟨hns, hnc⟩ := hinputs input hi
  exact ⟨fun h => absurd h hns, fun h => absurd h hnc, fun h => absurd h hnc⟩

theorem SessionsInv.run {srv srv' : UvServer} {scale : Nat → Nat} {inputs : List UvServerInput}
    (h : SessionsInv srv)
    (hrun : Steps (Guarded (StopsEmpty scale) (UvServerStep scale)) srv inputs srv') :
    SessionsInv srv' := by
  refine hrun.invariant ?_ h
  intro s input s' hs hstep
  exact hs.step hstep.1 hstep.2

/-- In a run that stops the server only when the map is empty, every session is closed once at most, and
when all callbacks have run after the stop, each one has been released once. -/
theorem releasedOnce_run {srv srv' : UvServer} {scale : Nat → Nat} {inputs : List UvServerInput}
    (hstart : Started srv)
    (hrun : Steps (Guarded (StopsEmpty scale) (UvServerStep scale)) srv inputs srv') :
    ReleasedOnce srv' := by
  have hinv := hstart.inv.run hrun
  exact hinv.releasedOnce

/-- A session whose read failed, closed before the stop. -/
theorem releasedOnce_run_read : ∃ srv srv', Started srv ∧
    Steps (UvServerStep exactScale) srv [.connection, .read 0 (-104) true 0, .closeDone 0, .stop] srv' ∧
    ReleasedOnce srv' := by
  have hend : (serverRun [.connection, .read 0 (-104) true 0, .closeDone 0]).map
      (fun srv => srv.mapClients.size) = some 0 := by
    decide +kernel
  obtain ⟨srv₃, hsome, hsize⟩ := Option.map_eq_some_iff.mp hend
  obtain ⟨d, hd, hsteps⟩ := serverRun_steps hsome
  have hstop : UvServerStep exactScale srv₃ .stop { srv₃ with listening := false, state := .stop } := by
    refine ⟨trivial, 0, ?_⟩
    simp only [UvServerInput.exec, UvServer.ripcStop, UvServer.stopClients, hsize]
    rfl
  have hguard : StopsEmpty exactScale srv₃ .stop :=
    ⟨fun _ => hsize, fun h => (by cases h), fun h => (by cases h)⟩
  have hclosed := newServer_run hd (by decide) hsteps
  refine ⟨newServer d, _, (newServer_started hd).1, hsteps.append (.cons hstop (.nil _)), ?_⟩
  exact releasedOnce_run (newServer_started hd).1 (hclosed.append (.cons ⟨hguard, hstop⟩ (.nil _)))

/-- One session when the server stops: its close callback releases nothing. -/
theorem releasedOnce_stop : ∃ srv srv', Started srv ∧
    Steps (UvServerStep exactScale) srv [.connection, .stop, .closeDone 0] srv' ∧
    srv'.state = .stop ∧ srv'.closing = [] ∧ srv'.shutdowns = [] ∧
    srv'.released 0 = (0, 0, 0, 0) ∧ ¬ ReleasedOnce srv' := by
  have hend : (serverRun [.connection]).map (fun srv =>
      decide (srv.mapClients.entries.map RdictEntry.value = [some 0] ∧ srv.closing = [] ∧
        srv.shutdowns = [] ∧ srv.count = 1 ∧ (srv.sessions 0).isSome = true)) = some true := by
    decide +kernel
  obtain ⟨srv₁, hsome, hfacts⟩ := Option.map_eq_some_iff.mp hend
  obtain ⟨hentries, hclosing, hshutdowns, hcount, hs⟩ := of_decide_eq_true hfacts
  obtain ⟨d, hd, hsteps⟩ := serverRun_steps hsome
  have hinv := (newServer_started hd).1.inv.run (newServer_run hd (by decide) hsteps)
  obtain ⟨x, hx⟩ := Option.isSome_iff_exists.mp hs
  have hne : srv₁.mapClients.entries ≠ [] := by
    intro hnil
    rw [hnil] at hentries
    cases hentries
  obtain ⟨srv₂, d', ss, hstop, hcloses, hss, hroomy, hnil, hnull⟩ := hinv.stop_closes hne
  have hzero : ss = [0] := by
    rw [hentries] at hss
    exact List.map_injective_iff.mpr (Option.some_injective _) hss
  subst hzero
  have hleaked : Leaked { srv₂ with mapClients := d', listening := false, state := .stop } 0 :=
    ⟨rfl, hroomy, hnil, hnull, (hcloses.released 0).trans (hinv.live 0 x hx).released⟩
  have hclosing₂ : srv₂.closing = [0] := by rw [hcloses.closing, hclosing, List.nil_append]
  have hcount₂ : srv₂.count = 1 := hcloses.count.trans hcount
  have hdone := hleaked.closeDone ((hcloses.sessions 0).trans hs) exactScale 0
  have hend : Steps (UvServerStep exactScale) srv₁ [.stop, .closeDone 0] _ :=
    .cons ⟨trivial, 0, hstop⟩ (.cons ⟨by show 0 ∈ srv₂.closing; rw [hclosing₂]; decide, 0, hdone⟩ (.nil _))
  refine ⟨newServer d, _, (newServer_started hd).1, hsteps.append hend, rfl, ?_,
    hcloses.shutdowns.trans hshutdowns, hleaked.released, fun honce => ?_⟩
  · show srv₂.closing.erase 0 = []
    rw [hclosing₂]
    rfl
  · have hone := honce.released rfl (by show srv₂.closing.erase 0 = []; rw [hclosing₂]; rfl)
      (hcloses.shutdowns.trans hshutdowns) 0 (by show 0 < srv₂.count; omega)
    exact absurd (hleaked.released.symm.trans hone) (by decide)

end Funra
