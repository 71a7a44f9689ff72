import Funra.Epoll.ServerInterest
import Funra.Epoll.Sessions

/-!
# Peers that hang up

`ripc_check_data_server` should close every session whose result has the kernel's `ERR`, or its `HUP` without
`IN`. It closes those with `ERR`; `HUP` is translated to a bit that no test looks at, so such a session is closed
only when it is read for another reason, which is `PRI`, and the read fails. A session with the descriptor 0 is
passed over (`hungUp_run`). No session is touched behind its close: its result has been marked.
-/

namespace Funra

open Mem Except System

/-- The peer has hung up. -/
def HungUp (events : Events) : Prop :=
  hasEvent events EPOLLERR = true ∨ hasEvent events EPOLLHUP = true ∧ hasEvent events EPOLLIN = false

/-- A descriptor is reported once, and `EPOLL_CTL_DEL` succeeds. -/
structure ReactorEnv.Regular (env : ReactorEnv) : Prop where
  once : ∀ batch, env.wait = .ready batch → (batch.map Prod.fst).Nodup
  io : ∀ i, 0 ≤ (env.io i).ctl
  close : ∀ i, (env.close i).Removes

namespace EpollReactor

/-- The `i`-th result of the poll is for `item`. -/
def Reported (s : EpollReactor) (wait : WaitResult) (i : Nat) (item : RepollItem) (events : Events) : Prop :=
  ∃ b, (s.heap.reports wait)[i]? = some (.owned b, events) ∧ s.heap.repoll.items b = some item

/-- Session `n` is not in memory, not in the map and not in epoll. -/
structure Gone (s : EpollReactor) (n : Nat) : Prop where
  session : s.sessions n = none
  map : ∀ m, s.mapClients = some m → ∀ key, m key ≠ some (some n)
  kernel : ∀ fd reg b item, s.heap.repoll.kernel fd = some reg → reg.ptr = .owned b →
    s.heap.repoll.items b = some item → item.ds ≠ n

/-- The sessions of `s` whose peers have hung up are gone in `s'`. -/
def ClosesHungUp (env : ReactorEnv) (s s' : EpollReactor) : Prop :=
  ∀ i item events, s.Reported env.wait i item events → item.ds ≠ dsServer → HungUp events → s'.Gone item.ds

/-- The condition: the descriptor is not 0, and `ERR` is set, or `PRI` and the read fails. -/
def Recognised (env : ReactorEnv) (s : EpollReactor) : Prop :=
  ∀ i item events, s.Reported env.wait i item events → item.ds ≠ dsServer → HungUp events →
    item.fd ≠ 0 ∧ (hasEvent events EPOLLERR = true ∨ hasEvent events EPOLLPRI = true ∧ (env.io i).Fails)

/-- No error is reported for the listening socket. -/
def ListenerOk (env : ReactorEnv) (s : EpollReactor) : Prop :=
  ∀ i item events, s.Reported env.wait i item events → item.ds = dsServer → hasEvent events EPOLLERR = false

variable {s s' : EpollReactor} {n a b : Nat} {fd : Int} {req : Events} {x : ReactorSession} {env : ReactorEnv}
  {stored : List RepollItem}

/-! ### One result -/

/-- The result closes the session. -/
def Closing (io : SessionIo) (item : RepollItem) : Prop :=
  item.fd ≠ 0 ∧ (repollCheckEventErr item.eventValRsp = true ∨ repollCheckEventIn item.eventValRsp = true ∧ io.Fails)

theorem whenStarted_ok (hx : s.sessions n = some x) (hstate : x.state = .start)
    {call : EpollReactor → Except Fault (Int × EpollReactor)} (ready : Bool) :
    s.whenStarted ready n call = if ready = true then (call s).map Prod.snd else .ok s := by
  rw [whenStarted]
  split
  · simp only [session_ok hx, bind, Except.bind, if_pos hstate]
  · rfl

theorem Checking.checkSession (h : Checking stored s) (hx : s.sessions n = some x) (io : SessionIo)
    (hctl : 0 ≤ io.ctl) {item : RepollItem} (hfd : item.fd ≠ 0) :
    (EpollReactor.checkSession io n item.eventValRsp s).Succeeds
      (After stored (fun ds => Closing io item ∧ ds = n) s) := by
  have hstate := (h.inv.session hx).state
  rw [EpollReactor.checkSession]
  split
  · rename_i herr
    have hclosing : Closing io item := ⟨hfd, .inl herr⟩
    simpa only [hclosing, true_and] using h.close hx hctl
  rename_i herr
  have hiff : Closing io item ↔ repollCheckEventIn item.eventValRsp = true ∧ io.Fails :=
    ⟨fun hc => hc.2.resolve_left herr, fun hc => ⟨hfd, .inr hc⟩⟩
  have hout : (s.whenStarted (repollCheckEventOut item.eventValRsp) n (ripcSendDataServer io n)).Succeeds
      (Stays stored n s) := by
    rw [whenStarted_ok hx hstate]
    split
    · exact Succeeds.map (h.sendData hx io)
    · exact .ok ⟨.refl h, rfl⟩
  refine Succeeds.bind hout fun s₁ hs₁ => ?_
  have hx₁ := hs₁.2.trans hx
  rw [whenStarted_ok hx₁ hstate]
  have hafter : ∀ {s₂}, After stored (fun ds => Closing io item ∧ ds = n) s₁ s₂ →
      After stored (fun ds => Closing io item ∧ ds = n) s s₂ := by
    intro s₂ hs₂
    simpa only [false_or] using hs₁.1.trans hs₂
  split
  · rename_i hin
    simp only [hin, true_and] at hiff
    refine Succeeds.map ((hs₁.1.checking.receive hx₁ io hctl).mono fun r hr => hafter ?_)
    simpa only [hiff] using hr
  · rename_i hin
    have hno : ¬ Closing io item := fun hc => hin (hiff.mp hc).1
    refine .ok (hafter ?_)
    simpa only [hno, false_and] using After.refl hs₁.1.checking

/-! ### The loop over the results -/

/-- The results with the indices in `rest` are left to visit. -/
structure Visiting (env : ReactorEnv) (stored : List RepollItem) (rest : List Nat) (s : EpollReactor) : Prop where
  checking : Checking stored s
  nodup : rest.Nodup
  range : ∀ i ∈ rest, i < stored.length
  only : ∀ item ∈ stored, ∀ fd, s.heap.Serves fd item.ds → fd = item.fd
  closed : ∀ (j : Nat) (item : RepollItem), stored[j]? = some item → j ∉ rest → item.ds ≠ dsServer →
    Closing (env.io j) item → ¬ s.heap.Serves item.fd item.ds
  kept : (∀ item ∈ stored, item.ds = dsServer → repollCheckEventErr item.eventValRsp = false) →
    ∀ (j : Nat) (item : RepollItem), stored[j]? = some item → item.ds ≠ dsServer →
      j ∈ rest ∨ ¬ Closing (env.io j) item → s.heap.Serves item.fd item.ds

/-- A round that takes the sockets of `gone`. -/
theorem Visiting.next {rest : List Nat} {i : Nat} {item : RepollItem} {gone : Nat → Prop}
    (h : Visiting env stored (i :: rest) s) (hget : stored[i]? = some item) (hafter : After stored gone s s')
    (hgone : item.ds ≠ dsServer → Closing (env.io i) item → gone item.ds)
    (hkeep : (∀ item ∈ stored, item.ds = dsServer → repollCheckEventErr item.eventValRsp = false) →
      ∀ ds, ds ≠ dsServer → gone ds → ds = item.ds ∧ Closing (env.io i) item) :
    Visiting env stored rest s' := by
  have hknown := h.checking.known
  obtain ⟨hnot, hnodup⟩ := List.nodup_cons.mp h.nodup
  refine ⟨hafter.checking, hnodup, fun j hj => h.range j (List.mem_cons_of_mem i hj), ?_, ?_, ?_⟩
  · intro item' hmem fd hs
    exact h.only item' hmem fd ((hafter.serves (hknown item' hmem)).mp hs).1
  · intro j item' hj hrest hds hclosing hs
    obtain ⟨hs, hno⟩ := (hafter.serves (hknown item' (List.mem_of_getElem? hj))).mp hs
    by_cases hji : j = i
    · subst hji
      cases hget.symm.trans hj
      exact hno (hgone hds hclosing)
    · exact h.closed j item' hj (by simp [hji, hrest]) hds hclosing hs
  · intro hok j item' hj hds hor
    rw [hafter.serves (hknown item' (List.mem_of_getElem? hj))]
    have hbefore : s.heap.Serves item'.fd item'.ds := by
      refine h.kept hok j item' hj hds ?_
      rcases hor with hrest | hno
      · exact .inl (List.mem_cons_of_mem i hrest)
      · exact .inr hno
    refine ⟨hbefore, fun hg => ?_⟩
    obtain ⟨heq, hclosing⟩ := hkeep hok _ hds hg
    -- the session of another result is another session
    have hfd : item'.fd = item.fd := h.only item (List.mem_of_getElem? hget) _ (heq ▸ hbefore)
    obtain rfl := h.checking.distinct j i item' item hj hget hfd
    cases hget.symm.trans hj
    rcases hor with hrest | hno
    · exact hnot hrest
    · exact hno hclosing

theorem Visiting.round {rest : List Nat} {i : Nat} (h : Visiting env stored (i :: rest) s)
    (hfits : ∀ i k s, (env.accept i k s).Fits s) (hreg : env.Regular) :
    (checkItem env i s).Ends (fun f => f = .nullDeref) (Visiting env stored rest) := by
  obtain ⟨item, hget⟩ : ∃ item, stored[i]? = some item :=
    ⟨_, List.getElem?_eq_getElem (h.range i List.mem_cons_self)⟩
  have hmem := List.mem_of_getElem? hget
  obtain ⟨hlive, hdead⟩ := h.checking.slots i item hget
  by_cases hs : s.heap.Serves item.fd item.ds
  · have hderef : s.heap.repoll.deref (.slot i) = .ok item := by rw [Repoll.deref, hlive hs]
    simp only [checkItem, hderef, bind, Except.bind]
    split
    · rename_i hzero
      exact h.next hget (.refl h.checking) (fun _ hc => absurd hzero hc.1) fun _ _ _ hf => hf.elim
    rename_i hfd
    split
    · rename_i hds
      rw [hds] at hs
      rw [checkListener]
      split
      · rename_i herr
        refine Succeeds.ends (Succeeds.map ((h.checking.closeServer hs (hreg.close i)).mono ?_))
        rintro r ⟨gone, hafter⟩
        refine h.next hget hafter (fun hne => absurd hds hne) fun hok => ?_
        cases (hok item hmem hds).symm.trans herr
      split
      · refine Ends.mono (h.checking.acceptLoop hs (hfits i) 10) fun s' hafter => ?_
        exact h.next hget hafter (fun hne => absurd hds hne) fun _ _ _ hf => hf.elim
      · exact h.next hget (.refl h.checking) (fun hne => absurd hds hne) fun _ _ _ hf => hf.elim
    · rename_i hds
      have hpos : 0 < item.ds := Nat.pos_of_ne_zero hds
      obtain ⟨x, hx⟩ := Option.ne_none_iff_exists'.mp ((h.checking.inv.serves_iff hpos).mp ⟨_, hs⟩)
      refine Succeeds.ends ((h.checking.checkSession hx (env.io i) (hreg.io i) hfd).mono fun s' hafter => ?_)
      exact h.next hget hafter (fun _ hc => ⟨hc, rfl⟩) fun _ ds _ hg => ⟨hg.2, hg.1⟩
  · have hderef : s.heap.repoll.deref (.slot i) = .ok { item with fd := 0 } := by rw [Repoll.deref, hdead hs]
    simp only [checkItem, hderef, bind, Except.bind, if_true]
    -- its data source has lost the socket in an earlier round
    have hgone : ∀ {fd : Int} {ds : Nat}, ds < s.count →
        (s.heap.Serves fd ds ↔ s.heap.Serves fd ds ∧ ¬ ds = item.ds) := by
      intro fd ds _
      refine ⟨fun hs' => ⟨hs', ?_⟩, fun hs' => hs'.1⟩
      rintro rfl
      exact hs (h.only item hmem fd hs' ▸ hs')
    refine h.next hget ⟨h.checking, Nat.le_refl _, hgone⟩ (fun _ _ => rfl) ?_
    rintro hok _ hne rfl
    exact absurd (h.kept hok i item hget hne (.inl List.mem_cons_self)) hs

/-! ### The call -/

theorem Inv.polled (h : s.Inv) {k : Nat} {items : List RepollItem}
    (hlen : items.length = s.heap.repoll.destItems.length) : Inv { s with heap := s.heap.polled k items } := by
  refine ⟨h.sound.polled hlen, h.owned, fun hx => ?_, h.apart, fun hat => h.owner (hat.frame rfl rfl),
    fun hstream hsocket => (h.server hstream hsocket).frame rfl rfl, h.map, h.count⟩
  obtain ⟨hpos, hknown, hstate, ⟨a, fd, b, hstream, hat⟩, hbuffers⟩ := h.session hx
  exact ⟨hpos, hknown, hstate, ⟨a, fd, b, hstream, hat.frame rfl rfl⟩, hbuffers⟩

/-- The result of the registration of an item. -/
theorem Inv.report (h : s.Inv) {wait : WaitResult} {r : ItemPtr × Events} (hr : r ∈ s.heap.reports wait) :
    ∃ batch p a b ds, wait = .ready batch ∧ p ∈ batch ∧ r = (.owned b, p.2) ∧ s.heap.Attached a p.1 b ds := by
  cases wait with
  | error errno => cases hr
  | ready batch =>
    obtain ⟨p, hp, hmap⟩ := List.mem_filterMap.mp hr
    obtain ⟨reg, hreg, rfl⟩ := Option.map_eq_some_iff.mp hmap
    obtain ⟨b, hptr⟩ := h.owned p.1 reg hreg
    obtain ⟨-, hat⟩ := h.sound.registered hreg
    rw [hptr] at hat
    obtain ⟨a, ds, hat⟩ := hat
    exact ⟨batch, p, a, b, ds, rfl, hp, by rw [hptr], hat⟩

/-- The `i`-th result: the item it is for, with the mask translated. -/
theorem Inv.result (h : s.Inv) {wait : WaitResult} {items : List RepollItem} (hres : s.heap.Results wait items)
    {i : Nat} {item : RepollItem} (hi : i < (s.heap.reports wait).length) (hget : items[i]? = some item) :
    ∃ a b own events, (s.heap.reports wait)[i]? = some (.owned b, events) ∧ s.heap.repoll.items b = some own ∧
      item = { own with eventValRsp := repollGetEventRsp events } ∧ s.heap.Attached a own.fd b own.ds := by
  obtain ⟨item', hget', -, hown⟩ := hres.copied i _ (List.getElem?_eq_getElem hi)
  cases hget.symm.trans hget'
  obtain ⟨batch, p, a, b, ds, -, -, hr, hat⟩ := h.report (List.getElem_mem hi)
  obtain ⟨own, hitem, hcopy⟩ := hown b (congrArg Prod.fst hr)
  obtain ⟨hfd, hds⟩ := hat.item_fd hitem
  refine ⟨a, b, own, p.2, (List.getElem?_eq_getElem hi).trans (congrArg some hr), hitem, ?_, ?_⟩
  · rw [hcopy, hr]
  · rw [hfd, hds]
    exact hat

/-- An item is reported once. -/
theorem Inv.reports_nodup (h : s.Inv) {wait : WaitResult}
    (honce : ∀ batch, wait = .ready batch → (batch.map Prod.fst).Nodup) :
    ((s.heap.reports wait).map Prod.fst).Nodup := by
  cases wait with
  | error errno => exact List.nodup_nil
  | ready batch =>
    have hbatch := List.pairwise_map.mp (honce batch rfl)
    refine List.pairwise_map.mpr (List.Pairwise.filterMap _ ?_ hbatch)
    intro p q hne r hr r' hr' heq
    obtain ⟨reg, hreg, rfl⟩ := Option.map_eq_some_iff.mp hr
    obtain ⟨reg', hreg', rfl⟩ := Option.map_eq_some_iff.mp hr'
    obtain ⟨b, hptr⟩ := h.owned p.1 reg hreg
    obtain ⟨-, hat⟩ := h.sound.registered hreg
    obtain ⟨-, hat'⟩ := h.sound.registered hreg'
    dsimp only at heq
    rw [hptr] at hat
    rw [← heq, hptr] at hat'
    obtain ⟨a, ds, hat⟩ := hat
    obtain ⟨a', ds', hat'⟩ := hat'
    cases hat.inj h.sound hat'
    exact hne (hat.same hat').1.symm

/-- After the poll. -/
theorem Inv.visiting (h : s.Inv) (hreg : env.Regular) {items : List RepollItem}
    (hres : s.heap.Results env.wait items) :
    Visiting env (items.take (s.heap.reports env.wait).length) (List.range (s.heap.reports env.wait).length)
      { s with heap := s.heap.polled (s.heap.reports env.wait).length items } := by
  have hnodup := h.reports_nodup hreg.once
  have hfits := hres.fits
  have hlen := hres.length
  have hresult : ∀ (j : Nat) (item : RepollItem), (items.take (s.heap.reports env.wait).length)[j]? = some item →
      items[j]? = some item ∧ ∃ a b own events, (s.heap.reports env.wait)[j]? = some (.owned b, events) ∧
        s.heap.repoll.items b = some own ∧ item = { own with eventValRsp := repollGetEventRsp events } ∧
          s.heap.Attached a own.fd b own.ds := by
    intro j item hj
    have hlt : j < (s.heap.reports env.wait).length := by
      have := (List.getElem?_eq_some_iff.mp hj).1
      rw [List.length_take] at this
      omega
    rw [List.getElem?_take_of_lt hlt] at hj
    exact ⟨hj, h.result hres hlt hj⟩
  have hserves : ∀ item ∈ items.take (s.heap.reports env.wait).length, s.heap.Serves item.fd item.ds := by
    intro item hmem
    obtain ⟨j, hj⟩ := List.getElem?_of_mem hmem
    obtain ⟨-, a, b, own, events, -, -, rfl, hat⟩ := hresult j item hj
    exact ⟨a, b, hat⟩
  have hsame : ∀ {fd : Int} {ds : Nat}, (s.heap.polled (s.heap.reports env.wait).length items).Serves fd ds ↔
      s.heap.Serves fd ds :=
    ⟨fun ⟨a, b, hat⟩ => ⟨a, b, hat.frame rfl rfl⟩, fun ⟨a, b, hat⟩ => ⟨a, b, hat.frame rfl rfl⟩⟩
  refine ⟨⟨h.polled hlen, ?_, ?_, ?_, ?_⟩, List.nodup_range, ?_, ?_, ?_, ?_⟩
  · rw [List.length_take]
    exact Nat.min_le_left ..
  · intro j item hj
    refine ⟨fun _ => (hresult j item hj).1, fun hno => absurd ?_ hno⟩
    exact hsame.mpr (hserves item (List.mem_of_getElem? hj))
  · intro j k item item' hj hk hfd
    obtain ⟨-, a, b, own, events, hr, -, rfl, hat⟩ := hresult j item hj
    obtain ⟨-, a', b', own', events', hr', -, rfl, hat'⟩ := hresult k item' hk
    obtain rfl := h.sound.unique hat.socket hat'.socket hfd
    obtain ⟨-, rfl, -⟩ := hat.same hat'
    have hlt := (List.getElem?_eq_some_iff.mp hr).1
    refine (List.getElem?_inj (by rwa [List.length_map]) hnodup).mp ?_
    rw [List.getElem?_map, List.getElem?_map, hr, hr']
    rfl
  · intro item hmem
    obtain ⟨a, b, hat⟩ := hserves item hmem
    rcases h.owner hat with ⟨hds, -⟩ | ⟨x, hx, -⟩
    · rw [hds]
      exact h.count
    · exact (h.session hx).known
  · intro i hi
    rw [List.length_take]
    have := List.mem_range.mp hi
    omega
  · intro item hmem fd hs
    obtain ⟨a, b, hat⟩ := hserves item hmem
    obtain ⟨a', b', hat'⟩ := hsame.mp hs
    obtain rfl := h.one hat hat'
    exact (hat.same hat').1
  · intro j item hj hno
    refine absurd (List.mem_range.mpr ?_) hno
    have := (List.getElem?_eq_some_iff.mp hj).1
    rw [List.length_take] at this
    omega
  · intro _ j item hj _ _
    exact hsame.mpr (hserves item (List.mem_of_getElem? hj))

theorem Inv.gone (h : s.Inv) (hn : n ≠ dsServer) (hno : s.sessions n = none) : s.Gone n := by
  refine ⟨hno, fun m hm key hkey => ?_, fun fd reg b item hreg hptr hitem hds => ?_⟩
  · obtain ⟨n', x, hvalue, hx, -⟩ := h.map hm hkey
    cases hvalue
    cases hno.symm.trans hx
  · obtain ⟨-, hat⟩ := h.sound.registered hreg
    rw [hptr] at hat
    obtain ⟨a, ds, hat⟩ := hat
    obtain ⟨-, rfl⟩ := hat.item_fd hitem
    rcases h.owner hat with ⟨hserver, -⟩ | ⟨x, hx, -⟩
    · exact hn (hds.symm.trans hserver)
    · rw [hds, hno] at hx
      cases hx

/-- A hung-up peer's result closes its session just when it is recognised. -/
theorem closing_iff {item : RepollItem} {events : Events} (hhup : HungUp events) (io : SessionIo) :
    Closing io { item with eventValRsp := repollGetEventRsp events } ↔
      item.fd ≠ 0 ∧ (hasEvent events EPOLLERR = true ∨ hasEvent events EPOLLPRI = true ∧ io.Fails) := by
  rw [Closing, repollCheckEventErr_rsp, repollCheckEventIn_rsp, Bool.or_eq_true]
  dsimp only
  rcases hhup with herr | ⟨-, hin⟩
  · simp [herr]
  · simp [hin]

/-- A result of the poll, as it has been stored. -/
theorem stored_of_reported {items : List RepollItem} (hres : s.heap.Results env.wait items) {i : Nat}
    {item : RepollItem} {events : Events} (hr : s.Reported env.wait i item events) :
    (items.take (s.heap.reports env.wait).length)[i]? =
      some { item with eventValRsp := repollGetEventRsp events } := by
  obtain ⟨b, hget, hitem⟩ := hr
  obtain ⟨item', hget', -, hown⟩ := hres.copied i _ hget
  obtain ⟨own, hown, hcopy⟩ := hown b rfl
  cases hitem.symm.trans hown
  rw [List.getElem?_take_of_lt (List.getElem?_eq_some_iff.mp hget).1, hget', hcopy]

theorem Inv.reported (h : s.Inv) {items : List RepollItem} (hres : s.heap.Results env.wait items) {item : RepollItem}
    (hmem : item ∈ items.take (s.heap.reports env.wait).length) :
    ∃ i own events, s.Reported env.wait i own events ∧
      item = { own with eventValRsp := repollGetEventRsp events } := by
  obtain ⟨i, hi⟩ := List.getElem?_of_mem hmem
  have hlt : i < (s.heap.reports env.wait).length := by
    have := (List.getElem?_eq_some_iff.mp hi).1
    rw [List.length_take] at this
    omega
  rw [List.getElem?_take_of_lt hlt] at hi
  obtain ⟨a, b, own, events, hget, hitem, heq, -⟩ := h.result hres hlt hi
  exact ⟨i, own, events, ⟨b, hget, hitem⟩, heq⟩

/-- All results have been visited. -/
theorem Visiting.recognised (hend : Visiting env stored [] s') {i : Nat} {item : RepollItem} {events : Events}
    (hget : stored[i]? = some { item with eventValRsp := repollGetEventRsp events }) (hds : item.ds ≠ dsServer)
    (hclosing : Closing (env.io i) { item with eventValRsp := repollGetEventRsp events }) : s'.Gone item.ds := by
  refine hend.checking.inv.gone hds ?_
  have hno := hend.closed i _ hget List.not_mem_nil hds hclosing
  by_contra hsession
  obtain ⟨fd, hs⟩ := (hend.checking.inv.serves_iff (Nat.pos_of_ne_zero hds)).mpr hsession
  obtain rfl := hend.only _ (List.mem_of_getElem? hget) fd hs
  exact hno hs

theorem check_outcome (h : s.Inv) (hfits : env.Fits s) (hreg : env.Regular) :
    (ripcCheckDataServer env s).Ends (fun f => f = .nullDeref) fun r => r.2.Inv ∧
      (Recognised env s → ClosesHungUp env s r.2) ∧
        (ListenerOk env s → ClosesHungUp env s r.2 → Recognised env s) := by
  obtain ⟨code, items, hpoll, hempty, hres⟩ := EpollHeap.poll_ok h.sound hfits.wait
  simp only [ripcCheckDataServer, hpoll, bind, Except.bind]
  split
  · rename_i hcode
    have hno : ∀ {i item events}, ¬ s.Reported env.wait i item events := by
      rintro i item events ⟨b, hget, -⟩
      rw [hempty hcode] at hget
      cases hget
    exact ⟨h.polled hres.length, fun _ i item events hr => absurd hr hno,
      fun _ _ i item events hr => absurd hr hno⟩
  refine Ends.bind (Ends.forEach (fun i rest s hs => hs.round hfits.accept hreg) (h.visiting hreg hres))
    fun s' hend => ?_
  refine ⟨hend.checking.inv, fun hrec i item events hr hds hhup => ?_, fun hok hcloses i item events hr hds hhup => ?_⟩
  · exact hend.recognised (stored_of_reported hres hr) hds ((closing_iff hhup _).mpr (hrec i item events hr hds hhup))
  · have hget := stored_of_reported hres hr
    by_contra hno
    have hserver : ∀ item ∈ items.take (s.heap.reports env.wait).length, item.ds = dsServer →
        repollCheckEventErr item.eventValRsp = false := by
      intro item hmem hds
      obtain ⟨j, own, events, hr', rfl⟩ := h.reported hres hmem
      rw [repollCheckEventErr_rsp]
      exact hok j own events hr' hds
    have hs := hend.kept hserver i _ hget hds (.inr fun hc => hno ((closing_iff hhup _).mp hc))
    exact (hend.checking.inv.serves_iff (Nat.pos_of_ne_zero hds)).mp ⟨_, hs⟩ (hcloses i item events hr hds hhup).session

/-! ### Runs -/

theorem Fresh.inv (h : s.Fresh) : s.Inv := by
  have hnone : ∀ {a fd b ds}, ¬ s.heap.Attached a fd b ds := by
    intro a fd b ds hat
    cases (h.sockets a).symm.trans hat.socket
  refine ⟨h.mirrored.sound, fun fd reg hreg => ?_, fun hx => ?_, fun hx => ?_, fun hat => absurd hat hnone,
    fun _ hsocket => ?_, fun hm => ?_, h.count⟩
  · cases (h.kernel fd).symm.trans hreg
  · cases (h.sessions _).symm.trans hx
  · cases (h.sessions _).symm.trans hx
  · cases (h.sockets _).symm.trans hsocket
  · cases h.map.symm.trans hm

theorem Inv.checking (h : s.Inv) : Checking [] s :=
  ⟨h, Nat.zero_le _, fun j item hj => by simp at hj, fun j k item item' hj => by simp at hj, fun item hmem => by
    simp at hmem⟩

/-- Nothing is registered for the server, and it gives up its stream. -/
theorem Inv.quiet (h : s.Inv) (hno : ¬ ∃ fd, s.heap.Serves fd dsServer) :
    Inv { s with mapClients := some SessionMap.empty, stream := none } := by
  refine ⟨h.sound, h.owned, fun hx => ?_, h.apart, fun {a b ds fd} hat => ?_, fun hstream => (by cases hstream),
    fun hm hkey => ?_, h.count⟩
  · obtain ⟨hpos, hknown, hstate, hstream, hbuffers⟩ := h.session hx
    exact ⟨hpos, hknown, hstate, hstream, hbuffers⟩
  · rcases h.owner hat with ⟨rfl, -⟩ | hsession
    · exact absurd ⟨fd, a, b, hat⟩ hno
    · exact .inr hsession
  · cases hm
    cases hkey

theorem Inv.uninit (h : s.Inv) : Inv { s with mapClients := none, state := .uninit } := by
  refine ⟨h.sound, h.owned, fun hx => ?_, h.apart, h.owner, h.server, fun hm => (by cases hm), h.count⟩
  obtain ⟨hpos, hknown, hstate, hstream, hbuffers⟩ := h.session hx
  exact ⟨hpos, hknown, hstate, hstream, hbuffers⟩

/-- The listening socket is opened. -/
theorem Inv.opened (h : s.Inv) (hno : ¬ ∃ fd, s.heap.Serves fd dsServer) (hroom : s.heap.Room a fd b) :
    Inv { s with heap := s.heap.attach a fd b req dsServer, stream := some a, state := .ready } := by
  refine ⟨h.sound.attach hroom, h.owned.attach, fun hx => ?_, h.apart, fun {a' b' ds' fd'} hat => ?_,
    fun {a' sock} hstream hsocket => ?_, h.map, h.count⟩
  · obtain ⟨hpos, hknown, hstate, ⟨a', fd', b', hstream, hat⟩, hbuffers⟩ := h.session hx
    exact ⟨hpos, hknown, hstate, ⟨a', fd', b', hstream, hat.attach hroom⟩, hbuffers⟩
  · rcases (EpollHeap.attached_attach_iff h.sound hroom).mp hat with ⟨rfl, -, -, rfl⟩ | hat
    · exact .inl ⟨rfl, rfl⟩
    · rcases h.owner hat with ⟨rfl, -⟩ | hsession
      · exact absurd ⟨fd', a', b', hat⟩ hno
      · exact .inr hsession
  · cases hstream
    rcases EpollHeap.sockets_attach hsocket with ⟨-, rfl⟩ | ⟨hne, -⟩
    · exact EpollHeap.attached_attach
    · exact absurd rfl hne

theorem Inv.openServer (h : s.Inv) (hno : ¬ ∃ fd, s.heap.Serves fd dsServer) {env : OpenEnv}
    (hfits : s.heap.OpenFits env) (listen nonblock nodelay : Int) :
    (ripcOpenServer listen nonblock nodelay env s).Returns fun r => r.2.Inv := by
  refine Returns.map (Returns.mono (EpollHeap.openStream_returns h.sound hfits) ?_)
  rintro ⟨code, stream, heap⟩ (⟨rfl, rfl⟩ | ⟨-, a, fd, b, hroom, rfl, rfl⟩)
  · exact h
  · exact h.opened hno hroom

/-- The stream of the server is dereferenced first, so it is there where the call returns. -/
theorem Inv.closeServer (h : s.Inv) {env : CloseEnv} (henv : env.Removes) :
    (EpollReactor.ripcCloseServer env s).Returns fun r => r.2.Inv := by
  cases hstream : s.stream with
  | none =>
    simp only [EpollReactor.ripcCloseServer, EpollReactor.rsock, hstream]
    exact .error
  | some a =>
    cases hsocket : s.heap.sockets a with
    | none =>
      simp only [EpollReactor.ripcCloseServer, EpollReactor.rsock, EpollHeap.deref, hstream, hsocket]
      exact .error
    | some sock =>
      have hat := h.server hstream hsocket
      exact (h.checking.closeServer ⟨a, _, hat⟩ henv).returns.mono fun r hr => hr.checking.inv

end EpollReactor

open EpollReactor

/-- `init` and `open` while nothing listens; the environment of the calls is regular. -/
def ReactorCall.Calm (s : EpollReactor) : ReactorCall → Prop
  | .initS | .openS .. => ¬ ∃ fd, s.heap.Serves fd dsServer
  | .closeS env => env.Removes
  | .checkS env => env.Regular
  | .receiveS _ io => 0 ≤ io.ctl
  | .errorS _ ctl => 0 ≤ ctl
  | _ => True

/-- A call on a session that is not in memory does not return. -/
theorem session_returns {s : EpollReactor} {n : Nat} {β : Type} {f : ReactorSession → Except Fault β} {Q : β → Prop}
    (hf : ∀ x, s.sessions n = some x → ((s.session n).bind f).Returns Q) : ((s.session n).bind f).Returns Q := by
  cases hx : s.sessions n with
  | none =>
    simp only [session, hx]
    exact .error
  | some x => exact hf x hx

theorem ReactorCall.inv {s : EpollReactor} (h : s.Inv) {call : ReactorCall} (hfits : call.Fits s)
    (hcalm : call.Calm s) : (call.run s).Returns fun r => r.2.Inv := by
  cases call with
  | initS => exact .ok (h.quiet hcalm)
  | uninitS => exact .ok h.uninit
  | openS listen nonblock nodelay env => exact h.openServer hcalm hfits listen nonblock nodelay
  | closeS env => exact h.closeServer hcalm
  | startS => exact .ok (h.state .start)
  | stopS => exact .ok (h.state .stop)
  | sendS n env =>
    exact session_returns fun x hx => (h.checking.send hx env).returns.mono fun r hr => hr.1.checking.inv
  | checkS env => exact (check_outcome h hfits hcalm).returns.mono fun r hr => hr.1
  | receiveS n io =>
    exact session_returns fun x hx => (h.checking.receive hx io hcalm).returns.mono fun r hr => hr.checking.inv
  | errorS n ctl =>
    refine Returns.map (session_returns fun x hx => ?_)
    exact (h.checking.close hx hcalm).returns.mono fun s' hs' => hs'.checking.inv

theorem inv_of_calm {s₀ s : EpollReactor} (hfresh : s₀.Fresh) {calls : List ReactorCall}
    (hrun : Steps (Guarded (fun s call => ReactorCall.Calm s call) (fun s call s' => ReactorCall.Step s call s'))
      s₀ calls s) : s.Inv := by
  refine hrun.invariant (I := fun s => s.Inv) ?_ hfresh.inv
  rintro s call s' hs ⟨hcalm, hfits, code, hreturn⟩
  exact ReactorCall.inv hs hfits hcalm _ hreturn

/-- In every state of a calm run a check touches no memory that has been freed, and it closes the sessions
whose peers have hung up just when it recognises them. -/
theorem hungUp_run {s₀ s : EpollReactor} {env : ReactorEnv} (hfresh : s₀.Fresh) (calls : List ReactorCall)
    (hrun : Steps (Guarded (fun s call => ReactorCall.Calm s call) (fun s call s' => ReactorCall.Step s call s'))
      s₀ calls s) (hfits : env.Fits s) (hreg : env.Regular) :
    (ripcCheckDataServer env s).Ends (fun f => f = .nullDeref) fun r =>
      (Recognised env s → ClosesHungUp env s r.2) ∧
        (ListenerOk env s → ClosesHungUp env s r.2 → Recognised env s) := by
  exact (check_outcome (inv_of_calm hfresh hrun) hfits hreg).mono fun r hr => hr.2

/-- One connection, with the descriptor 6. -/
def acceptSix (s : EpollReactor) : AcceptEnv where
  socket := if s.heap.sockets 3 = none then some 3 else if s.heap.sockets 9 = none then some 9 else none
  code := if s.heap.openFds 6 then rcodeIoTimeout else rcodeIoDone
  fd := if s.heap.openFds 6 then SOCKET_INVALID else 6
  family := AF_INET
  ds := some ⟨0, .init, none, none, none⟩
  readCache := if s.buffers 1 = none then some (1, []) else none
  writeBuff := if s.buffers 2 = none then some (2, []) else none
  added := true
  nonblock := 0
  nodelay := 0
  item := if s.heap.repoll.items 4 = none then some 4 else none
  ctl := 0
  remove := 0

/-- One result, with the mask `events` for `fd`. -/
def pollOne (fd : Int) (events : Events) : ReactorEnv where
  wait := .ready [(fd, events)]
  io := fun _ => ⟨0, 0, 0, 0, 0, 0, none⟩
  accept := fun _ _ s => acceptSix s
  close := fun _ => ⟨0, []⟩

theorem acceptSix_fits (s : EpollReactor) : (acceptSix s).Fits s := by
  refine ⟨fun {a} ha => ?_, fun hvalid => ?_, fun {b} hb => ?_, fun {c block} hc => ?_, fun {d block} hd =>
    ⟨?_, fun {c block'} hc => ?_⟩⟩
  all_goals simp only [acceptSix, Option.ite_none_right_eq_some, Option.some.injEq, Prod.mk.injEq] at *
  · by_cases hfirst : s.heap.sockets 3 = none
    · rw [if_pos hfirst] at ha
      cases ha
      exact hfirst
    · rw [if_neg hfirst, Option.ite_none_right_eq_some] at ha
      obtain ⟨hsecond, heq⟩ := ha
      cases heq
      exact hsecond
  · split at hvalid
    · exact absurd rfl hvalid
    · rename_i hclosed
      rw [if_neg hclosed]
      exact eq_false_of_ne_true hclosed
  · obtain ⟨hnone, rfl⟩ := hb
    exact hnone
  · obtain ⟨hnone, rfl, -⟩ := hc
    exact hnone
  · obtain ⟨hnone, rfl, -⟩ := hd
    exact hnone
  · obtain ⟨-, rfl, -⟩ := hc
    obtain ⟨-, rfl, -⟩ := hd
    decide

theorem pollOne_fits {s : EpollReactor} (fd : Int) (events : Events) (hlen : 1 ≤ s.heap.repoll.destItems.length) :
    (pollOne fd events).Fits s := ⟨hlen, fun _ _ s => acceptSix_fits s⟩

theorem pollOne_regular (fd : Int) (events : Events) : (pollOne fd events).Regular := by
  refine ⟨fun batch hbatch => ?_, fun _ => Int.le_refl 0, fun _ => ⟨Int.le_refl 0, fun _ hmem => ?_⟩⟩
  · cases hbatch
    simp
  · cases hmem

/-- The calls that lead to a session with the descriptor 6. -/
def callsSix : List ReactorCall :=
  [.initS, .openS 0 0 0 EpollClient.openFive, .startS, .checkS (pollOne 5 EPOLLIN)]

def serverSix : EpollReactor :=
  callsSix.foldl (fun s call => match call.run s with
    | .error _ => s
    | .ok (_, s) => s) freshServer

theorem serverSix_run : Steps (Guarded (fun s call => ReactorCall.Calm s call)
    (fun s call s' => ReactorCall.Step s call s')) freshServer callsSix serverSix := by
  refine .cons ⟨?_, trivial, 0, rfl⟩ (.cons ⟨?_, ?_, 0, rfl⟩ (.cons ⟨trivial, trivial, 0, rfl⟩
    (.cons ⟨pollOne_regular 5 EPOLLIN, pollOne_fits 5 EPOLLIN (Nat.le_refl 1), 0, rfl⟩ (.nil _))))
  · rintro ⟨fd, a, b, hsocket, -⟩
    cases hsocket
  · rintro ⟨fd, a, b, hsocket, -⟩
    cases hsocket
  · exact EpollClient.openFive_fits rfl rfl rfl

/-- An error closes the session. -/
theorem hungUp_run_error : ∃ s', ripcCheckDataServer (pollOne 6 EPOLLERR) serverSix = .ok (0, s') ∧
    serverSix.Reported (pollOne 6 EPOLLERR).wait 0 ⟨6, repollSetEventIn 0, 0, 1⟩ EPOLLERR ∧
      ClosesHungUp (pollOne 6 EPOLLERR) serverSix s' := by
  refine ⟨_, rfl, ⟨4, rfl, rfl⟩, ?_⟩
  refine (hungUp_run freshServer_fresh callsSix serverSix_run (pollOne_fits 6 EPOLLERR (Nat.le_refl 1))
    (pollOne_regular 6 EPOLLERR)).1 ?_
  rintro i item events ⟨b, hget, hitem⟩ - -
  obtain rfl : i = 0 := by
    have := (List.getElem?_eq_some_iff.mp hget).1
    exact Nat.lt_one_iff.mp this
  cases hget
  cases hitem
  exact ⟨by decide, .inl (by decide)⟩

/-- A peer that has hung up, and nothing else. -/
theorem hungUp_kept : ∃ s', Steps (fun s call s' => ReactorCall.Step s call s') freshServer callsSix serverSix ∧
    (pollOne 6 EPOLLHUP).Fits serverSix ∧ (pollOne 6 EPOLLHUP).Regular ∧
      ripcCheckDataServer (pollOne 6 EPOLLHUP) serverSix = .ok (0, s') ∧
        ¬ ClosesHungUp (pollOne 6 EPOLLHUP) serverSix s' := by
  refine ⟨_, ?_, pollOne_fits 6 EPOLLHUP (Nat.le_refl 1), pollOne_regular 6 EPOLLHUP, rfl, fun hcloses => ?_⟩
  · exact .cons ⟨trivial, 0, rfl⟩ (.cons ⟨EpollClient.openFive_fits rfl rfl rfl, 0, rfl⟩
      (.cons ⟨trivial, 0, rfl⟩ (.cons ⟨pollOne_fits 5 EPOLLIN (Nat.le_refl 1), 0, rfl⟩ (.nil _))))
  · have hgone := (hcloses 0 ⟨6, repollSetEventIn 0, 0, 1⟩ EPOLLHUP ⟨4, rfl, rfl⟩ (by decide)
      (.inr ⟨by decide, by decide⟩)).session
    cases hgone

end Funra
