import Funra.Epoll.Connections

/-!
# The sessions of the epoll server

`Inv` holds between the calls: every session has its socket, its item and its buffers, and every item in epoll
belongs to the listening socket or to a session. Within a check it is kept together with the results of the poll
(`Checking`): a result is what the poll has stored while its descriptor belongs to the data source it was
reported for, and its descriptor is 0 from then on.
-/

namespace Funra

open Mem Except

namespace EpollHeap

variable {h : EpollHeap} {a a' b b' ds ds' : Nat} {fd fd' ctl : Int} {req : Events}

theorem Attached.same (hat : Attached h a fd b ds) (hat' : Attached h a fd' b' ds') :
    fd' = fd ∧ b' = b ∧ ds' = ds := by
  cases hat.socket.symm.trans hat'.socket
  obtain ⟨item, hitem, -, hds⟩ := hat.item
  obtain ⟨item', hitem', -, hds'⟩ := hat'.item
  cases hitem.symm.trans hitem'
  exact ⟨rfl, rfl, hds'.symm.trans hds⟩

theorem attached_drop (hinv : Sound h) (hat : Attached h a fd b ds) :
    Attached (h.drop ctl a fd b) a' fd' b' ds' ↔ Attached h a' fd' b' ds' ∧ a' ≠ a := by
  constructor
  · rintro ⟨hsocket, item, hitem, hown⟩
    obtain ⟨hne, hsocket⟩ := sockets_drop hsocket
    rcases update_some hitem with ⟨-, heq⟩ | ⟨-, hitem⟩
    · cases heq
    · exact ⟨⟨hsocket, item, hitem, hown⟩, hne⟩
  · rintro ⟨hat', hne⟩
    exact hat.drop hinv hat' hne

theorem attached_attach_iff (hinv : Sound h) (hroom : Room h a fd b) : Attached (h.attach a fd b req ds) a' fd' b' ds' ↔
    (a' = a ∧ fd' = fd ∧ b' = b ∧ ds' = ds) ∨ Attached h a' fd' b' ds' := by
  constructor
  · intro hat'
    rcases sockets_attach hat'.socket with ⟨rfl, -⟩ | ⟨hne, hsocket⟩
    · obtain ⟨hfd, hb, hds⟩ := attached_attach.same hat'
      exact .inl ⟨rfl, hfd, hb, hds⟩
    · obtain ⟨ds₀, hat₀⟩ := hinv.attached hsocket
      obtain ⟨-, -, rfl⟩ := (hat₀.attach hroom).same hat'
      exact .inr hat₀
  · rintro (⟨rfl, rfl, rfl, rfl⟩ | hat')
    · exact attached_attach
    · exact hat'.attach hroom

/-- `ds` has a socket with the descriptor `fd`. -/
def Serves (h : EpollHeap) (fd : Int) (ds : Nat) : Prop := ∃ a b, Attached h a fd b ds

theorem serves_drop (hinv : Sound h) (hat : Attached h a fd b ds)
    (hone : ∀ {a' fd' b'}, Attached h a' fd' b' ds → a' = a) :
    Serves (h.drop ctl a fd b) fd' ds' ↔ Serves h fd' ds' ∧ ds' ≠ ds := by
  constructor
  · rintro ⟨a', b', hat'⟩
    obtain ⟨hat', hne⟩ := (attached_drop hinv hat).mp hat'
    refine ⟨⟨a', b', hat'⟩, ?_⟩
    rintro rfl
    exact hne (hone hat')
  · rintro ⟨⟨a', b', hat'⟩, hne⟩
    refine ⟨a', b', (attached_drop hinv hat).mpr ⟨hat', ?_⟩⟩
    rintro rfl
    exact hne (hat.same hat').2.2

theorem Serves.opened (hinv : Sound h) (hs : Serves h fd ds) : h.openFds fd = true := by
  obtain ⟨a, b, hat⟩ := hs
  exact (hinv.opened hat.socket).2

end EpollHeap

/-! ### The results of the poll -/

/-- The results as they were stored, of the data sources that are `alive`; the others are marked. -/
def Slots (alive : RepollItem → Prop) (stored items : List RepollItem) : Prop :=
  ∀ (j : Nat) (item : RepollItem), stored[j]? = some item →
    (alive item → items[j]? = some item) ∧ (¬ alive item → items[j]? = some { item with fd := 0 })

/-- No two results have one descriptor. -/
def Distinct (stored : List RepollItem) : Prop :=
  ∀ (j k : Nat) (item item' : RepollItem), stored[j]? = some item → stored[k]? = some item' →
    item.fd = item'.fd → j = k

theorem clearFirst_get (fd : Int) (n : Nat) (items : List RepollItem) (j : Nat) :
    (clearFirst fd n items)[j]? = items[j]? ∨
      ∃ item, items[j]? = some item ∧ item.fd = fd ∧ (clearFirst fd n items)[j]? = some { item with fd := 0 } := by
  induction items generalizing n j with
  | nil => cases n <;> exact .inl rfl
  | cons item items ih =>
    cases n with
    | zero => exact .inl rfl
    | succ n =>
      rw [clearFirst]
      split
      · rename_i hfd
        cases j with
        | zero => exact .inr ⟨item, rfl, hfd, rfl⟩
        | succ j => exact .inl rfl
      · cases j with
        | zero => exact .inl rfl
        | succ j => exact ih n j

/-- The first result with the descriptor is marked. -/
theorem clearFirst_first {fd : Int} {n : Nat} {items : List RepollItem} {j : Nat} {item : RepollItem} (hj : j < n)
    (hget : items[j]? = some item) (hfd : item.fd = fd)
    (hbefore : ∀ k < j, ∀ item', items[k]? = some item' → item'.fd ≠ fd) :
    (clearFirst fd n items)[j]? = some { item with fd := 0 } := by
  induction items generalizing n j with
  | nil => cases hget
  | cons x items ih =>
    obtain ⟨n, rfl⟩ := Nat.exists_eq_succ_of_ne_zero (Nat.ne_zero_of_lt hj)
    rw [clearFirst]
    cases j with
    | zero =>
      cases hget
      rw [if_pos hfd]
      rfl
    | succ j =>
      rw [if_neg (hbefore 0 (Nat.succ_pos j) x rfl)]
      exact ih (Nat.lt_of_succ_lt_succ hj) hget fun k hk => hbefore (k + 1) (Nat.succ_lt_succ hk)

/-- The mark of a descriptor that the data sources which are gone had, and no other. -/
theorem Slots.clear {alive alive' : RepollItem → Prop} {stored items : List RepollItem} {fd : Int} {n : Nat}
    (hslots : Slots alive stored items) (hlen : stored.length ≤ n)
    (hdistinct : Distinct stored)
    (hmono : ∀ item ∈ stored, alive' item → alive item)
    (hgone : ∀ item ∈ stored, alive item → ¬ alive' item → item.fd = fd)
    (hkeep : ∀ item ∈ stored, alive' item → item.fd ≠ fd) : Slots alive' stored (clearFirst fd n items) := by
  intro j item hj
  obtain ⟨hlive, hdead⟩ := hslots j item hj
  have hmem := List.mem_of_getElem? hj
  refine ⟨fun halive => ?_, fun hno => ?_⟩
  · have hget := hlive (hmono item hmem halive)
    rcases clearFirst_get fd n items j with heq | ⟨item', hget', hfd, -⟩
    · rw [heq, hget]
    · cases hget.symm.trans hget'
      exact absurd hfd (hkeep item hmem halive)
  · by_cases halive : alive item
    · have hget := hlive halive
      have hfd := hgone item hmem halive hno
      have hlt := (List.getElem?_eq_some_iff.mp hj).1
      by_cases hzero : fd = 0
      · -- the mark is on this result anyway
        have hmark : { item with fd := 0 } = item := by rw [← hzero, ← hfd]
        rcases clearFirst_get fd n items j with heq | ⟨item', hget', -, hmark'⟩
        · rw [heq, hget, hmark]
        · cases hget.symm.trans hget'
          exact hmark'
      · refine clearFirst_first (hlt.trans_le hlen) hget hfd fun k hk item' hget' hfd' => ?_
        obtain ⟨before, hk'⟩ : ∃ before, stored[k]? = some before := ⟨_, List.getElem?_eq_getElem (hk.trans hlt)⟩
        obtain ⟨hlive', hdead'⟩ := hslots k before hk'
        by_cases halive' : alive before
        · cases (hlive' halive').symm.trans hget'
          have := hdistinct k j _ _ hk' hj (hfd'.trans hfd.symm)
          omega
        · cases (hdead' halive').symm.trans hget'
          exact hzero hfd'.symm
    · have hget := hdead halive
      rcases clearFirst_get fd n items j with heq | ⟨item', hget', -, hmark⟩
      · rw [heq, hget]
      · cases hget.symm.trans hget'
        exact hmark

/-! ### The invariant -/

/-- `EPOLL_CTL_DEL` succeeds. -/
structure CloseEnv.Removes (env : CloseEnv) : Prop where
  ctl : 0 ≤ env.ctl
  visited : ∀ visit ∈ env.visited, 0 ≤ visit.2

/-- The input of a session fails. -/
def SessionIo.Fails (io : SessionIo) : Prop := io.recvCode ≠ rcodeIoDone ∧ io.recvCode ≠ rcodeIoTimeout

/-- One of the buffers of the session. -/
def ReactorSession.Owns (x : ReactorSession) (c : Nat) : Prop := x.readCache = some c ∨ x.writeBuff = some c

namespace EpollReactor

/-- Session `n` is open. -/
structure Open (s : EpollReactor) (n : Nat) (x : ReactorSession) : Prop where
  pos : 0 < n
  known : n < s.count
  state : x.state = .start
  stream : ∃ a fd b, x.stream = some a ∧ s.heap.Attached a fd b n
  buffers : ∃ c d, x.readCache = some c ∧ x.writeBuff = some d ∧ c ≠ d ∧ s.buffers c ≠ none ∧ s.buffers d ≠ none

structure Inv (s : EpollReactor) : Prop where
  sound : s.heap.Sound
  owned : s.heap.Owned
  session : ∀ {n : Nat} {x : ReactorSession}, s.sessions n = some x → s.Open n x
  apart : ∀ {n n' c : Nat} {x x' : ReactorSession}, s.sessions n = some x → s.sessions n' = some x' →
    x.Owns c → x'.Owns c → n = n'
  owner : ∀ {a b ds : Nat} {fd : Int}, s.heap.Attached a fd b ds →
    (ds = dsServer ∧ s.stream = some a) ∨ ∃ x, s.sessions ds = some x ∧ x.stream = some a
  server : ∀ {a : Nat} {sock : Rsocket}, s.stream = some a → s.heap.sockets a = some sock →
    s.heap.Attached a sock.fd sock.userData dsServer
  map : ∀ {m : SessionMap} {key value : Option Nat}, s.mapClients = some m → m key = some value →
    ∃ n x, value = some n ∧ s.sessions n = some x ∧ key = uint64Key x.dsId
  count : 0 < s.count

variable {s s' : EpollReactor} {n a b ds : Nat} {fd ctl : Int} {x : ReactorSession} {env : AcceptEnv}

theorem Inv.one (h : s.Inv) (hat : s.heap.Attached a fd b ds) {a' b' : Nat} {fd' : Int}
    (hat' : s.heap.Attached a' fd' b' ds) : a' = a := by
  rcases h.owner hat with ⟨rfl, hstream⟩ | ⟨x, hx, hstream⟩
  · rcases h.owner hat' with ⟨-, hstream'⟩ | ⟨x', hx', -⟩
    · exact Option.some.inj (hstream'.symm.trans hstream)
    · exact absurd (h.session hx').pos (Nat.lt_irrefl 0)
  · rcases h.owner hat' with ⟨rfl, -⟩ | ⟨x', hx', hstream'⟩
    · exact absurd (h.session hx).pos (Nat.lt_irrefl 0)
    · cases hx.symm.trans hx'
      exact Option.some.inj (hstream'.symm.trans hstream)

/-- A session is in memory just while it has a descriptor. -/
theorem Inv.serves_iff (h : s.Inv) (hn : 0 < n) : (∃ fd, s.heap.Serves fd n) ↔ s.sessions n ≠ none := by
  constructor
  · rintro ⟨fd, a, b, hat⟩
    rcases h.owner hat with ⟨rfl, -⟩ | ⟨x, hx, -⟩
    · exact absurd hn (Nat.lt_irrefl 0)
    · simp [hx]
  · intro hne
    obtain ⟨x, hx⟩ := Option.ne_none_iff_exists'.mp hne
    obtain ⟨a, fd, b, -, hat⟩ := (h.session hx).stream
    exact ⟨fd, a, b, hat⟩

/-! ### Within a check -/

/-- `stored` are the results of the poll, by pairwise different descriptors. -/
structure Checking (stored : List RepollItem) (s : EpollReactor) : Prop where
  inv : s.Inv
  length : stored.length ≤ s.heap.repoll.fdDestCount
  slots : Slots (fun item => s.heap.Serves item.fd item.ds) stored s.heap.repoll.destItems
  distinct : Distinct stored
  known : ∀ item ∈ stored, item.ds < s.count

/-- The data sources in `gone` have lost their sockets, the others have theirs. -/
structure After (stored : List RepollItem) (gone : Nat → Prop) (s s' : EpollReactor) : Prop where
  checking : Checking stored s'
  count : s.count ≤ s'.count
  serves : ∀ {fd : Int} {ds : Nat}, ds < s.count → (s'.heap.Serves fd ds ↔ s.heap.Serves fd ds ∧ ¬ gone ds)

variable {stored : List RepollItem} {gone gone' : Nat → Prop}

theorem After.refl (h : Checking stored s) : After stored (fun _ => False) s s :=
  ⟨h, Nat.le_refl _, fun _ => by simp⟩

theorem After.trans {s'' : EpollReactor} (h : After stored gone s s') (h' : After stored gone' s' s'') :
    After stored (fun n => gone n ∨ gone' n) s s'' := by
  refine ⟨h'.checking, h.count.trans h'.count, fun {fd ds} hds => ?_⟩
  rw [h'.serves (hds.trans_le h.count), h.serves hds]
  tauto

/-- Results and sockets are as before. -/
theorem Checking.after (h : Checking stored s) (hinv : s'.Inv) (hcount : s.count ≤ s'.count)
    (hlen : s'.heap.repoll.fdDestCount = s.heap.repoll.fdDestCount)
    (hitems : s'.heap.repoll.destItems = s.heap.repoll.destItems)
    (hserves : ∀ {fd : Int} {ds : Nat}, ds < s.count → (s'.heap.Serves fd ds ↔ s.heap.Serves fd ds)) :
    After stored (fun _ => False) s s' := by
  refine ⟨⟨hinv, hlen ▸ h.length, ?_, h.distinct, fun item hitem => (h.known item hitem).trans_le hcount⟩, hcount,
    fun hds => (hserves hds).trans (by simp)⟩
  intro j item hj
  have hds := h.known item (List.mem_of_getElem? hj)
  dsimp only
  rw [hitems, hserves hds]
  exact h.slots j item hj

/-- A descriptor is marked. -/
theorem Checking.marked (h : Checking stored s) (hinv : s'.Inv) (hcount : s.count ≤ s'.count)
    (hlen : s'.heap.repoll.fdDestCount = s.heap.repoll.fdDestCount)
    (hitems : s'.heap.repoll.destItems = clearFirst fd s.heap.repoll.fdDestCount s.heap.repoll.destItems)
    (hserves : ∀ {fd : Int} {ds : Nat}, ds < s.count → (s'.heap.Serves fd ds ↔ s.heap.Serves fd ds ∧ ¬ gone ds))
    (hgone : ∀ {fd' : Int} {ds : Nat}, gone ds → s.heap.Serves fd' ds → fd' = fd)
    (hkeep : ∀ {ds : Nat}, ¬ gone ds → ¬ s.heap.Serves fd ds) : After stored gone s s' := by
  refine ⟨⟨hinv, hlen ▸ h.length, ?_, h.distinct, fun item hitem => (h.known item hitem).trans_le hcount⟩, hcount,
    hserves⟩
  rw [hitems]
  refine h.slots.clear h.length h.distinct ?_ ?_ ?_
  · intro item hitem hs
    exact ((hserves (h.known item hitem)).mp hs).1
  · intro item hitem hs hno
    rw [hserves (h.known item hitem)] at hno
    by_cases hg : gone item.ds
    · exact hgone hg hs
    · exact absurd ⟨hs, hg⟩ hno
  · rintro item hitem hs rfl
    obtain ⟨hs, hno⟩ := (hserves (h.known item hitem)).mp hs
    exact hkeep hno hs

/-- The socket of `ds` is dropped. -/
theorem Checking.lost (h : Checking stored s) (hat : s.heap.Attached a fd b ds) (hinv : s'.Inv)
    (hcount : s.count ≤ s'.count) (hheap : s'.heap = s.heap.drop ctl a fd b) (hctl : 0 ≤ ctl) :
    After stored (fun ds' => ds' = ds) s s' := by
  have hitems : s'.heap.repoll.destItems = clearFirst fd s.heap.repoll.fdDestCount s.heap.repoll.destItems := by
    rw [hheap]
    exact if_neg (not_lt.mpr hctl)
  refine h.marked hinv hcount (by rw [hheap]; rfl) hitems ?_ ?_ ?_
  · intro fd' ds' _
    rw [hheap]
    exact EpollHeap.serves_drop h.inv.sound hat fun hat' => h.inv.one hat hat'
  · rintro fd' _ rfl ⟨a', b', hat'⟩
    obtain rfl := h.inv.one hat hat'
    exact (hat.same hat').1
  · rintro ds' hne ⟨a', b', hat'⟩
    obtain rfl := h.inv.sound.unique hat.socket hat'.socket rfl
    exact hne (hat.same hat').2.2

/-! ### Changes that keep every session -/

theorem Open.buffers_live (h : s.Open n x) {mem : BufferMemory} (hlive : ∀ c, mem c ≠ none ↔ s.buffers c ≠ none) :
    Open { s with buffers := mem } n x := by
  refine ⟨h.pos, h.known, h.state, h.stream, ?_⟩
  obtain ⟨c, d, hc, hd, hne, hlive₁, hlive₂⟩ := h.buffers
  exact ⟨c, d, hc, hd, hne, (hlive c).mpr hlive₁, (hlive d).mpr hlive₂⟩

theorem Inv.buffers_live (h : s.Inv) {mem : BufferMemory} (hlive : ∀ c, mem c ≠ none ↔ s.buffers c ≠ none) :
    Inv { s with buffers := mem } :=
  ⟨h.sound, h.owned, fun hx => (h.session hx).buffers_live hlive, h.apart, h.owner, h.server, h.map, h.count⟩

theorem Inv.kept (h : s.Inv) {heap : EpollHeap} (hkept : s.heap.Kept heap) : Inv { s with heap } := by
  refine ⟨hkept.sound, hkept.owned h.owned, fun hx => ?_, h.apart, fun hat => h.owner (hkept.attached.mp hat),
    fun hstream hsocket => ?_, h.map, h.count⟩
  · obtain ⟨hpos, hknown, hstate, ⟨a, fd, b, hstream, hat⟩, hbuffers⟩ := h.session hx
    exact ⟨hpos, hknown, hstate, ⟨a, fd, b, hstream, hkept.attached.mpr hat⟩, hbuffers⟩
  · dsimp only at hsocket
    rw [hkept.sockets] at hsocket
    exact hkept.attached.mpr (h.server hstream hsocket)

theorem Inv.state (h : s.Inv) (state : RipcState) : Inv { s with state } :=
  ⟨h.sound, h.owned, fun hx => ⟨(h.session hx).pos, (h.session hx).known, (h.session hx).state,
    (h.session hx).stream, (h.session hx).buffers⟩, h.apart, h.owner, h.server, h.map, h.count⟩

/-- What a call on session `n` that keeps it does. -/
def Stays (stored : List RepollItem) (n : Nat) (s s' : EpollReactor) : Prop :=
  After stored (fun _ => False) s s' ∧ s'.sessions n = s.sessions n

theorem Stays.trans {s'' : EpollReactor} (h : Stays stored n s s') (h' : Stays stored n s' s'') :
    Stays stored n s s'' := by
  refine ⟨?_, h'.2.trans h.2⟩
  have := h.1.trans h'.1
  simp only [or_self] at this
  exact this

theorem Checking.buffers (h : Checking stored s) {mem : BufferMemory}
    (hlive : ∀ c, mem c ≠ none ↔ s.buffers c ≠ none) (n : Nat) : Stays stored n s { s with buffers := mem } :=
  ⟨h.after (h.inv.buffers_live hlive) (Nat.le_refl _) rfl rfl fun _ => Iff.rfl, rfl⟩

theorem Checking.changeInterest (h : Checking stored s) (hx : s.sessions n = some x) (change : Events → Events)
    (ctl : Int) : (s.changeInterest change ctl x.stream).Succeeds fun r => Stays stored n s r.2 := by
  obtain ⟨a, fd, b, hstream, hat⟩ := (h.inv.session hx).stream
  obtain ⟨code, heap, hrun, hkept⟩ := EpollHeap.changeInterest_kept h.inv.sound hat change ctl
  simp only [EpollReactor.changeInterest, hstream, hrun]
  refine .ok ⟨h.after (h.inv.kept hkept) (Nat.le_refl _) hkept.count hkept.results fun {fd ds} _ => ?_, rfl⟩
  exact exists_congr fun a => exists_congr fun b => hkept.attached

theorem session_ok (hx : s.sessions n = some x) : s.session n = .ok x := by rw [session, hx]

theorem Inv.rsock (h : s.Inv) (hx : s.sessions n = some x) : ∃ sock, s.rsock x.stream = .ok sock := by
  obtain ⟨a, fd, b, hstream, hat⟩ := (h.session hx).stream
  rw [EpollReactor.rsock.eq_def, hstream]
  exact ⟨_, EpollHeap.deref_eq hat.socket⟩

theorem Checking.send (h : Checking stored s) (hx : s.sessions n = some x) (env : SendEnv) :
    (ripcSendData2bufferServer env n s).Succeeds fun r => Stays stored n s r.2 := by
  obtain ⟨c, d, -, hd, -, -, hlive⟩ := (h.inv.session hx).buffers
  have hstate := (h.inv.session hx).state
  simp only [ripcSendData2bufferServer, session_ok hx, hd, hstate, bind, Except.bind, ne_eq, not_true_eq_false,
    and_false, if_false]
  refine Succeeds.bind (BufferMemory.process_live env.output hlive) ?_
  rintro ⟨code, mem⟩ hmem
  have hs₁ := h.buffers hmem n
  dsimp only
  split
  · exact .ok hs₁
  have hlive' : mem d ≠ none := (hmem d).mpr hlive
  obtain ⟨data, hdata⟩ := BufferMemory.get_live hlive'
  simp only [hdata]
  split
  · exact (hs₁.1.checking.changeInterest hx _ _).mono fun r hr => hs₁.trans hr
  · exact .ok hs₁

theorem Checking.sendData (h : Checking stored s) (hx : s.sessions n = some x) (io : SessionIo) :
    (ripcSendDataServer io n s).Succeeds fun r => Stays stored n s r.2 := by
  obtain ⟨c, d, -, hd, -, -, hlive⟩ := (h.inv.session hx).buffers
  obtain ⟨data, hdata⟩ := BufferMemory.get_live hlive
  obtain ⟨sock, hsock⟩ := h.inv.rsock hx
  simp only [ripcSendDataServer, session_ok hx, hd, hdata, hsock, bind, Except.bind]
  split
  · exact .ok ⟨.refl h, rfl⟩
  rw [BufferMemory.set_live hlive]
  have hs₁ := h.buffers (BufferMemory.update_live hlive (data.skip io.sentLen)) n
  dsimp only
  split
  · exact (hs₁.1.checking.changeInterest hx _ _).mono fun r hr => hs₁.trans hr
  · exact .ok hs₁

/-- What the handler does. -/
theorem Checking.actions (h : Checking stored s) (hx : s.sessions n = some x) (actions : List SessionAction) :
    (forEach (fun action s => SessionAction.run n s action) actions s).Succeeds (Stays stored n s) := by
  refine succeeds_iff.mpr (Ends.forEach (I := fun _ => Stays stored n s) ?_ ⟨.refl h, rfl⟩)
  intro action rest s₁ hs₁
  have hx₁ := hs₁.2.trans hx
  refine succeeds_iff.mp ?_
  cases action with
  | reply env => exact Succeeds.map ((hs₁.1.checking.send hx₁ env).mono fun r hr => hs₁.trans hr)
  | stop =>
    refine .ok (hs₁.trans ⟨?_, rfl⟩)
    exact hs₁.1.checking.after (hs₁.1.checking.inv.state .stop) (Nat.le_refl _) rfl rfl fun _ => Iff.rfl

/-! ### Closing a session -/

/-- `s` without session `n`, whose socket is at `a`. -/
def closed (s : EpollReactor) (ctl : Int) (n dsId a : Nat) (fd : Int) (b c d : Nat) : EpollReactor :=
  { s with
    mapClients := s.mapClients.map fun m => m.remove dsId
    buffers := Function.update (Function.update s.buffers c none) d none
    heap := s.heap.drop ctl a fd b
    sessions := Function.update s.sessions n none }

theorem Inv.closeSession_eq (h : s.Inv) (hx : s.sessions n = some x) (ctl : Int) : ∃ a fd b c d,
    x.stream = some a ∧ s.heap.Attached a fd b n ∧ x.Owns c ∧ x.Owns d ∧ (∀ e, x.Owns e → e = c ∨ e = d) ∧
      closeSession ctl n s = .ok (s.closed ctl n x.dsId a fd b c d) := by
  obtain ⟨a, fd, b, hstream, hat⟩ := (h.session hx).stream
  obtain ⟨c, d, hc, hd, hne, hlive, hlive'⟩ := (h.session hx).buffers
  have hstate := (h.session hx).state
  refine ⟨a, fd, b, c, d, hstream, hat, .inl hc, .inr hd, ?_, ?_⟩
  · rintro e (he | he)
    · exact .inl (Option.some.inj (he.symm.trans hc))
    · exact .inr (Option.some.inj (he.symm.trans hd))
  · obtain ⟨mem, hrelease, hrelease'⟩ := Except.of_bind_ok (BufferMemory.release_two hlive hlive' hne)
    have hclosed : ¬ x.state = .closed := by
      rw [hstate]
      decide
    simp only [closeSession, session_ok hx, hclosed, if_false, removeClient, hc, hd, hrelease, hrelease', hstream,
      dropStream, EpollHeap.dropSocket_ok h.sound hat, bind, Except.bind]
    rfl

theorem Inv.closed (h : s.Inv) (hx : s.sessions n = some x) (hstream : x.stream = some a)
    (hat : s.heap.Attached a fd b n) {c d : Nat} (hc : x.Owns c) (hd : x.Owns d) :
    Inv (s.closed ctl n x.dsId a fd b c d) := by
  have hdrop : ∀ {a' b' ds' : Nat} {fd' : Int}, (s.closed ctl n x.dsId a fd b c d).heap.Attached a' fd' b' ds' ↔
      s.heap.Attached a' fd' b' ds' ∧ a' ≠ a := EpollHeap.attached_drop h.sound hat
  have hother : ∀ {n' : Nat} {x' : ReactorSession},
      (s.closed ctl n x.dsId a fd b c d).sessions n' = some x' → n' ≠ n ∧ s.sessions n' = some x' := by
    intro n' x' hx'
    rcases update_some hx' with ⟨-, heq⟩ | hx'
    · cases heq
    · exact hx'
  have hstays : ∀ {n' : Nat}, n' ≠ n → (s.closed ctl n x.dsId a fd b c d).sessions n' = s.sessions n' :=
    fun hne => Function.update_of_ne hne ..
  refine ⟨h.sound.drop hat, h.owned.drop, ?_, ?_, ?_, ?_, ?_, h.count⟩
  · intro n' x' hnew
    obtain ⟨hne, hx'⟩ := hother hnew
    obtain ⟨hpos, hknown, hstate, ⟨a', fd', b', hstream', hat'⟩, c', d', hc', hd', hne', hlive, hlive'⟩ :=
      h.session hx'
    refine ⟨hpos, hknown, hstate, ⟨a', fd', b', hstream', hdrop.mpr ⟨hat', ?_⟩⟩, c', d', hc', hd', hne', ?_⟩
    · rintro rfl
      exact hne (hat.same hat').2.2
    · -- the buffers of the two sessions are apart
      have hapart : ∀ e, x'.Owns e → e ≠ c ∧ e ≠ d := by
        intro e he
        refine ⟨fun heq => ?_, fun heq => ?_⟩
        · exact hne (h.apart hx' hx he (heq ▸ hc))
        · exact hne (h.apart hx' hx he (heq ▸ hd))
      have hkeep : ∀ e, x'.Owns e → s.buffers e ≠ none →
          Function.update (Function.update s.buffers c none) d none e ≠ none := by
        intro e he hlive
        rw [Function.update_of_ne (hapart e he).2, Function.update_of_ne (hapart e he).1]
        exact hlive
      exact ⟨hkeep c' (.inl hc') hlive, hkeep d' (.inr hd') hlive'⟩
  · intro n₁ n₂ e x₁ x₂ h₁ h₂
    exact h.apart (hother h₁).2 (hother h₂).2
  · intro a' b' ds' fd' hat'
    obtain ⟨hat', hne⟩ := hdrop.mp hat'
    rcases h.owner hat' with hserver | ⟨x', hx', hstream'⟩
    · exact .inl hserver
    · refine .inr ⟨x', (hstays ?_).trans hx', hstream'⟩
      rintro rfl
      cases hx.symm.trans hx'
      exact hne (Option.some.inj (hstream'.symm.trans hstream))
  · intro a' sock hstream' hsocket
    obtain ⟨hne, hsocket⟩ := EpollHeap.sockets_drop hsocket
    exact hdrop.mpr ⟨h.server hstream' hsocket, hne⟩
  · intro m key value hm hkey
    obtain ⟨m', hm', rfl⟩ := Option.map_eq_some_iff.mp hm
    obtain ⟨hne, hkey⟩ := SessionMap.remove_some hkey
    obtain ⟨n', x', hvalue, hx', heq⟩ := h.map hm' hkey
    refine ⟨n', x', hvalue, (hstays ?_).trans hx', heq⟩
    rintro rfl
    cases hx.symm.trans hx'
    exact hne heq

theorem Checking.close (h : Checking stored s) (hx : s.sessions n = some x) (hctl : 0 ≤ ctl) :
    (closeSession ctl n s).Succeeds (After stored (fun ds => ds = n) s) := by
  obtain ⟨a, fd, b, c, d, hstream, hat, hc, hd, -, hrun⟩ := h.inv.closeSession_eq hx ctl
  rw [hrun]
  exact .ok (h.lost hat (h.inv.closed hx hstream hat hc hd) (Nat.le_refl _) rfl hctl)

theorem Checking.receive (h : Checking stored s) (hx : s.sessions n = some x) (io : SessionIo) (hctl : 0 ≤ io.ctl) :
    (ripcReceiveDataServer io n s).Succeeds fun r => After stored (fun ds => io.Fails ∧ ds = n) s r.2 := by
  obtain ⟨c, d, hc, -, -, hlive, -⟩ := (h.inv.session hx).buffers
  obtain ⟨data, hdata⟩ := BufferMemory.get_live hlive
  obtain ⟨sock, hsock⟩ := h.inv.rsock hx
  have hstate := (h.inv.session hx).state
  simp only [ripcReceiveDataServer, session_ok hx, hstate, hc, hdata, hsock, bind, Except.bind, ne_eq,
    not_true_eq_false, if_false]
  split
  · rename_i hfails
    have hfails : io.Fails := hfails
    have herror : (ripcOnErrorServer io.ctl n s).Succeeds fun r => After stored (fun ds => ds = n) s r.2 :=
      Succeeds.map (h.close hx hctl)
    refine Succeeds.bind herror fun r hr => .ok ?_
    simpa only [hfails, true_and] using hr
  · rename_i hfails
    have hstays : ∀ {s'}, Stays stored n s s' → After stored (fun ds => io.Fails ∧ ds = n) s s' := by
      intro s' hs'
      have hno : ¬ io.Fails := hfails
      simpa only [hno, false_and] using hs'.1
    split
    · exact .ok (hstays ⟨.refl h, rfl⟩)
    split
    · rename_i code d' actions hinput hlen
      rw [BufferMemory.set_live hlive]
      have hs₁ := h.buffers (BufferMemory.update_live hlive d') n
      refine Succeeds.bind (hs₁.1.checking.actions hx actions) fun s₂ hs₂ => .ok ?_
      exact hstays (hs₁.trans hs₂)
    · exact .ok (hstays ⟨.refl h, rfl⟩)

/-! ### Accepting -/

theorem Inv.fresh_number (h : s.Inv) : s.sessions s.count = none := by
  by_contra hne
  obtain ⟨x, hx⟩ := Option.ne_none_iff_exists'.mp hne
  exact Nat.lt_irrefl _ (h.session hx).known

theorem Inv.forgotten (h : s.Inv) {items : List RepollItem}
    (hlen : items.length = s.heap.repoll.destItems.length) :
    Inv (s.forgotten (s.heap.polled s.heap.repoll.fdDestCount items)) := by
  have hsessions : Function.update s.sessions s.count none = s.sessions := by
    rw [← h.fresh_number, Function.update_eq_self]
  rw [EpollReactor.forgotten, hsessions]
  refine ⟨h.sound.polled hlen, h.owned, fun hx => ?_, h.apart, fun hat => h.owner (hat.frame rfl rfl),
    fun hstream hsocket => (h.server hstream hsocket).frame rfl rfl, fun hm hkey => ?_, Nat.succ_pos _⟩
  · obtain ⟨hpos, hknown, hstate, ⟨a, fd, b, hstream, hat⟩, hbuffers⟩ := h.session hx
    exact ⟨hpos, Nat.lt_succ_of_lt hknown, hstate, ⟨a, fd, b, hstream, hat.frame rfl rfl⟩, hbuffers⟩
  · obtain ⟨m', hm', rfl⟩ := Option.map_eq_some_iff.mp hm
    exact h.map hm' (SessionMap.remove_some hkey).2

/-- The session of a new connection. -/
theorem accepted_self {c d : Nat × Obj} : (s.accepted env a b c d).sessions s.count =
    some ⟨s.nextId, .start, some a, some c.1, some d.1⟩ := Function.update_self ..

theorem accepted_cases {c d : Nat × Obj} (hx : (s.accepted env a b c d).sessions n = some x) :
    n = s.count ∧ x = ⟨s.nextId, .start, some a, some c.1, some d.1⟩ ∨ s.sessions n = some x := by
  rcases update_some hx with ⟨rfl, -⟩ | ⟨-, hold⟩
  · exact .inl ⟨rfl, Option.some.inj (hx.symm.trans accepted_self)⟩
  · exact .inr hold

theorem Inv.accepted_stays (h : s.Inv) {c d : Nat × Obj} (hx : s.sessions n = some x) :
    (s.accepted env a b c d).sessions n = some x := by
  refine (Function.update_of_ne ?_ ..).trans hx
  exact Nat.ne_of_lt (h.session hx).known

theorem accepted_buffers {c d : Nat × Obj} (hc : s.buffers c.1 = none) (hd : s.buffers d.1 = none) {e : Nat}
    (he : s.buffers e ≠ none) : (s.accepted env a b c d).buffers e ≠ none := by
  have hec : e ≠ c.1 := fun heq => he (heq ▸ hc)
  have hed : e ≠ d.1 := fun heq => he (heq ▸ hd)
  have hsame : (s.accepted env a b c d).buffers e = s.buffers e :=
    (Function.update_of_ne hed ..).trans (Function.update_of_ne hec ..)
  rwa [hsame]

/-- The new buffers belong to nobody else. -/
theorem Inv.accepted_apart (h : s.Inv) {c d : Nat × Obj} (hc : s.buffers c.1 = none) (hd : s.buffers d.1 = none)
    {x' : ReactorSession} (hx : s.sessions n = some x) (hx' : x'.readCache = some c.1 ∧ x'.writeBuff = some d.1)
    {e : Nat} (he : x.Owns e) : ¬ x'.Owns e := by
  obtain ⟨c', d', hc', hd', -, hlivec, hlived⟩ := (h.session hx).buffers
  have hlive : s.buffers e ≠ none := by
    rcases he with he | he
    · rwa [← Option.some.inj (he.symm.trans hc')] at hlivec
    · rwa [← Option.some.inj (he.symm.trans hd')] at hlived
  rintro (he' | he')
  · exact hlive (Option.some.inj (hx'.1.symm.trans he') ▸ hc)
  · exact hlive (Option.some.inj (hx'.2.symm.trans he') ▸ hd)

theorem Inv.accepted_map (h : s.Inv) {c d : Nat × Obj} {m : SessionMap} {key value : Option Nat}
    (hm : (s.accepted env a b c d).mapClients = some m) (hkey : m key = some value) :
    ∃ n x, value = some n ∧ (s.accepted env a b c d).sessions n = some x ∧ key = uint64Key x.dsId := by
  obtain ⟨m', hm', rfl⟩ := Option.map_eq_some_iff.mp hm
  cases hadded : env.added with
  | false =>
    rw [hadded] at hkey
    obtain ⟨n, x, hvalue, hx, heq⟩ := h.map hm' hkey
    exact ⟨n, x, hvalue, h.accepted_stays hx, heq⟩
  | true =>
    rw [hadded] at hkey
    rcases SessionMap.add_some hkey with ⟨rfl, rfl⟩ | ⟨-, hkey⟩
    · exact ⟨s.count, _, rfl, accepted_self, rfl⟩
    · obtain ⟨n, x, hvalue, hx, heq⟩ := h.map hm' hkey
      exact ⟨n, x, hvalue, h.accepted_stays hx, heq⟩

theorem Inv.accepted (h : s.Inv) (hlistens : s.Listens) {c d : Nat × Obj} (hroom : s.heap.Room a env.fd b)
    (hc : s.buffers c.1 = none) (hd : s.buffers d.1 = none) (hne : c.1 ≠ d.1) : Inv (s.accepted env a b c d) := by
  have hattach : ∀ {a' b' ds' : Nat} {fd' : Int}, (s.accepted env a b c d).heap.Attached a' fd' b' ds' ↔
      (a' = a ∧ fd' = env.fd ∧ b' = b ∧ ds' = s.count) ∨ s.heap.Attached a' fd' b' ds' :=
    EpollHeap.attached_attach_iff h.sound hroom
  have hnewc : (s.accepted env a b c d).buffers c.1 = some (Rbuffer.create cacheSize c.2) :=
    (Function.update_of_ne hne ..).trans (Function.update_self ..)
  have hnewd : (s.accepted env a b c d).buffers d.1 = some (Rbuffer.create cacheSize d.2) :=
    Function.update_self ..
  refine ⟨h.sound.attach hroom, h.owned.attach, ?_, ?_, ?_, ?_, h.accepted_map, Nat.succ_pos _⟩
  · intro n' x' hx'
    rcases accepted_cases hx' with ⟨rfl, rfl⟩ | hold
    · refine ⟨h.count, Nat.lt_succ_self _, rfl, ⟨a, env.fd, b, rfl, hattach.mpr (.inl ⟨rfl, rfl, rfl, rfl⟩)⟩, c.1, d.1,
        rfl, rfl, hne, ?_, ?_⟩
      · rw [hnewc]
        exact Option.some_ne_none _
      · rw [hnewd]
        exact Option.some_ne_none _
    · obtain ⟨hpos, hknown, hstate, ⟨a', fd', b', hstream', hat'⟩, c', d', hc', hd', hne', hlive, hlive'⟩ :=
        h.session hold
      exact ⟨hpos, Nat.lt_succ_of_lt hknown, hstate, ⟨a', fd', b', hstream', hattach.mpr (.inr hat')⟩, c', d', hc',
        hd', hne', accepted_buffers hc hd hlive, accepted_buffers hc hd hlive'⟩
  · intro n₁ n₂ e x₁ x₂ h₁ h₂ he₁ he₂
    rcases accepted_cases h₁ with ⟨rfl, rfl⟩ | hold₁
    · rcases accepted_cases h₂ with ⟨rfl, -⟩ | hold₂
      · rfl
      · exact absurd he₁ (h.accepted_apart hc hd hold₂ ⟨rfl, rfl⟩ he₂)
    · rcases accepted_cases h₂ with ⟨rfl, rfl⟩ | hold₂
      · exact absurd he₂ (h.accepted_apart hc hd hold₁ ⟨rfl, rfl⟩ he₁)
      · exact h.apart hold₁ hold₂ he₁ he₂
  · intro a' b' ds' fd' hat'
    rcases hattach.mp hat' with ⟨rfl, -, -, rfl⟩ | hat'
    · exact .inr ⟨_, accepted_self, rfl⟩
    · rcases h.owner hat' with hserver | ⟨x', hx', hstream'⟩
      · exact .inl hserver
      · exact .inr ⟨x', h.accepted_stays hx', hstream'⟩
  · intro a' sock hstream' hsocket
    rcases EpollHeap.sockets_attach hsocket with ⟨rfl, -⟩ | ⟨-, hsocket⟩
    · -- the address was free, the server's stream is not
      obtain ⟨a₀, sock₀, hstream₀, hsocket₀⟩ := hlistens
      cases hstream₀.symm.trans hstream'
      cases hroom.socket.symm.trans hsocket₀
    · exact hattach.mpr (.inr (h.server hstream' hsocket))

/-- The listening socket is there while it is in epoll. -/
theorem Inv.listens (h : s.Inv) (hs : s.heap.Serves fd dsServer) : s.Listens := by
  obtain ⟨a, b, hat⟩ := hs
  rcases h.owner hat with ⟨-, hstream⟩ | ⟨x, hx, -⟩
  · exact ⟨a, _, hstream, hat.socket⟩
  · exact absurd (h.session hx).pos (Nat.lt_irrefl 0)

theorem Checking.accept (h : Checking stored s) (hs : s.heap.Serves fd dsServer) (hfits : env.Fits s) :
    (ripcAcceptServer env s).Ends (fun f => f = .nullDeref) fun r => After stored (fun _ => False) s r.2 := by
  have hlistens := h.inv.listens hs
  refine Ends.mono_error (Ends.mono (accept_outcome h.inv.sound hfits) ?_) fun f hf => (hf hlistens).1
  rintro _ ⟨-, ⟨-, -⟩ | ⟨-, -⟩ | ⟨harrived, -, -, hitems⟩ | ⟨-, -, -, hroom, hc, hd, hne⟩⟩
  · exact .refl h
  · exact h.after (h.inv.forgotten rfl) (Nat.le_succ _) rfl rfl fun _ => Iff.rfl
  · have hserves : ∀ {items : List RepollItem} {fd' : Int} {ds : Nat},
        (s.heap.polled s.heap.repoll.fdDestCount items).Serves fd' ds ↔ s.heap.Serves fd' ds :=
      ⟨fun ⟨a, b, hat⟩ => ⟨a, b, hat.frame rfl rfl⟩, fun ⟨a, b, hat⟩ => ⟨a, b, hat.frame rfl rfl⟩⟩
    rcases hitems with rfl | rfl
    · exact h.after (h.inv.forgotten rfl) (Nat.le_succ _) rfl rfl fun _ => hserves
    · refine h.marked (h.inv.forgotten (EpollHeap.clearFirst_length ..)) (Nat.le_succ _) rfl rfl
        (fun _ => hserves.trans (by simp)) (fun hf => hf.elim) fun _ hs' => ?_
      cases (hfits.fd harrived.2.1).symm.trans (hs'.opened h.inv.sound)
  · refine h.after (h.inv.accepted hlistens hroom hc hd hne) (Nat.le_succ _) rfl rfl fun {fd ds} hds => ?_
    constructor
    · rintro ⟨a', b', hat⟩
      rcases (EpollHeap.attached_attach_iff h.inv.sound hroom).mp hat with ⟨-, -, -, rfl⟩ | hat
      · exact absurd hds (Nat.lt_irrefl _)
      · exact ⟨a', b', hat⟩
    · rintro ⟨a', b', hat⟩
      exact ⟨a', b', hat.attach hroom⟩

theorem Checking.acceptLoop (h : Checking stored s) (hs : s.heap.Serves fd dsServer)
    {accept : Nat → EpollReactor → AcceptEnv} (hfits : ∀ k s, (accept k s).Fits s) (k : Nat) :
    (EpollReactor.acceptLoop accept k s).Ends (fun f => f = .nullDeref) (After stored (fun _ => False) s) := by
  induction k generalizing s with
  | zero => exact .refl h
  | succ k ih =>
    refine Ends.bind (h.accept hs (hfits k s)) ?_
    rintro ⟨code, s₁⟩ hs₁
    dsimp only at hs₁ ⊢
    split
    · have hserves := (hs₁.serves h.inv.count).mpr ⟨hs, id⟩
      refine Ends.mono (ih hs₁.checking hserves) fun s₂ hs₂ => ?_
      have := hs₁.trans hs₂
      simp only [or_self] at this
      exact this
    · exact hs₁

/-! ### Closing the server -/

theorem Inv.dropped (h : s.Inv) (hstream : s.stream = some a) (hat : s.heap.Attached a fd b dsServer) :
    Inv { s with heap := s.heap.drop ctl a fd b } := by
  have hdrop : ∀ {a' b' ds' : Nat} {fd' : Int}, (s.heap.drop ctl a fd b).Attached a' fd' b' ds' ↔
      s.heap.Attached a' fd' b' ds' ∧ a' ≠ a := EpollHeap.attached_drop h.sound hat
  refine ⟨h.sound.drop hat, h.owned.drop, fun hx => ?_, h.apart, fun hat' => h.owner (hdrop.mp hat').1,
    fun hstream' hsocket => ?_, h.map, h.count⟩
  · obtain ⟨hpos, hknown, hstate, ⟨a', fd', b', hstream', hat'⟩, hbuffers⟩ := h.session hx
    refine ⟨hpos, hknown, hstate, ⟨a', fd', b', hstream', hdrop.mpr ⟨hat', ?_⟩⟩, hbuffers⟩
    rintro rfl
    rw [(hat.same hat').2.2] at hpos
    exact Nat.lt_irrefl 0 hpos
  · cases hstream.symm.trans hstream'
    exact absurd rfl (EpollHeap.sockets_drop hsocket).1

theorem Checking.drop (h : Checking stored s) (hs : s.heap.Serves fd dsServer) (hctl : 0 ≤ ctl) :
    (dropStream ctl s.stream s).Succeeds (After stored (fun ds => ds = dsServer) s) := by
  obtain ⟨a, b, hat⟩ := hs
  have hstream : s.stream = some a := by
    rcases h.inv.owner hat with ⟨-, hstream⟩ | ⟨x, hx, -⟩
    · exact hstream
    · exact absurd (h.inv.session hx).pos (Nat.lt_irrefl 0)
  have hrun : dropStream ctl (some a) s = .ok { s with heap := s.heap.drop ctl a fd b } := by
    simp only [dropStream, EpollHeap.dropSocket_ok h.inv.sound hat]
    rfl
  rw [hstream, hrun]
  exact .ok (h.lost hat (h.inv.dropped hstream hat) (Nat.le_refl _) rfl hctl)

/-- Some data sources have lost their sockets. -/
def Shrinks (stored : List RepollItem) (s s' : EpollReactor) : Prop := ∃ gone, After stored gone s s'

theorem Shrinks.trans {s'' : EpollReactor} (h : Shrinks stored s s') (h' : Shrinks stored s' s'') :
    Shrinks stored s s'' := by
  obtain ⟨gone, hgone⟩ := h
  obtain ⟨gone', hgone'⟩ := h'
  exact ⟨_, hgone.trans hgone'⟩

theorem Shrinks.checking (h : Shrinks stored s s') : Checking stored s' := by
  obtain ⟨gone, hgone⟩ := h
  exact hgone.checking

theorem Checking.closeVisited (h : Checking stored s) {visit : Option Nat × Int} (hctl : 0 ≤ visit.2) :
    (EpollReactor.closeVisited visit s).Succeeds (Shrinks stored s) := by
  rw [EpollReactor.closeVisited]
  split
  · exact .ok ⟨_, .refl h⟩
  · rename_i hnull
    obtain ⟨m, hm, hkey⟩ := Option.bind_eq_some_iff.mp hnull
    obtain ⟨n, x, hvalue, -⟩ := h.inv.map hm hkey
    cases hvalue
  · rename_i n hn
    obtain ⟨m, hm, hkey⟩ := Option.bind_eq_some_iff.mp hn
    obtain ⟨n', x, hvalue, hx, -⟩ := h.inv.map hm hkey
    cases hvalue
    exact (h.close hx hctl).mono fun s' hs' => ⟨_, hs'⟩

/-- The map is given up. -/
theorem Inv.reset (h : s.Inv) (state : RipcState) :
    Inv { s with mapClients := s.mapClients.map fun _ => SessionMap.empty, state } := by
  refine ⟨h.sound, h.owned, fun hx => ?_, h.apart, h.owner, h.server, fun hm hkey => ?_, h.count⟩
  · obtain ⟨hpos, hknown, hstate, hstream, hbuffers⟩ := h.session hx
    exact ⟨hpos, hknown, hstate, hstream, hbuffers⟩
  · obtain ⟨m', -, rfl⟩ := Option.map_eq_some_iff.mp hm
    cases hkey

theorem Checking.closeServer (h : Checking stored s) (hs : s.heap.Serves fd dsServer) {env : CloseEnv}
    (henv : env.Removes) : (EpollReactor.ripcCloseServer env s).Succeeds fun r => Shrinks stored s r.2 := by
  obtain ⟨a, sock, hstream, hsocket⟩ := h.inv.listens hs
  have hsock : s.rsock s.stream = .ok sock := by
    rw [hstream]
    exact EpollHeap.deref_eq hsocket
  simp only [EpollReactor.ripcCloseServer, hsock, bind, Except.bind]
  split
  · exact .ok ⟨_, .refl h⟩
  refine Succeeds.bind (h.drop hs henv.ctl) fun s₁ hs₁ => ?_
  have hloop : (forEach EpollReactor.closeVisited env.visited s₁).Succeeds (Shrinks stored s₁) := by
    refine (succeeds_iff.mpr (Ends.forEach (I := fun rest s' => Shrinks stored s₁ s' ∧
      ∀ visit ∈ rest, 0 ≤ visit.2) ?_ ⟨⟨_, .refl hs₁.checking⟩, henv.visited⟩)).mono fun s' hs' => hs'.1
    rintro visit rest s' ⟨hs', hrest⟩
    refine succeeds_iff.mp ((hs'.checking.closeVisited (hrest visit List.mem_cons_self)).mono fun s'' hs'' => ?_)
    exact ⟨hs'.trans hs'', fun v hv => hrest v (List.mem_cons_of_mem _ hv)⟩
  refine Succeeds.bind hloop fun s₂ hs₂ => .ok ?_
  refine Shrinks.trans ⟨_, hs₁⟩ (hs₂.trans ⟨fun _ => False, ?_⟩)
  exact hs₂.checking.after (hs₂.checking.inv.reset .closed) (Nat.le_refl _) rfl rfl fun _ => Iff.rfl

end EpollReactor

end Funra
