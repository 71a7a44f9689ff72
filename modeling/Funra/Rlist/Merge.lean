import Funra.Lib.CInt
import Funra.Rlist.Runs

/-!
# Merging and cloning lists

`rlist_merge` and `rlist_clone` walk a list with a cursor that is one node ahead and push each value to the
other one. A walk whose nodes behind the cursor keep their links sees what was there before
(`mergeLoop_walk`), whether the lists are the same one or not. A list merged into itself in the direction of
the pushes has the next node linked behind the cursor in each round (`mergeLoop_self`).
-/

namespace Funra

open Mem CInt Linked Except

variable {α : Type} {F : RlistFuncs α} {s s' s'' dest dest' temp : Rlist α}
  {l l' l'' ld lt : List (Nat × Option α)} {a : Nat} {alloc : Nat → Option Nat}

/-- The loop of both functions. `alloc` is what the allocation of the node returns in each round. -/
def mergeLoop (F : RlistFuncs α) (alloc : Nat → Option Nat) :
    Nat → Rlist α → RlistIterator → Nat → Except Fault (Nat × Rlist α)
  | 0, _, _, _ => .error .outOfFuel
  | fuel + 1, dest, it, count => do
    let (node, it) ← rlistNext dest it
    match node with
    | none => return (count, dest)
    | some a => do
      let x ← dest.node (some a)
      let (_, dest) ← rlistRpush F (alloc count) x.val dest
      mergeLoop F alloc fuel dest it (count + 1)

/-- `temp` is `dest` or another list in the same memory. `count` is an `int`. -/
def rlistMerge (F : RlistFuncs α) (alloc : Nat → Option Nat) (fuel : Nat) (dest temp : Option (Rlist α))
    (dir : RlistDirection) : Except Fault (Int × Option (Rlist α)) :=
  match dest, temp with
  | some dest, some temp => do
    let (count, dest) ← mergeLoop F alloc fuel dest (rlistIt temp dir) 0
    return (int32 count, some dest)
  | _, _ => .ok (0, dest)

/-- The new list has the functions of `src`. -/
def rlistClone (F : RlistFuncs α) (alloc : Nat → Option Nat) (fuel : Nat) (src : Option (Rlist α))
    (dir : RlistDirection) : Except Fault (Option (Rlist α)) :=
  match src with
  | some src => do
    let (_, dest) ← mergeLoop F alloc fuel (rlistCreate src.nodes) (rlistIt src dir) 0
    return some dest
  | none => .ok none

/-! ### A push -/

/-- What a push to the end leaves alone: it links the last node to the new one, unless `len` is 0. -/
structure PushFrame (a : Nat) (s s' : Rlist α) : Prop where
  next : ∀ b ≠ a, s.len = 0 ∨ s.tail ≠ some b → s'.nextOf b = s.nextOf b
  prev : ∀ b ≠ a, s'.prevOf b = s.prevOf b
  val : ∀ b ≠ a, s'.valOf b = s.valOf b

theorem rlistRpush_frame {v : α} {r : Option Nat × Rlist α}
    (hrun : rlistRpush F (some a) (some v) s = .ok r) : PushFrame a s r.2 := by
  rw [rlistRpush, if_neg (by simp)] at hrun
  dsimp only at hrun
  split at hrun
  next hpos =>
    have hlen : s.len ≠ 0 := fun heq => by simp [heq] at hpos
    obtain ⟨s₁, hlink, hret⟩ := of_bind_ok hrun
    cases hret
    cases htail : s.tail with
    | none =>
      rw [Rlist.setNode_tail, htail] at hlink
      cases hlink
    | some t =>
      rw [Rlist.setNode_tail, htail, Rlist.modifyNode] at hlink
      cases hnode : (s.setNode a ⟨some t, none, F.newVal (some v)⟩).nodes t with
      | none =>
        rw [hnode] at hlink
        cases hlink
      | some old =>
        rw [hnode] at hlink
        cases hlink
        refine ⟨fun b hb hkeep => ?_, fun b hb => ?_, fun b hb => ?_⟩
        · have hbt : b ≠ t := fun heq => hkeep.elim hlen fun hne => hne (htail.trans (congrArg some heq.symm))
          change (Rlist.setNode _ t _).nextOf b = _
          rw [Rlist.nextOf_setNode, Function.update_of_ne hbt, Rlist.nextOf_setNode, Function.update_of_ne hb]
        · change (Rlist.setNode _ t _).prevOf b = _
          rw [Rlist.prevOf_setNode_keep hnode (by rfl), Rlist.prevOf_setNode, Function.update_of_ne hb]
        · change (Rlist.setNode _ t _).valOf b = _
          rw [Rlist.valOf_setNode_keep hnode (by rfl), Rlist.valOf_setNode, Function.update_of_ne hb]
  next hzero =>
    cases hrun
    refine ⟨fun b hb _ => ?_, fun b hb => ?_, fun b hb => ?_⟩
    · change (Rlist.setNode s a _).nextOf b = _
      rw [Rlist.nextOf_setNode, Function.update_of_ne hb]
    · change (Rlist.setNode s a _).prevOf b = _
      rw [Rlist.prevOf_setNode, Function.update_of_ne hb]
    · change (Rlist.setNode s a _).valOf b = _
      rw [Rlist.valOf_setNode, Function.update_of_ne hb]

theorem rlistRpush_null (m : Option Nat) : rlistRpush F m none s = .ok (none, s) := by
  unfold rlistRpush
  rw [if_pos rfl]

/-- The list after a push: with 2^32 nodes `len` is 0, and the new node becomes the only one. -/
def pushNode {β : Type} (l : List β) (x : β) : List β := if l.length = 4294967296 then [x] else l ++ [x]

theorem pushNode_length {β : Type} {l : List β} (x : β) (h : l.length ≤ 4294967296) :
    (pushNode l x).length ≤ 4294967296 := by
  unfold pushNode
  split
  · simp
  · rw [List.length_append, List.length_singleton]
    omega

theorem rlistRpush_rep (h : RlistRep s l) (hlen : l.length ≤ 4294967296) (ha : s.nodes a = none) (v : α) :
    (rlistRpush F (some a) (some v) s).Succeeds fun r =>
      RlistRep r.2 (pushNode l (a, F.newVal (some v))) ∧ r.2.tail = some a ∧ PushFrame a s r.2 := by
  have hlast : ∀ {r : Option Nat × Rlist α}, RlistRep r.2 (pushNode l (a, F.newVal (some v))) → r.2.tail = some a := by
    intro r hrep
    rw [hrep.tail_eq, pushNode]
    split
    · rfl
    · simp
  rcases Nat.lt_or_ge l.length 4294967296 with hlt | hge
  · obtain ⟨r, hrun, -, hrep, -⟩ := rlistRpush_spec (F := F) h hlt ha v
    have hpush : RlistRep r.2 (pushNode l (a, F.newVal (some v))) := by
      rwa [pushNode, if_neg (by omega)]
    exact ⟨r, hrun, hpush, hlast hpush, rlistRpush_frame hrun⟩
  · have hfull : l.length = 4294967296 := Nat.le_antisymm hlen hge
    have hzero : s.len = 0 := by
      rw [h.len, hfull]
      rfl
    have hrun : rlistRpush F (some a) (some v) s =
        .ok (some a, { s.setNode a ⟨none, none, F.newVal (some v)⟩ with
          head := some a, tail := some a, len := s.len + 1 }) := by
      rw [rlistRpush, if_neg (by simp)]
      dsimp only
      rw [if_neg (by simp [hzero])]
      rfl
    refine ⟨_, hrun, ?_, rfl, rlistRpush_frame hrun⟩
    rw [pushNode, if_pos hfull]
    refine ⟨⟨rfl, none, ?_, rfl⟩, ⟨rfl, none, ?_, rfl⟩, ?_, ?_⟩
    · simp [Rlist.nextOf, Rlist.setNode]
    · simp [Rlist.prevOf, Rlist.setNode]
    · simp [Rlist.valOf, Rlist.setNode]
    · change s.len + 1 = _
      rw [hzero]
      rfl

/-! ### What a walk leaves -/

/-- From `s` to `s'` nodes were pushed to the list `l`: the other links and all values are as they were, and what
`l'` has besides `l` was not allocated. -/
structure OthersKept (s : Rlist α) (l : List (Nat × Option α)) (s' : Rlist α) (l' : List (Nat × Option α)) : Prop where
  next : ∀ b, (s.valOf b).isSome → b ∉ l.map Prod.fst → s'.nextOf b = s.nextOf b
  prev : ∀ b, (s.valOf b).isSome → s'.prevOf b = s.prevOf b
  val : ∀ b, (s.valOf b).isSome → s'.valOf b = s.valOf b
  new : ∀ b ∈ l'.map Prod.fst, b ∈ l.map Prod.fst ∨ s.valOf b = none

theorem OthersKept.refl (s : Rlist α) (l : List (Nat × Option α)) : OthersKept s l s l :=
  ⟨fun _ _ _ => rfl, fun _ _ => rfl, fun _ _ => rfl, fun _ hb => .inl hb⟩

theorem OthersKept.trans (h : OthersKept s l s' l') (h' : OthersKept s' l' s'' l'') : OthersKept s l s'' l'' := by
  have hstill : ∀ b, (s.valOf b).isSome → (s'.valOf b).isSome := fun b hb => by rwa [h.val b hb]
  refine ⟨fun b hb hbl => ?_, fun b hb => ?_, fun b hb => ?_, fun b hb => ?_⟩
  · have hbl' : b ∉ l'.map Prod.fst := by
      intro hmem
      rcases h.new b hmem with hin | hnone
      · exact hbl hin
      · simp [hnone] at hb
    exact (h'.next b (hstill b hb) hbl').trans (h.next b hb hbl)
  · exact (h'.prev b (hstill b hb)).trans (h.prev b hb)
  · exact (h'.val b (hstill b hb)).trans (h.val b hb)
  · rcases h'.new b hb with hin | hnone
    · exact h.new b hin
    · right
      by_contra hsome
      have := hstill b (Option.isSome_iff_ne_none.mpr hsome)
      simp [hnone] at this

theorem valOf_eq_none {b : Nat} : s.valOf b = none ↔ s.nodes b = none := Option.map_eq_none_iff

theorem PushFrame.kept {v : Option α} (h : RlistRep s l) (ha : s.nodes a = none) (hframe : PushFrame a s s') :
    OthersKept s l s' (pushNode l (a, v)) := by
  have hne : ∀ b, (s.valOf b).isSome → b ≠ a := by
    rintro b hb rfl
    rw [valOf_eq_none.mpr ha] at hb
    cases hb
  refine ⟨fun b hb hbl => hframe.next b (hne b hb) (.inr ?_), fun b hb => hframe.prev b (hne b hb),
    fun b hb => hframe.val b (hne b hb), fun b hb => ?_⟩
  · rw [h.tail_eq]
    exact fun hlast => hbl (List.mem_of_getLast? hlast)
  · unfold pushNode at hb
    split at hb
    · obtain rfl : b = a := by simpa using hb
      exact .inr (valOf_eq_none.mpr ha)
    · rw [List.map_append, List.mem_append] at hb
      rcases hb with hb | hb
      · exact .inl hb
      · obtain rfl : b = a := by simpa using hb
        exact .inr (valOf_eq_none.mpr ha)

/-- Another list in the memory stays what it is. -/
theorem OthersKept.other (h : OthersKept dest ld dest' l') (htemp : RlistRep temp lt) (hmem : temp.nodes = dest.nodes)
    (hapart : ∀ b ∈ lt.map Prod.fst, b ∉ ld.map Prod.fst) : RlistRep { temp with nodes := dest'.nodes } lt := by
  have hval : temp.valOf = dest.valOf := by
    unfold Rlist.valOf
    rw [hmem]
  have hsome : ∀ b ∈ lt.map Prod.fst, (dest.valOf b).isSome := by
    intro b hb
    obtain ⟨node, hnode⟩ := htemp.allocated hb
    rw [← hval, Rlist.valOf, hnode]
    rfl
  refine ⟨?_, ?_, fun p hp => ?_, htemp.len⟩
  · refine htemp.next.congr fun b hb => (h.next b (hsome b hb) (hapart b hb)).trans ?_
    rw [Rlist.nextOf, Rlist.nextOf, hmem]
  · refine htemp.prev.congr fun b hb => (h.prev b (hsome b (List.mem_reverse.mp hb))).trans ?_
    rw [Rlist.prevOf, Rlist.prevOf, hmem]
  · have hkeep := h.val p.1 (hsome p.1 (List.mem_map_of_mem hp))
    exact hkeep.trans ((congrFun hval p.1).symm.trans (htemp.val p hp))

/-! ### The loop -/

/-- The values after the values `vs` are pushed: `NULL` is refused. -/
def pushVals (F : RlistFuncs α) (l : List (Option α)) : List (Option α) → List (Option α)
  | [] => l
  | v :: vs => pushVals F (if v = none then l else pushNode l (F.newVal v)) vs

theorem pushVals_length {l : List (Option α)} (vs : List (Option α)) (h : l.length ≤ 4294967296) :
    (pushVals F l vs).length ≤ l.length + vs.length := by
  induction vs generalizing l with
  | nil => exact le_refl _
  | cons v vs ih =>
    rw [pushVals, List.length_cons]
    split
    · have := ih h
      omega
    · have hle := ih (pushNode_length (F.newVal v) h)
      have hone : (pushNode l (F.newVal v)).length ≤ l.length + 1 := by
        unfold pushNode
        split
        · simp
        · simp
      omega

/-- All values arrive just when none of them is `NULL` and `len` does not come back to 0 before the last. -/
theorem pushVals_eq_iff {l : List (Option α)} (vs : List (Option α)) (h : l.length ≤ 4294967296) :
    pushVals F l vs = l ++ vs.map F.newVal ↔ (∀ v ∈ vs, v ≠ none) ∧ l.length + vs.length ≤ 4294967296 := by
  induction vs generalizing l with
  | nil => simp [pushVals, h]
  | cons v vs ih =>
    rw [pushVals, List.map_cons, List.forall_mem_cons, List.length_cons]
    by_cases hv : v = none
    · rw [if_pos hv]
      refine ⟨fun heq => ?_, fun hall => absurd hv hall.1.1⟩
      have hle := pushVals_length (F := F) vs h
      rw [heq, List.length_append, List.length_cons, List.length_map] at hle
      omega
    · rw [if_neg hv]
      unfold pushNode
      by_cases hfull : l.length = 4294967296
      · rw [if_pos hfull]
        refine ⟨fun heq => ?_, fun hall => ?_⟩
        · have hle := pushVals_length (F := F) (l := [F.newVal v]) vs (by simp)
          rw [heq, List.length_append, List.length_cons, List.length_map, List.length_singleton] at hle
          omega
        · omega
      · have hlen : (l ++ [F.newVal v]).length ≤ 4294967296 := by
          rw [List.length_append, List.length_singleton]
          omega
        have hcons : l ++ F.newVal v :: vs.map F.newVal = (l ++ [F.newVal v]) ++ vs.map F.newVal := by simp
        rw [if_neg hfull, hcons, ih hlen, List.length_append, List.length_singleton]
        simp only [hv, ne_eq, not_false_eq_true, true_and]
        rw [show l.length + 1 + vs.length = l.length + (vs.length + 1) by omega]

/-- From round `count` on each allocation gives a node of its own. -/
structure Fresh (s : Rlist α) (alloc : Nat → Option Nat) (count : Nat) : Prop where
  free : ∀ i, count ≤ i → ∃ a, alloc i = some a ∧ s.nodes a = none
  distinct : ∀ i j a, alloc i = some a → alloc j = some a → i = j

theorem Fresh.skip {count : Nat} (h : Fresh s alloc count) : Fresh s alloc (count + 1) :=
  ⟨fun i hi => h.free i (by omega), h.distinct⟩

theorem Fresh.push {count : Nat} (h : Fresh s alloc count) (ha : alloc count = some a)
    (hframe : PushFrame a s s') : Fresh s' alloc (count + 1) := by
  refine ⟨fun i hi => ?_, h.distinct⟩
  obtain ⟨b, hb, hnone⟩ := h.free i (by omega)
  have hba : b ≠ a := by
    rintro rfl
    have := h.distinct i count b hb ha
    omega
  exact ⟨b, hb, valOf_eq_none.mp ((hframe.val b hba).trans (valOf_eq_none.mpr hnone))⟩

section loop

variable {it : RlistIterator} {as : List Nat} {fuel fuel' count : Nat} {v : Option α} {r : Nat × Rlist α}

theorem mergeLoop_done (h : ItRep s it []) : mergeLoop F alloc (fuel + 1) s it count = .ok (count, s) := by
  rw [mergeLoop, rlistNext_nil h]
  rfl

/-- A round moves the cursor and then pushes the value. -/
theorem mergeLoop_round (F : RlistFuncs α) (alloc : Nat → Option Nat) (h : ItRep s it (a :: as)) (hv : s.valOf a = some v) :
    ∃ it', ItRep s it' as ∧ it'.direction = it.direction ∧ ∀ fuel count,
      mergeLoop F alloc (fuel + 1) s it count =
        (rlistRpush F (alloc count) v s).bind fun r => mergeLoop F alloc fuel r.2 it' (count + 1) := by
  obtain ⟨x, hx, rfl⟩ := Option.map_eq_some_iff.mp hv
  obtain ⟨⟨r, it'⟩, hnext, rfl, hrest⟩ := rlistNext_cons h
  have hdir : it'.direction = it.direction := by
    have hp : it.next = some a := h.1
    rw [rlistNext, hp] at hnext
    obtain ⟨curr, -, hret⟩ := of_bind_ok hnext
    cases hret
    rfl
  refine ⟨it', hrest, hdir, fun fuel count => ?_⟩
  rw [mergeLoop, hnext]
  change Except.bind (s.node (some a)) _ = _
  rw [Rlist.node_ok hx]
  rfl

theorem mergeLoop_mono (h : mergeLoop F alloc fuel s it count = .ok r) (hle : fuel ≤ fuel') :
    mergeLoop F alloc fuel' s it count = .ok r := by
  induction fuel generalizing s it count fuel' with
  | zero => cases h
  | succ fuel ih =>
    obtain ⟨k, rfl⟩ : ∃ k, fuel' = k + 1 := ⟨fuel' - 1, by omega⟩
    rw [mergeLoop] at h ⊢
    obtain ⟨⟨node, it'⟩, hnext, h⟩ := of_bind_ok h
    rw [hnext]
    cases node with
    | none => exact h
    | some a =>
      obtain ⟨x, hx, h⟩ := of_bind_ok h
      obtain ⟨⟨m, s'⟩, hpush, h⟩ := of_bind_ok h
      change Except.bind (s.node (some a)) _ = _
      rw [hx]
      change Except.bind (rlistRpush F (alloc count) x.val s) _ = _
      rw [hpush]
      exact ih h (by omega)

/-- What is behind the cursor stays behind it. -/
theorem PushFrame.itRep (hframe : PushFrame a s s') (h : ItRep s it as) (ha : s.nodes a = none)
    (hlast : it.direction = .tail → ∀ b ∈ as, s.len = 0 ∨ s.tail ≠ some b) : ItRep s' it as := by
  have hne : ∀ b ∈ as, b ≠ a := by
    rintro b hb rfl
    have hlink := Path.isSome h hb
    cases hdir : it.direction with
    | tail => simp [Rlist.link, hdir, Rlist.nextOf, ha] at hlink
    | head => simp [Rlist.link, hdir, Rlist.prevOf, ha] at hlink
  refine Path.congr h fun b hb => ?_
  cases hdir : it.direction with
  | tail => exact hframe.next b (hne b hb) (hlast hdir b hb)
  | head => exact hframe.prev b (hne b hb)

/-- The nodes that a walk has before it hold what they held. -/
theorem PushFrame.vals {vs : List (Option α)} (hframe : PushFrame a s s') (hfree : s.nodes a = none)
    (hvals : as.map s.valOf = vs.map some) : (∀ c ∈ as, c ≠ a) ∧ as.map s'.valOf = vs.map some := by
  have hne : ∀ c ∈ as, c ≠ a := by
    rintro c hc rfl
    have hmem : s.valOf c ∈ vs.map some := hvals ▸ List.mem_map_of_mem hc
    rw [valOf_eq_none.mpr hfree] at hmem
    simp at hmem
  refine ⟨hne, ?_⟩
  rw [← hvals]
  apply List.map_congr_left
  intro c hc
  exact hframe.val c (hne c hc)

theorem map_snd_pushNode (l : List (Nat × Option α)) (x : Nat × Option α) :
    (pushNode l x).map Prod.snd = pushNode (l.map Prod.snd) x.2 := by
  unfold pushNode
  rw [List.length_map]
  split
  · rfl
  · rw [List.map_append]
    rfl

/-- A walk along nodes whose links the pushes leave alone. -/
theorem mergeLoop_walk {vs : List (Option α)} (h : RlistRep s l) (hlen : l.length ≤ 4294967296)
    (hit : ItRep s it as) (hvals : as.map s.valOf = vs.map some) (hfresh : Fresh s alloc count)
    (hlast : it.direction = .tail → ∀ b ∈ as.tail, s.tail ≠ some b) (hfuel : as.length < fuel) :
    ∃ s' l', mergeLoop F alloc fuel s it count = .ok (count + as.length, s') ∧ RlistRep s' l' ∧
      l'.map Prod.snd = pushVals F (l.map Prod.snd) vs ∧ OthersKept s l s' l' := by
  induction as generalizing s l it vs fuel count with
  | nil =>
    obtain ⟨k, rfl⟩ : ∃ k, fuel = k + 1 := ⟨fuel - 1, by simp at hfuel; omega⟩
    obtain rfl : vs = [] := by simpa using hvals
    exact ⟨s, l, mergeLoop_done hit, h, rfl, .refl s l⟩
  | cons b as ih =>
    obtain ⟨k, rfl⟩ : ∃ k, fuel = k + 1 := ⟨fuel - 1, by simp at hfuel; omega⟩
    cases vs with
    | nil => simp at hvals
    | cons v vs =>
      simp only [List.map_cons, List.cons.injEq] at hvals
      obtain ⟨hv, hvals⟩ := hvals
      obtain ⟨it', hit', hdir, hround⟩ := mergeLoop_round F alloc hit hv
      rw [hround]
      have hcount : count + (b :: as).length = count + 1 + as.length := by
        rw [List.length_cons]
        omega
      rw [hcount]
      cases v with
      | none =>
        rw [rlistRpush_null]
        have hlast' : it'.direction = .tail → ∀ c ∈ as.tail, s.tail ≠ some c := fun ht c hc =>
          hlast (hdir ▸ ht) c (List.mem_of_mem_tail hc)
        obtain ⟨s', l', hloop, hrep', hl', hkept⟩ := ih h hlen hit' hvals hfresh.skip hlast' (by simpa using hfuel)
        exact ⟨s', l', hloop, hrep', hl', hkept⟩
      | some v =>
        obtain ⟨a, ha, hfree⟩ := hfresh.free count (le_refl count)
        obtain ⟨r, hrun, hrep, htail, hframe⟩ := rlistRpush_rep (F := F) h hlen hfree v
        have hit'' : ItRep r.2 it' as := hframe.itRep hit' hfree fun ht c hc => .inr (hlast (hdir ▸ ht) c hc)
        obtain ⟨hne, hvals'⟩ := hframe.vals hfree hvals
        have hlast' : it'.direction = .tail → ∀ c ∈ as.tail, r.2.tail ≠ some c := by
          intro _ c hc heq
          exact hne c (List.mem_of_mem_tail hc) (Option.some.inj (htail.symm.trans heq)).symm
        rw [ha, hrun]
        obtain ⟨s', l', hloop, hrep', hl', hkept⟩ := ih hrep (pushNode_length _ hlen) hit'' hvals'
          (hfresh.push ha hframe) hlast' (by simpa using hfuel)
        refine ⟨s', l', hloop, hrep', ?_, (hframe.kept h hfree).trans hkept⟩
        rw [hl', map_snd_pushNode, pushVals, if_neg nofun]

/-! ### A list merged into itself -/

/-- What such a merge can end with after `c` rounds: as many nodes as rounds, one more, a single one, or any number
where `c` is a multiple of 2^32. -/
def SelfEnd (r : Nat × Rlist α) : Prop :=
  ∃ l', RlistRep r.2 l' ∧ (r.1 % 4294967296 = 0 ∨ l'.length = r.1 ∨ l'.length = r.1 + 1 ∨ l'.length = 1)

/-- With 2^32 nodes the new node starts a list of its own, and the walk ends at the old tail. -/
theorem mergeLoop_full {pre rest : List (Nat × Option α)} {x : Nat × Option α} (h : RlistRep s (pre ++ rest))
    (hfull : (pre ++ rest).length = 4294967296) (hit : ItRep s it (rest.map Prod.fst)) (hfree : s.nodes a = none)
    (hrep : RlistRep s' [x]) (htail : s'.tail = some a) (hframe : PushFrame a s s') (hfresh : Fresh s' alloc pre.length)
    (hrun : mergeLoop F alloc fuel s' it pre.length = .ok r) : SelfEnd r := by
  have hzero : s.len = 0 := by
    rw [h.len, hfull]
    rfl
  have hold : ItRep s' it (rest.map Prod.fst) := hframe.itRep hit hfree fun _ _ _ => .inl hzero
  have hvals : (rest.map Prod.fst).map s.valOf = (rest.map Prod.snd).map some := by
    rw [List.map_map, List.map_map]
    apply List.map_congr_left
    intro q hq
    exact h.val q (List.mem_append_right _ hq)
  obtain ⟨hne, hvals'⟩ := hframe.vals hfree hvals
  have hlast : it.direction = .tail → ∀ c ∈ (rest.map Prod.fst).tail, s'.tail ≠ some c := by
    intro _ c hc heq
    exact hne c (List.mem_of_mem_tail hc) (Option.some.inj (htail.symm.trans heq)).symm
  obtain ⟨s'', l', hloop, hrep', -, -⟩ := mergeLoop_walk hrep (by simp) hold hvals' hfresh hlast
    (Nat.lt_add_one (rest.map Prod.fst).length)
  have hsame := (mergeLoop_mono hloop (Nat.le_max_left _ fuel)).symm.trans
    (mergeLoop_mono hrun (Nat.le_max_right _ _))
  obtain rfl := Except.ok.inj hsame
  refine ⟨l', hrep', .inl ?_⟩
  rw [List.length_append] at hfull
  rw [List.length_map, hfull]
  exact Nat.mod_self _

/-- A cursor that is not at the end has the new node before it, too. -/
theorem ItRep.extend {pre rest : List (Nat × Option α)} {x : Nat × Option α} (hit : ItRep s it (rest.map Prod.fst))
    (hdir : it.direction = .tail) (hnil : rest ≠ []) (hrep : RlistRep s' (pre ++ (rest ++ [x]))) :
    ItRep s' it ((rest ++ [x]).map Prod.fst) := by
  have hnext := hrep.next
  rw [List.map_append] at hnext
  obtain ⟨q, -, hq⟩ := path_append.mp hnext
  have hitHead : it.next = (rest.map Prod.fst).head? := Path.head hit
  have hqHead := hq.head
  rw [List.map_append, List.head?_append_of_ne_nil _ (by simpa using hnil), ← hitHead] at hqHead
  unfold ItRep
  rw [hdir, ← hqHead]
  exact hq

/-- The walk in the direction of the pushes: behind the cursor is the rest of the list, and each round adds a node to
it. -/
theorem mergeLoop_self {pre rest : List (Nat × Option α)} (h : RlistRep s (pre ++ rest))
    (hlen : (pre ++ rest).length ≤ 4294967296) (hdir : it.direction = .tail)
    (hit : ItRep s it (rest.map Prod.fst)) (hfresh : Fresh s alloc pre.length)
    (hrun : mergeLoop F alloc fuel s it pre.length = .ok r) : SelfEnd r := by
  induction fuel generalizing s it pre rest with
  | zero => cases hrun
  | succ fuel ih =>
    cases rest with
    | nil =>
      rw [mergeLoop_done hit] at hrun
      cases hrun
      exact ⟨_, h, .inr (.inl (by simp))⟩
    | cons p rest =>
      obtain ⟨b, v⟩ := p
      have hv : s.valOf b = some v := h.val (b, v) (by simp)
      obtain ⟨it', hit', hdir', hround⟩ := mergeLoop_round F alloc hit hv
      have hsplit : pre ++ (b, v) :: rest = (pre ++ [(b, v)]) ++ rest := by simp
      have hnext : pre.length + 1 = (pre ++ [(b, v)]).length := by simp
      rw [hround, hnext] at hrun
      rw [hsplit] at h hlen
      cases v with
      | none =>
        rw [rlistRpush_null] at hrun
        exact ih h hlen (hdir'.trans hdir) hit' (hnext ▸ hfresh.skip) hrun
      | some v =>
        obtain ⟨a, ha, hfree⟩ := hfresh.free pre.length (le_refl _)
        obtain ⟨r₁, hpush, hrep, htail, hframe⟩ := rlistRpush_rep (F := F) h hlen hfree v
        rw [ha, hpush] at hrun
        have hrun' : mergeLoop F alloc fuel r₁.2 it' (pre ++ [(b, some v)]).length = .ok r := hrun
        have hfresh' := hfresh.push ha hframe
        rw [hnext] at hfresh'
        by_cases hfull : ((pre ++ [(b, some v)]) ++ rest).length = 4294967296
        · rw [pushNode, if_pos hfull] at hrep
          exact mergeLoop_full h hfull hit' hfree hrep htail hframe hfresh' hrun'
        · rw [pushNode, if_neg hfull] at hrep
          by_cases hnil : rest = []
          · -- the cursor was set before the push
            subst hnil
            have hend : ItRep r₁.2 it' [] := hit'
            cases fuel with
            | zero => cases hrun'
            | succ fuel =>
              rw [mergeLoop_done hend] at hrun'
              cases hrun'
              exact ⟨_, hrep, .inr (.inr (.inl (by simp)))⟩
          · rw [List.append_assoc] at hrep
            have hcursor := ItRep.extend hit' (hdir'.trans hdir) hnil hrep
            refine ih hrep ?_ (hdir'.trans hdir) hcursor hfresh' hrun'
            rw [← List.append_assoc, List.length_append, List.length_singleton]
            omega

end loop

/-! ### Merging -/

/-- In the order in which a walk meets them. -/
def along {β : Type} (dir : RlistDirection) (l : List β) : List β :=
  match dir with
  | .tail => l
  | .head => l.reverse

/-- The list holds the values, in this order. -/
def Rlist.Holds (s : Rlist α) (vs : List (Option α)) : Prop := ∃ l, RlistRep s l ∧ l.map Prod.snd = vs

/-- The other list in the same memory. -/
def Apart (dest : Rlist α) (ld : List (Nat × Option α)) (temp : Rlist α) (lt : List (Nat × Option α)) : Prop :=
  temp.nodes = dest.nodes ∧ ∀ b ∈ lt.map Prod.fst, b ∉ ld.map Prod.fst

/-- `rlist_merge` does what it is for: it returns the length of `temp`, `dest` holds its values and then those of
`temp`, as its functions store them, and another list is as it was. -/
def Merges (F : RlistFuncs α) (alloc : Nat → Option Nat) (dest : Rlist α) (ld : List (Nat × Option α))
    (temp : Rlist α) (lt : List (Nat × Option α)) (dir : RlistDirection) : Prop :=
  ∃ fuel dest', rlistMerge F alloc fuel (some dest) (some temp) dir = .ok (lt.length, some dest') ∧
    dest'.Holds (ld.map Prod.snd ++ ((along dir lt).map Prod.snd).map F.newVal) ∧
    (Apart dest ld temp lt → RlistRep { temp with nodes := dest'.nodes } lt)

/-- `rlist_clone` does: a list of new nodes with the values, and `src` is as it was. -/
def Clones (F : RlistFuncs α) (alloc : Nat → Option Nat) (src : Rlist α) (l : List (Nat × Option α))
    (dir : RlistDirection) : Prop :=
  ∃ fuel dest', rlistClone F alloc fuel (some src) dir = .ok (some dest') ∧
    (∃ l', RlistRep dest' l' ∧ l'.map Prod.snd = ((along dir l).map Prod.snd).map F.newVal ∧
      ∀ b ∈ l'.map Prod.fst, src.nodes b = none) ∧
    RlistRep { src with nodes := dest'.nodes } l

/-- What a merge needs: values that can be pushed, counts that fit in an `int` and in `len`, and for a list merged into
itself the other direction or at most one node. -/
structure MergeFits (dest : Rlist α) (ld : List (Nat × Option α)) (temp : Rlist α) (lt : List (Nat × Option α))
    (dir : RlistDirection) : Prop where
  vals : ∀ p ∈ lt, p.2 ≠ none
  count : lt.length < 2147483648
  len : ld.length + lt.length ≤ 4294967296
  ahead : ¬ (temp = dest ∧ dir = .tail ∧ 2 ≤ lt.length)

@[simp] theorem length_along {β : Type} (dir : RlistDirection) (l : List β) : (along dir l).length = l.length := by
  cases dir with
  | tail => rfl
  | head => exact List.length_reverse

@[simp] theorem mem_along {β : Type} {dir : RlistDirection} {l : List β} {x : β} : x ∈ along dir l ↔ x ∈ l := by
  cases dir with
  | tail => rfl
  | head => exact List.mem_reverse

theorem vals_along_ne {dir : RlistDirection} :
    (∀ v ∈ (along dir lt).map Prod.snd, v ≠ none) ↔ ∀ p ∈ lt, p.2 ≠ none := by
  rw [List.forall_mem_map]
  simp only [mem_along]

theorem RlistRep.unique (h : RlistRep s l) (h' : RlistRep s l') : l = l' := by
  have haddr : l.map Prod.fst = l'.map Prod.fst := h.next.unique h'.next
  have hlen : l.length = l'.length := by simpa using congrArg List.length haddr
  apply List.ext_getElem hlen
  intro i hi hi'
  have hfst : l[i].1 = l'[i].1 := by
    have hget := congrArg (fun m => m[i]?) haddr
    simpa [hi, hi'] using hget
  have hval := h.val l[i] (List.getElem_mem hi)
  rw [hfst, h'.val l'[i] (List.getElem_mem hi')] at hval
  exact Prod.ext hfst (Option.some.inj hval).symm

/-- The cursor of `rlist_it` in the memory of another list. -/
theorem RlistRep.itRep_along (h : RlistRep temp lt) (hmem : temp.nodes = dest.nodes) (dir : RlistDirection) :
    ItRep dest (rlistIt temp dir) ((along dir lt).map Prod.fst) := by
  cases dir with
  | tail =>
    have hnext : dest.nextOf = temp.nextOf := by
      unfold Rlist.nextOf
      rw [hmem]
    change Path dest.nextOf temp.head (lt.map Prod.fst) none
    rw [hnext]
    exact h.next
  | head =>
    have hprev : dest.prevOf = temp.prevOf := by
      unfold Rlist.prevOf
      rw [hmem]
    change Path dest.prevOf temp.tail (lt.reverse.map Prod.fst) none
    rw [hprev, List.map_reverse]
    exact h.prev

/-- The values the walk meets. -/
theorem RlistRep.vals_along (h : RlistRep temp lt) (hmem : temp.nodes = dest.nodes) (dir : RlistDirection) :
    ((along dir lt).map Prod.fst).map dest.valOf = ((along dir lt).map Prod.snd).map some := by
  rw [List.map_map, List.map_map]
  apply List.map_congr_left
  intro p hp
  have hval := h.val p (mem_along.mp hp)
  rw [Rlist.valOf, hmem] at hval
  exact hval

/-- A merge whose walk is left alone. -/
theorem merge_walk (hdest : RlistRep dest ld) (hld : ld.length ≤ 4294967296) (htemp : RlistRep temp lt)
    (hmem : temp.nodes = dest.nodes) (hfresh : Fresh dest alloc 0) (dir : RlistDirection)
    (hlast : dir = .tail → ∀ b ∈ ((along dir lt).map Prod.fst).tail, dest.tail ≠ some b) :
    ∃ dest' l', (∀ fuel, lt.length < fuel →
        mergeLoop F alloc fuel dest (rlistIt temp dir) 0 = .ok (lt.length, dest')) ∧ RlistRep dest' l' ∧
      l'.map Prod.snd = pushVals F (ld.map Prod.snd) ((along dir lt).map Prod.snd) ∧ OthersKept dest ld dest' l' := by
  obtain ⟨dest', l', hloop, hrep, hl', hkept⟩ := mergeLoop_walk (F := F) hdest hld
    (htemp.itRep_along hmem dir) (htemp.vals_along hmem dir) hfresh hlast (show _ < lt.length + 1 by simp)
  refine ⟨dest', l', fun fuel hfuel => ?_, hrep, hl', hkept⟩
  have hmono := mergeLoop_mono hloop (show lt.length + 1 ≤ fuel from hfuel)
  simpa using hmono

theorem rlistMerge_loop {fuel : Nat} {dir : RlistDirection} {r : Int × Option (Rlist α)} :
    rlistMerge F alloc fuel (some dest) (some temp) dir = .ok r ↔
      ∃ count dest', mergeLoop F alloc fuel dest (rlistIt temp dir) 0 = .ok (count, dest') ∧
        r = (int32 count, some dest') := by
  constructor
  · intro h
    obtain ⟨⟨count, dest'⟩, hloop, hret⟩ := of_bind_ok h
    exact ⟨count, dest', hloop, (Except.ok.inj hret).symm⟩
  · rintro ⟨count, dest', hloop, rfl⟩
    change Except.bind (mergeLoop F alloc fuel dest (rlistIt temp dir) 0) _ = _
    rw [hloop]
    rfl

theorem merges_of_walk {dir : RlistDirection} (hdest : RlistRep dest ld) (hld : ld.length < 4294967296)
    (htemp : RlistRep temp lt) (hlt : lt.length < 4294967296) (hmem : temp.nodes = dest.nodes)
    (hfresh : Fresh dest alloc 0)
    (hlast : dir = .tail → ∀ b ∈ ((along dir lt).map Prod.fst).tail, dest.tail ≠ some b) :
    Merges F alloc dest ld temp lt dir ↔
      (∀ p ∈ lt, p.2 ≠ none) ∧ lt.length < 2147483648 ∧ ld.length + lt.length ≤ 4294967296 := by
  obtain ⟨dest', l', hloop, hrep, hl', hkept⟩ := merge_walk (F := F) hdest hld.le htemp hmem hfresh dir hlast
  have hvals : pushVals F (ld.map Prod.snd) ((along dir lt).map Prod.snd) =
      ld.map Prod.snd ++ ((along dir lt).map Prod.snd).map F.newVal ↔
        (∀ p ∈ lt, p.2 ≠ none) ∧ ld.length + lt.length ≤ 4294967296 := by
    rw [pushVals_eq_iff _ (by simpa using hld.le), vals_along_ne]
    simp
  constructor
  · rintro ⟨fuel, dest'', hrun, ⟨l'', hrep'', hl''⟩, -⟩
    obtain ⟨count, d, hend, heq⟩ := rlistMerge_loop.mp hrun
    have hsame := (mergeLoop_mono hend (Nat.le_max_left fuel (lt.length + 1))).symm.trans
      (hloop _ (Nat.lt_of_lt_of_le (Nat.lt_succ_self _) (Nat.le_max_right _ _)))
    obtain ⟨rfl, rfl⟩ := Prod.mk.inj (Except.ok.inj hsame)
    obtain ⟨hcount, hd⟩ := Prod.mk.inj heq
    obtain rfl := Option.some.inj hd
    obtain rfl := hrep.unique hrep''
    obtain ⟨hnull, hlen⟩ := hvals.mp (hl'.symm.trans hl'')
    refine ⟨hnull, ?_, hlen⟩
    unfold int32 at hcount
    omega
  · rintro ⟨hnull, hcount, hlen⟩
    refine ⟨lt.length + 1, dest', rlistMerge_loop.mpr ⟨_, _, hloop _ (Nat.lt_succ_self _), ?_⟩,
      ⟨l', hrep, hl'.trans (hvals.mpr ⟨hnull, hlen⟩)⟩, fun hapart => hkept.other htemp hmem hapart.2⟩
    rw [int32_of_range (by omega) (by omega)]

/-- A list of two nodes or more is not merged into itself towards its tail. -/
theorem not_merges_self (hdest : RlistRep dest ld) (hld : ld.length < 4294967296) (hfresh : Fresh dest alloc 0)
    (htwo : 2 ≤ ld.length) : ¬ Merges F alloc dest ld dest ld .tail := by
  rintro ⟨fuel, dest', hrun, ⟨l', hrep, hl'⟩, -⟩
  obtain ⟨count, d, hend, heq⟩ := rlistMerge_loop.mp hrun
  obtain ⟨hcount, hd⟩ := Prod.mk.inj heq
  obtain rfl := Option.some.inj hd
  obtain ⟨l'', hrep'', hcases⟩ := mergeLoop_self (show RlistRep dest ([] ++ ld) from hdest) hld.le (by rfl)
    hdest.itRep_tail hfresh hend
  obtain rfl := hrep.unique hrep''
  have hlen : l'.length = ld.length + ld.length := by simpa [along] using congrArg List.length hl'
  unfold int32 at hcount
  dsimp only at hcases
  omega

theorem merge_iff {dir : RlistDirection} (hdest : RlistRep dest ld) (hld : ld.length < 4294967296)
    (htemp : RlistRep temp lt) (hlt : lt.length < 4294967296) (hsrc : temp = dest ∨ Apart dest ld temp lt)
    (hfresh : Fresh dest alloc 0) :
    Merges F alloc dest ld temp lt dir ↔ MergeFits dest ld temp lt dir := by
  have hmem : temp.nodes = dest.nodes := hsrc.elim (fun heq => by rw [heq]) And.left
  by_cases halias : temp = dest ∧ dir = .tail ∧ 2 ≤ lt.length
  · obtain ⟨rfl, rfl, htwo⟩ := halias
    obtain rfl := hdest.unique htemp
    exact ⟨fun h => absurd h (not_merges_self hdest hld hfresh htwo), fun h => absurd ⟨rfl, rfl, htwo⟩ h.ahead⟩
  · have hlast : dir = .tail → ∀ b ∈ ((along dir lt).map Prod.fst).tail, dest.tail ≠ some b := by
      rintro rfl b hb htail
      rcases hsrc with rfl | hapart
      · -- the same list has at most one node
        have hlen : 0 < ((lt.map Prod.fst).tail).length := List.length_pos_of_mem hb
        rw [List.length_tail, List.length_map] at hlen
        exact halias ⟨rfl, rfl, by omega⟩
      · refine hapart.2 b (List.mem_of_mem_tail hb) (List.mem_of_getLast? ?_)
        rw [← hdest.tail_eq, htail]
    rw [merges_of_walk hdest hld htemp hlt hmem hfresh hlast]
    exact ⟨fun h => ⟨h.1, h.2.1, h.2.2, halias⟩, fun h => ⟨h.vals, h.count, h.len⟩⟩

theorem clone_iff {dir : RlistDirection} (htemp : RlistRep temp lt) (hlt : lt.length < 4294967296)
    (hfresh : Fresh temp alloc 0) : Clones F alloc temp lt dir ↔ ∀ p ∈ lt, p.2 ≠ none := by
  have hempty : RlistRep (rlistCreate temp.nodes) [] := rlistCreate_rep _
  have hfresh' : Fresh (rlistCreate temp.nodes) alloc 0 := ⟨hfresh.free, hfresh.distinct⟩
  obtain ⟨dest', l', hloop, hrep, hl', hkept⟩ := merge_walk (F := F) hempty (by simp) htemp rfl hfresh' dir
    (fun _ _ _ => by simp [rlistCreate])
  have hvals : pushVals F [] ((along dir lt).map Prod.snd) = ((along dir lt).map Prod.snd).map F.newVal ↔
      ∀ p ∈ lt, p.2 ≠ none := by
    have h := pushVals_eq_iff (F := F) (l := []) ((along dir lt).map Prod.snd) (by simp)
    rw [List.nil_append] at h
    rw [h, vals_along_ne]
    simp [hlt.le]
  constructor
  · rintro ⟨fuel, dest'', hrun, ⟨l'', hrep'', hl'', -⟩, -⟩
    obtain ⟨⟨count, d⟩, hend, hret⟩ := of_bind_ok hrun
    obtain rfl := Option.some.inj (Except.ok.inj hret)
    have hsame := (mergeLoop_mono hend (Nat.le_max_left fuel (lt.length + 1))).symm.trans
      (hloop _ (Nat.lt_of_lt_of_le (Nat.lt_succ_self _) (Nat.le_max_right _ _)))
    obtain ⟨rfl, rfl⟩ := Prod.mk.inj (Except.ok.inj hsame)
    obtain rfl := hrep.unique hrep''
    exact hvals.mp (hl'.symm.trans hl'')
  · intro hnull
    refine ⟨lt.length + 1, dest', ?_, ⟨l', hrep, hl'.trans (hvals.mpr hnull), fun b hb => ?_⟩, ?_⟩
    · change Except.bind (mergeLoop F alloc _ _ _ 0) _ = _
      rw [hloop _ (Nat.lt_succ_self _)]
      rfl
    · exact valOf_eq_none.mp ((hkept.new b hb).resolve_left (by simp))
    · exact hkept.other htemp rfl (fun _ _ => by simp)

/-- For all lists, the same one or two in one memory, and both directions. -/
theorem merge_clone_iff (dir : RlistDirection) (hdest : RlistRep dest ld) (hld : ld.length < 4294967296)
    (htemp : RlistRep temp lt) (hlt : lt.length < 4294967296) (hsrc : temp = dest ∨ Apart dest ld temp lt)
    (hfresh : Fresh dest alloc 0) :
    (Merges F alloc dest ld temp lt dir ↔ MergeFits dest ld temp lt dir) ∧
      (Clones F alloc temp lt dir ↔ ∀ p ∈ lt, p.2 ≠ none) := by
  refine ⟨merge_iff hdest hld htemp hlt hsrc hfresh, clone_iff htemp hlt ⟨?_, hfresh.distinct⟩⟩
  have hmem : temp.nodes = dest.nodes := hsrc.elim (fun heq => by rw [heq]) And.left
  rw [hmem]
  exact hfresh.free

/-- A list of 5 and 6 at the addresses 0 and 1. -/
def twoNodes : Rlist Nat where
  head := some 0
  tail := some 1
  len := 2
  nodes a := if a = 0 then some ⟨none, some 1, some 5⟩ else if a = 1 then some ⟨some 0, none, some 6⟩ else none
  freed := []

theorem twoNodes_rep : RlistRep twoNodes [(0, some 5), (1, some 6)] := by
  constructor
  · exact ⟨rfl, some 1, rfl, rfl, none, rfl, rfl⟩
  · exact ⟨rfl, some 0, rfl, rfl, none, rfl, rfl⟩
  · intro p hp
    rcases List.mem_cons.mp hp with rfl | hp
    · rfl
    · rw [List.mem_singleton.mp hp]
      rfl
  · rfl

theorem twoNodes_fresh : Fresh twoNodes (fun i => some (i + 2)) 0 := by
  constructor
  · intro i _
    refine ⟨i + 2, rfl, ?_⟩
    simp [twoNodes]
  · intro i j a hi hj
    have := Option.some.inj (hi.trans hj.symm)
    omega

theorem merge_clone_iff_two :
    (Merges ⟨none, false, none⟩ (fun i => some (i + 2)) twoNodes [(0, some 5), (1, some 6)] twoNodes
        [(0, some 5), (1, some 6)] .head ↔
      MergeFits twoNodes [(0, some 5), (1, some 6)] twoNodes [(0, some 5), (1, some 6)] .head) ∧
    (Clones ⟨none, false, none⟩ (fun i => some (i + 2)) twoNodes [(0, some 5), (1, some 6)] .head ↔
      ∀ p ∈ [(0, some 5), (1, some 6)], p.2 ≠ none) :=
  merge_clone_iff .head twoNodes_rep (by decide) twoNodes_rep (by decide) (.inl rfl) twoNodes_fresh

/-- The list of 5 and 6 is not merged into itself with `rlist_dir_tail`. -/
theorem merge_never_ends : ¬ ∀ (dest : Rlist Nat) (ld : List (Nat × Option Nat)) (temp : Rlist Nat)
    (lt : List (Nat × Option Nat)) (alloc : Nat → Option Nat) (dir : RlistDirection),
    RlistRep dest ld → ld.length < 4294967296 → RlistRep temp lt → lt.length < 4294967296 →
      temp = dest ∨ Apart dest ld temp lt → Fresh dest alloc 0 →
        Merges ⟨none, false, none⟩ alloc dest ld temp lt dir := by
  intro hall
  exact not_merges_self twoNodes_rep (by decide) twoNodes_fresh (by decide)
    (hall _ _ _ _ _ .tail twoNodes_rep (by decide) twoNodes_rep (by decide) (.inl rfl) twoNodes_fresh)

end Funra
